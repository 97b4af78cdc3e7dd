import TokenSheets.Proofs.Build.Clearing
import TokenSheets.Proofs.Namespace.Results

/-!
# Jobs whose style sheet cannot be rendered

A job gives up only at its style sheet, and the style sheet comes first: when it cannot be rendered,
the job has been cleaned and nothing is written. So what is left is what cleaning leaves.

* `performAll_eq_sheet`: where steps give up;
* `Job.performAll_steps_eq_sheet`: a job gives up once it is cleaned, if its style sheet fails;
* `Job.exists_first_broken`: the token that a style sheet fails at;
* `Job.unrendered_leaves_no_output`: what is in the store then.
-/

namespace TokenSheets

open Store

variable {shell : Shell} {store after : Store} {memory known : Memory} {error : SheetError}

/-! ### Where steps give up -/

theorem Step.perform_eq_sheet {step : Step} :
    step.perform shell store memory = (after, .error (.sheet error)) ↔
      step = .refuse error ∧ store = after := by
  constructor
  · intro h
    rcases fault_cases (congrArg Prod.snd h) with ⟨path, fault, hpath⟩ | ⟨cause, rfl, hcause⟩ |
      ⟨script, -, hfault⟩
    · cases hpath
    · obtain rfl := BuildFault.sheet.inj hcause
      exact ⟨rfl, (Prod.mk.inj h).1⟩
    · cases Completion.isOfCommand_of_fault? hfault
  · rintro ⟨rfl, rfl⟩
    rfl

/-- **Where steps give up**: at one of them, once those in front of it succeeded. -/
theorem performAll_eq_sheet {steps : List Step} :
    performAll shell store memory steps = (after, .error (.sheet error)) ↔
      ∃ done left known, steps = done ++ .refuse error :: left ∧
        performAll shell store memory done = (after, .ok known) := by
  rw [performAll_eq_error]
  constructor
  · rintro ⟨done, step, left, middle, between, hsteps, hdone, hstep⟩
    obtain ⟨rfl, rfl⟩ := Step.perform_eq_sheet.mp hstep
    exact ⟨done, left, between, hsteps, hdone⟩
  · rintro ⟨done, left, known, hsteps, hdone⟩
    exact ⟨done, .refuse error, left, after, known, hsteps, hdone,
      Step.perform_eq_sheet.mpr ⟨rfl, rfl⟩⟩

namespace Job

variable {job : Job}

/-! ### A job that gives up -/

/-- **A job gives up** once it is cleaned, if its style sheet cannot be rendered, and only then. -/
theorem performAll_steps_eq_sheet [Name.Transliteration] :
    performAll shell store memory job.steps = (after, .error (.sheet error)) ↔
      Stylesheet.render job.scale (job.styles.map Flavor.css.resolve) = .error error ∧
        ∃ known, performAll shell store memory (cleanSteps job.platforms) = (after, .ok known) := by
  have hclean : ∀ error, Step.refuse error ∉ cleanSteps job.platforms := fun error hmem => by
    cases isCleaning_of_mem_cleanSteps hmem
  rcases hrender : Stylesheet.render job.scale (job.styles.map Flavor.css.resolve) with
    cause | css
  · -- the style sheet comes first, so giving up is the first step behind cleaning
    obtain ⟨rest, hsteps⟩ : ∃ rest, job.steps = cleanSteps job.platforms ++ .refuse cause :: rest :=
      ⟨_, by rw [steps, buildSteps_platforms, hrender]; simp only [List.append_assoc]; rfl⟩
    rw [hsteps, performAll_append_eq_error]
    constructor
    · rintro (hfails | ⟨middle, between, hcleaned, hrefuse⟩)
      · obtain ⟨done, left, -, hsplit, -⟩ := performAll_eq_sheet.mp hfails
        exact absurd (by simp [hsplit]) (hclean error)
      · obtain ⟨rfl, rfl⟩ : middle = after ∧ cause = error := by
          simpa [performAll, Step.perform] using hrefuse
        exact ⟨rfl, between, hcleaned⟩
    · rintro ⟨hcause, known, hcleaned⟩
      obtain rfl := Except.error.inj hcause
      exact .inr ⟨after, known, hcleaned, rfl⟩
  · refine iff_of_false (fun hfails => ?_) (by simp)
    obtain ⟨done, left, -, hsplit, -⟩ := performAll_eq_sheet.mp hfails
    have hmem : Step.refuse error ∈ job.steps := by simp [hsplit]
    rw [steps, List.mem_append, List.mem_append] at hmem
    rcases hmem with (hmem | hmem) | hmem
    · exact hclean error hmem
    · rw [buildSteps_platforms, hrender] at hmem
      split_ifs at hmem <;> simp [Step.write] at hmem
    · simp at hmem

/-- **The token that a style sheet fails at** is the first broken one of the job. -/
theorem exists_first_broken [Name.Transliteration]
    (hrender : Stylesheet.render job.scale (job.styles.map Flavor.css.resolve) = .error error) :
    ∃ front placed behind literal, job.styles = front ++ placed :: behind ∧
      (∀ earlier ∈ front, ¬ Stylesheet.IsBroken (Flavor.css.value earlier.2)) ∧
      Flavor.css.value placed.2 = .text literal ∧ Dimension.Broken literal ∧
      error = .inToken (Flavor.css.name placed.1) (.malformed literal) := by
  have hbroken : ¬ ∀ entry ∈ job.styles.map Flavor.css.resolve,
      ¬ Stylesheet.IsBroken entry.value := by
    intro hsound
    obtain ⟨sheet, hsheet, -⟩ := @Stylesheet.exists_render job.scale _ hsound
    simp [hrender] at hsheet
  obtain ⟨front, entry, behind, literal, hsplit, hfront, hliteral, hbroken⟩ :=
    Stylesheet.exists_first_broken hbroken
  rw [hsplit, Stylesheet.render_of_broken hfront hliteral hbroken] at hrender
  obtain ⟨earlier, rest, hstyles, rfl, hrest⟩ := List.map_eq_append_iff.mp hsplit
  obtain ⟨placed, later, rfl, rfl, -⟩ := List.map_eq_cons_iff.mp hrest
  exact ⟨earlier, placed, later, literal, hstyles,
    fun other hother => hfront _ (List.mem_map_of_mem hother), hliteral, hbroken,
    (Except.error.inj hrender).symm⟩

/-! ### What is left of a job that was cleaned -/

section Cleaned

variable (hok : performAll shell store memory (cleanSteps job.platforms) = (after, .ok known))

include hok

theorem isMissing_of_cleanSteps {file : String} (hfile : file ∈ job.outputNames) :
    after.IsMissing (job.buildPath.join file) := by
  rw [← fileNames_platforms] at hfile
  obtain ⟨p, hp, spec, hspec, rfl⟩ := Platforms.mem_fileNames.mp hfile
  rw [← (of_mem_platforms hp).1]
  exact TokenSheets.isMissing_of_cleanSteps hok hp hspec

theorem isSettled_of_cleanSteps : after.IsSettled job.buildPath := by
  have ne_nil : job.platforms ≠ [] := by simp [platforms]
  obtain ⟨earlier, last, hsplit⟩ := (List.eq_nil_or_concat' job.platforms).resolve_left ne_nil
  have hlast := (of_mem_platforms (by simp [hsplit] : last ∈ job.platforms)).1
  rw [hsplit] at hok
  obtain ⟨middle, between, -, hnone, -, hsettled⟩ := exists_settled hok
  obtain ⟨rfl, -⟩ := Prod.mk.inj hnone
  exact hlast ▸ hsettled

theorem exists_other_of_isThere [Name.Transliteration]
    (hthere : after.isThere job.buildPath = true) :
    ∃ place name, after.directory job.buildPath = .ok place ∧ name ∉ job.outputNames ∧
      after.get? (place ++ [name]) ≠ none := by
  rcases isSettled_of_cleanSteps hok with hmissing | ⟨place, hdirectory, hempty⟩
  · simp [hmissing.isThere_eq] at hthere
  · rw [Bool.eq_false_iff, ne_eq, isEmptyAt_iff, not_forall] at hempty
    obtain ⟨name, hsome⟩ := hempty
    refine ⟨place, name, hdirectory, fun hmem => hsome ?_, hsome⟩
    have hordinary := isOrdinary_of_mem_fileNames (job.outputNames_subset hmem)
    rw [directory_eq] at hdirectory
    obtain ⟨-, -, hwalk⟩ := bind_eq_ok.mp hdirectory
    exact none_of_isMissing (Path.segments_join _ hordinary) hordinary.ne_points hwalk
      (isMissing_of_cleanSteps hok hmem)

theorem get?_of_cleanSteps {place : Location} (hdirectory : place ≠ placeOf job.buildPath.segments)
    (hfiles : ∀ file ∈ job.outputNames, place ≠ placeOf (job.buildPath.join file).segments) :
    after.get? place = store.get? place := by
  rcases Platforms.get?_cleanSteps hok place with hsame | ⟨step, middle, -, -, hremoves⟩
  · exact hsame
  · cases hremoves with
    | @file p mem file memFile =>
      have hfile : file.destination ∈ job.outputNames := by
        rw [← fileNames_platforms]
        exact Platforms.mem_fileNames.mpr ⟨p, mem, file, memFile, rfl⟩
      refine absurd ?_ (hfiles _ hfile)
      rw [Platform.pathOf, (of_mem_platforms mem).1]
    | @directory p mem => exact absurd (by rw [(of_mem_platforms mem).1]) hdirectory

end Cleaned

/-- **A job whose style sheet cannot be rendered** names the first token that is at fault, and
leaves no output: none of its files is there, whatever was there before, its directory only if it
holds something else, and all else is as it was. -/
theorem unrendered_leaves_no_output [Name.Transliteration]
    (h : performAll shell store memory job.steps = (after, .error (.sheet error))) :
    (∃ front placed behind literal, job.styles = front ++ placed :: behind ∧
      (∀ earlier ∈ front, ¬ Stylesheet.IsBroken (Flavor.css.value earlier.2)) ∧
      Flavor.css.value placed.2 = .text literal ∧ Dimension.Broken literal ∧
      error = .inToken (Flavor.css.name placed.1) (.malformed literal)) ∧
    (∀ file ∈ job.outputNames, after.isThere (job.buildPath.join file) = false) ∧
    (after.isThere job.buildPath = true → ∃ place name, after.directory job.buildPath = .ok place ∧
      name ∉ job.outputNames ∧ after.get? (place ++ [name]) ≠ none) ∧
    ∀ place, place ≠ placeOf job.buildPath.segments →
      (∀ file ∈ job.outputNames, place ≠ placeOf (job.buildPath.join file).segments) →
      after.get? place = store.get? place := by
  obtain ⟨hrender, known, hcleaned⟩ := performAll_steps_eq_sheet.mp h
  exact ⟨exists_first_broken hrender,
    fun file hfile => (isMissing_of_cleanSteps hcleaned hfile).isThere_eq,
    exists_other_of_isThere hcleaned, fun place => get?_of_cleanSteps hcleaned⟩

section

attribute [local instance] Name.Transliteration.ascii

/-- A length with two points: the script of an earlier run is gone, and a file of another name
stays, so the directory does too. -/
theorem unrendered_leaves_no_output_gap :
    let job : Job :=
      { key := "a", name := "a", buildPath := ⟨"dist/a"⟩, scale := {}
        settings := { text := true, script := some "echo" }
        subtree := { kind := some "space", children := [("gap", .token
          { plainValue := some (.text "1.2.3px") })] }
        text := ⟨[]⟩ }
    let store : Store := ⟨[(["dist"], .directory), (["dist", "a"], .directory),
      (["dist", "a", "tokens.js"], .file ByteArray.empty),
      (["dist", "a", "notes"], .file ByteArray.empty)]⟩
    let shell : Shell := ⟨fun _ store => (store, .exited 0)⟩
    ∃ after, performAll shell store false job.steps =
        (after, .error (.sheet (.inToken "gap" (.malformed "1.2.3px")))) ∧
      after.isThere ⟨"dist/a/tokens.js"⟩ = false ∧
      after.get? ["dist", "a", "notes"] = some (.file ByteArray.empty) := by
  intro job store shell
  have hfault : (performAll shell store false job.steps).2 =
      .error (.sheet (.inToken "gap" (.malformed "1.2.3px"))) := by decide +kernel
  rcases hrun : performAll shell store false job.steps with ⟨after, outcome⟩
  rw [hrun] at hfault
  obtain rfl : outcome = _ := hfault
  obtain ⟨-, hfiles, -, helsewhere⟩ := unrendered_leaves_no_output hrun
  have hpath : job.buildPath.join "tokens.js" = ⟨"dist/a/tokens.js"⟩ := by decide
  have hother : ["dist", "a", "notes"] ≠ placeOf job.buildPath.segments ∧
      ∀ file ∈ job.outputNames,
        ["dist", "a", "notes"] ≠ placeOf (job.buildPath.join file).segments := by decide
  refine ⟨after, rfl, hpath ▸ hfiles "tokens.js" (by decide), ?_⟩
  rw [helsewhere _ hother.1 hother.2]
  rfl

end

end Job

end TokenSheets
