import TokenSheets.Proofs.Namespace.Steps
import TokenSheets.Proofs.Sheet.Declarations
import TokenSheets.Proofs.Sheet.Stylesheet
import TokenSheets.Proofs.Store.Files

/-!
# What is in the files of a job

The tokens of a job are parted by their type: texts go to the script and its declarations if the
settings ask for them, all others to the style sheet. Every file takes its own part, in the order of
the tree, so nothing is lost on the way and nothing is shown twice.

* `Job.styles`, `Job.texts`: the two parts;
* `Job.files`: the files of a job, once its style sheet is written;
* `Job.of_performAll_buildSteps`: a build that succeeds leaves them behind;
* `built_files_show_every_token_once`: what is written, and what is in the store before the command.
-/

namespace TokenSheets

/-- The path and the text of a file that a step writes. -/
def Step.written? : Step → Option (Path × String)
  | .writeFile path text => some (path, text)
  | _ => none

namespace Job

variable {job : Job}

/-- **The texts of a job**, in the order of its tree. -/
def texts (job : Job) : List Placed :=
  job.tokens.flatten.filter fun placed => placed.2.kind = some "text"

/-- **All other tokens of a job**, in the order of its tree. -/
def styles (job : Job) : List Placed :=
  job.tokens.flatten.filter fun placed => ¬ placed.2.kind = some "text"

theorem texts_append_styles_perm (job : Job) :
    (job.texts ++ job.styles).Perm job.tokens.flatten := by
  have h := List.filter_append_perm (fun placed : Placed => decide (placed.2.kind = some "text"))
    job.tokens.flatten
  simpa [texts, styles] using h

variable [Name.Transliteration]

theorem filtered_text (flavor : Flavor) (job : Job) :
    (Dictionary.ofTree flavor job.tokens).filtered (some .text) = job.texts.map flavor.resolve := by
  rw [Dictionary.filtered, Dictionary.ofTree, List.filter_map]
  rfl

theorem filtered_nonText (flavor : Flavor) (job : Job) :
    (Dictionary.ofTree flavor job.tokens).filtered (some .nonText) =
      job.styles.map flavor.resolve := by
  rw [Dictionary.filtered, Dictionary.ofTree, List.filter_map, styles]
  refine congrArg _ (List.filter_congr fun placed _ => ?_)
  rw [Bool.eq_iff_iff]
  simp only [Function.comp_apply, TokenFilter.shows, Flavor.resolve, Token.isText,
    Bool.not_eq_true', decide_eq_true_iff]
  exact decide_eq_false_iff_not

/-! ### The files -/

/-- The script and its declarations, by name. -/
def textFiles (job : Job) : List (String × String) :=
  [("tokens.js", Script.render (job.texts.map Flavor.js.resolve)),
    ("tokens.d.ts", Declarations.render (job.texts.map Flavor.js.resolve))]

/-- **The files of a job** whose style sheet is `css`. -/
def files (job : Job) (css : String) : List (String × String) :=
  ("variables.css", css) :: if job.settings.text then job.textFiles else []

theorem keys_files_sublist (job : Job) (css : String) :
    (Entries.keys (job.files css)).Sublist fileNames := by
  unfold files textFiles fileNames
  split <;> simp [Entries.keys]

theorem isOrdinary_of_mem_files {css : String} {p : String × String} (h : p ∈ job.files css) :
    Path.IsOrdinary p.1 :=
  isOrdinary_of_mem_fileNames ((keys_files_sublist job css).subset (List.mem_map_of_mem h))

theorem nodup_keys_files (job : Job) (css : String) : (Entries.keys (job.files css)).Nodup :=
  List.Nodup.sublist (keys_files_sublist job css) (by decide)

theorem outputs_stylesheet (job : Job) :
    job.stylesheet.outputs job.tokens =
      (Stylesheet.render job.scale (job.styles.map Flavor.css.resolve)).map
        fun css => [(job.buildPath.join "variables.css", css)] := by
  have hformat : Format.ofName Format.stylesheet.name = .ok .stylesheet := by decide
  simp only [Platform.outputs, stylesheet, Platform.textOf, Platform.pathOf, hformat,
    filtered_nonText, List.mapM_cons, List.mapM_nil, bind, Except.bind, pure, Except.pure,
    Format.render]
  rcases Stylesheet.render job.scale (job.styles.map Flavor.css.resolve) <;> rfl

theorem outputs_script (job : Job) :
    job.script.outputs job.tokens =
      .ok (job.textFiles.map fun p => (job.buildPath.join p.1, p.2)) := by
  have hscript : Format.ofName Format.script.name = .ok .script := by decide
  have hdeclarations : Format.ofName Format.declarations.name = .ok .declarations := by decide
  simp only [Platform.outputs, script, Platform.textOf, Platform.pathOf, hscript, hdeclarations,
    filtered_text, List.mapM_cons, List.mapM_nil, bind, Except.bind, pure, Except.pure,
    Format.render]
  rfl

/-- **The building steps** of a job: it gives up, or writes its files in one or two rounds. -/
theorem buildSteps_platforms (job : Job) :
    buildSteps job.platforms job.tokens =
      (match Stylesheet.render job.scale (job.styles.map Flavor.css.resolve) with
      | .error error => [.refuse error]
      | .ok css =>
        [.makeDirectories job.buildPath, Step.write job.buildPath ("variables.css", css)]) ++
      if job.settings.text then
        .makeDirectories job.buildPath :: job.textFiles.map (Step.write job.buildPath) else [] := by
  have htext : job.script.buildSteps job.tokens =
      .makeDirectories job.buildPath :: job.textFiles.map (Step.write job.buildPath) := by
    rw [Platform.buildSteps, outputs_script]
    simp [Step.write, Function.comp_def, script]
  have hsheet : job.stylesheet.buildSteps job.tokens =
      match Stylesheet.render job.scale (job.styles.map Flavor.css.resolve) with
      | .error error => [.refuse error]
      | .ok css =>
        [.makeDirectories job.buildPath, Step.write job.buildPath ("variables.css", css)] := by
    rw [Platform.buildSteps, outputs_stylesheet]
    rcases Stylesheet.render job.scale (job.styles.map Flavor.css.resolve) <;> rfl
  rw [buildSteps, platforms, List.flatMap_cons, hsheet]
  rcases job.settings.text <;> simp [htext]

omit [Name.Transliteration] in
theorem written?_of_mem_cleanSteps {platforms : Platforms} {step : Step}
    (h : step ∈ cleanSteps platforms) : step.written? = none := by
  obtain ⟨p, -, hstep⟩ := List.mem_flatMap.mp h
  rw [Platform.cleanSteps, List.mem_append] at hstep
  rcases hstep with hstep | hstep
  · obtain ⟨file, -, rfl⟩ := List.mem_map.mp hstep
    rfl
  · rcases List.mem_pair.mp hstep with rfl | rfl <;> rfl

/-- **The files that a job writes**, once its style sheet is rendered. -/
theorem written_steps {css : String}
    (hcss : Stylesheet.render job.scale (job.styles.map Flavor.css.resolve) = .ok css) :
    job.steps.filterMap Step.written? =
      (job.files css).map fun p => (job.buildPath.join p.1, p.2) := by
  have hclean : (cleanSteps job.platforms).filterMap Step.written? = [] :=
    List.filterMap_eq_nil_iff.mpr fun step hstep => written?_of_mem_cleanSteps hstep
  have hcommand : (job.settings.script.toList.map Step.command).filterMap Step.written? = [] := by
    rcases job.settings.script <;> rfl
  rw [steps, List.filterMap_append, List.filterMap_append, hclean, hcommand, buildSteps_platforms,
    hcss, files]
  rcases job.settings.text <;> rfl

variable {shell : Shell} {store after : Store} {memory known : Memory}

omit [Name.Transliteration] in
theorem holds_of_round {held files : List (String × String)}
    (h : store.Holds job.buildPath held) (hnames : ∀ p ∈ held ++ files, Path.IsOrdinary p.1)
    (hnodup : (Entries.keys (held ++ files)).Nodup)
    (hok : performAll shell store memory
      (.makeDirectories job.buildPath :: files.map (Step.write job.buildPath)) =
        (after, .ok known)) :
    after.Holds job.buildPath (held ++ files) := by
  rw [performAll] at hok
  have hmade := h.makeDirectories (fun p hp => hnames p (by simp [hp])) job.buildPath
  rcases hmake : store.makeDirectories job.buildPath with ⟨made, _ | fault⟩
  · rw [hmake] at hmade
    simp only [Step.perform, hmake] at hok
    exact hmade.performAll_write hnames hnodup hok
  · simp only [Step.perform, hmake, Prod.mk.injEq, reduceCtorEq, and_false] at hok

/-- **A build that succeeds** has rendered its style sheet and leaves all files of the job. -/
theorem of_performAll_buildSteps
    (hok : performAll shell store memory (buildSteps job.platforms job.tokens) =
      (after, .ok known)) :
    ∃ css, Stylesheet.render job.scale (job.styles.map Flavor.css.resolve) = .ok css ∧
      after.Holds job.buildPath (job.files css) := by
  rw [buildSteps_platforms] at hok
  rcases hcss : Stylesheet.render job.scale (job.styles.map Flavor.css.resolve) with error | css
  · simp [hcss, performAll, Step.perform] at hok
  · refine ⟨css, rfl, ?_⟩
    have hnames : ∀ p ∈ job.files css, Path.IsOrdinary p.1 := fun p => isOrdinary_of_mem_files
    have hnodup := nodup_keys_files job css
    rw [hcss] at hok
    obtain ⟨middle, between, hsheet, hrest⟩ := performAll_append_eq_ok.mp hok
    have hmiddle : middle.Holds job.buildPath ([] ++ [("variables.css", css)]) :=
      holds_of_round (fun _ h => by simp at h) (fun p hp => hnames p (by
        rw [List.nil_append, List.mem_singleton] at hp
        simp [files, hp])) (by simp [Entries.keys]) hsheet
    unfold files at hnames hnodup ⊢
    split at hrest
    · rename_i htext
      rw [if_pos htext] at hnames hnodup ⊢
      exact holds_of_round hmiddle hnames hnodup hrest
    · rename_i htext
      obtain ⟨rfl, -⟩ := Prod.mk.inj hrest
      rwa [if_neg htext]

end Job

section Texts

variable [Name.Transliteration]

theorem Script.line_resolve (placed : Placed) :
    line (Flavor.js.resolve placed) =
      "export const " ++ Flavor.js.name placed.1 ++ " = " ++ (Flavor.js.value placed.2).render ++
        ";" ++ placed.2.description.elim "" (" // " ++ ·) ++ "\n" := by
  unfold line Flavor.resolve
  rcases placed.2.description with _ | text <;> rfl

theorem Script.render_resolve (texts : List Placed) :
    render (texts.map Flavor.js.resolve) =
      "/**\n * Do not edit directly, this file was auto-generated.\n */\n\n" ++
        String.join (texts.map fun placed =>
          "export const " ++ Flavor.js.name placed.1 ++ " = " ++
            (Flavor.js.value placed.2).render ++ ";" ++
            placed.2.description.elim "" (" // " ++ ·) ++ "\n") := by
  have hheader : "/**\n * Do not edit directly, this file was auto-generated.\n */\n\n" =
      Sheet.generatedHeader ++ "\n" := rfl
  rw [render, List.map_map, hheader]
  exact congrArg (_ ++ String.join ·) (List.map_congr_left fun placed _ => line_resolve placed)

theorem Declarations.render_resolve (texts : List Placed) :
    render (texts.map Flavor.js.resolve) =
      "// Auto-generated type definitions, do not edit manually.\n\n" ++
        String.join (texts.map fun placed =>
          "export declare const " ++ Flavor.js.name placed.1 ++ " = " ++
            literal (Flavor.js.value placed.2) ++ ";\n") := by
  rw [render, List.map_map, header]
  exact congrArg (_ ++ String.join ·) (List.map_congr_left fun placed _ => rfl)

end Texts

theorem run_of_performAll_command {shell : Shell} {store after : Store} {memory known : Memory}
    {script : String} (h : performAll shell store memory [.command script] = (after, .ok known)) :
    shell.run script store = (after, .exited 0) := by
  rw [performAll] at h
  rcases hrun : shell.run script store with ⟨store', code | _⟩
  · rcases code with _ | code <;> simp_all [Step.perform, performAll]
  · simp [Step.perform, hrun] at h

/-- **A job that succeeds shows every token once.** Its tokens are parted into texts and others. The
style sheet shows the others, and the script and its declarations export the texts, each in the
order of the tree and with the names and values of its own flavor; without the setting for texts the
style sheet is all that is written. Both literals of a text are read as its value. What is written
is in the store when the files are done; behind that there is only the command of the job, if it has
one. -/
theorem built_files_show_every_token_once [Name.Transliteration]
    {shell : Shell} {job : Job} {store after : Store}
    {memory known : Memory} (h : performAll shell store memory job.steps = (after, .ok known)) :
    let written := job.steps.filterMap Step.written?
    ∃ css built,
      Stylesheet.Shows job.scale (job.styles.map fun placed =>
        ⟨Flavor.css.name placed.1, placed.1, Flavor.css.value placed.2, placed.2⟩) css ∧
      (job.settings.text = true → written =
        [(job.buildPath.join "variables.css", css),
          (job.buildPath.join "tokens.js",
            "/**\n * Do not edit directly, this file was auto-generated.\n */\n\n" ++
              String.join (job.texts.map fun placed =>
                "export const " ++ Flavor.js.name placed.1 ++ " = " ++
                  (Flavor.js.value placed.2).render ++ ";" ++
                  placed.2.description.elim "" (" // " ++ ·) ++ "\n")),
          (job.buildPath.join "tokens.d.ts",
            "// Auto-generated type definitions, do not edit manually.\n\n" ++
              String.join (job.texts.map fun placed =>
                "export declare const " ++ Flavor.js.name placed.1 ++ " = " ++
                  Declarations.literal (Flavor.js.value placed.2) ++ ";\n"))]) ∧
      (job.settings.text = false → written = [(job.buildPath.join "variables.css", css)]) ∧
      (∀ placed ∈ job.texts, (Flavor.js.value placed.2).Fits Json.maxDepth →
        Json.read (Flavor.js.value placed.2).render = .ok (Flavor.js.value placed.2).readBack ∧
        Json.read (Declarations.literal (Flavor.js.value placed.2)) =
          .ok (Flavor.js.value placed.2).readBack) ∧
      (∀ p ∈ written, built.readText p.1 = some p.2) ∧
      (job.settings.script = none → after = built) ∧
      (∀ script, job.settings.script = some script → shell.run script built = (after, .exited 0)) ∧
      (job.texts ++ job.styles).Perm job.tokens.flatten := by
  intro written
  obtain ⟨built, between, hbuilt, hcommand⟩ := performAll_append_eq_ok.mp h
  obtain ⟨clean, between', -, hbuild⟩ := performAll_append_eq_ok.mp hbuilt
  obtain ⟨css, hcss, hholds⟩ := Job.of_performAll_buildSteps hbuild
  have hwritten : written = (job.files css).map fun p => (job.buildPath.join p.1, p.2) :=
    Job.written_steps hcss
  refine ⟨css, built, ?_, fun htext => ?_, fun htext => ?_,
    fun placed _ hfits => ⟨Json.read_render hfits, Declarations.read_literal hfits⟩,
    fun p hp => ?_, fun hscript => ?_, fun script hscript => ?_, job.texts_append_styles_perm⟩
  · exact Stylesheet.shows_of_render hcss
  · rw [hwritten, Job.files, if_pos htext, Job.textFiles, Script.render_resolve,
      Declarations.render_resolve]
    rfl
  · rw [hwritten, Job.files, if_neg (by simp [htext])]
    rfl
  · rw [hwritten] at hp
    obtain ⟨file, hfile, rfl⟩ := List.mem_map.mp hp
    exact hholds.readText hfile
  · rw [hscript] at hcommand
    exact (Prod.mk.inj hcommand).1.symm
  · rw [hscript] at hcommand
    exact run_of_performAll_command hcommand

section

attribute [local instance] Name.Transliteration.ascii

/-- A length inherits its type from the namespace and is declared; the shared text is exported. -/
theorem built_files_show_every_token_once_gap :
    let job : Job :=
      { key := "a", name := "a", buildPath := ⟨"a"⟩, settings := { text := true }, scale := {}
        subtree := { kind := some "space", children := [("gap", .token
          { plainValue := some (.text "4px") })] }
        text := ⟨[("hello", { plainValue := some (.text "Hi"), sigilKind := some "text" })]⟩ }
    let shell : Shell := ⟨fun _ store => (store, .exited 0)⟩
    ∃ after known, performAll shell .empty false job.steps = (after, .ok known) ∧
      job.styles.map Prod.fst = [["gap"]] ∧ job.texts.map Prod.fst = [["text", "hello"]] ∧
      after.readText (job.buildPath.join "tokens.d.ts") = some
        ("// Auto-generated type definitions, do not edit manually.\n\n" ++
          "export declare const TextHello = \"Hi\";\n") := by
  intro job shell
  have hisOk : (performAll shell .empty false job.steps).2.isOk := by decide +kernel
  rcases hrun : performAll shell .empty false job.steps with ⟨after, fault | known⟩
  · rw [hrun] at hisOk
    cases hisOk
  obtain ⟨css, built, -, htexts, -, -, hread, hafter, -, -⟩ :=
    built_files_show_every_token_once hrun
  refine ⟨after, known, rfl, by decide +kernel, by decide +kernel, ?_⟩
  rw [htexts rfl, ← hafter rfl] at hread
  have hdeclarations := hread _ (List.mem_cons_of_mem _ (List.mem_cons_of_mem _
    (List.mem_singleton_self _)))
  refine hdeclarations.trans ?_
  decide +kernel

end

end TokenSheets
