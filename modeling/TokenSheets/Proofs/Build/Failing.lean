import TokenSheets.Proofs.Build.Writing

/-!
# Builds that fail

All files of a platform are rendered before anything of it is written. So a build that fails has
done all that belongs to the platforms in front, and of the platform that it fails at nothing, if a
file cannot be rendered, or exactly the steps in front of the one that the store refuses.

* `Platform.Renders`: all files can be rendered; `Platform.Unrenderable`: why one of them cannot;
* `Platform.FailsWith`: the three ways in which one platform fails;
* `Platform.performAll_buildSteps_eq_error`: there is no other one;
* `building_fails_at_the_first_obstacle`: several platforms.
-/

namespace TokenSheets

open Store

/-! ### Files that cannot be rendered -/

namespace Format

theorem mem_all (format : Format) : format ∈ all := by cases format <;> simp [all]

theorem ofName_eq_ok {name : String} {format : Format} :
    ofName name = .ok format ↔ format.name = name := by
  constructor
  · intro h
    rw [ofName] at h
    rcases hfind : all.find? fun format => format.name = name with _ | found
    · simp [hfind] at h
    · rw [hfind] at h
      obtain rfl : found = format := Except.ok.inj h
      simpa using List.find?_some hfind
  · rintro rfl
    cases format <;> rfl

theorem ofName_eq_error {name : String} {error : SheetError} :
    ofName name = .error error ↔
      (∀ format : Format, format.name ≠ name) ∧ error = .unknownFormat name := by
  rw [ofName]
  rcases hfind : all.find? fun format => format.name = name with _ | found
  · have hunknown : ∀ format : Format, format.name ≠ name := fun format =>
      of_decide_eq_false (by simpa using List.find?_eq_none.mp hfind format (mem_all format))
    rw [hfind, and_iff_right hunknown, Except.error.injEq, eq_comm]
  · have hfound : found.name = name := by simpa using List.find?_some hfind
    rw [hfind]
    exact iff_of_false (by simp) fun h => h.1 found hfound

end Format

section Platforms

variable [Name.Transliteration] {shell : Shell} {store after : Store} {memory known : Memory}
  {tree : Tree} {fault : BuildFault}

namespace Platform

/-- **Why a file cannot be rendered**: no format has its name, or it is a style sheet, and the first
broken one of the tokens that it shows is this one. -/
inductive Unrenderable (platform : Platform) (tree : Tree) (file : FileSpec) : SheetError → Prop
  | format (unknown : ∀ format : Format, format.name ≠ file.format) :
    Unrenderable platform tree file (.unknownFormat file.format)
  | dimension (sheet : file.format = "css/variables-units") {front behind : Dictionary}
    {entry : ResolvedToken} {text : String}
    (split : (Dictionary.ofTree platform.flavor tree).filtered file.filter =
      front ++ entry :: behind)
    (sound : ∀ earlier ∈ front, ¬ Stylesheet.IsBroken earlier.value)
    (value : entry.value = .text text) (broken : Dimension.Broken text) :
    Unrenderable platform tree file (.inToken entry.name (.malformed text))

theorem textOf_eq_error {platform : Platform} {file : FileSpec} {error : SheetError} :
    platform.textOf (Dictionary.ofTree platform.flavor tree) file = .error error ↔
      platform.Unrenderable tree file error := by
  constructor
  · intro h
    rw [textOf] at h
    rcases hformat : Format.ofName file.format with unknown | format
    · obtain rfl : unknown = error := by simpa [hformat, bind, Except.bind] using h
      obtain ⟨hunknown, rfl⟩ := Format.ofName_eq_error.mp hformat
      exact .format hunknown
    · have hname := Format.ofName_eq_ok.mp hformat
      simp only [hformat, bind, Except.bind] at h
      cases format with
      | stylesheet =>
        obtain ⟨front, entry, behind, text, hsplit, hsound, hvalue, hbroken, rfl⟩ :=
          Stylesheet.render_eq_error.mp h
        exact .dimension hname.symm hsplit hsound hvalue hbroken
      | declarations => cases h
      | script => cases h
  · intro h
    cases h with
    | format unknown =>
      rw [textOf, Format.ofName_eq_error.mpr ⟨unknown, rfl⟩]
      rfl
    | dimension sheet split sound value broken =>
      have hformat : Format.ofName file.format = .ok .stylesheet :=
        Format.ofName_eq_ok.mpr sheet.symm
      rw [textOf, hformat]
      exact Stylesheet.render_eq_error.mpr ⟨_, _, _, _, split, sound, value, broken, rfl⟩

/-! ### One platform -/

/-- **All files of a platform can be rendered.** -/
def Renders (platform : Platform) (tree : Tree) : Prop :=
  ∀ file ∈ platform.files, ∃ text,
    platform.textOf (Dictionary.ofTree platform.flavor tree) file = .ok text

theorem renders_iff {platform : Platform} :
    platform.Renders tree ↔ ∃ outputs, platform.outputs tree = .ok outputs := by
  rw [outputs_eq, exists_mapM_eq_ok]
  refine forall₂_congr fun file _ => ⟨fun ⟨text, htext⟩ => ?_, fun ⟨output, houtput⟩ => ?_⟩
  · exact ⟨(platform.pathOf file, text), outputOf_eq_ok.mpr ⟨rfl, htext⟩⟩
  · exact ⟨output.2, (outputOf_eq_ok.mp houtput).2⟩

/-- **A file that cannot be rendered**, behind others that can. -/
structure BreaksAt (platform : Platform) (tree : Tree) (front : List FileSpec) (file : FileSpec)
    (behind : List FileSpec) (error : SheetError) : Prop where
  split : platform.files = front ++ file :: behind
  rendered : ∀ other ∈ front, ∃ text,
    platform.textOf (Dictionary.ofTree platform.flavor tree) other = .ok text
  fails : platform.textOf (Dictionary.ofTree platform.flavor tree) file = .error error

/-- **The outputs fail** at the first file that cannot be rendered. -/
theorem outputs_eq_error {platform : Platform} {error : SheetError} :
    platform.outputs tree = .error error ↔
      ∃ front file behind, platform.BreaksAt tree front file behind error := by
  rw [outputs_eq]
  constructor
  · intro h
    obtain ⟨front, file, behind, hsplit, hfront, hfile⟩ := exists_of_mapM_eq_error h
    refine ⟨front, file, behind, hsplit, fun other hother => ?_, outputOf_eq_error.mp hfile⟩
    obtain ⟨output, houtput⟩ := hfront other hother
    exact ⟨output.2, (outputOf_eq_ok.mp houtput).2⟩
  · rintro ⟨front, file, behind, hsplit, hfront, hfile⟩
    rw [hsplit]
    refine mapM_eq_error (fun other hother => ?_) (outputOf_eq_error.mpr hfile)
    obtain ⟨text, htext⟩ := hfront other hother
    exact ⟨(platform.pathOf other, text), outputOf_eq_ok.mpr ⟨rfl, htext⟩⟩

/-- The steps that write outputs of a platform. -/
def writeSteps (platform : Platform) (outputs : List (Path × String)) : List Step :=
  .makeDirectories platform.buildPath :: outputs.map fun output => .writeFile output.1 output.2

theorem buildSteps_of_outputs {platform : Platform} {outputs : List (Path × String)}
    (h : platform.outputs tree = .ok outputs) :
    platform.buildSteps tree = platform.writeSteps outputs := by
  rw [buildSteps, h]
  rfl

/-- **How one platform fails**, and what the store is then.

A file cannot be rendered: nothing has happened. The build path cannot be made: the store is as this
step leaves it. A file cannot be written: the steps in front of this one have been taken, and no
other. -/
inductive FailsWith (shell : Shell) (platform : Platform) (tree : Tree) (store : Store)
    (memory : Memory) : Store → BuildFault → Prop
  | rendering {front : List FileSpec} {file : FileSpec} {behind : List FileSpec}
    {error : SheetError} (breaks : platform.BreaksAt tree front file behind error) :
    FailsWith shell platform tree store memory store (.sheet error)
  | directory (renders : platform.Renders tree) {after : Store} {cause : PathFault}
    (refused : store.makeDirectories platform.buildPath = (after, some cause)) :
    FailsWith shell platform tree store memory after (.io platform.buildPath cause)
  | file (renders : platform.Renders tree) {front : List FileSpec} {file : FileSpec}
    {behind : List FileSpec} (split : platform.files = front ++ file :: behind)
    {done : List (Path × String)} (outputs : front.mapM (platform.outputOf tree) = .ok done)
    {text : String}
    (rendered : platform.textOf (Dictionary.ofTree platform.flavor tree) file = .ok text)
    {after : Store} {known : Memory}
    (written : performAll shell store memory (platform.writeSteps done) = (after, .ok known))
    {cause : PathFault}
    (refused : after.writeFile (platform.pathOf file) text.toUTF8 = .error cause) :
    FailsWith shell platform tree store memory after (.io (platform.pathOf file) cause)

omit [Name.Transliteration] in
/-- **Writing outputs fails** where the directory cannot be made, or where a file cannot be
written. -/
theorem performAll_writeSteps_eq_error {platform : Platform} {outputs : List (Path × String)} :
    performAll shell store memory (platform.writeSteps outputs) = (after, .error fault) ↔
      (∃ cause, store.makeDirectories platform.buildPath = (after, some cause) ∧
        fault = .io platform.buildPath cause) ∨
      ∃ done path text left known cause, outputs = done ++ (path, text) :: left ∧
        performAll shell store memory (platform.writeSteps done) = (after, .ok known) ∧
        after.writeFile path text.toUTF8 = .error cause ∧ fault = .io path cause := by
  rw [performAll_eq_error]
  constructor
  · rintro ⟨front, step, behind, middle, between, hsteps, hfront, hstep⟩
    rcases front with _ | ⟨first, front⟩
    · obtain ⟨rfl, -⟩ := List.cons.inj hsteps
      obtain ⟨rfl, rfl⟩ : store = middle ∧ memory = between := by simpa [performAll] using hfront
      rcases hmake : store.makeDirectories platform.buildPath with ⟨made, _ | cause⟩
      · simp [Step.perform, hmake] at hstep
      · obtain ⟨rfl, rfl⟩ : made = after ∧ BuildFault.io platform.buildPath cause = fault := by
          simpa [Step.perform, hmake] using hstep
        exact .inl ⟨cause, rfl, rfl⟩
    · obtain ⟨rfl, hrest⟩ := List.cons.inj hsteps
      obtain ⟨done, rest, rfl, rfl, hbehind⟩ := List.map_eq_append_iff.mp hrest
      obtain ⟨output, left, rfl, rfl, -⟩ := List.map_eq_cons_iff.mp hbehind
      rcases hwrite : middle.writeFile output.1 output.2.toUTF8 with cause | next
      · rw [Step.perform, hwrite] at hstep
        obtain ⟨rfl, rfl⟩ : middle = after ∧ BuildFault.io output.1 cause = fault := by
          simpa [strict] using hstep
        exact .inr ⟨done, output.1, output.2, left, between, cause, rfl, hfront, hwrite, rfl⟩
      · rw [Step.perform, hwrite] at hstep
        simp [strict] at hstep
  · rintro (⟨cause, hmake, rfl⟩ | ⟨done, path, text, left, known, cause, rfl, hdone, hwrite, rfl⟩)
    · refine ⟨[], _, _, store, memory, rfl, rfl, ?_⟩
      rw [Step.perform, hmake]
    · refine ⟨platform.writeSteps done, .writeFile path text,
        left.map fun output => .writeFile output.1 output.2, after, known, ?_, hdone, ?_⟩
      · simp [writeSteps]
      · rw [Step.perform, hwrite]
        rfl

/-- **How a platform fails**: in one of the three ways. -/
theorem performAll_buildSteps_eq_error {platform : Platform} :
    performAll shell store memory (platform.buildSteps tree) = (after, .error fault) ↔
      platform.FailsWith shell tree store memory after fault := by
  constructor
  · intro h
    rcases houtputs : platform.outputs tree with error | outputs
    · obtain ⟨front, file, behind, hbreaks⟩ := outputs_eq_error.mp houtputs
      obtain ⟨rfl, rfl⟩ : store = after ∧ BuildFault.sheet error = fault := by
        simpa [buildSteps, houtputs, performAll, Step.perform] using h
      exact .rendering hbreaks
    · have hrenders : platform.Renders tree := renders_iff.mpr ⟨outputs, houtputs⟩
      rw [buildSteps_of_outputs houtputs, performAll_writeSteps_eq_error] at h
      rcases h with ⟨cause, hmake, rfl⟩ |
        ⟨done, path, text, left, between, cause, rfl, hdone, hwrite, rfl⟩
      · exact .directory hrenders hmake
      · obtain ⟨front, file, behind, hsplit, hfront, hfile, -⟩ := mapM_eq_ok_append.mp houtputs
        obtain ⟨rfl, htext⟩ := outputOf_eq_ok.mp hfile
        exact .file hrenders hsplit hfront htext hdone hwrite
  · intro h
    cases h with
    | rendering breaks =>
      have houtputs := outputs_eq_error.mpr ⟨_, _, _, breaks⟩
      rw [buildSteps, houtputs]
      rfl
    | directory renders refused =>
      obtain ⟨outputs, houtputs⟩ := renders_iff.mp renders
      rw [buildSteps_of_outputs houtputs, performAll_writeSteps_eq_error]
      exact .inl ⟨_, refused, rfl⟩
    | @file renders front file behind split done hdone text rendered _ known written cause hwrite =>
      obtain ⟨left, hleft⟩ : ∃ left, behind.mapM (platform.outputOf tree) = .ok left := by
        refine exists_mapM_eq_ok.mpr fun other hother => ?_
        obtain ⟨shown, hshown⟩ := renders other (by simp [split, hother])
        exact ⟨(platform.pathOf other, shown), outputOf_eq_ok.mpr ⟨rfl, hshown⟩⟩
      have hfile : platform.outputOf tree file = .ok (platform.pathOf file, text) :=
        outputOf_eq_ok.mpr ⟨rfl, rendered⟩
      have houtputs : platform.outputs tree = .ok (done ++ (platform.pathOf file, text) :: left) :=
        mapM_eq_ok_append.mpr ⟨front, file, behind, split, hdone, hfile, hleft⟩
      rw [buildSteps_of_outputs houtputs, performAll_writeSteps_eq_error]
      exact .inr ⟨done, platform.pathOf file, text, left, known, cause, rfl, written, hwrite, rfl⟩

theorem renders_of_buildSteps {platform : Platform}
    (h : performAll shell store memory (platform.buildSteps tree) = (after, .ok known)) :
    platform.Renders tree := by
  rcases houtputs : platform.outputs tree with error | outputs
  · simp [buildSteps, houtputs, performAll, Step.perform] at h
  · exact renders_iff.mpr ⟨outputs, houtputs⟩

end Platform

theorem renders_of_buildSteps {platforms : Platforms}
    (h : performAll shell store memory (buildSteps platforms tree) = (after, .ok known)) :
    ∀ p ∈ platforms, p.2.Renders tree := by
  intro p hp
  obtain ⟨earlier, later, rfl⟩ := List.append_of_mem hp
  rw [buildSteps, List.flatMap_append, List.flatMap_cons] at h
  obtain ⟨middle, between, -, hrest⟩ := performAll_append_eq_ok.mp h
  obtain ⟨next, between', hplatform, -⟩ := performAll_append_eq_ok.mp hrest
  exact p.2.renders_of_buildSteps hplatform

/-- **A build fails at the first obstacle.** One platform fails by itself, once all platforms in
front of it are built: their files can be rendered and are written, and nothing is done for the
platforms behind it. A build that gets through has rendered the files of all platforms. A file
cannot be rendered if its format is unknown, or if it is a style sheet of a broken dimension. -/
theorem building_fails_at_the_first_obstacle (shell : Shell) (tree : Tree) (platforms : Platforms)
    (store : Store) (memory : Memory) :
    (∀ after fault,
      performAll shell store memory (buildSteps platforms tree) = (after, .error fault) ↔
        ∃ earlier p later middle between, platforms = earlier ++ p :: later ∧
          performAll shell store memory (buildSteps earlier tree) = (middle, .ok between) ∧
          (∀ q ∈ earlier, q.2.Renders tree) ∧
          ((∀ q ∈ earlier, q.2.IsPlain) →
            Built tree (earlier.map fun q => q.2.buildPath) (Platforms.entries earlier)
              store middle) ∧
          p.2.FailsWith shell tree middle between after fault) ∧
    (∀ after known,
      performAll shell store memory (buildSteps platforms tree) = (after, .ok known) →
        ∀ p ∈ platforms, p.2.Renders tree) ∧
    ∀ (platform : Platform) file error,
      platform.textOf (Dictionary.ofTree platform.flavor tree) file = .error error ↔
        platform.Unrenderable tree file error := by
  refine ⟨fun after fault => ?_, fun after known h => renders_of_buildSteps h,
    fun platform file error => platform.textOf_eq_error⟩
  rw [buildSteps, performAll_flatMap_eq_error]
  constructor
  · rintro ⟨earlier, p, later, middle, between, rfl, hearlier, hfails⟩
    exact ⟨earlier, p, later, middle, between, rfl, hearlier, renders_of_buildSteps hearlier,
      fun plain => Built.of_buildSteps_platforms plain hearlier,
      p.2.performAll_buildSteps_eq_error.mp hfails⟩
  · rintro ⟨earlier, p, later, middle, between, rfl, hearlier, -, -, hfails⟩
    exact ⟨earlier, p, later, middle, between, rfl, hearlier,
      p.2.performAll_buildSteps_eq_error.mpr hfails⟩

end Platforms

section

attribute [local instance] Name.Transliteration.ascii

/-- A broken dimension keeps the second platform from being built, with the script in front of the
style sheet that shows it. The first one leaves the dimension out, and is built. -/
theorem building_fails_at_the_first_obstacle_dimension :
    let tree : Tree := { children := [("gap", .token (.ofValue (.text "1.2.3px") "size")),
      ("title", .token (.ofValue (.text "Hi") "text"))] }
    let platform (path : String) (files : List FileSpec) : Platform :=
      { flavor := .css, buildPath := ⟨path⟩, files, scale := {} }
    let sheet : FileSpec := { destination := "a.css", format := "css/variables-units" }
    let script : FileSpec := { destination := "a.js", format := "javascript/es6" }
    let first := platform "out" [{ script with filter := some .text }]
    let second := platform "out/late" [script, { sheet with filter := some .nonText }]
    let shell : Shell := ⟨fun _ store => (store, .exited 0)⟩
    let platforms : Platforms := [("first", first), ("second", second), ("third", first)]
    let shown := "/**\n * Do not edit directly, this file was auto-generated.\n */\n\n" ++
      "export const title = \"Hi\";\n"
    ∃ after, performAll shell .empty false (buildSteps platforms tree) =
        (after, .error (.sheet (.inToken "gap" (.malformed "1.2.3px")))) ∧
      after.get? ["out", "a.js"] = some (.file shown.toUTF8) ∧
      after.get? ["out", "late"] = none := by
  intro tree platform sheet script first second shell platforms shown
  obtain ⟨hfails, -, hunrenderable⟩ :=
    building_fails_at_the_first_obstacle shell tree platforms .empty false
  have hbreaks : second.BreaksAt tree [script] { sheet with filter := some .nonText } []
      (.inToken "gap" (.malformed "1.2.3px")) := by
    refine ⟨rfl, fun other hother => ?_, (hunrenderable _ _ _).mpr ?_⟩
    · obtain rfl := List.mem_singleton.mp hother
      exact ⟨_, rfl⟩
    · let entry := Flavor.css.resolve
        (["gap"], (Token.ofValue (.text "1.2.3px") "size").normalized)
      have hshown : (Dictionary.ofTree .css tree).filtered (some .nonText) =
          [] ++ entry :: [] := rfl
      have hvalue : entry.value = .text "1.2.3px" := rfl
      have hbroken : Dimension.Broken "1.2.3px" :=
        ⟨['1', '.', '2', '.', '3'], .px, ⟨by decide, by simp, .inl (by decide)⟩,
          fun hnumber => absurd hnumber.2 (by decide)⟩
      exact .dimension rfl hshown (by simp) hvalue hbroken
  have hwritten : (performAll shell .empty false (buildSteps [("first", first)] tree)).2.isOk ∧
      (performAll shell .empty false (buildSteps [("first", first)] tree)).1.get?
        ["out", "a.js"] = some (.file shown.toUTF8) ∧
      (performAll shell .empty false (buildSteps [("first", first)] tree)).1.get?
        ["out", "late"] = none := by decide +kernel
  rcases hfirst : performAll shell .empty false (buildSteps [("first", first)] tree) with
    ⟨after, fault | known⟩
  · rw [hfirst] at hwritten
    cases hwritten.1
  rw [hfirst] at hwritten
  exact ⟨after, (hfails _ _).mpr ⟨[("first", first)], ("second", second), [("third", first)], after,
    known, rfl, hfirst, renders_of_buildSteps hfirst,
    fun plain => Built.of_buildSteps_platforms plain hfirst, .rendering hbreaks⟩, hwritten.2⟩

end

end TokenSheets
