import TokenSheets.Build.Platform
import TokenSheets.Proofs.Build.Alone
import TokenSheets.Proofs.Store.Files
import TokenSheets.Proofs.Store.Removal

/-!
# Cleaning platforms

Cleaning takes things away and does nothing else. At the moment when something goes, it is the file
at a path of a platform, or a build path with nothing in it. Where cleaning fails, it is at a path
that is not missing; where it gets through, every file is gone, and what is left of a build path was
not empty when its turn came.

* `Step.TakesAway`: what a step removes, and what it was;
* `Taken`: the moment when steps take something away;
* `get?_performAll_of_isCleaning`, `shrinks_of_isCleaning`: what steps that clean leave;
* `Platform.of_cleanSteps_eq_ok`, `Platform.of_cleanSteps_eq_error`: the paths of one platform,
  where cleaning it gets through and where it fails;
* `Platforms.Removes`, `Platforms.get?_cleanSteps`: what cleaning several platforms leaves.
-/

namespace TokenSheets

open Store

variable {shell : Shell} {store after : Store} {memory known : Memory} {path : Path}
  {place : Location} {step : Step} {steps : List Step} {fault : BuildFault}

/-! ### Steps that clean -/

/-- **What a step takes away** from a place: the file at its path, or the directory there if
nothing is in it. -/
inductive Step.TakesAway (store : Store) : Step → Location → Prop
  | file (path : Path) {content : ByteArray}
    (was : store.get? (placeOf path.segments) = some (.file content)) :
    TakesAway store (.removeFile path) (placeOf path.segments)
  | directory (path : Path) (was : store.get? (placeOf path.segments) = some .directory)
    (empty : ∀ name, store.get? (placeOf path.segments ++ [name]) = none) :
    TakesAway store (.removeListed path) (placeOf path.segments)

theorem Step.IsCleaning.perform_cases (h : step.IsCleaning) (shell : Shell) (store : Store)
    (memory : Memory) :
    (step.perform shell store memory).1 = store ∨
      ∃ place, place ≠ [] ∧ step.TakesAway store place ∧
        (step.perform shell store memory).1 = store.remove place := by
  cases h with
  | removeFile path =>
    rcases tolerant_cases store memory path (store.removeFile path) with hsame | hok
    · exact .inl hsame
    · obtain ⟨content, was, hne, hafter, -⟩ := of_removeFile_eq_ok hok
      exact .inr ⟨_, hne, .file path was, hafter⟩
  | listDirectory path => exact .inl (perform_listDirectory ..)
  | removeListed path =>
    rw [perform]
    split_ifs
    · rcases strict_cases store false path (store.removeDirectory path) with hsame | hok
      · exact .inl hsame
      · obtain ⟨was, empty, hne, hafter, -⟩ := of_removeDirectory_eq_ok hok
        exact .inr ⟨_, hne, .directory path was empty, hafter⟩
    · exact .inl rfl

/-- **The moment when steps take something away** from a place: a store on the way, and the step
that comes next. -/
def Taken (shell : Shell) (steps : List Step) (store : Store) (memory : Memory)
    (place : Location) : Prop :=
  ∃ done step left middle between, steps = done ++ step :: left ∧
    performAll shell store memory done = (middle, .ok between) ∧ step.TakesAway middle place ∧
    (step.perform shell middle between).1 = middle.remove place

theorem Taken.cons {next : Store} {between : Memory}
    (hstep : step.perform shell store memory = (next, .ok between))
    (h : Taken shell steps next between place) :
    Taken shell (step :: steps) store memory place := by
  obtain ⟨done, other, left, middle, between', rfl, hdone, htakes, hother⟩ := h
  refine ⟨step :: done, other, left, middle, between', rfl, ?_, htakes, hother⟩
  rw [performAll, hstep]
  exact hdone

/-- **What cleaning leaves**: everything as it was, apart from what is taken away. -/
theorem get?_performAll_of_isCleaning : ∀ {steps : List Step} {store : Store} {memory : Memory},
    (∀ step ∈ steps, step.IsCleaning) → ∀ place,
      (performAll shell store memory steps).1.get? place = store.get? place ∨
        ((performAll shell store memory steps).1.get? place = none ∧
          Taken shell steps store memory place)
  | [], _, _, _, _ => .inl rfl
  | step :: rest, store, memory, cleaning, place => by
    have hrest : ∀ next ∈ rest, next.IsCleaning := fun next hnext =>
      cleaning next (List.mem_cons_of_mem _ hnext)
    have hfirst := (cleaning step List.mem_cons_self).perform_cases shell store memory
    -- what the first step leaves at the place, and when it took away what was there
    have hnext : (step.perform shell store memory).1.get? place = store.get? place ∨
        ((step.perform shell store memory).1.get? place = none ∧
          Taken shell (step :: rest) store memory place) := by
      rcases hfirst with hsame | ⟨gone, hne, htakes, hremove⟩
      · exact .inl (by rw [hsame])
      · by_cases hplace : gone = place
        · subst hplace
          refine .inr ⟨?_, [], step, rest, store, memory, rfl, rfl, htakes, hremove⟩
          rw [hremove, get?_remove_at store hne, if_pos rfl]
        · exact .inl (by rw [hremove, get?_remove_at store hne, if_neg hplace])
    rw [performAll]
    rcases hs : step.perform shell store memory with ⟨next, fault | between⟩
    · rwa [hs] at hnext
    · rw [hs] at hnext
      have hleft : (performAll shell next between rest).1.get? place = next.get? place ∨
          ((performAll shell next between rest).1.get? place = none ∧
            Taken shell rest next between place) := get?_performAll_of_isCleaning hrest place
      rcases hleft with hsame | ⟨hnone, htaken⟩
      · dsimp only
        rw [hsame]
        exact hnext
      · exact .inr ⟨hnone, htaken.cons hs⟩

theorem shrinks_of_isCleaning (cleaning : ∀ step ∈ steps, step.IsCleaning) (shell : Shell)
    (store : Store) (memory : Memory) :
    store.Shrinks (performAll shell store memory steps).1 := fun place =>
  (get?_performAll_of_isCleaning cleaning place).imp_right And.left

/-- Between the moment when something is taken away and the end, more may be taken away. -/
theorem Taken.exists_shrinks (cleaning : ∀ step ∈ steps, step.IsCleaning)
    (h : Taken shell steps store memory place) :
    ∃ step ∈ steps, ∃ middle : Store, store.Shrinks middle ∧
      middle.Shrinks (performAll shell store memory steps).1 ∧ step.TakesAway middle place := by
  obtain ⟨done, step, left, middle, between, rfl, hdone, htakes, -⟩ := h
  have hmem : step ∈ done ++ step :: left := by simp
  have hbefore : store.Shrinks (performAll shell store memory done).1 :=
    shrinks_of_isCleaning (fun next hnext => cleaning next (List.mem_append_left _ hnext)) shell
      store memory
  have hbehind : middle.Shrinks (performAll shell middle between (step :: left)).1 :=
    shrinks_of_isCleaning (fun next hnext => cleaning next (List.mem_append_right _ hnext)) shell
      middle between
  rw [hdone] at hbefore
  rw [performAll_append, hdone]
  exact ⟨step, hmem, middle, hbefore, hbehind, htakes⟩

theorem Step.IsCleaning.isTree (h : step.IsCleaning) (shell : Shell) (memory : Memory)
    (tree : store.IsTree) : (step.perform shell store memory).1.IsTree := by
  rcases h.perform_cases shell store memory with hsame | ⟨place, hne, htakes, hremove⟩
  · rwa [hsame]
  · rw [hremove]
    refine tree.remove hne fun name => ?_
    cases htakes with
    | file path was => exact tree.none_below (by simp [was]) (by simp)
    | directory path was empty => exact empty name

theorem isTree_of_isCleaning (cleaning : ∀ step ∈ steps, step.IsCleaning) (shell : Shell)
    (memory : Memory) (tree : store.IsTree) : (performAll shell store memory steps).1.IsTree :=
  performAll_store (P := IsTree)
    (fun step hstep _ memory htree => (cleaning step hstep).isTree shell memory htree) tree

/-! ### One path -/

theorem Step.perform_removeFile_cases (shell : Shell) (store : Store) (memory : Memory)
    (path : Path) :
    (∃ after, (Step.removeFile path).perform shell store memory = (after, .ok memory) ∧
        after.IsMissing path) ∨
      ((∃ cause, (Step.removeFile path).perform shell store memory =
        (store, .error (.io path cause))) ∧ ¬ store.IsMissing path) := by
  rw [perform]
  rcases hremove : store.removeFile path with fault | after
  · by_cases hmissing : store.IsMissing path
    · obtain rfl : fault = .notFound :=
        Except.error.inj (hremove.symm.trans (removeFile_eq_notFound.mpr hmissing))
      exact .inl ⟨store, rfl, hmissing⟩
    · have hfault : fault ≠ .notFound := by
        rintro rfl
        exact hmissing (removeFile_eq_notFound.mp hremove)
      refine .inr ⟨⟨fault, ?_⟩, hmissing⟩
      cases fault with
      | notFound => exact absurd rfl hfault
      | _ => rfl
  · obtain ⟨-, -, -, -, hmissing⟩ := of_removeFile_eq_ok hremove
    exact .inl ⟨after, rfl, hmissing⟩

/-- **A directory that was dealt with**: it is missing, or something is in it. -/
def Store.IsSettled (store : Store) (path : Path) : Prop :=
  store.IsMissing path ∨ ∃ place, store.directory path = .ok place ∧ store.isEmptyAt place = false

/-- The steps that remove a directory if it is empty. -/
def Step.removeIfEmpty (path : Path) : List Step := [.listDirectory path, .removeListed path]

/-- **Removing a directory if it is empty**: it is settled then, or its path is not missing and
nothing happened. -/
theorem Step.performAll_removeIfEmpty_cases (shell : Shell) (store : Store) (memory : Memory)
    (path : Path) :
    (∃ after known, performAll shell store memory (removeIfEmpty path) = (after, .ok known) ∧
        after.IsSettled path) ∨
      ((∃ cause, performAll shell store memory (removeIfEmpty path) =
        (store, .error (.io path cause))) ∧ ¬ store.IsMissing path) := by
  rcases hdirectory : store.directory path with fault | place
  · by_cases hmissing : store.IsMissing path
    · obtain rfl : fault = .notFound := Except.error.inj (hdirectory.symm.trans hmissing)
      exact .inl ⟨store, false, by simp [removeIfEmpty, performAll, perform, hdirectory],
        .inl hmissing⟩
    · refine .inr ⟨⟨fault, ?_⟩, hmissing⟩
      cases fault with
      | notFound => exact absurd hdirectory hmissing
      | _ => simp [removeIfEmpty, performAll, perform, hdirectory]
  · have hthere : ¬ store.IsMissing path := by simp [IsMissing, hdirectory]
    rcases hempty : store.isEmptyAt place with _ | _
    · exact .inl ⟨store, false, by simp [removeIfEmpty, performAll, perform, hdirectory, hempty],
        .inr ⟨place, hdirectory, hempty⟩⟩
    · rcases hremove : store.removeDirectory path with fault | after
      · exact .inr ⟨⟨fault, by simp [removeIfEmpty, performAll, perform, hdirectory, hempty,
          strict, hremove]⟩, hthere⟩
      · obtain ⟨-, -, -, -, hmissing⟩ := of_removeDirectory_eq_ok hremove
        exact .inl ⟨after, false, by simp [removeIfEmpty, performAll, perform, hdirectory, hempty,
          strict, hremove], .inl hmissing⟩

/-! ### Platforms -/

namespace Platform

/-- **The paths of a platform**: those of its files and its build path. -/
def paths (platform : Platform) : List Path :=
  platform.files.map platform.pathOf ++ [platform.buildPath]

theorem isCleaning_of_mem_cleanSteps {platform : Platform} (h : step ∈ platform.cleanSteps) :
    step.IsCleaning := by
  rw [cleanSteps, List.mem_append] at h
  rcases h with h | h
  · obtain ⟨file, -, rfl⟩ := List.mem_map.mp h
    exact .removeFile _
  · rcases List.mem_pair.mp h with rfl | rfl
    · exact .listDirectory _
    · exact .removeListed _

/-- **Where cleaning a platform fails**, it is at a path of it that is not missing. -/
theorem of_cleanSteps_eq_error {platform : Platform}
    (h : performAll shell store memory platform.cleanSteps = (after, .error fault)) :
    ∃ path ∈ platform.paths, ∃ cause, fault = .io path cause ∧ ¬ after.IsMissing path := by
  rw [cleanSteps, performAll_append_eq_error] at h
  rcases h with h | ⟨middle, between, -, h⟩
  · obtain ⟨done, step, left, middle, between, hsteps, -, hstep⟩ := performAll_eq_error.mp h
    have hmem : step ∈ platform.files.map fun file => .removeFile (platform.pathOf file) := by
      simp [hsteps]
    obtain ⟨file, hfile, rfl⟩ := List.mem_map.mp hmem
    have hpath : platform.pathOf file ∈ platform.paths :=
      List.mem_append_left _ (List.mem_map_of_mem hfile)
    rcases Step.perform_removeFile_cases shell middle between (platform.pathOf file) with
      ⟨next, hok, -⟩ | ⟨⟨cause, herror⟩, hthere⟩
    · simp [hok] at hstep
    · rw [herror] at hstep
      cases hstep
      exact ⟨_, hpath, cause, rfl, hthere⟩
  · have hpath : platform.buildPath ∈ platform.paths := List.mem_append_right _ List.mem_cons_self
    rcases Step.performAll_removeIfEmpty_cases shell middle between platform.buildPath with
      ⟨next, known, hok, -⟩ | ⟨⟨cause, herror⟩, hthere⟩
    · rw [Step.removeIfEmpty] at hok
      simp [hok] at h
    · rw [Step.removeIfEmpty] at herror
      rw [herror] at h
      cases h
      exact ⟨_, hpath, cause, rfl, hthere⟩

/-- **Where cleaning a platform gets through**, its files are gone and its build path is settled. -/
theorem of_cleanSteps_eq_ok {platform : Platform}
    (h : performAll shell store memory platform.cleanSteps = (after, .ok known)) :
    (∀ file ∈ platform.files, after.IsMissing (platform.pathOf file)) ∧
      after.IsSettled platform.buildPath := by
  have hcleaning : ∀ step ∈ platform.cleanSteps, step.IsCleaning := fun _ =>
    isCleaning_of_mem_cleanSteps
  constructor
  · intro file hfile
    have hmem : Step.removeFile (platform.pathOf file) ∈ platform.cleanSteps :=
      List.mem_append_left _ (List.mem_map_of_mem hfile)
    obtain ⟨done, left, hsteps⟩ := List.append_of_mem hmem
    rw [hsteps] at h hcleaning
    obtain ⟨middle, between, next, between', -, hstep, hleft⟩ := performAll_step_eq_ok.mp h
    have hshrinks : next.Shrinks (performAll shell next between' left).1 :=
      shrinks_of_isCleaning (fun step hstep => hcleaning step (by simp [hstep])) shell next between'
    rw [hleft] at hshrinks
    rcases Step.perform_removeFile_cases shell middle between (platform.pathOf file) with
      ⟨removed, hok, hmissing⟩ | ⟨⟨cause, herror⟩, -⟩
    · obtain rfl : removed = next := (Prod.mk.inj (hok.symm.trans hstep)).1
      exact hshrinks.isMissing hmissing
    · simp [herror] at hstep
  · rw [cleanSteps] at h
    obtain ⟨middle, between, -, hpair⟩ := performAll_append_eq_ok.mp h
    rcases Step.performAll_removeIfEmpty_cases shell middle between platform.buildPath with
      ⟨next, known', hok, hsettled⟩ | ⟨⟨cause, herror⟩, -⟩
    · obtain rfl : next = after := (Prod.mk.inj (hok.symm.trans hpair)).1
      exact hsettled
    · rw [Step.removeIfEmpty] at herror
      simp [herror] at hpair

end Platform

theorem isCleaning_of_mem_cleanSteps {platforms : Platforms} (h : step ∈ cleanSteps platforms) :
    step.IsCleaning := by
  obtain ⟨p, -, hstep⟩ := List.mem_flatMap.mp h
  exact Platform.isCleaning_of_mem_cleanSteps hstep

theorem shrinks_cleanSteps (shell : Shell) (store : Store) (memory : Memory)
    (platforms : Platforms) :
    store.Shrinks (performAll shell store memory (cleanSteps platforms)).1 :=
  shrinks_of_isCleaning (fun _ => isCleaning_of_mem_cleanSteps) shell store memory

namespace Platforms

/-- **A step removes what is at a place** for the sake of a platform: a file that it would write,
or its build path when nothing is in it. -/
inductive Removes (platforms : Platforms) (store : Store) : Step → Location → Prop
  | file {p : String × Platform} (mem : p ∈ platforms) {file : FileSpec}
    (memFile : file ∈ p.2.files) {content : ByteArray}
    (was : store.get? (placeOf (p.2.pathOf file).segments) = some (.file content)) :
    Removes platforms store (.removeFile (p.2.pathOf file)) (placeOf (p.2.pathOf file).segments)
  | directory {p : String × Platform} (mem : p ∈ platforms)
    (was : store.get? (placeOf p.2.buildPath.segments) = some .directory)
    (empty : ∀ name, store.get? (placeOf p.2.buildPath.segments ++ [name]) = none) :
    Removes platforms store (.removeListed p.2.buildPath) (placeOf p.2.buildPath.segments)

variable {platforms : Platforms}

theorem removes_of_takesAway (h : step ∈ cleanSteps platforms)
    (htakes : step.TakesAway store place) : platforms.Removes store step place := by
  obtain ⟨p, hp, hstep⟩ := List.mem_flatMap.mp h
  rw [Platform.cleanSteps, List.mem_append] at hstep
  cases htakes with
  | file path was =>
    rcases hstep with hstep | hstep
    · obtain ⟨file, hfile, hpath⟩ := List.mem_map.mp hstep
      obtain rfl := Step.removeFile.inj hpath
      exact .file hp hfile was
    · simp at hstep
  | directory path was empty =>
    rcases hstep with hstep | hstep
    · simp at hstep
    · obtain rfl : path = p.2.buildPath := by simpa using hstep
      exact .directory hp was empty

variable {result : Except BuildFault Memory}

/-- **What cleaning platforms leaves**: everything as it was, apart from what is removed in a store
on the way to the end. -/
theorem get?_cleanSteps
    (h : performAll shell store memory (cleanSteps platforms) = (after, result))
    (place : Location) :
    after.get? place = store.get? place ∨
      ∃ step, ∃ middle : Store, store.Shrinks middle ∧ middle.Shrinks after ∧
        platforms.Removes middle step place := by
  have hcleaning : ∀ step ∈ cleanSteps platforms, step.IsCleaning := fun _ =>
    isCleaning_of_mem_cleanSteps
  have hleft := @get?_performAll_of_isCleaning shell _ store memory hcleaning place
  rcases hleft with hsame | ⟨-, htaken⟩
  · rw [h] at hsame
    exact .inl hsame
  · obtain ⟨step, hstep, middle, hbefore, hbehind, htakes⟩ := htaken.exists_shrinks hcleaning
    rw [h] at hbehind
    exact .inr ⟨step, middle, hbefore, hbehind, removes_of_takesAway hstep htakes⟩

theorem get?_file_of_cleanSteps
    (h : performAll shell store memory (cleanSteps platforms) = (after, result))
    {content : ByteArray} (hfile : store.get? place = some (.file content))
    (other : ∀ p ∈ platforms, ∀ file ∈ p.2.files, placeOf (p.2.pathOf file).segments ≠ place) :
    after.get? place = some (.file content) := by
  rcases get?_cleanSteps h place with hsame | ⟨step, middle, hbefore, -, hremoves⟩
  · rw [hsame, hfile]
  · cases hremoves with
    | file mem memFile => exact absurd rfl (other _ mem _ memFile)
    | directory mem was => simp [hbefore.get?_eq_some was] at hfile

theorem get?_directory_of_cleanSteps
    (h : performAll shell store memory (cleanSteps platforms) = (after, result))
    (hthere : store.get? place = some .directory)
    (other : (∀ p ∈ platforms, placeOf p.2.buildPath.segments ≠ place) ∨
      ∃ name, after.get? (place ++ [name]) ≠ none) :
    after.get? place = some .directory := by
  rcases get?_cleanSteps h place with hsame | ⟨step, middle, hbefore, hbehind, hremoves⟩
  · rw [hsame, hthere]
  · cases hremoves with
    | file mem memFile was => simp [hbefore.get?_eq_some was] at hthere
    | directory mem was empty =>
      rcases other with other | ⟨name, hname⟩
      · exact absurd rfl (other _ mem)
      · exact absurd (hbehind.get?_eq_none (empty name)) hname

/-- **Where cleaning fails**, it is at a path of a platform that is not missing. -/
theorem of_cleanSteps_eq_error
    (h : performAll shell store memory (cleanSteps platforms) = (after, .error fault)) :
    ∃ p ∈ platforms, ∃ path ∈ p.2.paths, ∃ cause, fault = .io path cause ∧
      ¬ after.IsMissing path := by
  obtain ⟨earlier, p, later, middle, between, rfl, -, herror⟩ := performAll_flatMap_eq_error.mp h
  have hp : p ∈ earlier ++ p :: later := by simp
  exact ⟨p, hp, Platform.of_cleanSteps_eq_error herror⟩

end Platforms

/-- **Cleaning takes away files of the platforms and build paths that are empty at that moment**,
whether it gets through or fails. All other files stay, all other directories, and every directory
in which something is left. It fails only at a path of a platform that is not missing. -/
theorem cleaning_takes_away_files_and_empty_build_paths (shell : Shell) (platforms : Platforms)
    (store : Store) (memory : Memory) :
    ∃ after result, performAll shell store memory (cleanSteps platforms) = (after, result) ∧
      (∀ place, after.get? place = store.get? place ∨
        (after.get? place = none ∧ ∃ done step left middle between,
          cleanSteps platforms = done ++ step :: left ∧
          performAll shell store memory done = (middle, .ok between) ∧
          platforms.Removes middle step place ∧
          (step.perform shell middle between).1 = middle.remove place)) ∧
      (∀ place content, store.get? place = some (.file content) →
        (∀ p ∈ platforms, ∀ file ∈ p.2.files, placeOf (p.2.pathOf file).segments ≠ place) →
        after.get? place = some (.file content)) ∧
      (∀ place, store.get? place = some .directory →
        ((∀ p ∈ platforms, placeOf p.2.buildPath.segments ≠ place) ∨
          ∃ name, after.get? (place ++ [name]) ≠ none) →
        after.get? place = some .directory) ∧
      (store.IsTree → after.IsTree) ∧
      ∀ fault, result = .error fault → ∃ p ∈ platforms, ∃ path ∈ p.2.paths,
        ∃ cause, fault = .io path cause ∧ ¬ store.IsMissing path ∧ ¬ after.IsMissing path := by
  have hcleaning : ∀ step ∈ cleanSteps platforms, step.IsCleaning := fun _ =>
    isCleaning_of_mem_cleanSteps
  have hleft := @get?_performAll_of_isCleaning shell _ store memory hcleaning
  have htree := @isTree_of_isCleaning store _ hcleaning shell memory
  have hshrinks := shrinks_cleanSteps shell store memory platforms
  rcases hrun : performAll shell store memory (cleanSteps platforms) with ⟨after, result⟩
  rw [hrun] at hleft htree hshrinks
  refine ⟨after, result, rfl, fun place => ?_,
    fun _ _ hfile other => Platforms.get?_file_of_cleanSteps hrun hfile other,
    fun _ hthere other => Platforms.get?_directory_of_cleanSteps hrun hthere other, htree, ?_⟩
  · rcases hleft place with hsame | ⟨hnone, done, step, left, middle, between, hsteps, htaken⟩
    · exact .inl hsame
    · obtain ⟨hdone, htakes, hstep⟩ := htaken
      have hmem : step ∈ cleanSteps platforms := by simp [hsteps]
      exact .inr ⟨hnone, done, step, left, middle, between, hsteps, hdone,
        Platforms.removes_of_takesAway hmem htakes, hstep⟩
  · rintro fault rfl
    obtain ⟨p, hp, path, hpath, cause, rfl, hthere⟩ := Platforms.of_cleanSteps_eq_error hrun
    have hbefore : ¬ store.IsMissing path := fun hmissing => hthere (hshrinks.isMissing hmissing)
    exact ⟨p, hp, path, hpath, cause, rfl, hbefore, hthere⟩

/-- **A file in the way is an error**, though the file to be removed is missing. -/
theorem cleaning_fails_below_a_file :
    let file : FileSpec := { destination := "x/a.css", format := "css/variables-units" }
    let platform : Platform :=
      { flavor := .css, buildPath := ⟨"out"⟩, files := [file], scale := {} }
    let store : Store := ⟨[(["out"], .directory), (["out", "x"], .file ByteArray.empty)]⟩
    let shell : Shell := ⟨fun _ store => (store, .exited 0)⟩
    store.IsTree ∧ store.isThere (platform.pathOf file) = false ∧
      (performAll shell store false (cleanSteps [("a", platform)])).2 =
        .error (.io (platform.pathOf file) .notDirectory) := by
  intro file platform store shell
  have htree : store.IsTree := isTree_of_keys (by decide)
  exact ⟨htree, by decide, by decide⟩

end TokenSheets
