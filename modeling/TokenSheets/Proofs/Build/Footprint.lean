import TokenSheets.Build.Step
import TokenSheets.Proofs.Store.Tree

/-!
# What a step may change

A build has one directory and a few files in it. `Step.KeepsTo` says that a step names nothing else,
and `Store.Touched` what may become of a location then, whatever else is in the store: nothing below
other directories changes, nothing in front of the directory is removed, and nothing but missing
directories is made there.

* `Step.changes_of_keepsTo`: the changes that a step can make that keeps to a directory;
* `Step.Changes.touched`: what each of them touches;
* `Step.Changes.isTree`: all of them keep the store a tree;
* `Store.TouchedBy.step`: what the steps of several builds touch, one step after another.
-/

namespace TokenSheets

/-- **A step that keeps to a directory** and to files of it that have these names. -/
inductive Step.KeepsTo (directory : Path) (files : List String) : Step → Prop
  | removeFile {file : String} (mem : file ∈ files) :
    KeepsTo directory files (.removeFile (directory.join file))
  | listDirectory : KeepsTo directory files (.listDirectory directory)
  | removeListed : KeepsTo directory files (.removeListed directory)
  | makeDirectories : KeepsTo directory files (.makeDirectories directory)
  | writeFile {file : String} (mem : file ∈ files) (text : String) :
    KeepsTo directory files (.writeFile (directory.join file) text)
  | refuse (error : SheetError) : KeepsTo directory files (.refuse error)

namespace Store

/-- **What may become of a location** when steps keep to the directory at `location`. Files are
changed, and the directory is removed, only if it can be there at all. -/
inductive Touched (location : Location) (files : List String) (before after : Store)
    (other : Location) : Prop
  | same (unchanged : after.get? other = before.get? other)
  | file (fits : ∀ name ∈ location, Fits name) {file : String} (mem : file ∈ files)
    (place : other = location ++ [file]) (wasFile : before.get? other ≠ some .directory)
    (isFile : after.get? other ≠ some .directory)
  | removed (fits : ∀ name ∈ location, Fits name) (place : other = location)
    (was : before.get? other = some .directory) (isNone : after.get? other = none)
  | made (place : other <+: location.takeWhile (Fits ·)) (was : before.get? other = none)
    (isDirectory : after.get? other = some .directory)

theorem Touched.directory_elsewhere {location : Location} {files : List String}
    {before after : Store} {other : Location} (h : Touched location files before after other)
    (hne : other ≠ location) (hdir : before.get? other = some .directory) :
    after.get? other = some .directory := by
  cases h with
  | same unchanged => rwa [unchanged]
  | file _ _ _ wasFile _ => exact absurd hdir wasFile
  | removed _ place _ _ => exact absurd place hne
  | made _ _ isDirectory => exact isDirectory

end Store

theorem tolerant_cases (store : Store) (memory : Memory) (path : Path)
    (change : Except PathFault Store) :
    (tolerant store memory path change).1 = store ∨
      change = .ok (tolerant store memory path change).1 := by
  rcases change with fault | after
  · left
    cases fault <;> rfl
  · exact .inr rfl

theorem strict_cases (store : Store) (memory : Memory) (path : Path)
    (change : Except PathFault Store) :
    (strict store memory path change).1 = store ∨
      change = .ok (strict store memory path change).1 := by
  rcases change with fault | after
  · exact .inl rfl
  · exact .inr rfl

theorem of_tolerant_eq_error {store : Store} {memory : Memory} {path : Path}
    {change : Except PathFault Store} {fault : BuildFault}
    (h : (tolerant store memory path change).2 = .error fault) :
    ∃ cause, fault = .io path cause := by
  rcases change with cause | after
  · cases cause with
    | notFound => cases h
    | _ => exact ⟨_, (Except.error.inj h).symm⟩
  · cases h

theorem of_strict_eq_error {store : Store} {memory : Memory} {path : Path}
    {change : Except PathFault Store} {fault : BuildFault}
    (h : (strict store memory path change).2 = .error fault) :
    ∃ cause, fault = .io path cause := by
  rcases change with cause | after
  · exact ⟨cause, (Except.error.inj h).symm⟩
  · cases h

/-- **Why a command counts as failed**, if it does. -/
def Completion.fault? (script : String) : Completion → Option BuildFault
  | .exited 0 => none
  | .exited code => some (.commandFailed script code)
  | .notStarted cause => some (.commandNotStarted script cause)

/-- **A fault of a command.** -/
inductive BuildFault.IsOfCommand : BuildFault → Prop
  | failed (script : String) (code : Nat) : IsOfCommand (.commandFailed script code)
  | notStarted (script cause : String) : IsOfCommand (.commandNotStarted script cause)

theorem Completion.isOfCommand_of_fault? {script : String} {completion : Completion}
    {fault : BuildFault} (h : completion.fault? script = some fault) : fault.IsOfCommand := by
  rcases completion with (_ | code) | cause
  · cases h
  · exact Option.some.inj h ▸ .failed script (code + 1)
  · exact Option.some.inj h ▸ .notStarted script cause

@[simp] theorem Completion.fault?_eq_none {script : String} {completion : Completion} :
    completion.fault? script = none ↔ completion = .exited 0 := by
  rcases completion with (_ | code) | _ <;> simp [fault?]

theorem Completion.fault?_eq_commandFailed {script script' : String} {completion : Completion}
    {code : Nat} : completion.fault? script = some (.commandFailed script' code) ↔
      script = script' ∧ completion = .exited code ∧ code ≠ 0 := by
  rcases completion with (_ | other) | _ <;> simp only [fault?, reduceCtorEq, Option.some.injEq,
    BuildFault.commandFailed.injEq, Completion.exited.injEq, false_and, and_false, false_iff]
  · omega
  · exact and_congr_right fun _ => ⟨fun h => ⟨h, by omega⟩, And.left⟩

theorem Completion.fault?_eq_commandNotStarted {script script' cause : String}
    {completion : Completion} :
    completion.fault? script = some (.commandNotStarted script' cause) ↔
      script = script' ∧ completion = .notStarted cause := by
  rcases completion with (_ | other) | _ <;> simp [fault?]

namespace Step

open Store

variable {directory : Path} {location : Location} {files : List String} {step : Step}

theorem perform_command (shell : Shell) (store : Store) (memory : Memory) (script : String) :
    (Step.command script).perform shell store memory = ((shell.run script store).1,
      match (shell.run script store).2.fault? script with
      | none => .ok memory
      | some fault => .error fault) := by
  rw [perform]
  rcases shell.run script store with ⟨after, (_ | code) | _⟩ <;> rfl

/-- **How a step fails**: the store refuses a change, the step is there to give up, or it is a
command that does. -/
theorem fault_cases {shell : Shell} {store : Store} {memory : Memory} {fault : BuildFault}
    (h : (step.perform shell store memory).2 = .error fault) :
    (∃ path cause, fault = .io path cause) ∨
      (∃ error, step = .refuse error ∧ fault = .sheet error) ∨
      ∃ script, step = .command script ∧
        (shell.run script store).2.fault? script = some fault := by
  cases step with
  | removeFile path => exact .inl ⟨path, of_tolerant_eq_error h⟩
  | listDirectory path =>
    rw [perform] at h
    rcases hfound : store.directory path with cause | location
    · cases cause <;> simp_all [eq_comm]
    · simp [hfound] at h
  | removeListed path =>
    rw [perform] at h
    split_ifs at h
    exact .inl ⟨path, of_strict_eq_error h⟩
  | makeDirectories path =>
    rw [perform] at h
    rcases hmake : store.makeDirectories path with ⟨made, _ | cause⟩
    · simp [hmake] at h
    · rw [hmake] at h
      exact .inl ⟨path, cause, (Except.error.inj h).symm⟩
  | writeFile path text => exact .inl ⟨path, of_strict_eq_error h⟩
  | refuse error => exact .inr (.inl ⟨error, rfl, (Except.error.inj h).symm⟩)
  | command script =>
    rw [perform_command] at h
    refine .inr (.inr ⟨script, rfl, ?_⟩)
    rcases hfault : (shell.run script store).2.fault? script with _ | cause
    · simp [hfault] at h
    · rw [hfault] at h
      rw [Except.error.inj h]

theorem perform_makeDirectories (shell : Shell) (store : Store) (memory : Memory) (path : Path) :
    ((Step.makeDirectories path).perform shell store memory).1 =
      (store.makeDirectories path).1 := by
  rcases h : store.makeDirectories path with ⟨after, _ | fault⟩ <;> simp [perform, h]

theorem perform_listDirectory (shell : Shell) (store : Store) (memory : Memory) (path : Path) :
    ((Step.listDirectory path).perform shell store memory).1 = store := by
  rcases h : store.directory path with fault | reached
  · cases fault <;> simp [perform, h]
  · simp [perform, h]

/-- **A change that a step makes** to what is at one location, with the reason why it can. -/
inductive Changes (location : Location) (files : List String) (store : Store) : Store → Prop
  | nothing : Changes location files store store
  | removeFile (fits : ∀ name ∈ location, Fits name) {file : String} (mem : file ∈ files)
    {content : ByteArray} (was : store.get? (location ++ [file]) = some (.file content)) :
    Changes location files store (store.remove (location ++ [file]))
  | writeFile (fits : ∀ name ∈ location, Fits name) {file : String} (mem : file ∈ files)
    (parent : store.get? location = some .directory)
    (was : store.get? (location ++ [file]) ≠ some .directory) (content : ByteArray) :
    Changes location files store (store.put (location ++ [file]) (.file content))
  | removeDirectory (fits : ∀ name ∈ location, Fits name)
    (was : store.get? location = some .directory)
    (empty : ∀ name, store.get? (location ++ [name]) = none) :
    Changes location files store (store.remove location)
  | makeAll : Changes location files store (store.makeAll [] location).1

/-- **A step that keeps to a directory** makes one of a few changes. -/
theorem changes_of_keepsTo (shell : Shell) (memory : Memory) {store : Store}
    (leads : directory.LeadsTo location)
    (leadsIn : ∀ file ∈ files, (directory.join file).LeadsTo (location ++ [file]))
    (h : step.KeepsTo directory files) :
    Changes location files store (step.perform shell store memory).1 := by
  cases h with
  | @removeFile file mem =>
    rcases tolerant_cases store memory (directory.join file)
      (store.removeFile (directory.join file)) with hsame | hok
    · rw [perform, hsame]
      exact .nothing
    · obtain ⟨fits, ⟨content, was⟩, hafter⟩ := of_removeFile (leadsIn file mem) hok
      rw [perform, hafter]
      exact .removeFile fits mem was
  | listDirectory =>
    rw [perform_listDirectory]
    exact .nothing
  | removeListed =>
    rw [perform]
    split_ifs
    · rcases strict_cases store false directory (store.removeDirectory directory) with hsame | hok
      · rw [hsame]
        exact .nothing
      · obtain ⟨fits, was, empty, hafter⟩ := of_removeDirectory leads hok
        rw [hafter]
        exact .removeDirectory fits was empty
    · exact .nothing
  | makeDirectories =>
    rw [perform_makeDirectories, makeDirectories_of_leadsTo leads]
    rcases check directory with fault | ⟨⟩
    · exact .nothing
    · exact .makeAll
  | @writeFile file mem text =>
    rcases strict_cases store memory (directory.join file)
      (store.writeFile (directory.join file) text.toUTF8) with hsame | hok
    · rw [perform, hsame]
      exact .nothing
    · obtain ⟨fits, parent, was, hafter⟩ := of_writeFile (leadsIn file mem) hok
      rw [perform, hafter]
      exact .writeFile fits mem parent was text.toUTF8
  | refuse error => exact .nothing

theorem Changes.touched {store after : Store} (h : Changes location files store after)
    (ne_nil : location ≠ []) (notUp : ".." ∉ location) (other : Location) :
    Touched location files store after other := by
  cases h with
  | nothing => exact .same rfl
  | @removeFile fits file mem content was =>
    have hafter := get?_remove_at store (by simp : location ++ [file] ≠ []) other
    by_cases hother : location ++ [file] = other
    · subst hother
      rw [if_pos rfl] at hafter
      exact .file fits mem rfl (by simp [was]) (by simp [hafter])
    · exact .same (by rw [hafter, if_neg hother])
  | @writeFile fits file mem parent was content =>
    have hafter := get?_put_at store (.file content) (by simp : location ++ [file] ≠ []) other
    by_cases hother : location ++ [file] = other
    · subst hother
      rw [if_pos rfl] at hafter
      exact .file fits mem rfl was (by simp [hafter])
    · exact .same (by rw [hafter, if_neg hother])
  | removeDirectory fits was empty =>
    have hafter := get?_remove_at store ne_nil other
    by_cases hother : location = other
    · subst hother
      rw [if_pos rfl] at hafter
      exact .removed fits rfl was hafter
    · exact .same (by rw [hafter, if_neg hother])
  | makeAll =>
    rcases get?_makeAll notUp other with hsame | ⟨place, was, is⟩
    · exact .same hsame
    · exact .made place was is

theorem Changes.isTree {store after : Store} (h : Changes location files store after)
    (tree : store.IsTree) (ne_nil : location ≠ []) (notUp : ".." ∉ location) : after.IsTree := by
  cases h with
  | nothing => exact tree
  | @removeFile fits file mem content was =>
    exact tree.remove (by simp) fun name => tree.none_below (by simp [was]) (by simp)
  | @writeFile fits file mem parent was content => exact tree.put parent was _
  | removeDirectory fits was empty => exact tree.remove ne_nil empty
  | makeAll => exact tree.makeAll notUp rfl

theorem touched_of_keepsTo (shell : Shell) (store : Store) (memory : Memory)
    (leads : directory.LeadsTo location)
    (leadsIn : ∀ file ∈ files, (directory.join file).LeadsTo (location ++ [file]))
    (h : step.KeepsTo directory files) (other : Location) :
    Touched location files store (step.perform shell store memory).1 other :=
  (changes_of_keepsTo shell memory leads leadsIn h).touched leads.ne_nil leads.points_notMem other

end Step

theorem performAll_store {P : Store → Prop} {shell : Shell} : ∀ {steps : List Step} {store : Store}
    {memory : Memory}, (∀ step ∈ steps, ∀ store memory, P store →
      P (step.perform shell store memory).1) → P store → P (performAll shell store memory steps).1
  | [], _, _, _, h => h
  | step :: rest, store, memory, keeps, h => by
    have hstep := keeps step List.mem_cons_self store memory h
    rw [performAll]
    rcases hs : step.perform shell store memory with ⟨after, fault | known⟩
    · rwa [hs] at hstep
    · rw [hs] at hstep
      exact performAll_store (fun next hnext => keeps next (List.mem_cons_of_mem _ hnext)) hstep

namespace Store

/-! ### Several builds -/

/-- **What may become of a location** when the steps of several builds keep to the directories at
`locations`. -/
inductive TouchedBy (locations : List Location) (files : List String) (before after : Store)
    (other : Location) : Prop
  | same (unchanged : after.get? other = before.get? other)
  | file {location : Location} (mem : location ∈ locations) {file : String} (memFile : file ∈ files)
    (place : other = location ++ [file]) (wasFile : before.get? other ≠ some .directory)
    (isFile : after.get? other ≠ some .directory)
  | directory (mem : other ∈ locations) (was : ∀ content, before.get? other ≠ some (.file content))
    (isNoFile : ∀ content, after.get? other ≠ some (.file content))
  | above {location : Location} (mem : location ∈ locations) (place : other <+: location)
    (was : before.get? other = none) (isDirectory : after.get? other = some .directory)

/-- **One step more** of a build that keeps to its directory. The directories are equally deep, so
none of them is in front of another or holds a file that is another. -/
theorem TouchedBy.step {locations : List Location} {files : List String} {depth : Nat}
    (deep : ∀ location ∈ locations, location.length = depth) {first before after : Store}
    {location other : Location} (h : TouchedBy locations files first before other)
    (mem : location ∈ locations) (step : Touched location files before after other) :
    TouchedBy locations files first after other := by
  have hdeep := deep location mem
  cases step with
  | same unchanged =>
    cases h with
    | same earlier => exact .same (unchanged.trans earlier)
    | file mem' memFile place was isFile => exact .file mem' memFile place was (unchanged ▸ isFile)
    | directory mem' was isNoFile => exact .directory mem' was (unchanged ▸ isNoFile)
    | above mem' place was isDirectory => exact .above mem' place was (unchanged ▸ isDirectory)
  | file _ memFile place was isFile =>
    have hother : other.length = depth + 1 := by simp [place, hdeep]
    cases h with
    | same earlier => exact .file mem memFile place (earlier ▸ was) isFile
    | file mem' memFile' place' was' _ => exact .file mem' memFile' place' was' isFile
    | directory mem' _ _ =>
      have := deep _ mem'
      omega
    | above mem' place' _ _ =>
      have := place'.length_le
      have := deep _ mem'
      omega
  | removed _ place was isNone =>
    have hother : other.length = depth := place ▸ hdeep
    cases h with
    | same earlier => exact .directory (place ▸ mem) (by simp [← earlier, was]) (by simp [isNone])
    | file mem' _ place' _ _ =>
      have := deep _ mem'
      simp [place'] at hother
      omega
    | directory mem' was' _ => exact .directory mem' was' (by simp [isNone])
    | above _ _ was' _ => exact .same (isNone.trans was'.symm)
  | made place was isDirectory =>
    have hplace : other <+: location := place.trans (List.takeWhile_prefix _)
    have hother := hplace.length_le
    cases h with
    | same earlier => exact .above mem hplace (earlier ▸ was) isDirectory
    | file mem' _ place' _ _ =>
      have := deep _ mem'
      simp [place'] at hother
      omega
    | directory mem' was' _ => exact .directory mem' was' (by simp [isDirectory])
    | above _ _ _ isDirectory' => simp [was] at isDirectory'

theorem TouchedBy.same_elsewhere {locations : List Location} {files : List String}
    {before after : Store} {other : Location} (h : TouchedBy locations files before after other)
    (notBelow : ∀ location ∈ locations, ¬ location <+: other)
    (notAbove : ∀ location ∈ locations, ¬ other <+: location) :
    after.get? other = before.get? other := by
  cases h with
  | same unchanged => exact unchanged
  | file mem _ place => exact absurd (place ▸ List.prefix_append _ _) (notBelow _ mem)
  | directory mem => exact absurd List.prefix_rfl (notBelow _ mem)
  | above mem place => exact absurd place (notAbove _ mem)

end Store

end TokenSheets
