import TokenSheets.Proofs.Build.Likeness
import TokenSheets.Proofs.Build.Turns
import TokenSheets.Proofs.Store.Removal

/-!
# Runs that look into no file

In two stores in which files stand where files stand, and directories where directories do, every
path is looked up alike, wherever it leads. So every step comes to the same in both, except for
commands: a command may look into files. Along a schedule the tasks go the same way, and in the end
the stores hold the same everywhere, or what they held before.

* `Store.locate_of_looksLike`: lookups in stores that look alike;
* `Shell.Overlooks`: a command that does not tell the stores apart;
* `Step.perform_of_alike`, `follow_of_alike`: one step, and the steps that a schedule names;
* `along_of_alike`: whole runs.
-/

namespace TokenSheets

open Store

variable {now now' start start' : Store} {path : Path}

namespace Store

/-! ### Lookups -/

theorem LooksLike.everywhere (looks : LooksLike [] now now') (location : Location) :
    LooksLike location now now' :=
  fun other _ => looks other (.inr List.nil_prefix)

theorem LooksLike.sameKind (looks : LooksLike [] now now') (location : Location) :
    SameKind (now.get? location) (now'.get? location) :=
  looks location (.inr List.nil_prefix)

theorem enter_of_looksLike (looks : LooksLike [] now now') (location : Location) (name : String) :
    now'.enter location name = now.enter location name := by
  by_cases hup : name = ".."
  · subst hup
    rfl
  · rw [enter_eq hup, enter_eq hup]
    rcases (looks.sameKind (location ++ [name])).cases with
      ⟨h, h'⟩ | ⟨h, h'⟩ | ⟨_, _, h, h'⟩ <;> rw [h, h']

/-- **Walks** end alike, also those that lead up. -/
theorem walk_of_looksLike_root (looks : LooksLike [] now now') : ∀ (names : List String)
    (location : Location), now'.walk location names = now.walk location names
  | [], _ => rfl
  | name :: rest, location => by
    rw [walk, walk, enter_of_looksLike looks]
    rcases now.enter location name with fault | next
    · rfl
    · exact walk_of_looksLike_root looks rest next

/-- **What a path means** is the same. -/
theorem locate_of_looksLike (looks : LooksLike [] now now') (path : Path) :
    now'.locate path = now.locate path := by
  unfold locate
  simp only [walk_of_looksLike_root looks]

theorem directory_of_looksLike (looks : LooksLike [] now now') (path : Path) :
    now'.directory path = now.directory path := by
  rw [directory_eq, directory_eq, walk_of_looksLike_root looks]

/-! ### Changes -/

theorem removeFile_of_alike (looks : LooksLike [] now now') (path : Path) :
    SameChange now now' (now.removeFile path) (now'.removeFile path) := by
  have hlocate' := locate_of_looksLike looks path
  rcases hlocate : now.locate path with fault | location | ⟨location, name⟩ <;>
    rw [hlocate] at hlocate'
  · rw [removeFile, removeFile, hlocate, hlocate']
    exact .fault fault
  · rw [removeFile, removeFile, hlocate, hlocate']
    exact .fault .isDirectory
  · rw [removeFile_of_child hlocate, removeFile_of_child hlocate']
    rcases (looks.sameKind (location ++ [name])).cases with ⟨h, h'⟩ | ⟨h, h'⟩ | ⟨_, _, h, h'⟩
    · rw [h, h']
      exact .fault .notFound
    · rw [h, h']
      exact .fault .isDirectory
    · rw [h, h']
      dsimp only
      split_ifs
      · exact .fault .notDirectory
      · exact .remove (by simp)

theorem removeDirectory_of_alike (looks : LooksLike [] now now') (path : Path) :
    SameChange now now' (now.removeDirectory path) (now'.removeDirectory path) := by
  have hlocate' := locate_of_looksLike looks path
  rcases hlocate : now.locate path with fault | location | ⟨location, name⟩ <;>
    rw [hlocate] at hlocate'
  · rw [removeDirectory, removeDirectory, hlocate, hlocate']
    exact .fault fault
  · rw [removeDirectory, removeDirectory, hlocate, hlocate']
    exact .fault (if path.segments = [] then .invalidArgument else .notEmpty)
  · rw [removeDirectory_of_child hlocate, removeDirectory_of_child hlocate',
      enter_of_looksLike looks]
    obtain ⟨-, -, hup, -, -⟩ := of_locate_eq_child hlocate
    rcases henter : now.enter location name with fault | place
    · exact .fault fault
    · obtain ⟨-, -, rfl⟩ := (enter_eq_ok hup).mp henter
      simp only [Except.bind, (looks.everywhere (location ++ [name])).isEmptyAt]
      split_ifs
      · exact .fault .invalidArgument
      · exact .remove (by simp)
      · exact .fault .notEmpty

theorem writeFile_of_alike (looks : LooksLike [] now now') (path : Path) (content : ByteArray) :
    SameChange now now' (now.writeFile path content) (now'.writeFile path content) := by
  unfold writeFile
  rw [locate_of_looksLike looks]
  rcases now.locate path with fault | location | ⟨location, name⟩
  · exact .fault fault
  · exact .fault .isDirectory
  · simp only [bind, Except.bind]
    rcases (looks.sameKind (location ++ [name])).cases with ⟨h, h'⟩ | ⟨h, h'⟩ | ⟨_, _, h, h'⟩
    · rw [h, h']
      split_ifs
      · exact .fault (unwritable path none)
      · exact .put (by simp) _
    · rw [h, h']
      exact .fault .isDirectory
    · rw [h, h']
      split_ifs
      · exact .fault (unwritable path (some (.file content)))
      · exact .put (by simp) _

end Store

/-! ### Twin stores -/

theorem Twins.makeAll_root : ∀ {now now' : Store}, Twins [] start start' now now' →
    ∀ (names : List String) (location : Location),
      (now.makeAll location names).2 = (now'.makeAll location names).2 ∧
        Twins [] start start' (now.makeAll location names).1 (now'.makeAll location names).1
  | _, _, twins, [], _ => ⟨rfl, twins⟩
  | now, now', twins, name :: rest, location => by
    rw [Store.makeAll, Store.makeAll, enter_of_looksLike twins.looks]
    rcases now.enter location name with fault | next
    · cases fault with
      | notFound => exact makeAll_root (twins.put (by simp) .directory) rest _
      | _ => exact ⟨rfl, twins⟩
    · exact makeAll_root twins rest next

theorem Twins.makeDirectories (twins : Twins [] start start' now now') (path : Path) :
    (now.makeDirectories path).2 = (now'.makeDirectories path).2 ∧
      Twins [] start start' (now.makeDirectories path).1 (now'.makeDirectories path).1 := by
  unfold Store.makeDirectories
  by_cases hempty : path.text = ""
  · rw [if_pos hempty, if_pos hempty]
    exact ⟨rfl, twins⟩
  · rw [if_neg hempty, if_neg hempty]
    rcases check path with fault | ⟨⟩
    · exact ⟨rfl, twins⟩
    · by_cases hpoint : path.endsInPoint = true
      · simp only [hpoint, if_true]
        obtain ⟨hfault, hmade⟩ := twins.makeAll_root path.segments.dropLast []
        rcases hmake : now.makeAll [] path.segments.dropLast with ⟨made, fault⟩
        rcases hmake' : now'.makeAll [] path.segments.dropLast with ⟨made', fault'⟩
        rw [hmake, hmake'] at hfault hmade
        obtain rfl : fault = fault' := hfault
        rcases fault with _ | fault
        · simp only [walk_of_looksLike_root hmade.looks]
          rcases made.walk [] path.segments <;> exact ⟨rfl, hmade⟩
        · exact ⟨rfl, hmade⟩
      · simp only [hpoint]
        exact twins.makeAll_root path.segments []

/-- **A command overlooks** in what two stores differ: from twin stores it comes to the same, and
leaves twin stores. -/
def Shell.Overlooks (shell : Shell) (script : String) (start start' : Store) : Prop :=
  ∀ now now', Twins [] start start' now now' →
    (shell.run script now).2 = (shell.run script now').2 ∧
      Twins [] start start' (shell.run script now).1 (shell.run script now').1

/-- The step is no command, or one that overlooks in what the stores differ. -/
def Step.Overlooks (shell : Shell) (start start' : Store) (step : Step) : Prop :=
  ∀ script, step = .command script → shell.Overlooks script start start'

variable {shell : Shell} {step : Step}

/-- **One step** comes to the same in twin stores. -/
theorem Step.perform_of_alike (overlooks : step.Overlooks shell start start')
    (twins : Twins [] start start' now now') (memory : Memory) :
    SameOutcome [] start start' (step.perform shell now memory)
      (step.perform shell now' memory) := by
  have looks := twins.looks
  refine Step.perform_of_meetsSame ?_ twins memory
  cases step with
  | removeFile path => exact removeFile_of_alike looks path
  | listDirectory path =>
    exact ⟨directory_of_looksLike looks path, fun place _ => (looks.everywhere place).isEmptyAt⟩
  | removeListed path => exact removeDirectory_of_alike looks path
  | makeDirectories path => exact twins.makeDirectories path
  | writeFile path text => exact writeFile_of_alike looks path _
  | refuse error => trivial
  | command script => exact overlooks script rfl now now' twins

/-! ### Runs -/

/-- **The tasks of two runs** are at the same point, and the stores are twins. -/
structure SameRun (start start' : Store) (run run' : Store × List Task) : Prop where
  same : run.2 = run'.2
  twins : Twins [] start start' run.1 run'.1

/-- All commands that are left overlook in what the stores differ. -/
def Task.Overlooks (shell : Shell) (start start' : Store) (task : Task) : Prop :=
  ∀ step ∈ task.pending, step.Overlooks shell start start'

theorem Task.advance_of_alike {task : Task} (overlooks : task.Overlooks shell start start')
    (twins : Twins [] start start' now now') :
    (task.advance shell now).2 = (task.advance shell now').2 ∧
      Twins [] start start' (task.advance shell now).1 (task.advance shell now').1 ∧
      (task.advance shell now).2.Overlooks shell start start' := by
  match task, overlooks with
  | .failed _, overlooks => exact ⟨rfl, twins, overlooks⟩
  | .going [] _, overlooks => exact ⟨rfl, twins, overlooks⟩
  | .going (step :: rest) memory, overlooks =>
    obtain ⟨hsame, htwins⟩ := Step.perform_of_alike (overlooks step List.mem_cons_self) twins memory
    refine ⟨congrArg (Task.ofOutcome rest) hsame, htwins, fun next hnext => ?_⟩
    exact overlooks next (List.mem_cons_of_mem _ (Task.pending_ofOutcome_subset _ _ hnext))

/-- **The steps that a schedule names** come to the same. -/
theorem follow_of_alike : ∀ (schedule : Schedule) {now now' : Store} {tasks : List Task},
    (∀ task ∈ tasks, task.Overlooks shell start start') → Twins [] start start' now now' →
      SameRun start start' (follow shell now tasks schedule) (follow shell now' tasks schedule)
  | [], _, _, _, _, twins => ⟨rfl, twins⟩
  | i :: rest, now, now', tasks, overlooks, twins => by
    rw [follow, follow]
    rcases htask : tasks[i]? with _ | task
    · rw [advanceAt_of_none htask, advanceAt_of_none htask]
      exact follow_of_alike rest overlooks twins
    · rw [advanceAt_of_getElem? htask, advanceAt_of_getElem? htask]
      obtain ⟨hsame, htwins, hleft⟩ :=
        Task.advance_of_alike (overlooks task (List.mem_of_getElem? htask)) twins
      dsimp only
      rw [← hsame]
      refine follow_of_alike rest (fun other hother => ?_) htwins
      rcases List.mem_or_eq_of_mem_set hother with hmem | rfl
      · exact overlooks other hmem
      · exact hleft

/-- **Whole runs** along one schedule come to the same. -/
theorem along_of_alike (schedule : Schedule) {tasks : List Task}
    (overlooks : ∀ task ∈ tasks, task.Overlooks shell start start')
    (looks : LooksLike [] start start') :
    SameRun start start' (along shell schedule start tasks)
      (along shell schedule start' tasks) := by
  have hfollow := follow_of_alike schedule overlooks (.begin looks)
  -- the tasks are at the same point, so the same steps are left to them
  rw [along_eq_follow, along_eq_follow, ← hfollow.same]
  exact follow_of_alike _ overlooks (.begin looks)

end TokenSheets
