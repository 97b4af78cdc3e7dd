import TokenSheets.Build.Step

/-!
# Schedules: several builds at once

Builds that run at once take their steps one at a time, in any order. A `Task` is a build under way;
`advance` takes the next step of one task, `finish` takes all steps that are left. A schedule names
the tasks that take the next steps: `along` follows it and then finishes one task after another, so
every order in which steps can come is the one of some schedule, and the empty schedule runs the
builds one after another.

* `length_along`: every task comes out again;
* `Task.finish_advance`: finishing a task is taking its next step and finishing it then.
-/

namespace TokenSheets

/-- A build under way. -/
inductive Task where
  /-- Steps are left, or the build is done. -/
  | going (pending : List Step) (memory : Memory)
  | failed (fault : BuildFault)

namespace Task

/-- A build that has not begun. -/
def ofSteps (steps : List Step) : Task := .going steps false

/-- What the build comes to, once no steps are left. -/
def result : Task → Except BuildFault Unit
  | .going _ _ => .ok ()
  | .failed fault => .error fault

/-- A task that has steps left, or failed. -/
def ofOutcome (pending : List Step) : Except BuildFault Memory → Task
  | .ok memory => .going pending memory
  | .error fault => .failed fault

/-- **The next step of a task**, if one is left. -/
def advance (shell : Shell) (store : Store) : Task → Store × Task
  | .going (step :: rest) memory =>
    let (store, outcome) := step.perform shell store memory
    (store, .ofOutcome rest outcome)
  | task => (store, task)

/-- **All steps of a task** that are left. -/
def finish (shell : Shell) (store : Store) : Task → Store × Task
  | .going pending memory =>
    let (store, outcome) := performAll shell store memory pending
    (store, .ofOutcome [] outcome)
  | task => (store, task)

end Task

/-- The tasks that take the next steps, by their numbers. -/
abbrev Schedule := List Nat

/-- The next step of the task of a number; nothing happens if there is no such task. -/
def advanceAt (shell : Shell) (store : Store) (tasks : List Task) (i : Nat) : Store × List Task :=
  match tasks[i]? with
  | none => (store, tasks)
  | some task =>
    let (store, task) := task.advance shell store
    (store, tasks.set i task)

/-- The steps that a schedule names. -/
def follow (shell : Shell) (store : Store) (tasks : List Task) : Schedule → Store × List Task
  | [] => (store, tasks)
  | i :: rest =>
    let (store, tasks) := advanceAt shell store tasks i
    follow shell store tasks rest

/-- All steps that are left, one task after another. -/
def finishAll (shell : Shell) (store : Store) : List Task → Store × List Task
  | [] => (store, [])
  | task :: rest =>
    let (store, task) := task.finish shell store
    let (store, rest) := finishAll shell store rest
    (store, task :: rest)

/-- **Tasks run at once**: first as the schedule says, then one after another. -/
def along (shell : Shell) (schedule : Schedule) (store : Store) (tasks : List Task) :
    Store × List Task :=
  let (store, tasks) := follow shell store tasks schedule
  finishAll shell store tasks

/-! ### Nothing is lost on the way -/

theorem length_advanceAt (shell : Shell) (store : Store) (tasks : List Task) (i : Nat) :
    (advanceAt shell store tasks i).2.length = tasks.length := by
  unfold advanceAt
  split <;> simp

theorem length_follow (shell : Shell) (schedule : Schedule) (store : Store) (tasks : List Task) :
    (follow shell store tasks schedule).2.length = tasks.length := by
  induction schedule generalizing store tasks with
  | nil => rfl
  | cons i rest ih => simp [follow, ih, length_advanceAt]

theorem length_finishAll (shell : Shell) (store : Store) (tasks : List Task) :
    (finishAll shell store tasks).2.length = tasks.length := by
  induction tasks generalizing store with
  | nil => rfl
  | cons task rest ih => simp [finishAll, ih]

theorem length_along (shell : Shell) (schedule : Schedule) (store : Store) (tasks : List Task) :
    (along shell schedule store tasks).2.length = tasks.length := by
  simp [along, length_finishAll, length_follow]

namespace Task

@[simp] theorem finish_failed (shell : Shell) (store : Store) (fault : BuildFault) :
    (failed fault).finish shell store = (store, failed fault) := rfl

@[simp] theorem finish_done (shell : Shell) (store : Store) (memory : Memory) :
    (going [] memory).finish shell store = (store, going [] memory) := rfl

/-- **Finishing a task is taking its next step and finishing it then.** -/
theorem finish_advance (shell : Shell) (store : Store) (task : Task) :
    (task.advance shell store).2.finish shell (task.advance shell store).1 =
      task.finish shell store := by
  match task with
  | .failed fault => rfl
  | .going [] memory => rfl
  | .going (step :: rest) memory =>
    rcases hs : step.perform shell store memory with ⟨store', outcome | outcome⟩ <;>
      simp [advance, finish, hs, performAll, ofOutcome]

end Task

end TokenSheets
