import Mathlib.Tactic
import TokenSheets.Build.Schedule

/-!
# What holds along every schedule

Whatever the schedule, a run takes one step of one task at a time, and the steps that are left at
the end are steps as well. So what a single `advanceAt` keeps, the whole run keeps.

* `advanceAt_induction`: a step that is taken is the next one of some task;
* `along_induction`: what every step keeps holds at the end of the run;
* `along_each` and `along_store`: the same for what is said of every task by itself, and of the
  store;
* `isDone_along` and `from_along`: at the end every task is done, by steps of its own only.
-/

namespace TokenSheets

variable {shell : Shell} {store : Store} {tasks : List Task}

namespace Task

/-- No steps are left, or one of them failed. -/
def IsDone : Task → Prop
  | going pending _ => pending = []
  | failed _ => True

/-- The steps that are left. -/
def pending : Task → List Step
  | going pending _ => pending
  | failed _ => []

/-- **A task that took steps of its own only**, each of them on some store. -/
inductive From (shell : Shell) (steps : List Step) : Task → Prop
  | start : From shell steps (ofSteps steps)
  | advance {task : Task} (before : From shell steps task) (store : Store) :
    From shell steps (task.advance shell store).2

@[simp] theorem isDone_failed (fault : BuildFault) : (failed fault).IsDone := trivial

@[simp] theorem isDone_going {pending : List Step} {memory : Memory} :
    (going pending memory).IsDone ↔ pending = [] := Iff.rfl

theorem pending_ofOutcome_subset (rest : List Step) (outcome : Except BuildFault Memory) :
    (ofOutcome rest outcome).pending ⊆ rest := by
  rcases outcome with fault | memory
  · exact List.nil_subset _
  · exact List.Subset.refl _

theorem advance_cases (shell : Shell) (store : Store) (task : Task) :
    (task.advance shell store = (store, task) ∧ task.pending = []) ∨
      ∃ step rest memory, task = going (step :: rest) memory ∧
        task.advance shell store = ((step.perform shell store memory).1,
          ofOutcome rest (step.perform shell store memory).2) := by
  match task with
  | failed _ => exact .inl ⟨rfl, rfl⟩
  | going [] _ => exact .inl ⟨rfl, rfl⟩
  | going (step :: rest) memory => exact .inr ⟨step, rest, memory, rfl, rfl⟩

theorem isDone_finish (shell : Shell) (store : Store) (task : Task) :
    (task.finish shell store).2.IsDone := by
  match task with
  | failed _ => trivial
  | going pending memory =>
    rcases h : performAll shell store memory pending with ⟨store', outcome | outcome⟩ <;>
      simp [finish, h, ofOutcome]

theorem finish_of_isDone {task : Task} (h : task.IsDone) :
    task.finish shell store = (store, task) := by
  match task with
  | failed _ => rfl
  | going pending _ =>
    obtain rfl : pending = [] := h
    rfl

end Task

/-! ### Steps of a run -/

theorem advanceAt_of_getElem? {i : Nat} {task : Task} (h : tasks[i]? = some task) :
    advanceAt shell store tasks i =
      ((task.advance shell store).1, tasks.set i (task.advance shell store).2) := by
  simp [advanceAt, h]

theorem advanceAt_of_none {i : Nat} (h : tasks[i]? = none) :
    advanceAt shell store tasks i = (store, tasks) := by
  simp [advanceAt, h]

@[simp] theorem follow_nil (shell : Shell) (store : Store) (schedule : Schedule) :
    follow shell store [] schedule = (store, []) := by
  induction schedule with
  | nil => rfl
  | cons i rest ih => exact ih

/-- **A step of a run** is the next step of some task, or nothing. -/
theorem advanceAt_induction {motive : Store → List Task → Prop} (i : Nat)
    (before : motive store tasks)
    (step : ∀ task, tasks[i]? = some task →
      motive (task.advance shell store).1 (tasks.set i (task.advance shell store).2)) :
    motive (advanceAt shell store tasks i).1 (advanceAt shell store tasks i).2 := by
  rcases h : tasks[i]? with _ | task
  · rwa [advanceAt_of_none h]
  · rw [advanceAt_of_getElem? h]
    exact step task h

/-! ### Whole runs -/

section Induction

variable {motive : Store → List Task → Prop}
  (step : ∀ store tasks i, motive store tasks →
    motive (advanceAt shell store tasks i).1 (advanceAt shell store tasks i).2)

include step

theorem follow_induction (schedule : Schedule) (start : motive store tasks) :
    motive (follow shell store tasks schedule).1 (follow shell store tasks schedule).2 := by
  induction schedule generalizing store tasks with
  | nil => exact start
  | cons i rest ih => exact ih (step _ _ i start)

/-- All steps that are left to a task are steps of a run that stands between the tasks in front of
it and those behind it. -/
theorem finish_induction {task : Task} {front behind : List Task}
    (start : motive store (front ++ task :: behind)) :
    motive (task.finish shell store).1 (front ++ (task.finish shell store).2 :: behind) := by
  match task with
  | .failed fault => exact start
  | .going pending memory =>
    induction pending generalizing store memory with
    | nil => exact start
    | cons next rest ih =>
      have hnow : (front ++ .going (next :: rest) memory :: behind)[front.length]? =
          some (.going (next :: rest) memory) := by simp
      have hnext := step _ _ front.length start
      rw [advanceAt_of_getElem? hnow, List.set_append_right _ _ le_rfl, Nat.sub_self,
        List.set_cons_zero] at hnext
      rw [← Task.finish_advance]
      rcases hs : next.perform shell store memory with ⟨store', fault | memory'⟩
      · simpa [Task.advance, hs, Task.ofOutcome] using hnext
      · simp only [Task.advance, hs, Task.ofOutcome] at hnext ⊢
        exact ih _ hnext

theorem finishAll_induction {front : List Task} (start : motive store (front ++ tasks)) :
    motive (finishAll shell store tasks).1 (front ++ (finishAll shell store tasks).2) := by
  induction tasks generalizing store front with
  | nil => exact start
  | cons task rest ih =>
    have hfirst := finish_induction step start
    rw [List.append_cons] at hfirst
    have hrest := ih hfirst
    rwa [← List.append_cons] at hrest

/-- **What every step keeps holds at the end.** -/
theorem along_induction (schedule : Schedule) (start : motive store tasks) :
    motive (along shell schedule store tasks).1 (along shell schedule store tasks).2 := by
  have hfollow := follow_induction step schedule start
  rw [← List.nil_append (follow shell store tasks schedule).2] at hfollow
  exact finishAll_induction step hfollow

end Induction

/-- What a step keeps of the task that takes it holds of every task at the end. -/
theorem along_each {P : Nat → Task → Prop}
    (step : ∀ i task store, P i task → P i (task.advance shell store).2) (schedule : Schedule)
    (start : ∀ i task, tasks[i]? = some task → P i task) {i : Nat} {task : Task}
    (h : (along shell schedule store tasks).2[i]? = some task) : P i task := by
  refine along_induction (motive := fun _ tasks => ∀ i task, tasks[i]? = some task → P i task)
    (fun store tasks i before => ?_) schedule start i task h
  refine advanceAt_induction (motive := fun _ tasks => ∀ i task, tasks[i]? = some task → P i task)
    i before fun task htask j other hother => ?_
  rw [List.getElem?_set] at hother
  split_ifs at hother with hij hlt
  · obtain rfl : _ = other := by simpa using hother
    exact hij ▸ step i task store (before i task htask)
  · exact before j other hother

/-- **What every allowed step keeps of the store** holds at the end, if only allowed steps are left
to the tasks. -/
theorem along_store {P : Store → Prop} {A : Step → Prop}
    (allowed : ∀ task ∈ tasks, ∀ step ∈ task.pending, A step)
    (keeps : ∀ step store memory, A step → P store → P (step.perform shell store memory).1)
    (schedule : Schedule) (start : P store) : P (along shell schedule store tasks).1 := by
  refine (along_induction
    (motive := fun store tasks => P store ∧ ∀ task ∈ tasks, ∀ step ∈ task.pending, A step)
    (fun store tasks i before => ?_) schedule ⟨start, allowed⟩).1
  refine advanceAt_induction
    (motive := fun store tasks => P store ∧ ∀ task ∈ tasks, ∀ step ∈ task.pending, A step)
    i before fun task htask => ?_
  obtain ⟨hstore, hall⟩ := before
  have htask := hall task (List.mem_of_getElem? htask)
  rcases task.advance_cases shell store with ⟨hsame, -⟩ | ⟨step, rest, memory, rfl, hadvance⟩
  · rw [hsame]
    refine ⟨hstore, fun other hother => ?_⟩
    rcases List.mem_or_eq_of_mem_set hother with hmem | rfl
    · exact hall other hmem
    · exact htask
  · rw [hadvance]
    refine ⟨keeps step store memory (htask step (by simp [Task.pending])) hstore, ?_⟩
    intro other hother
    rcases List.mem_or_eq_of_mem_set hother with hmem | rfl
    · exact hall other hmem
    · exact fun next hnext => htask next
        (List.mem_cons_of_mem _ (Task.pending_ofOutcome_subset _ _ hnext))

theorem isDone_finishAll : ∀ (store : Store) (tasks : List Task),
    ∀ task ∈ (finishAll shell store tasks).2, task.IsDone
  | _, [] => by simp [finishAll]
  | store, task :: rest => by
    rintro other hother
    rcases List.mem_cons.mp hother with rfl | hother
    · exact task.isDone_finish shell store
    · exact isDone_finishAll _ rest other hother

theorem isDone_along (shell : Shell) (schedule : Schedule) (store : Store) (tasks : List Task) :
    ∀ task ∈ (along shell schedule store tasks).2, task.IsDone :=
  isDone_finishAll _ _

/-- **At the end every task has taken steps of its own only.** -/
theorem from_along (schedule : Schedule) {builds : List (List Step)} {i : Nat}
    {steps : List Step} {task : Task} (hbuild : builds[i]? = some steps)
    (htask : (along shell schedule store (builds.map .ofSteps)).2[i]? = some task) :
    task.From shell steps := by
  refine along_each (P := fun i task => ∀ steps, builds[i]? = some steps → task.From shell steps)
    (fun i task store before steps h => (before steps h).advance store) schedule
    (fun i task h steps hbuild => ?_) htask steps hbuild
  rw [List.getElem?_map, hbuild] at h
  obtain rfl : _ = task := by simpa using h
  exact .start

end TokenSheets
