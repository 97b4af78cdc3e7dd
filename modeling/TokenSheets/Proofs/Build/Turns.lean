import TokenSheets.Proofs.Build.Footprint
import TokenSheets.Proofs.Build.Schedule

/-!
# The turns of a run

A run along a schedule is told by its turns: which task takes which step, and on which store. Each
turn begins with the store that the one in front of it left. The turns of one task are its steps, in
their order, up to the first one that fails; what the others do in between only shows in the stores.

* `Turn`, `turns`, `turnsAlong`: the turns that a schedule names, and all turns of a run;
* `along_eq_follow`: the steps that are left behind a schedule are the steps of a longer one;
* `Turn.Lead`: turns one after another; `lead_turnsAlong`: those of a run are its steps;
* `Goes`: the turns of one task; `goes_turnsAlong`: what each task does in a run;
* `Goes.ends`: a task takes all of its steps, or fails at the last one that it takes.
-/

namespace TokenSheets

/-- **A turn**: a task takes a step on a store, with what it knows. -/
structure Turn where
  /-- The number of the task. -/
  task : Nat
  step : Step
  store : Store
  memory : Memory

namespace Turn

/-- What the step comes to. -/
def outcome (shell : Shell) (turn : Turn) : Outcome :=
  turn.step.perform shell turn.store turn.memory

/-- **The step succeeds.** -/
def Succeeds (shell : Shell) (turn : Turn) : Prop := ∃ memory, (turn.outcome shell).2 = .ok memory

/-- **The step fails** with this fault. -/
def Fails (shell : Shell) (turn : Turn) (fault : BuildFault) : Prop :=
  (turn.outcome shell).2 = .error fault

/-- **Turns one after another**, from a store to another one. -/
def Lead (shell : Shell) : Store → List Turn → Store → Prop
  | store, [], after => store = after
  | store, turn :: rest, after => turn.store = store ∧ Lead shell (turn.outcome shell).1 rest after

end Turn

/-- The turn of the task of a number, if a step is left to it. -/
def turnAt (store : Store) (tasks : List Task) (i : Nat) : Option Turn :=
  match tasks[i]? with
  | some (.going (step :: _) memory) => some ⟨i, step, store, memory⟩
  | _ => none

/-- **The turns that a schedule names.** -/
def turns (shell : Shell) (store : Store) (tasks : List Task) : Schedule → List Turn
  | [] => []
  | i :: rest =>
    (turnAt store tasks i).toList ++
      turns shell (advanceAt shell store tasks i).1 (advanceAt shell store tasks i).2 rest

/-- A schedule that takes all steps that are left, one task after another; `i` is the number of the
first one. -/
def completion (i : Nat) : List Task → Schedule
  | [] => []
  | task :: rest => List.replicate task.pending.length i ++ completion (i + 1) rest

/-- **The turns of a run along a schedule.** -/
def turnsAlong (shell : Shell) (schedule : Schedule) (store : Store) (tasks : List Task) :
    List Turn :=
  turns shell store tasks
    (schedule ++ completion 0 (follow shell store tasks schedule).2)

variable {shell : Shell} {store : Store} {tasks : List Task} {task : Task} {i : Nat}

/-! ### A run is a longer schedule -/

theorem follow_append (front behind : Schedule) : ∀ {store : Store} {tasks : List Task},
    follow shell store tasks (front ++ behind) =
      follow shell (follow shell store tasks front).1 (follow shell store tasks front).2
        behind := by
  induction front with
  | nil => exact rfl
  | cons i rest ih => exact ih

theorem Task.length_pending_advance_le (shell : Shell) (store : Store) (task : Task) :
    (task.advance shell store).2.pending.length ≤ task.pending.length - 1 := by
  rcases task.advance_cases shell store with ⟨hsame, hnil⟩ | ⟨step, rest, memory, rfl, hadvance⟩
  · simp [hsame, hnil]
  · rw [hadvance]
    rcases (step.perform shell store memory).2 with fault | known
    · exact Nat.zero_le _
    · exact le_rfl

/-- **Finishing a task** is naming it as often as steps are left to it. -/
theorem follow_replicate {front behind : List Task} : ∀ {count : Nat} {store : Store} {task : Task},
    task.pending.length ≤ count →
      follow shell store (front ++ task :: behind) (List.replicate count front.length) =
        ((task.finish shell store).1, front ++ (task.finish shell store).2 :: behind)
  | 0, store, task, hcount => by
    have hdone : task.IsDone := by
      match task with
      | .failed _ => trivial
      | .going pending _ => exact List.eq_nil_of_length_eq_zero (Nat.le_zero.mp hcount)
    rw [Task.finish_of_isDone hdone]
    rfl
  | count + 1, store, task, hcount => by
    have hnow : (front ++ task :: behind)[front.length]? = some task := by simp
    have hleft := task.length_pending_advance_le shell store
    rw [List.replicate_succ, follow, advanceAt_of_getElem? hnow, List.set_append_right _ _ le_rfl,
      Nat.sub_self, List.set_cons_zero]
    dsimp only
    rw [follow_replicate (by omega), Task.finish_advance]

theorem finishAll_eq_follow : ∀ {tasks front : List Task} {store : Store},
    follow shell store (front ++ tasks) (completion front.length tasks) =
      ((finishAll shell store tasks).1, front ++ (finishAll shell store tasks).2)
  | [], front, store => rfl
  | task :: rest, front, store => by
    have hrest := @finishAll_eq_follow rest (front ++ [(task.finish shell store).2])
      (task.finish shell store).1
    rw [List.length_append, List.length_singleton, List.append_assoc, List.append_assoc] at hrest
    rw [completion, follow_append, follow_replicate le_rfl]
    exact hrest

/-- **A run along a schedule** follows a longer one to its end. -/
theorem along_eq_follow (schedule : Schedule) :
    along shell schedule store tasks = follow shell store tasks
      (schedule ++ completion 0 (follow shell store tasks schedule).2) := by
  have hfinish := @finishAll_eq_follow shell (follow shell store tasks schedule).2 []
    (follow shell store tasks schedule).1
  rw [follow_append]
  exact hfinish.symm

/-! ### All turns -/

theorem turnAt_cases (shell : Shell) (store : Store) (tasks : List Task) (i : Nat) :
    (turnAt store tasks i = none ∧ advanceAt shell store tasks i = (store, tasks)) ∨
      ∃ turn rest, turn.task = i ∧ turn.store = store ∧ turnAt store tasks i = some turn ∧
        tasks[i]? = some (.going (turn.step :: rest) turn.memory) ∧
        advanceAt shell store tasks i = ((turn.outcome shell).1,
          tasks.set i (.ofOutcome rest (turn.outcome shell).2)) := by
  rcases htask : tasks[i]? with _ | task
  · exact .inl ⟨by simp [turnAt, htask], advanceAt_of_none htask⟩
  · rcases task.advance_cases shell store with ⟨hsame, hnil⟩ | ⟨step, rest, memory, rfl, hadvance⟩
    · left
      rw [advanceAt_of_getElem? htask, hsame]
      obtain ⟨hi, rfl⟩ := List.getElem?_eq_some_iff.mp htask
      refine ⟨?_, by rw [List.set_getElem_self]⟩
      rw [turnAt, htask]
      split
      · rename_i hgoing
        rw [Option.some.inj hgoing] at hnil
        cases hnil
      · rfl
    · refine .inr ⟨⟨i, step, store, memory⟩, rest, rfl, rfl, by simp [turnAt, htask], rfl, ?_⟩
      rw [advanceAt_of_getElem? htask, hadvance]
      rfl

/-- **The turns that a schedule names** lead to the store that it leaves. -/
theorem lead_turns : ∀ {schedule : Schedule} {store : Store} {tasks : List Task},
    Turn.Lead shell store (turns shell store tasks schedule)
      (follow shell store tasks schedule).1
  | [], _, _ => rfl
  | i :: rest, store, tasks => by
    rw [turns, follow]
    rcases turnAt_cases shell store tasks i with ⟨hnone, hsame⟩ |
      ⟨turn, left, -, hstore, hturn, -, hadvance⟩
    · rw [hnone, hsame]
      exact lead_turns
    · rw [hturn, hadvance]
      exact ⟨hstore, lead_turns⟩

theorem lead_turnsAlong (shell : Shell) (schedule : Schedule) (store : Store) (tasks : List Task) :
    Turn.Lead shell store (turnsAlong shell schedule store tasks)
      (along shell schedule store tasks).1 := by
  rw [turnsAlong, along_eq_follow]
  exact lead_turns

theorem task_lt_of_mem_turns {turn : Turn} : ∀ {schedule : Schedule} {store : Store}
    {tasks : List Task}, turn ∈ turns shell store tasks schedule → turn.task < tasks.length
  | i :: rest, store, tasks, h => by
    rw [turns, List.mem_append, Option.mem_toList] at h
    rcases h with h | h
    · rcases turnAt_cases shell store tasks i with ⟨hnone, -⟩ |
        ⟨taken, left, htask, -, htaken, hthere, -⟩
      · simp [hnone] at h
      · obtain rfl : taken = turn := Option.some.inj (htaken.symm.trans h)
        exact htask ▸ (List.getElem?_eq_some_iff.mp hthere).1
    · exact length_advanceAt shell store tasks i ▸ task_lt_of_mem_turns h

/-! ### The turns of one task -/

/-- **What a task does**: it takes its steps, one turn after another, on whatever stores. -/
inductive Goes (shell : Shell) : Task → List Turn → Task → Prop
  | stays (task : Task) : Goes shell task [] task
  | takes {turn : Turn} {rest : List Step} {turns : List Turn} {after : Task}
    (goes : Goes shell (.ofOutcome rest (turn.outcome shell).2) turns after) :
    Goes shell (.going (turn.step :: rest) turn.memory) (turn :: turns) after

/-- The turns of the task of a number. -/
def turnsOf (i : Nat) (turns : List Turn) : List Turn := turns.filter fun turn => turn.task = i

theorem goes_turns : ∀ {schedule : Schedule} {store : Store} {tasks : List Task} {i : Nat}
    {task : Task}, tasks[i]? = some task →
      ∃ after, (follow shell store tasks schedule).2[i]? = some after ∧
        Goes shell task (turnsOf i (turns shell store tasks schedule)) after
  | [], _, _, _, task, h => ⟨task, h, .stays task⟩
  | j :: rest, store, tasks, i, task, h => by
    rw [turns, follow]
    rcases turnAt_cases shell store tasks j with ⟨hnone, hsame⟩ |
      ⟨turn, left, rfl, -, hturn, hthere, hadvance⟩
    · rw [hnone, hsame]
      exact goes_turns h
    · rw [hturn, hadvance]
      dsimp only
      by_cases hij : turn.task = i
      · subst hij
        obtain rfl : task = .going (turn.step :: left) turn.memory :=
          Option.some.inj (h.symm.trans hthere)
        obtain ⟨hi, -⟩ := List.getElem?_eq_some_iff.mp h
        obtain ⟨after, hafter, hgoes⟩ := goes_turns (List.getElem?_set_self hi)
        refine ⟨after, hafter, ?_⟩
        rw [turnsOf, Option.toList_some, List.singleton_append, List.filter_cons_of_pos (by simp)]
        exact .takes hgoes
      · obtain ⟨after, hafter, hgoes⟩ := goes_turns ((List.getElem?_set_ne hij).trans h)
        refine ⟨after, hafter, ?_⟩
        rw [turnsOf, Option.toList_some, List.singleton_append,
          List.filter_cons_of_neg (by simpa using hij)]
        exact hgoes

/-- **Each task takes its own steps** in a run. -/
theorem goes_turnsAlong (schedule : Schedule) (h : tasks[i]? = some task) :
    ∃ after, (along shell schedule store tasks).2[i]? = some after ∧
      Goes shell task (turnsOf i (turnsAlong shell schedule store tasks)) after := by
  rw [turnsAlong, along_eq_follow]
  exact goes_turns h

/-- **How a task ends**: it has taken all of its steps, and all of them succeed; or it fails at the
last step that it takes, and steps may be left. -/
theorem Goes.ends {task after : Task} {turns : List Turn} (h : Goes shell task turns after)
    (done : after.IsDone) : ∀ {steps : List Step} {memory : Memory}, task = .going steps memory →
      (turns.map Turn.step = steps ∧ (∀ turn ∈ turns, turn.Succeeds shell) ∧
        after.result = .ok ()) ∨
      ∃ front turn left fault, turns = front ++ [turn] ∧
        (front ++ [turn]).map Turn.step ++ left = steps ∧
        (∀ other ∈ front, other.Succeeds shell) ∧ turn.Fails shell fault ∧
        after.result = .error fault := by
  induction h with
  | stays task =>
    rintro steps memory rfl
    obtain rfl : steps = [] := done
    exact .inl ⟨rfl, by simp, rfl⟩
  | @takes turn rest turns after goes ih =>
    rintro steps memory ⟨⟩
    rcases houtcome : (turn.outcome shell).2 with fault | known
    · -- a task that failed takes no more turns
      rw [houtcome] at goes
      cases goes with
      | stays =>
        exact .inr ⟨[], turn, rest, fault, rfl, rfl, by simp, houtcome, rfl⟩
    · rcases ih done (by rw [houtcome]; rfl) with ⟨hall, hsound, hresult⟩ |
        ⟨front, last, left, fault, rfl, hsplit, hsound, hfails, hresult⟩
      · exact .inl ⟨by rw [List.map_cons, hall],
          List.forall_mem_cons.mpr ⟨⟨known, houtcome⟩, hsound⟩, hresult⟩
      · exact .inr ⟨turn :: front, last, left, fault, rfl, by rw [← hsplit]; rfl,
          List.forall_mem_cons.mpr ⟨⟨known, houtcome⟩, hsound⟩, hfails, hresult⟩

theorem Goes.step_mem {task after : Task} {turns : List Turn} (h : Goes shell task turns after) :
    ∀ turn ∈ turns, turn.step ∈ task.pending := by
  induction h with
  | stays task => simp
  | @takes turn rest turns after goes ih =>
    refine List.forall_mem_cons.mpr ⟨List.mem_cons_self, fun other hother => ?_⟩
    exact List.mem_cons_of_mem _ (Task.pending_ofOutcome_subset _ _ (ih other hother))

end TokenSheets
