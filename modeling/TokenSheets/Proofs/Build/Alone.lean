import TokenSheets.Proofs.Build.Footprint
import TokenSheets.Proofs.Build.Schedule
import TokenSheets.Proofs.Store.Agreement

/-!
# Builds alone and among others

A build that runs among others is followed step by step in a store of its own, where it runs alone.
As long as both stores agree at its directory, its steps come to the same. Only in front of a name
that does not fit can cleaning tell the stores apart: alone it finds nothing, among others it may be
refused. Such a build fails in any case.

* `Step.perform_of_agrees`: a step in two stores that agree;
* `performAll_of_missing`: a build that cannot reach its directory fails in the end;
* `Follows`: what a task among others has to do with the same task alone;
* `Follows.own_step` and `Follows.other_step`: a step of the task itself and of another one.
-/

namespace TokenSheets

open Store

/-- **A step that cleans**: it is content to find nothing. -/
inductive Step.IsCleaning : Step → Prop
  | removeFile (path : Path) : IsCleaning (.removeFile path)
  | listDirectory (path : Path) : IsCleaning (.listDirectory path)
  | removeListed (path : Path) : IsCleaning (.removeListed path)

variable {directory : Path} {location : Location} {files : List String} {shell : Shell}

/-! ### Steps in stores that agree -/

/-- **A fault of a change** to a directory or to one of its files. -/
inductive BuildFault.IsAt (directory : Path) (files : List String) : BuildFault → Prop
  | directory (cause : PathFault) : IsAt directory files (.io directory cause)
  | file {file : String} (mem : file ∈ files) (cause : PathFault) :
    IsAt directory files (.io (directory.join file) cause)

/-- **What a step comes to** in two stores that agree: to the same, with nothing new in front of the
location in the second store alone, or to a fault in the second store. -/
inductive Step.Alike (directory : Path) (location : Location) (files : List String)
    (alone shared : Store) : Outcome → Outcome → Prop
  | same {alone' shared' : Store} (outcome : Except BuildFault Memory)
    (agrees : AgreesAt location alone' shared')
    (new : ∀ front, front <+: location → front ≠ location →
      shared'.get? front = shared.get? front ∨ alone'.get? front = some .directory) :
    Alike directory location files alone shared (alone', outcome) (shared', outcome)
  | strays (strays : Strays location alone shared) (outcome : Except BuildFault Memory)
    {fault : BuildFault} (place : fault.IsAt directory files) :
    Alike directory location files alone shared (alone, outcome) (shared, .error fault)

namespace Step

variable {alone shared : Store} {step : Step} {memory : Memory} {path : Path}

theorem alike_unchanged (agrees : AgreesAt location alone shared)
    (outcome : Except BuildFault Memory) :
    Step.Alike directory location files alone shared (alone, outcome) (shared, outcome) :=
  .same outcome agrees fun _ _ _ => .inl rfl

theorem alike_tolerant (agrees : AgreesAt location alone shared)
    (place : ∀ cause, (BuildFault.io path cause).IsAt directory files)
    {change change' : Except PathFault Store}
    (h : Store.Alike location alone shared change change') :
    Step.Alike directory location files alone shared (tolerant alone memory path change)
      (tolerant shared memory path change') := by
  cases h with
  | fault fault => cases fault <;> exact alike_unchanged agrees _
  | done agrees' kept => exact .same _ agrees' fun front hfront hne => .inl (kept front hfront hne)
  | strays strays => exact .strays strays _ (place _)

theorem alike_strict (agrees : AgreesAt location alone shared)
    (place : ∀ cause, (BuildFault.io path cause).IsAt directory files)
    {change change' : Except PathFault Store}
    (h : Store.Alike location alone shared change change') :
    Step.Alike directory location files alone shared (strict alone memory path change)
      (strict shared memory path change') := by
  cases h with
  | fault fault => exact alike_unchanged agrees _
  | done agrees' kept => exact .same _ agrees' fun front hfront hne => .inl (kept front hfront hne)
  | strays strays => exact .strays strays _ (place _)

/-- **A step in two stores that agree**, if it keeps to the directory at which they do. -/
theorem perform_of_agrees (leads : directory.LeadsTo location)
    (leadsIn : ∀ file ∈ files, (directory.join file).LeadsTo (location ++ [file]))
    (h : step.KeepsTo directory files) (tree : alone.IsTree)
    (agrees : AgreesAt location alone shared) (memory : Memory) :
    Step.Alike directory location files alone shared (step.perform shell alone memory)
      (step.perform shell shared memory) := by
  cases h with
  | removeFile mem =>
    exact alike_tolerant agrees (.file mem) (removeFile_of_agrees tree agrees (leadsIn _ mem))
  | listDirectory =>
    rw [perform, perform, directory_of_leadsTo leads, directory_of_leadsTo leads]
    rcases check directory with fault | ⟨⟩
    · cases fault <;> exact alike_unchanged agrees _
    · have hwalk := walk_of_agrees tree (List.nil_append location ▸ agrees) leads.points_notMem
      rcases hwalk with hwalk | ⟨hmissing, hrefused, hlong⟩
      · simp only [Except.bind, hwalk]
        rcases hreach : alone.walk [] location with fault | reached
        · cases fault <;> exact alike_unchanged agrees _
        · obtain rfl := eq_of_walk leads.points_notMem hreach
          simp only [agrees.isEmptyAt]
          exact alike_unchanged agrees _
      · simp only [Except.bind, hmissing, hrefused]
        exact .strays ⟨hmissing, hrefused, hlong⟩ _ (.directory _)
  | removeListed =>
    rw [perform, perform]
    split_ifs
    · exact alike_strict agrees .directory (removeDirectory_of_agrees tree agrees leads)
    · exact alike_unchanged agrees _
  | makeDirectories =>
    rw [perform, perform, makeDirectories_of_leadsTo leads, makeDirectories_of_leadsTo leads]
    rcases check directory with fault | ⟨⟩
    · exact alike_unchanged agrees _
    · obtain ⟨hfault, hagrees, hnew⟩ :=
        makeAll_of_agrees (List.nil_append location ▸ agrees) leads.points_notMem
      rcases ha : alone.makeAll [] location with ⟨alone', fault⟩
      rcases hs : shared.makeAll [] location with ⟨shared', fault'⟩
      rw [ha, hs] at hfault hagrees hnew
      obtain rfl : fault' = fault := hfault
      rcases fault' with _ | fault <;> exact .same _ hagrees fun front _ _ => hnew front
  | writeFile mem text =>
    exact alike_strict agrees (.file mem) (writeFile_of_agrees tree agrees (leadsIn _ mem) _)
  | refuse error => exact alike_unchanged agrees _

end Step

/-! ### Builds that cannot reach their directory -/

theorem Store.Touched.grownAlong {before after : Store} (long : ∃ name ∈ location, ¬ Fits name)
    (h : ∀ other, Touched location files before after other) :
    GrownAlong (location.takeWhile (Fits ·)) before after := by
  obtain ⟨name, hname, hlong⟩ := long
  intro other
  cases h other with
  | same unchanged => exact .inl unchanged
  | file fits => exact absurd (fits name hname) hlong
  | removed fits => exact absurd (fits name hname) hlong
  | made place was isDirectory => exact .inr ⟨place, was, isDirectory⟩

/-- **A step that keeps to a directory** keeps the store a tree. If the directory has a name that
does not fit, it can only add directories in front of that name. -/
theorem Step.isTree_and_grown (shell : Shell) {store : Store} {step : Step}
    (leads : directory.LeadsTo location)
    (leadsIn : ∀ file ∈ files, (directory.join file).LeadsTo (location ++ [file]))
    (h : step.KeepsTo directory files) (tree : store.IsTree) (memory : Memory) :
    (step.perform shell store memory).1.IsTree ∧
      ((∃ name ∈ location, ¬ Fits name) →
        GrownAlong (location.takeWhile (Fits ·)) store (step.perform shell store memory).1) := by
  have hchanges : Step.Changes location files store (step.perform shell store memory).1 :=
    Step.changes_of_keepsTo shell memory leads leadsIn h
  exact ⟨hchanges.isTree tree leads.ne_nil leads.points_notMem, fun long =>
    Touched.grownAlong long (hchanges.touched leads.ne_nil leads.points_notMem)⟩

theorem performAll_isTree_and_grown (shell : Shell) {store : Store}
    (leads : directory.LeadsTo location)
    (leadsIn : ∀ file ∈ files, (directory.join file).LeadsTo (location ++ [file]))
    {steps : List Step} (keeps : ∀ step ∈ steps, step.KeepsTo directory files)
    (tree : store.IsTree) (memory : Memory) :
    (performAll shell store memory steps).1.IsTree ∧
      ((∃ name ∈ location, ¬ Fits name) →
        GrownAlong (location.takeWhile (Fits ·)) store
          (performAll shell store memory steps).1) := by
  refine performAll_store (P := fun after => after.IsTree ∧ ((∃ name ∈ location, ¬ Fits name) →
    GrownAlong (location.takeWhile (Fits ·)) store after)) (fun step hstep before memory h => ?_)
    ⟨tree, fun _ => .refl _ store⟩
  obtain ⟨htree, hgrown⟩ :=
    Step.isTree_and_grown shell leads leadsIn (keeps step hstep) h.1 memory
  exact ⟨htree, fun long => (h.2 long).trans (hgrown long)⟩

theorem tolerant_error (store : Store) (memory : Memory) (path : Path) (fault : PathFault) :
    (tolerant store memory path (.error fault)).1 = store := by
  cases fault <;> rfl

/-- **A step that cannot reach its directory** fails, or it cleans and finds nothing to do. -/
theorem Step.perform_of_missing {store : Store} {step : Step} (leads : directory.LeadsTo location)
    (leadsIn : ∀ file ∈ files, (directory.join file).LeadsTo (location ++ [file]))
    (h : step.KeepsTo directory files) (missing : store.walk [] location = .error .notFound)
    (long : ∃ name ∈ location, ¬ Fits name) (memory : Memory) :
    (∃ fault, (step.perform shell store memory).2 = .error fault) ∨
      (step.IsCleaning ∧ (step.perform shell store memory).1 = store) := by
  cases h with
  | removeFile mem =>
    refine .inr ⟨.removeFile _, ?_⟩
    rw [perform, removeFile_of_leadsTo (leadsIn _ mem), missing]
    rcases check _ with fault | ⟨⟩ <;> exact tolerant_error ..
  | listDirectory => exact .inr ⟨.listDirectory _, perform_listDirectory ..⟩
  | removeListed =>
    rcases memory with _ | _
    · exact .inr ⟨.removeListed _, rfl⟩
    · left
      rw [perform, removeDirectory_of_leadsTo leads, missing]
      rcases check directory with fault | ⟨⟩ <;> exact ⟨_, rfl⟩
  | makeDirectories =>
    left
    rw [perform, makeDirectories_of_leadsTo leads]
    rcases check directory with fault | ⟨⟩
    · exact ⟨_, rfl⟩
    · rcases hmake : store.makeAll [] location with ⟨after, _ | fault⟩
      · obtain ⟨name, hname, hlong⟩ := long
        have hall := fits_of_makeAll leads.points_notMem (by rw [hmake])
        exact absurd (hall name hname) hlong
      · exact ⟨_, rfl⟩
  | writeFile mem text =>
    left
    rw [perform, writeFile_of_leadsTo (leadsIn _ mem), missing]
    rcases check _ with fault | ⟨⟩ <;> exact ⟨_, rfl⟩
  | refuse error => exact .inl ⟨_, rfl⟩

/-- **A build that cannot reach its directory fails in the end**, since its last step does not
clean. -/
theorem performAll_of_missing {store : Store} (leads : directory.LeadsTo location)
    (leadsIn : ∀ file ∈ files, (directory.join file).LeadsTo (location ++ [file]))
    (missing : store.walk [] location = .error .notFound)
    (long : ∃ name ∈ location, ¬ Fits name) : ∀ {steps : List Step} {memory : Memory},
    steps ≠ [] → (∀ step ∈ steps, step.KeepsTo directory files) →
      (∀ last, steps.getLast? = some last → ¬ last.IsCleaning) →
      ∃ fault, (performAll shell store memory steps).2 = .error fault
  | [], _, hne, _, _ => absurd rfl hne
  | step :: rest, memory, _, keeps, last => by
    have hstep : (∃ fault, (step.perform shell store memory).2 = .error fault) ∨ _ :=
      Step.perform_of_missing leads leadsIn (keeps step List.mem_cons_self) missing long memory
    rw [performAll]
    rcases hs : step.perform shell store memory with ⟨after, fault | known⟩
    · exact ⟨fault, rfl⟩
    · rw [hs] at hstep
      obtain ⟨fault, hfault⟩ | ⟨hcleaning, rfl⟩ := hstep
      · simp at hfault
      · have hrest : rest ≠ [] := by
          rintro rfl
          exact last step rfl hcleaning
        refine performAll_of_missing leads leadsIn missing long hrest
          (fun next hnext => keeps next (List.mem_cons_of_mem _ hnext)) fun next hnext => ?_
        exact last next (by rw [List.getLast?_cons, hnext]; rfl)

/-! ### Tasks alone and among others -/

/-- **The exception**: the way to a location is missing, and a name on it does not fit. -/
structure Store.Exposed (location : Location) (store : Store) : Prop where
  missing : store.walk [] location = .error .notFound
  long : ∃ name ∈ location, ¬ Fits name

/-- **A task among others and the same task alone.** `task` is under way in `shared`, and `own` is
where it stands in `alone`, on its way to what it comes to if it runs alone from `start` on. -/
structure Follows (shell : Shell) (directory : Path) (location : Location) (files : List String)
    (steps : List Step) (start shared : Store) (task : Task) (alone : Store) (own : Task) :
    Prop where
  ends : own.finish shell alone = (Task.ofSteps steps).finish shell start
  tree : alone.IsTree
  agrees : AgreesAt location alone shared
  grown : (∃ name ∈ location, ¬ Fits name) →
    GrownAlong (location.takeWhile (Fits ·)) start alone
  keeps : ∀ step ∈ own.pending, step.KeepsTo directory files
  last : ∀ last, own.pending.getLast? = some last → ¬ last.IsCleaning
  same : own = task ∨ ∃ fault fault', own = .failed fault ∧ task = .failed fault' ∧
    fault'.IsAt directory files ∧ Exposed location start

namespace Follows

variable {steps : List Step} {start shared alone : Store} {task own : Task}

theorem begin (tree : start.IsTree) (keeps : ∀ step ∈ steps, step.KeepsTo directory files)
    (last : ∀ last, steps.getLast? = some last → ¬ last.IsCleaning) :
    Follows shell directory location files steps start start (.ofSteps steps) start
      (.ofSteps steps) where
  ends := rfl
  tree := tree
  agrees := .refl location start
  grown _ := .refl _ start
  keeps := keeps
  last := last
  same := .inl rfl

theorem pending_of_advance {step : Step} {rest : List Step} {memory : Memory}
    (h : Follows shell directory location files steps start shared task alone
      (.going (step :: rest) memory)) (outcome : Except BuildFault Memory) :
    (∀ next ∈ (Task.ofOutcome rest outcome).pending, next.KeepsTo directory files) ∧
      ∀ last, (Task.ofOutcome rest outcome).pending.getLast? = some last → ¬ last.IsCleaning := by
  rcases outcome with fault | known
  · exact ⟨by simp [Task.ofOutcome, Task.pending], by simp [Task.ofOutcome, Task.pending]⟩
  · refine ⟨fun next hnext => h.keeps next (List.mem_cons_of_mem _ hnext), fun last hlast => ?_⟩
    have hrest : rest.getLast? = some last := hlast
    refine h.last last ?_
    change (step :: rest).getLast? = some last
    rw [List.getLast?_cons, hrest]
    rfl

/-- **A task that fails among others** because it comes to a name that does not fit fails alone as
well, some steps later. -/
theorem own_strays {step : Step} {rest : List Step} {memory : Memory}
    (leads : directory.LeadsTo location)
    (leadsIn : ∀ file ∈ files, (directory.join file).LeadsTo (location ++ [file]))
    (startTree : start.IsTree)
    (h : Follows shell directory location files steps start shared task alone
      (.going (step :: rest) memory))
    (strays : Strays location alone shared) {fault' : BuildFault}
    (place : fault'.IsAt directory files) :
    ∃ alone' own', Follows shell directory location files steps start shared (.failed fault')
      alone' own' := by
  have hkeeps : ∀ next ∈ step :: rest, next.KeepsTo directory files := h.keeps
  have notUp := leads.points_notMem
  obtain ⟨fault, hfault⟩ : ∃ fault,
      (performAll shell alone memory (step :: rest)).2 = .error fault :=
    performAll_of_missing leads leadsIn strays.missing strays.long (List.cons_ne_nil step rest)
      h.keeps h.last
  -- alone, the task takes all the steps that are left up to its fault
  rcases hend : performAll shell alone memory (step :: rest) with ⟨alone', outcome⟩
  obtain rfl : outcome = .error fault := by simpa [hend] using hfault
  have hfinish : (Task.going (step :: rest) memory).finish shell alone =
      (alone', .failed fault) := by simp [Task.finish, hend, Task.ofOutcome]
  obtain ⟨htree, hgrown⟩ :=
    performAll_isTree_and_grown shell leads leadsIn hkeeps h.tree memory
  rw [hend] at htree hgrown
  have hexposed : Exposed location start := by
    refine ⟨?_, strays.long⟩
    have hagrees := (h.grown strays.long).agreesAt strays.long
    -- what the task made alone since the start is in front of the name that does not fit
    rcases walk_of_agrees startTree (List.nil_append location ▸ hagrees) notUp with
      hwalk | ⟨hmissing, -⟩
    · rw [← hwalk, strays.missing]
    · exact hmissing
  refine ⟨alone', .failed fault, ⟨?_, htree, strays.agreesAt notUp h.agrees (hgrown strays.long),
    fun long => (h.grown long).trans (hgrown long), by simp [Task.pending], by simp [Task.pending],
    .inr ⟨fault, fault', rfl, rfl, place, hexposed⟩⟩⟩
  rw [Task.finish_failed, ← hfinish, h.ends]

/-- **A step of the task itself** is followed, alone, by the same step, or by all that are left if
they are about to fail. What is new in front of the location is there alone as well. -/
theorem own_step (leads : directory.LeadsTo location)
    (leadsIn : ∀ file ∈ files, (directory.join file).LeadsTo (location ++ [file]))
    (startTree : start.IsTree)
    (h : Follows shell directory location files steps start shared task alone own) :
    ∃ alone' own', Follows shell directory location files steps start
        (task.advance shell shared).1 (task.advance shell shared).2 alone' own' ∧
      ∀ front, front <+: location → front ≠ location →
        (task.advance shell shared).1.get? front = shared.get? front ∨
          alone'.get? front = some .directory := by
  obtain rfl | ⟨fault, fault', rfl, rfl, -⟩ := h.same
  · rcases own.advance_cases shell shared with ⟨hdone, -⟩ | ⟨step, rest, memory, rfl, hadvance⟩
    · rw [hdone]
      exact ⟨alone, own, h, fun _ _ _ => .inl rfl⟩
    · rw [hadvance]
      have hkeeps := h.keeps step List.mem_cons_self
      obtain ⟨htree, hgrown⟩ :=
        Step.isTree_and_grown shell leads leadsIn hkeeps h.tree memory
      have halike : Step.Alike directory location files alone shared
          (step.perform shell alone memory) (step.perform shell shared memory) :=
        Step.perform_of_agrees leads leadsIn hkeeps h.tree h.agrees memory
      have hfinish := Task.finish_advance shell alone (.going (step :: rest) memory)
      rw [show (Task.going (step :: rest) memory).advance shell alone =
        ((step.perform shell alone memory).1, .ofOutcome rest (step.perform shell alone memory).2)
        from rfl] at hfinish
      rcases ha : step.perform shell alone memory with ⟨alone', outcome⟩
      rcases hs : step.perform shell shared memory with ⟨shared', outcome'⟩
      rw [ha] at halike hfinish htree hgrown
      rw [hs] at halike
      cases halike with
      | same _ agrees new =>
        obtain ⟨keeps, last⟩ := h.pending_of_advance outcome
        exact ⟨alone', .ofOutcome rest outcome, ⟨hfinish.trans h.ends, htree, agrees,
          fun long => (h.grown long).trans (hgrown long), keeps, last, .inl rfl⟩, new⟩
      | strays strays _ place =>
        obtain ⟨alone', own', hfollows⟩ := h.own_strays leads leadsIn startTree strays place
        exact ⟨alone', own', hfollows, fun _ _ _ => .inl rfl⟩
  · exact ⟨alone, _, h, fun _ _ _ => .inl rfl⟩

theorem touched (leads : directory.LeadsTo location)
    (leadsIn : ∀ file ∈ files, (directory.join file).LeadsTo (location ++ [file]))
    (h : Follows shell directory location files steps start shared task alone own)
    (place : Location) : Touched location files shared (task.advance shell shared).1 place := by
  obtain rfl | ⟨fault, fault', rfl, rfl, -⟩ := h.same
  · rcases own.advance_cases shell shared with ⟨hdone, -⟩ | ⟨step, rest, memory, rfl, hadvance⟩
    · rw [hdone]
      exact .same rfl
    · rw [hadvance]
      exact Step.touched_of_keepsTo shell shared memory leads leadsIn
        (h.keeps step List.mem_cons_self) place
  · exact .same rfl

/-- **A step of another task** is not noticed, if it keeps to another directory beside this one. -/
theorem other_step {shared' : Store} {other : Location}
    (h : Follows shell directory location files steps start shared task alone own)
    (beside : other.length = location.length) (hne : other ≠ location)
    (touched : ∀ place, Touched other files shared shared' place) :
    Follows shell directory location files steps start shared' task alone own := by
  -- of equally long locations, one is in front of the other only if they are the same
  have hfront : ∀ rest, ¬ location ++ rest <+: other := fun rest hahead =>
    hne (((List.prefix_append location rest).trans hahead).eq_of_length beside.symm).symm
  have hagrees : AgreesAt location alone shared' := by
    refine ⟨fun rest => ?_, fun front hahead => ?_⟩
    · rw [← h.agrees.below rest]
      cases touched (location ++ rest) with
      | same unchanged => exact unchanged
      | file _ _ place => exact absurd (List.append_inj_left place beside.symm).symm hne
      | removed _ place => exact absurd (place ▸ List.prefix_rfl) (hfront rest)
      | made place => exact absurd (place.trans (List.takeWhile_prefix _)) (hfront rest)
    · have hlength := hahead.length_le
      cases touched front with
      | same unchanged => rw [unchanged]; exact h.agrees.above front hahead
      | file _ _ place =>
        rw [place, List.length_append, beside] at hlength
        simp at hlength
      | removed _ place =>
        exact absurd (hahead.eq_of_length (place ▸ beside)) (place ▸ hne)
      | made _ was isDirectory =>
        rcases h.agrees.above front hahead with hsame | ⟨hnone, hdir⟩
        · exact .inr ⟨hsame ▸ was, isDirectory⟩
        · simp [was] at hdir
  exact { h with agrees := hagrees }

theorem directory_at_end (leads : directory.LeadsTo location)
    (leadsIn : ∀ file ∈ files, (directory.join file).LeadsTo (location ++ [file]))
    (h : Follows shell directory location files steps start shared task alone own)
    {front : Location} (hne : front ≠ location) (hdir : alone.get? front = some .directory) :
    ((Task.ofSteps steps).finish shell start).1.get? front = some .directory := by
  rw [← h.ends]
  match own with
  | .failed fault => exact hdir
  | .going pending memory =>
    refine performAll_store (P := fun store => store.get? front = some .directory)
      (fun step hstep store memory hthere => ?_) hdir
    exact (Step.touched_of_keepsTo shell store memory leads leadsIn (h.keeps step hstep)
      front).directory_elsewhere hne hthere

/-- **At the end** the task alone has come to its end too, and to the same result, or both
failed. -/
theorem at_end (h : Follows shell directory location files steps start shared task alone own)
    (done : task.IsDone) :
    alone = ((Task.ofSteps steps).finish shell start).1 ∧
      (task.result = ((Task.ofSteps steps).finish shell start).2.result ∨
        ∃ fault fault', task.result = .error fault ∧
          ((Task.ofSteps steps).finish shell start).2.result = .error fault' ∧
          fault.IsAt directory files ∧ Exposed location start) := by
  rw [← h.ends]
  obtain rfl | ⟨fault, fault', rfl, rfl, place, hexposed⟩ := h.same
  · rw [Task.finish_of_isDone done]
    exact ⟨rfl, .inl rfl⟩
  · exact ⟨rfl, .inr ⟨fault', fault, rfl, rfl, place, hexposed⟩⟩

end Follows

end TokenSheets
