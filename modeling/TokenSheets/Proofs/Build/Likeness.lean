import TokenSheets.Proofs.Build.Alone

/-!
# Builds in stores that look alike

No step looks into a file. What a build does depends on where files and directories are, in front of
its directory and below, and on nothing else; so in two stores that look alike there it comes to the
same. What it leaves below its directory is the same in both stores, or it did not touch it.

* `Store.LooksLike`: files stand where files stand, and directories where directories do;
* `Store.walk_of_looksLike`: walks end alike;
* `Twins`: two stores in which a build went the same way, each with the store where it began;
* `Step.MeetsSame`, `Step.perform_of_meetsSame`: a step that finds the same comes to the same;
* `performAll_of_twins`: steps that keep to a directory come to the same.
-/

namespace TokenSheets

namespace Store

/-- **Of one kind**: two files, two directories, or nothing twice. -/
def SameKind (first second : Option Entry) : Prop :=
  (first = none ↔ second = none) ∧ (first = some .directory ↔ second = some .directory)

theorem SameKind.rfl {entry : Option Entry} : SameKind entry entry := ⟨Iff.rfl, Iff.rfl⟩

theorem SameKind.cases {first second : Option Entry} (h : SameKind first second) :
    (first = none ∧ second = none) ∨ (first = some .directory ∧ second = some .directory) ∨
      ∃ content content', first = some (.file content) ∧ second = some (.file content') := by
  obtain ⟨hnone, hdir⟩ := h
  rcases first with _ | content | _ <;> rcases second with _ | content' | _ <;> simp_all

/-- **Two stores look alike at a location**: files and directories stand at the same places in front
of it, there and below. -/
def LooksLike (location : Location) (first second : Store) : Prop :=
  ∀ other, other <+: location ∨ location <+: other →
    SameKind (first.get? other) (second.get? other)

variable {location done rest : Location} {first second : Store}

theorem LooksLike.front (h : LooksLike (done ++ rest) first second) :
    SameKind (first.get? done) (second.get? done) :=
  h done (.inl (List.prefix_append _ _))

theorem LooksLike.below (h : LooksLike location first second) (rest : Location) :
    SameKind (first.get? (location ++ rest)) (second.get? (location ++ rest)) :=
  h _ (.inr (List.prefix_append _ _))

theorem LooksLike.isEmptyAt (h : LooksLike location first second) :
    second.isEmptyAt location = first.isEmptyAt location := by
  rw [Bool.eq_iff_iff, isEmptyAt_iff, isEmptyAt_iff]
  exact forall_congr' fun name => (h.below [name]).1.symm

/-- **Stores that look alike are walked alike.** -/
theorem walk_of_looksLike : ∀ {rest done : Location}, LooksLike (done ++ rest) first second →
    ".." ∉ rest → second.walk done rest = first.walk done rest
  | [], _, _, _ => rfl
  | name :: rest, done, looks, notUp => by
    simp only [List.mem_cons, not_or] at notUp
    rw [List.append_cons] at looks
    rw [walk, walk, enter_eq (Ne.symm notUp.1), enter_eq (Ne.symm notUp.1)]
    split_ifs
    · rcases looks.front.cases with ⟨h, h'⟩ | ⟨h, h'⟩ | ⟨_, _, h, h'⟩
      · rw [h, h']
        rfl
      · rw [h, h']
        exact walk_of_looksLike looks notUp.2
      · rw [h, h']
        rfl
    · rfl

theorem LooksLike.exposed_iff (h : LooksLike location first second) (notUp : ".." ∉ location) :
    Exposed location first ↔ Exposed location second := by
  have hwalk : second.walk [] location = first.walk [] location := walk_of_looksLike h notUp
  exact ⟨fun ⟨missing, long⟩ => ⟨hwalk ▸ missing, long⟩,
    fun ⟨missing, long⟩ => ⟨hwalk ▸ missing, long⟩⟩

end Store

open Store

/-! ### Changes in both stores -/

/-- **Two stores in which a build went the same way**, each from a start of its own: they look
alike, and below the location they have the same, or both what they had at the start. -/
structure Twins (location : Location) (start start' now now' : Store) : Prop where
  looks : LooksLike location now now'
  below : ∀ rest, now.get? (location ++ rest) = now'.get? (location ++ rest) ∨
    (now.get? (location ++ rest) = start.get? (location ++ rest) ∧
      now'.get? (location ++ rest) = start'.get? (location ++ rest))

namespace Twins

variable {location : Location} {start start' now now' : Store}

theorem begin (looks : LooksLike location start start') :
    Twins location start start' start start' :=
  ⟨looks, fun _ => .inr ⟨rfl, rfl⟩⟩

theorem put (h : Twins location start start' now now') {place : Location} (hplace : place ≠ [])
    (entry : Entry) :
    Twins location start start' (now.put place entry) (now'.put place entry) where
  looks other hother := by
    rw [get?_put_at _ _ hplace, get?_put_at _ _ hplace]
    split_ifs
    · exact .rfl
    · exact h.looks other hother
  below rest := by
    rw [get?_put_at _ _ hplace, get?_put_at _ _ hplace]
    split_ifs
    · exact .inl rfl
    · exact h.below rest

theorem remove (h : Twins location start start' now now') {place : Location}
    (hplace : place ≠ []) :
    Twins location start start' (now.remove place) (now'.remove place) where
  looks other hother := by
    rw [get?_remove_at _ hplace, get?_remove_at _ hplace]
    split_ifs
    · exact .rfl
    · exact h.looks other hother
  below rest := by
    rw [get?_remove_at _ hplace, get?_remove_at _ hplace]
    split_ifs
    · exact .inl rfl
    · exact h.below rest

theorem makeAll : ∀ {rest done : Location} {now now' : Store},
    LooksLike (done ++ rest) now now' → ".." ∉ rest → Twins location start start' now now' →
      (now.makeAll done rest).2 = (now'.makeAll done rest).2 ∧
        Twins location start start' (now.makeAll done rest).1 (now'.makeAll done rest).1
  | [], _, _, _, _, _, h => ⟨rfl, h⟩
  | name :: rest, done, now, now', looks, notUp, h => by
    simp only [List.mem_cons, not_or] at notUp
    have hplace : done ++ [name] ≠ [] := by simp
    rw [List.append_cons] at looks
    rw [makeAll_cons (Ne.symm notUp.1), makeAll_cons (Ne.symm notUp.1)]
    split_ifs
    · rcases looks.front.cases with ⟨hnone, hnone'⟩ | ⟨hdir, hdir'⟩ | ⟨_, _, hfile, hfile'⟩
      · rw [hnone, hnone']
        have hlooks := (Twins.begin looks).put hplace .directory
        exact makeAll hlooks.looks notUp.2 (h.put hplace .directory)
      · rw [hdir, hdir']
        exact makeAll looks notUp.2 h
      · rw [hfile, hfile']
        exact ⟨rfl, h⟩
    · exact ⟨rfl, h⟩

end Twins

/-- **One change in two stores**: it meets the same fault, or is made at the same place. -/
inductive SameChange (now now' : Store) : Except PathFault Store → Except PathFault Store → Prop
  | fault (fault : PathFault) : SameChange now now' (.error fault) (.error fault)
  | put {place : Location} (ne_nil : place ≠ []) (entry : Entry) :
    SameChange now now' (.ok (now.put place entry)) (.ok (now'.put place entry))
  | remove {place : Location} (ne_nil : place ≠ []) :
    SameChange now now' (.ok (now.remove place)) (.ok (now'.remove place))

section Steps

variable {directory path : Path} {location : Location} {files : List String} {name : String}
  {start start' now now' : Store}

/-- What comes behind a check and a walk is the same change if it is one in a directory that is
there. -/
theorem sameChange_of_walk (looks : LooksLike location now now') (notUp : ".." ∉ location)
    {change change' : Except PathFault Store} (h : SameChange now now' change change') :
    SameChange now now'
      ((check path).bind fun _ => (now.walk [] location).bind fun _ => change)
      ((check path).bind fun _ => (now'.walk [] location).bind fun _ => change') := by
  have hwalk : now'.walk [] location = now.walk [] location := walk_of_looksLike looks notUp
  rw [hwalk]
  rcases check path with fault | ⟨⟩
  · exact .fault fault
  · rcases now.walk [] location with fault | reached
    · exact .fault fault
    · exact h

theorem removeFile_of_looksLike (looks : LooksLike location now now')
    (leads : path.LeadsTo (location ++ [name])) :
    SameChange now now' (now.removeFile path) (now'.removeFile path) := by
  rw [removeFile_of_leadsTo leads, removeFile_of_leadsTo leads]
  refine sameChange_of_walk looks (fun h => leads.points_notMem (by simp [h])) ?_
  split_ifs
  · rcases (looks.below [name]).cases with ⟨h, h'⟩ | ⟨h, h'⟩ | ⟨_, _, h, h'⟩
    · rw [h, h']
      exact .fault _
    · rw [h, h']
      exact .fault _
    · rw [h, h']
      exact .remove (by simp)
  · exact .fault _

theorem writeFile_of_looksLike (looks : LooksLike location now now')
    (leads : path.LeadsTo (location ++ [name])) (content : ByteArray) :
    SameChange now now' (now.writeFile path content) (now'.writeFile path content) := by
  rw [writeFile_of_leadsTo leads, writeFile_of_leadsTo leads]
  refine sameChange_of_walk looks (fun h => leads.points_notMem (by simp [h])) ?_
  rw [if_congr (looks.below [name]).2 rfl rfl]
  split_ifs
  · exact .fault _
  · exact .put (by simp) _
  · exact .fault _

theorem removeDirectory_of_looksLike (looks : LooksLike location now now')
    (leads : path.LeadsTo location) :
    SameChange now now' (now.removeDirectory path) (now'.removeDirectory path) := by
  rw [removeDirectory_of_leadsTo leads, removeDirectory_of_leadsTo leads, looks.isEmptyAt]
  refine sameChange_of_walk looks leads.points_notMem ?_
  split_ifs
  · exact .remove leads.ne_nil
  · exact .fault _

/-- **What a change comes to** in both stores: to the same, and the stores are twins again. -/
structure SameOutcome (location : Location) (start start' : Store) (outcome outcome' : Outcome) :
    Prop where
  same : outcome.2 = outcome'.2
  twins : Twins location start start' outcome.1 outcome'.1

theorem SameChange.tolerant (twins : Twins location start start' now now')
    {change change' : Except PathFault Store} (h : SameChange now now' change change')
    (memory : Memory) (path : Path) : SameOutcome location start start'
      (TokenSheets.tolerant now memory path change)
      (TokenSheets.tolerant now' memory path change') := by
  cases h with
  | fault fault => cases fault <;> exact ⟨rfl, twins⟩
  | put ne_nil entry => exact ⟨rfl, twins.put ne_nil entry⟩
  | remove ne_nil => exact ⟨rfl, twins.remove ne_nil⟩

theorem SameChange.strict (twins : Twins location start start' now now')
    {change change' : Except PathFault Store} (h : SameChange now now' change change')
    (memory : Memory) (path : Path) : SameOutcome location start start'
      (TokenSheets.strict now memory path change)
      (TokenSheets.strict now' memory path change') := by
  cases h with
  | fault fault => exact ⟨rfl, twins⟩
  | put ne_nil entry => exact ⟨rfl, twins.put ne_nil entry⟩
  | remove ne_nil => exact ⟨rfl, twins.remove ne_nil⟩

/-- **A step meets the same in both stores**: it makes the same change, or finds the same. -/
def Step.MeetsSame (shell : Shell) (location : Location) (start start' now now' : Store) :
    Step → Prop
  | .removeFile path => SameChange now now' (now.removeFile path) (now'.removeFile path)
  | .listDirectory path => now'.directory path = now.directory path ∧
    ∀ place, now.directory path = .ok place → now'.isEmptyAt place = now.isEmptyAt place
  | .removeListed path => SameChange now now' (now.removeDirectory path) (now'.removeDirectory path)
  | .makeDirectories path => (now.makeDirectories path).2 = (now'.makeDirectories path).2 ∧
    Twins location start start' (now.makeDirectories path).1 (now'.makeDirectories path).1
  | .writeFile path text => SameChange now now' (now.writeFile path text.toUTF8)
    (now'.writeFile path text.toUTF8)
  | .refuse _ => True
  | .command script => (shell.run script now).2 = (shell.run script now').2 ∧
    Twins location start start' (shell.run script now).1 (shell.run script now').1

/-- **A step that meets the same** comes to the same. -/
theorem Step.perform_of_meetsSame {shell : Shell} {step : Step}
    (h : step.MeetsSame shell location start start' now now')
    (twins : Twins location start start' now now') (memory : Memory) :
    SameOutcome location start start' (step.perform shell now memory)
      (step.perform shell now' memory) := by
  cases step with
  | removeFile path => exact SameChange.tolerant twins h memory path
  | listDirectory path =>
    obtain ⟨hsame, hempty⟩ := h
    rw [perform, perform, hsame]
    rcases hdirectory : now.directory path with fault | place
    · cases fault <;> exact ⟨rfl, twins⟩
    · simp only [hempty place hdirectory]
      exact ⟨rfl, twins⟩
  | removeListed path =>
    rw [perform, perform]
    split_ifs
    · exact SameChange.strict twins h false path
    · exact ⟨rfl, twins⟩
  | makeDirectories path =>
    obtain ⟨hfault, hmade⟩ := h
    rw [perform, perform]
    rcases hmake : now.makeDirectories path with ⟨made, fault⟩
    rcases hmake' : now'.makeDirectories path with ⟨made', fault'⟩
    rw [hmake, hmake'] at hfault hmade
    obtain rfl : fault = fault' := hfault
    rcases fault with _ | fault <;> exact ⟨rfl, hmade⟩
  | writeFile path text => exact SameChange.strict twins h memory path
  | refuse error => exact ⟨rfl, twins⟩
  | command script =>
    obtain ⟨hend, hafter⟩ := h
    rw [perform, perform]
    rcases hrun : shell.run script now with ⟨after, completion⟩
    rcases hrun' : shell.run script now' with ⟨after', completion'⟩
    rw [hrun, hrun'] at hend hafter
    obtain rfl : completion = completion' := hend
    rcases completion with code | _
    · cases code <;> exact ⟨rfl, hafter⟩
    · exact ⟨rfl, hafter⟩

theorem Step.perform_of_twins (shell : Shell) (leads : directory.LeadsTo location)
    (leadsIn : ∀ file ∈ files, (directory.join file).LeadsTo (location ++ [file])) {step : Step}
    (h : step.KeepsTo directory files) (twins : Twins location start start' now now')
    (memory : Memory) : SameOutcome location start start' (step.perform shell now memory)
      (step.perform shell now' memory) := by
  have looks := twins.looks
  have notUp := leads.points_notMem
  refine Step.perform_of_meetsSame ?_ twins memory
  cases h with
  | removeFile mem => exact removeFile_of_looksLike looks (leadsIn _ mem)
  | listDirectory =>
    have hwalk : now'.walk [] location = now.walk [] location := walk_of_looksLike looks notUp
    rw [MeetsSame, directory_of_leadsTo leads, directory_of_leadsTo leads, hwalk]
    refine ⟨rfl, fun place hplace => ?_⟩
    obtain ⟨-, -, hreach⟩ := bind_eq_ok.mp hplace
    obtain rfl := eq_of_walk notUp hreach
    exact looks.isEmptyAt
  | removeListed => exact removeDirectory_of_looksLike looks leads
  | makeDirectories =>
    rw [MeetsSame, makeDirectories_of_leadsTo leads, makeDirectories_of_leadsTo leads]
    rcases check directory with fault | ⟨⟩
    · exact ⟨rfl, twins⟩
    · have hbegin : LooksLike ([] ++ location) now now' := looks
      exact twins.makeAll hbegin notUp
  | writeFile mem text => exact writeFile_of_looksLike looks (leadsIn _ mem) _
  | refuse error => trivial

theorem performAll_of_twins (shell : Shell) (leads : directory.LeadsTo location)
    (leadsIn : ∀ file ∈ files, (directory.join file).LeadsTo (location ++ [file])) :
    ∀ {steps : List Step} {now now' : Store} {memory : Memory},
      (∀ step ∈ steps, step.KeepsTo directory files) → Twins location start start' now now' →
      SameOutcome location start start' (performAll shell now memory steps)
        (performAll shell now' memory steps)
  | [], _, _, _, _, twins => ⟨rfl, twins⟩
  | step :: rest, now, now', memory, keeps, twins => by
    obtain ⟨hsame, htwins⟩ :=
      Step.perform_of_twins shell leads leadsIn (keeps step List.mem_cons_self) twins memory
    rw [performAll, performAll]
    rcases hnext : step.perform shell now memory with ⟨next, outcome⟩
    rcases hnext' : step.perform shell now' memory with ⟨next', outcome'⟩
    rw [hnext, hnext'] at hsame htwins
    obtain rfl : outcome = outcome' := hsame
    rcases outcome with fault | known
    · exact ⟨rfl, htwins⟩
    · exact performAll_of_twins shell leads leadsIn
        (fun step hstep => keeps step (List.mem_cons_of_mem _ hstep)) htwins

end Steps

end TokenSheets
