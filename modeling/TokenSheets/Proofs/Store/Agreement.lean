import Mathlib.Data.List.TakeWhile
import TokenSheets.Proofs.Store.Tree

/-!
# Stores that agree at a location

Of two stores, one may be what a build would find if it ran alone, the other one what it finds while
others run as well. They agree at its directory if nothing differs there or below; in front of it
the second store may have directories that the first one lacks.

Such stores are walked and changed alike, with one exception: where a directory is missing in one of
them, a name that does not fit may be reached in the other one.

* `Store.walk_of_agrees`: walks to the location end alike, or the first one finds nothing and the
  second one is refused;
* `Store.makeAll_of_agrees`: directories are made alike;
* `Store.removeFile_of_agrees`, `writeFile_of_agrees`, `removeDirectory_of_agrees`: so is every
  other change, with the same exception;
* `Store.GrownAlong.agreesAt`, `Store.Strays.agreesAt`: what grows in front of a name that does not
  fit disturbs no agreement.
-/

namespace TokenSheets.Store

variable {alone shared : Store} {location done rest : Location}

/-- **Two stores agree at a location**: nothing differs there or below, and in front of it the
second one has at most more directories. -/
structure AgreesAt (location : Location) (alone shared : Store) : Prop where
  below : ∀ rest, shared.get? (location ++ rest) = alone.get? (location ++ rest)
  above : ∀ front, front <+: location → shared.get? front = alone.get? front ∨
    (alone.get? front = none ∧ shared.get? front = some .directory)

theorem AgreesAt.refl (location : Location) (store : Store) : AgreesAt location store store :=
  ⟨fun _ => rfl, fun _ _ => .inl rfl⟩

theorem AgreesAt.at_location (agrees : AgreesAt location alone shared) :
    shared.get? location = alone.get? location := by
  simpa using agrees.below []

theorem AgreesAt.isEmptyAt (agrees : AgreesAt location alone shared) :
    shared.isEmptyAt location = alone.isEmptyAt location := by
  rw [Bool.eq_iff_iff, isEmptyAt_iff, isEmptyAt_iff]
  exact forall_congr' fun name => by rw [agrees.below [name]]

/-! ### Equal changes -/

theorem AgreesAt.put_both (agrees : AgreesAt location alone shared) {place : Location}
    (hplace : place ≠ []) (entry : Entry) :
    AgreesAt location (alone.put place entry) (shared.put place entry) where
  below rest := by
    rw [get?_put_at _ _ hplace, get?_put_at _ _ hplace, agrees.below rest]
  above front hfront := by
    rw [get?_put_at _ _ hplace, get?_put_at _ _ hplace]
    by_cases h : place = front
    · exact .inl (by rw [if_pos h, if_pos h])
    · rw [if_neg h, if_neg h]
      exact agrees.above front hfront

theorem AgreesAt.remove_both (agrees : AgreesAt location alone shared) {place : Location}
    (hplace : place ≠ []) : AgreesAt location (alone.remove place) (shared.remove place) where
  below rest := by
    rw [get?_remove_at _ hplace, get?_remove_at _ hplace, agrees.below rest]
  above front hfront := by
    rw [get?_remove_at _ hplace, get?_remove_at _ hplace]
    by_cases h : place = front
    · exact .inl (by rw [if_pos h, if_pos h])
    · rw [if_neg h, if_neg h]
      exact agrees.above front hfront

theorem AgreesAt.put_alone (agrees : AgreesAt location alone shared) {place : Location}
    (hplace : place ≠ []) (hthere : shared.get? place = some .directory) :
    AgreesAt location (alone.put place .directory) shared where
  below rest := by
    rw [get?_put_at _ _ hplace]
    by_cases h : place = location ++ rest
    · rw [if_pos h, ← h, hthere]
    · rw [if_neg h, agrees.below rest]
  above front hfront := by
    rw [get?_put_at _ _ hplace]
    by_cases h : place = front
    · exact .inl (by rw [if_pos h, ← h, hthere])
    · rw [if_neg h]
      exact agrees.above front hfront

/-! ### Walks -/

/-- Behind a directory that only the second store has, its walk finds nothing in the end, unless it
comes to a name that does not fit. -/
theorem walk_of_missing (tree : alone.IsTree) : ∀ {rest done : Location},
    AgreesAt (done ++ rest) alone shared → ".." ∉ rest → alone.get? done = none →
      shared.get? done = some .directory →
      shared.walk done rest = .error .notFound ∨
        (shared.walk done rest = .error .tooLong ∧ ∃ name ∈ rest, ¬ Fits name)
  | [], done, agrees, _, hmissing, hthere => by
    have hsame := agrees.at_location
    rw [List.append_nil, hmissing, hthere] at hsame
    simp at hsame
  | name :: rest, done, agrees, notUp, hmissing, hthere => by
    simp only [List.mem_cons, not_or] at notUp
    rw [walk, enter_eq (Ne.symm notUp.1)]
    by_cases hfits : Fits name
    · have hnone : alone.get? (done ++ [name]) = none :=
        tree.none_below (by simp [hmissing]) (by simp)
      rw [List.append_cons] at agrees
      rw [if_pos hfits]
      rcases agrees.above (done ++ [name]) (List.prefix_append _ _) with hsame | ⟨-, hdir⟩
      · rw [hsame, hnone]
        exact .inl rfl
      · rw [hdir]
        rcases walk_of_missing tree agrees notUp.2 hnone hdir with h | ⟨h, other, hother, hlong⟩
        · exact .inl h
        · exact .inr ⟨h, other, List.mem_cons_of_mem _ hother, hlong⟩
    · rw [if_neg hfits]
      exact .inr ⟨rfl, name, List.mem_cons_self, hfits⟩

/-- **Stores that agree are walked alike**, or the first walk finds a directory missing and the
second one comes to a name that does not fit. -/
theorem walk_of_agrees (tree : alone.IsTree) : ∀ {rest done : Location},
    AgreesAt (done ++ rest) alone shared → ".." ∉ rest →
      shared.walk done rest = alone.walk done rest ∨
        (alone.walk done rest = .error .notFound ∧ shared.walk done rest = .error .tooLong ∧
          ∃ name ∈ rest, ¬ Fits name)
  | [], _, _, _ => .inl rfl
  | name :: rest, done, agrees, notUp => by
    simp only [List.mem_cons, not_or] at notUp
    rw [walk, walk, enter_eq (Ne.symm notUp.1), enter_eq (Ne.symm notUp.1)]
    by_cases hfits : Fits name
    · rw [List.append_cons] at agrees
      rw [if_pos hfits, if_pos hfits]
      rcases agrees.above (done ++ [name]) (List.prefix_append _ _) with hsame | ⟨hnone, hdir⟩
      · rw [hsame]
        rcases alone.get? (done ++ [name]) with _ | content | _
        · exact .inl rfl
        · exact .inl rfl
        · rcases walk_of_agrees tree agrees notUp.2 with h | ⟨h, h', other, hother, hlong⟩
          · exact .inl h
          · exact .inr ⟨h, h', other, List.mem_cons_of_mem _ hother, hlong⟩
      · rw [hnone, hdir]
        rcases walk_of_missing tree agrees notUp.2 hnone hdir with h | ⟨h, other, hother, hlong⟩
        · exact .inl h
        · exact .inr ⟨rfl, h, other, List.mem_cons_of_mem _ hother, hlong⟩
    · rw [if_neg hfits, if_neg hfits]
      exact .inl rfl

/-! ### Directories that are made -/

/-- **Stores that agree have directories made alike**, and what is new in the second one in front of
the location is there in the first one as well. -/
theorem makeAll_of_agrees : ∀ {rest done : Location} {alone shared : Store},
    AgreesAt (done ++ rest) alone shared → ".." ∉ rest →
      (shared.makeAll done rest).2 = (alone.makeAll done rest).2 ∧
      AgreesAt (done ++ rest) (alone.makeAll done rest).1 (shared.makeAll done rest).1 ∧
      ∀ front, (shared.makeAll done rest).1.get? front = shared.get? front ∨
        (alone.makeAll done rest).1.get? front = some .directory
  | [], _, _, _, agrees, _ => ⟨rfl, agrees, fun _ => .inl rfl⟩
  | name :: rest, done, alone, shared, agrees, notUp => by
    simp only [List.mem_cons, not_or] at notUp
    rw [makeAll_cons (Ne.symm notUp.1), makeAll_cons (Ne.symm notUp.1)]
    by_cases hfits : Fits name
    · rw [List.append_cons done name rest] at agrees ⊢
      have hplace : done ++ [name] ≠ [] := by simp
      rw [if_pos hfits, if_pos hfits]
      rcases agrees.above (done ++ [name]) (List.prefix_append _ _) with hsame | ⟨hnone, hdir⟩
      · rw [hsame]
        rcases hthere : alone.get? (done ++ [name]) with _ | content | _
        · -- both stores have the directory made, so it is new in both
          obtain ⟨hfault, hagrees, hnew⟩ :=
            makeAll_of_agrees (agrees.put_both hplace .directory) notUp.2
          refine ⟨hfault, hagrees, fun front => ?_⟩
          by_cases hfront : done ++ [name] = front
          · subst hfront
            have hput : (alone.put (done ++ [name]) .directory).get? (done ++ [name]) =
                some .directory := by rw [get?_put_at _ _ hplace, if_pos rfl]
            rcases get?_makeAll notUp.2 (done ++ [name]) with h | ⟨-, -, h⟩
            · exact .inr (h.trans hput)
            · exact .inr h
          · have h := hnew front
            rwa [get?_put_at shared _ hplace, if_neg hfront] at h
        · exact ⟨rfl, agrees, fun _ => .inl rfl⟩
        · exact makeAll_of_agrees agrees notUp.2
      · -- the first store catches up with the second one
        rw [hnone, hdir]
        exact makeAll_of_agrees (agrees.put_alone hplace hdir) notUp.2
    · rw [if_neg hfits, if_neg hfits]
      exact ⟨rfl, agrees, fun _ => .inl rfl⟩

/-! ### Changes at the location -/

/-- **The exception**: on the way to the location the first store lacks a directory, and the second
one comes to a name that does not fit. -/
structure Strays (location : Location) (alone shared : Store) : Prop where
  missing : alone.walk [] location = .error .notFound
  refused : shared.walk [] location = .error .tooLong
  long : ∃ name ∈ location, ¬ Fits name

/-- **What a change comes to** in two stores that agree: to the same fault, or to stores that agree
again and have nothing new in front of the location. -/
inductive Alike (location : Location) (alone shared : Store) :
    Except PathFault Store → Except PathFault Store → Prop
  | fault (fault : PathFault) : Alike location alone shared (.error fault) (.error fault)
  | done {alone' shared' : Store} (agrees : AgreesAt location alone' shared')
    (kept : ∀ front, front <+: location → front ≠ location →
      shared'.get? front = shared.get? front) :
    Alike location alone shared (.ok alone') (.ok shared')
  | strays (strays : Strays location alone shared) :
    Alike location alone shared (.error .notFound) (.error .tooLong)

section Changes

variable {path : Path} {name : String}

/-- What comes behind a check and a walk is alike if it is alike in a directory that is there. -/
theorem alike_of_walk (tree : alone.IsTree) (agrees : AgreesAt location alone shared)
    (notUp : ".." ∉ location) {change change' : Except PathFault Store}
    (h : Alike location alone shared change change') :
    Alike location alone shared
      ((check path).bind fun _ => (alone.walk [] location).bind fun _ => change)
      ((check path).bind fun _ => (shared.walk [] location).bind fun _ => change') := by
  rcases check path with fault | ⟨⟩
  · exact .fault fault
  · have hwalk := walk_of_agrees tree (List.nil_append location ▸ agrees) notUp
    rcases hwalk with hwalk | ⟨hmissing, hrefused, hlong⟩
    · simp only [Except.bind, hwalk]
      rcases alone.walk [] location with fault | reached
      · exact .fault fault
      · exact h
    · simp only [Except.bind, hmissing, hrefused]
      exact .strays ⟨hmissing, hrefused, hlong⟩

theorem removeFile_of_agrees (tree : alone.IsTree) (agrees : AgreesAt location alone shared)
    (leads : path.LeadsTo (location ++ [name])) :
    Alike location alone shared (alone.removeFile path) (shared.removeFile path) := by
  have notUp : ".." ∉ location := fun h => leads.points_notMem (by simp [h])
  have hplace : location ++ [name] ≠ [] := by simp
  rw [removeFile_of_leadsTo leads, removeFile_of_leadsTo leads, agrees.below [name]]
  refine alike_of_walk tree agrees notUp ?_
  split_ifs
  · rcases alone.get? (location ++ [name]) with _ | content | _
    · exact .fault _
    · refine .done (agrees.remove_both hplace) fun front hfront _ => ?_
      rw [get?_remove_at _ hplace, if_neg]
      rintro rfl
      simpa using hfront.length_le
    · exact .fault _
  · exact .fault _

theorem writeFile_of_agrees (tree : alone.IsTree) (agrees : AgreesAt location alone shared)
    (leads : path.LeadsTo (location ++ [name])) (content : ByteArray) :
    Alike location alone shared (alone.writeFile path content) (shared.writeFile path content) := by
  have notUp : ".." ∉ location := fun h => leads.points_notMem (by simp [h])
  have hplace : location ++ [name] ≠ [] := by simp
  rw [writeFile_of_leadsTo leads, writeFile_of_leadsTo leads, agrees.below [name]]
  refine alike_of_walk tree agrees notUp ?_
  split_ifs
  · exact .fault _
  · refine .done (agrees.put_both hplace _) fun front hfront _ => ?_
    rw [get?_put_at _ _ hplace, if_neg]
    rintro rfl
    simpa using hfront.length_le
  · exact .fault _

theorem removeDirectory_of_agrees (tree : alone.IsTree) (agrees : AgreesAt location alone shared)
    (leads : path.LeadsTo location) :
    Alike location alone shared (alone.removeDirectory path) (shared.removeDirectory path) := by
  rw [removeDirectory_of_leadsTo leads, removeDirectory_of_leadsTo leads, agrees.isEmptyAt]
  refine alike_of_walk tree agrees leads.points_notMem ?_
  split_ifs
  · refine .done (agrees.remove_both leads.ne_nil) fun front _ hne => ?_
    rw [get?_remove_at _ leads.ne_nil, if_neg (Ne.symm hne)]
  · exact .fault _

end Changes

/-! ### Names that do not fit -/

/-- **A store that has grown**: it has directories of these names where nothing was. -/
def GrownAlong (names : List String) (before after : Store) : Prop :=
  ∀ other, after.get? other = before.get? other ∨
    (other <+: names ∧ before.get? other = none ∧ after.get? other = some .directory)

theorem GrownAlong.refl (names : List String) (store : Store) : GrownAlong names store store :=
  fun _ => .inl rfl

theorem GrownAlong.trans {names : List String} {first second third : Store}
    (h : GrownAlong names first second) (h' : GrownAlong names second third) :
    GrownAlong names first third := by
  intro other
  rcases h' other with hsame' | ⟨hplace, hnone, hdir⟩
  · rw [hsame']
    exact h other
  · rcases h other with hsame | ⟨-, -, hdir'⟩
    · exact .inr ⟨hplace, hsame ▸ hnone, hdir⟩
    · simp [hnone] at hdir'

theorem length_takeWhile_fits (long : ∃ name ∈ location, ¬ Fits name) :
    (location.takeWhile (Fits ·)).length < location.length := by
  refine lt_of_le_of_ne (List.takeWhile_prefix _).length_le fun hlength => ?_
  have hall := (List.takeWhile_prefix (fun name => decide (Fits name))).eq_of_length hlength
  obtain ⟨name, hname, hlong⟩ := long
  exact hlong (by simpa using List.takeWhile_eq_self_iff.mp hall name hname)

/-- **A store that has grown** in front of a name that does not fit agrees with what it was. -/
theorem GrownAlong.agreesAt (long : ∃ name ∈ location, ¬ Fits name)
    (h : GrownAlong (location.takeWhile (Fits ·)) alone shared) :
    AgreesAt location alone shared where
  below rest := by
    rcases h (location ++ rest) with hsame | ⟨hplace, -⟩
    · exact hsame
    · have := hplace.length_le
      have := length_takeWhile_fits long
      simp only [List.length_append] at *
      omega
  above front _ := by
    rcases h front with hsame | ⟨-, hnone, hdir⟩
    · exact .inl hsame
    · exact .inr ⟨hnone, hdir⟩

/-- A walk that is refused passed directories, up to the name that does not fit. -/
theorem get?_of_walk_refused {store : Store} : ∀ {rest done : Location}, ".." ∉ rest →
    store.walk done rest = .error .tooLong → ∀ front, front <+: rest.takeWhile (Fits ·) →
      front ≠ [] → store.get? (done ++ front) = some .directory
  | [], _, _, h => by simp [walk] at h
  | name :: rest, done, notUp, h => by
    intro front hfront hne
    simp only [List.mem_cons, not_or] at notUp
    rw [walk, enter_eq (Ne.symm notUp.1)] at h
    by_cases hfits : Fits name
    · rw [List.takeWhile_cons_of_pos (by simp [hfits])] at hfront
      rw [if_pos hfits] at h
      rcases hthere : store.get? (done ++ [name]) with _ | content | _
      · simp [hthere, Except.bind] at h
      · simp [hthere, Except.bind] at h
      · rw [hthere] at h
        rcases front with _ | ⟨first, front⟩
        · exact absurd rfl hne
        · obtain ⟨rfl, hrest⟩ := List.cons_prefix_cons.mp hfront
          by_cases hnil : front = []
          · rwa [hnil]
          · rw [List.append_cons]
            exact get?_of_walk_refused notUp.2 h front hrest hnil
    · rw [List.takeWhile_cons_of_neg (by simp [hfits])] at hfront
      exact absurd (List.prefix_nil.mp hfront) hne

/-- **The exception heals**: what the first store lacks may grow in it. -/
theorem Strays.agreesAt (strays : Strays location alone shared) (notUp : ".." ∉ location)
    (agrees : AgreesAt location alone shared) {grown : Store}
    (h : GrownAlong (location.takeWhile (Fits ·)) alone grown) :
    AgreesAt location grown shared where
  below rest := by
    rw [agrees.below rest, (h.agreesAt strays.long).below rest]
  above front hfront := by
    rcases h front with hsame | ⟨hplace, hnone, hdir⟩
    · rw [hsame]
      exact agrees.above front hfront
    · by_cases hnil : front = []
      · subst hnil
        exact .inl rfl
      · have hthere := get?_of_walk_refused notUp strays.refused front hplace hnil
        exact .inl (by rw [hdir, ← hthere, List.nil_append])

end TokenSheets.Store
