import TokenSheets.Proofs.Store.Walk

/-!
# Stores whose files and directories make a tree

In a store that comes from files, everything is in a directory. `Store.IsTree` says so; each single
change keeps it. Making a directory with what is missing above it changes nothing else: only
directories are new, and only at names that fit.

* `Store.IsTree.none_below`: nothing is below a file, and nothing below what is missing;
* `Store.IsTree.directory_of_walk`: walks end in directories;
* `Store.IsTree.put`, `Store.IsTree.remove`, `Store.IsTree.makeAll`: what keeps a tree;
* `Store.get?_makeAll`: what is at a location once directories are made;
* `Store.walk_makeAll`: a walk along the names then ends as making them did.
-/

namespace TokenSheets.Store

variable {store : Store} {location : Location} {name : String}

/-- **Everything is in a directory.** -/
def IsTree (store : Store) : Prop :=
  ∀ location name, store.get? (location ++ [name]) ≠ none → store.get? location = some .directory

/-! ### What keeps a tree -/

theorem isTree_empty : empty.IsTree := by
  intro location name h
  simp [get?, empty] at h

theorem isTree_of_keys (h : ∀ place ∈ Entries.keys store.entries,
    store.get? place.dropLast = some .directory) : store.IsTree := by
  intro location name hsome
  rw [get?, if_neg (by simp), ne_eq, Entries.get?_eq_none_iff, not_not] at hsome
  simpa using h _ hsome

theorem IsTree.none_below (tree : store.IsTree) : ∀ {rest location : Location},
    store.get? location ≠ some .directory → rest ≠ [] → store.get? (location ++ rest) = none
  | [], _, _, h => absurd rfl h
  | name :: rest, location, h, _ => by
    have hnone : store.get? (location ++ [name]) = none :=
      by_contra fun hsome => h (tree location name hsome)
    by_cases hrest : rest = []
    · rwa [hrest]
    · rw [List.append_cons]
      exact tree.none_below (by simp [hnone]) hrest

theorem IsTree.directory_front (tree : store.IsTree) (h : store.get? location = some .directory)
    {front : Location} (hfront : front <+: location) : store.get? front = some .directory := by
  obtain ⟨rest, rfl⟩ := hfront
  by_contra hnot
  by_cases hrest : rest = []
  · exact hnot (by rwa [hrest, List.append_nil] at h)
  · simp [tree.none_below hnot hrest] at h

/-- **A walk from a directory** ends in one, also if it leads up. -/
theorem IsTree.directory_of_walk (tree : store.IsTree) : ∀ {names : List String}
    {location reached : Location}, store.get? location = some .directory →
      store.walk location names = .ok reached → store.get? reached = some .directory
  | [], _, _, h, hok => Except.ok.inj hok ▸ h
  | name :: rest, location, reached, h, hok => by
    obtain ⟨next, henter, hrest⟩ := bind_eq_ok.mp hok
    refine tree.directory_of_walk ?_ hrest
    by_cases hup : name = ".."
    · rw [enter, if_pos hup] at henter
      obtain rfl := Except.ok.inj henter
      exact tree.directory_front h (List.dropLast_prefix location)
    · obtain ⟨-, hthere, rfl⟩ := (enter_eq_ok hup).mp henter
      exact hthere

theorem IsTree.put (tree : store.IsTree) (parent : store.get? location = some .directory)
    (hnot : store.get? (location ++ [name]) ≠ some .directory) (entry : Entry) :
    (store.put (location ++ [name]) entry).IsTree := by
  intro front last h
  rw [get?_put_at _ _ (by simp)] at h ⊢
  by_cases hlast : location ++ [name] = front ++ [last]
  · obtain ⟨rfl, -⟩ := List.append_inj' hlast rfl
    rwa [if_neg (by simp)]
  · rw [if_neg hlast] at h
    have hdir := tree front last h
    by_cases hfront : location ++ [name] = front
    · exact absurd (hfront ▸ hdir) hnot
    · rwa [if_neg hfront]

theorem IsTree.remove (tree : store.IsTree) (hroot : location ≠ [])
    (hbelow : ∀ name, store.get? (location ++ [name]) = none) : (store.remove location).IsTree := by
  intro front last h
  rw [get?_remove_at _ hroot] at h ⊢
  by_cases hlast : location = front ++ [last]
  · simp [hlast] at h
  · rw [if_neg hlast] at h
    by_cases hfront : location = front
    · exact absurd (hfront ▸ hbelow last) h
    · rw [if_neg hfront]
      exact tree front last h

/-! ### Directories that are made -/

/-- **One name of a directory that is made**: it is passed if it is there, and made if nothing
is. -/
theorem makeAll_cons (notUp : name ≠ "..") (rest : List String) :
    store.makeAll location (name :: rest) =
      if Fits name then
        match store.get? (location ++ [name]) with
        | some .directory => store.makeAll (location ++ [name]) rest
        | some (.file _) => (store, some (fileInTheWay rest))
        | none => (store.put (location ++ [name]) .directory).makeAll (location ++ [name]) rest
      else (store, some .tooLong) := by
  rw [makeAll, enter_eq notUp]
  by_cases hfits : Fits name
  · rw [if_pos hfits, if_pos hfits]
    rcases store.get? (location ++ [name]) with _ | _ | _ <;> rfl
  · rw [if_neg hfits, if_neg hfits]

theorem fits_of_makeAll : ∀ {names : List String} {store : Store} {location : Location},
    ".." ∉ names → (store.makeAll location names).2 = none → ∀ name ∈ names, Fits name
  | [], _, _, _, _ => by simp
  | name :: rest, store, location, notUp, h => by
    simp only [List.mem_cons, not_or] at notUp
    rw [makeAll_cons (Ne.symm notUp.1)] at h
    split_ifs at h with hfits
    rw [List.forall_mem_cons]
    refine ⟨hfits, ?_⟩
    rcases hthere : store.get? (location ++ [name]) with _ | content | _
    · exact fits_of_makeAll notUp.2 (by simpa [hthere] using h)
    · simp [hthere] at h
    · exact fits_of_makeAll notUp.2 (by simpa [hthere] using h)

/-- **What making directories changes**: where nothing was there may be a directory, in front of the
first name that does not fit. -/
theorem get?_makeAll : ∀ {names : List String} {store : Store} {location : Location},
    ".." ∉ names → ∀ other,
      (store.makeAll location names).1.get? other = store.get? other ∨
        (other <+: location ++ names.takeWhile (Fits ·) ∧ store.get? other = none ∧
          (store.makeAll location names).1.get? other = some .directory)
  | [], _, _, _, _ => .inl rfl
  | name :: rest, store, location, notUp, other => by
    simp only [List.mem_cons, not_or] at notUp
    rw [makeAll_cons (Ne.symm notUp.1)]
    by_cases hfits : Fits name
    · rw [if_pos hfits, List.takeWhile_cons_of_pos (by simp [hfits]),
        List.append_cons location name (rest.takeWhile _)]
      rcases hthere : store.get? (location ++ [name]) with _ | content | _
      · have hput := get?_put_at store .directory (by simp : location ++ [name] ≠ []) other
        have hrest := @get?_makeAll rest (store.put (location ++ [name]) .directory)
          (location ++ [name]) notUp.2 other
        by_cases hother : location ++ [name] = other
        · subst hother
          rw [if_pos rfl] at hput
          refine .inr ⟨List.prefix_append _ _, hthere, ?_⟩
          rcases hrest with h | h
          · exact h.trans hput
          · exact h.2.2
        · rw [if_neg hother] at hput
          rwa [hput] at hrest
      · exact .inl rfl
      · exact get?_makeAll notUp.2 other
    · rw [if_neg hfits]
      exact .inl rfl

theorem IsTree.makeAll : ∀ {names : List String} {store : Store} {location : Location},
    store.IsTree → ".." ∉ names → store.get? location = some .directory →
      (store.makeAll location names).1.IsTree
  | [], _, _, tree, _, _ => tree
  | name :: rest, store, location, tree, notUp, parent => by
    simp only [List.mem_cons, not_or] at notUp
    rw [makeAll_cons (Ne.symm notUp.1)]
    split_ifs
    · rcases hthere : store.get? (location ++ [name]) with _ | content | _
      · refine (tree.put parent (by simp [hthere]) .directory).makeAll notUp.2 ?_
        rw [get?_put_at _ _ (by simp), if_pos rfl]
      · exact tree
      · exact tree.makeAll notUp.2 hthere
    · exact tree

/-! ### Walks behind directories that are made -/

theorem directory_makeAll {names : List String} (notUp : ".." ∉ names) {other : Location}
    (h : store.get? other = some .directory) :
    (store.makeAll location names).1.get? other = some .directory := by
  rcases get?_makeAll notUp other with hsame | ⟨-, hnone, -⟩
  · exact hsame.trans h
  · simp [h] at hnone

theorem fileInTheWay_ne_notFound (rest : List String) : fileInTheWay rest ≠ .notFound := by
  unfold fileInTheWay
  split_ifs <;> simp

theorem makeAll_ne_notFound : ∀ {names : List String} {store : Store} {location : Location},
    ".." ∉ names → (store.makeAll location names).2 ≠ some .notFound
  | [], _, _, _ => by simp [Store.makeAll]
  | name :: rest, store, location, notUp => by
    simp only [List.mem_cons, not_or] at notUp
    rw [makeAll_cons (Ne.symm notUp.1)]
    split_ifs
    · rcases store.get? (location ++ [name]) with _ | content | _
      · exact makeAll_ne_notFound notUp.2
      · simpa using fileInTheWay_ne_notFound rest
      · exact makeAll_ne_notFound notUp.2
    · simp

/-- The fault of a walk to a directory that cannot be made. -/
def faultOnWay : PathFault → PathFault
  | .alreadyThere => .notDirectory
  | fault => fault

theorem faultOnWay_fileInTheWay (rest : List String) :
    faultOnWay (fileInTheWay rest) = .notDirectory := by
  unfold fileInTheWay
  split_ifs <;> rfl

theorem faultOnWay_ne_notFound {fault : PathFault} (h : fault ≠ .notFound) :
    faultOnWay fault ≠ .notFound := by
  cases fault <;> simp_all [faultOnWay]

/-- **A walk along directories that were made** ends as making them did. -/
theorem walk_makeAll : ∀ {names : List String} {store : Store} {location : Location},
    ".." ∉ names → (store.makeAll location names).1.walk location names =
      match (store.makeAll location names).2 with
      | none => .ok (location ++ names)
      | some fault => .error (faultOnWay fault)
  | [], _, location, _ => by simp [Store.makeAll, walk]
  | name :: rest, store, location, notUp => by
    simp only [List.mem_cons, not_or] at notUp
    rw [makeAll_cons (Ne.symm notUp.1), walk, enter_eq (Ne.symm notUp.1)]
    by_cases hfits : Fits name
    · rw [if_pos hfits, if_pos hfits]
      rcases hthere : store.get? (location ++ [name]) with _ | content | _
      · have hmade : (store.put (location ++ [name]) .directory).get? (location ++ [name]) =
            some .directory := by rw [get?_put_at _ _ (by simp), if_pos rfl]
        simp only [directory_makeAll notUp.2 hmade, Except.bind, walk_makeAll notUp.2,
          List.append_assoc, List.singleton_append]
      · simp only [hthere, Except.bind, faultOnWay_fileInTheWay]
      · simp only [directory_makeAll notUp.2 hthere, Except.bind, walk_makeAll notUp.2,
          List.append_assoc, List.singleton_append]
    · rw [if_neg hfits, if_neg hfits]
      rfl

/-- **Where a walk ends**, making directories begins. -/
theorem makeAll_append_of_walk {rest : List String} : ∀ {names : List String}
    {location reached : Location}, store.walk location names = .ok reached →
      store.makeAll location (names ++ rest) = store.makeAll reached rest
  | [], _, _, h => by rw [Except.ok.inj h, List.nil_append]
  | name :: names, location, reached, h => by
    rw [walk] at h
    rw [List.cons_append, Store.makeAll]
    rcases henter : store.enter location name with fault | next
    · simp [henter, Except.bind] at h
    · rw [henter] at h
      exact makeAll_append_of_walk h

theorem makeAll_of_walk {names : List String} {location reached : Location}
    (h : store.walk location names = .ok reached) :
    store.makeAll location names = (store, none) := by
  have hrest := @makeAll_append_of_walk store [] names location reached h
  rwa [List.append_nil] at hrest

theorem makeAll_of_none : ∀ {names : List String} {store : Store} {location : Location},
    ".." ∉ names → (∀ name ∈ names, Fits name) →
      (∀ more, more ≠ [] → store.get? (location ++ more) = none) →
      (store.makeAll location names).2 = none
  | [], _, _, _, _, _ => rfl
  | name :: rest, store, location, notUp, fits, hnone => by
    simp only [List.mem_cons, not_or] at notUp
    rw [makeAll_cons (Ne.symm notUp.1), if_pos (fits name List.mem_cons_self),
      hnone [name] (by simp)]
    refine makeAll_of_none notUp.2 (fun n hn => fits n (List.mem_cons_of_mem _ hn))
      fun more hne => ?_
    rw [get?_put_at _ _ (by simp), if_neg (by simpa using hne), List.append_assoc]
    exact hnone _ (by simp)

theorem makeAll_of_notFound (tree : store.IsTree) : ∀ {names : List String} {location : Location},
    ".." ∉ names → (∀ name ∈ names, Fits name) → store.walk location names = .error .notFound →
      (store.makeAll location names).2 = none
  | [], _, _, _, _ => rfl
  | name :: rest, location, notUp, fits, h => by
    simp only [List.mem_cons, not_or] at notUp
    have hfits : ∀ n ∈ rest, Fits n := fun n hn => fits n (List.mem_cons_of_mem _ hn)
    rw [walk, enter_eq (Ne.symm notUp.1), if_pos (fits name List.mem_cons_self)] at h
    rw [makeAll_cons (Ne.symm notUp.1), if_pos (fits name List.mem_cons_self)]
    rcases hthere : store.get? (location ++ [name]) with _ | content | _
    · refine makeAll_of_none notUp.2 hfits fun more hne => ?_
      rw [get?_put_at _ _ (by simp), if_neg (by simpa using hne)]
      exact tree.none_below (by simp [hthere]) hne
    · simp [hthere, Except.bind] at h
    · rw [hthere] at h
      exact makeAll_of_notFound tree notUp.2 hfits h

end TokenSheets.Store
