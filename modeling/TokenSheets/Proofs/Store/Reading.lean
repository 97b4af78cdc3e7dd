import TokenSheets.Proofs.Store.Tree

/-!
# Reading what is left alone

What is read at a path depends on the places that the path comes past, one for each of its names.
If they are as they were, the same is read. A directory that is made where nothing was does no harm
either, unless the path leads up from it: behind it there was nothing to read, and there still is
nothing.

* `Store.placeOf`: the place that names lead to;
* `Store.LeftAlone`: the places that a path comes past are as they were, or harmless;
* `Store.readText_of_leftAlone`: then the same is read.
-/

namespace TokenSheets.Store

variable {before after : Store}

/-- The place that one name leads to, up or down. -/
def placeOne (location : Location) (name : String) : Location :=
  if name = ".." then location.dropLast else location ++ [name]

/-- **The place that names lead to** from the root on, whether anything is there or not. -/
def placeOf (names : List String) : Location := names.foldl placeOne []

theorem placeOf_nil : placeOf [] = [] := rfl

theorem placeOf_concat (names : List String) (name : String) :
    placeOf (names ++ [name]) = placeOne (placeOf names) name := by
  simp [placeOf]

theorem placeOne_of_ne {location : Location} {name : String} (h : name ≠ "..") :
    placeOne location name = location ++ [name] := if_neg h

theorem placeOf_of_notUp {names : List String} (h : ".." ∉ names) : placeOf names = names := by
  suffices hall : ∀ location, names.foldl placeOne location = location ++ names from hall []
  induction names with
  | nil => simp
  | cons name rest ih =>
    simp only [List.mem_cons, not_or] at h
    intro location
    rw [List.foldl_cons, placeOne_of_ne (Ne.symm h.1), ih h.2, List.append_assoc,
      List.singleton_append]

theorem walk_placeOf {store : Store} : ∀ {rest done : List String} {reached : Location},
    store.walk (placeOf done) rest = .ok reached → reached = placeOf (done ++ rest)
  | [], done, reached, h => by
    rw [List.append_nil]
    exact (Except.ok.inj h).symm
  | name :: rest, done, reached, h => by
    obtain ⟨next, hnext, hrest⟩ := bind_eq_ok.mp h
    have hplace : next = placeOf (done ++ [name]) := by
      rw [placeOf_concat]
      by_cases hup : name = ".."
      · subst hup
        exact (Except.ok.inj hnext).symm
      · rw [placeOne_of_ne hup]
        exact ((enter_eq_ok hup).mp hnext).2.2
    rw [hplace] at hrest
    rw [List.append_cons]
    exact walk_placeOf hrest

/-- **A path that is left alone**: every place that it comes past is as it was, or a directory was
made where nothing was, and the path does not lead up from it. -/
def LeftAlone (names : List String) (before after : Store) : Prop :=
  ∀ front, front <+: names → after.get? (placeOf front) = before.get? (placeOf front) ∨
    (before.get? (placeOf front) = none ∧ after.get? (placeOf front) = some .directory ∧
      ¬ front ++ [".."] <+: names)

/-- **From a directory that was made** a walk gets to nothing that was there before. -/
theorem none_of_walk_made (tree : before.IsTree) : ∀ {rest done : List String} {reached : Location},
    LeftAlone (done ++ rest) before after → before.get? (placeOf done) = none →
      ¬ done ++ [".."] <+: done ++ rest → after.walk (placeOf done) rest = .ok reached →
      before.get? reached = none
  | [], _, _, _, hnone, _, h => Except.ok.inj h ▸ hnone
  | name :: rest, done, reached, alone, hnone, notUp, h => by
    have hup : name ≠ ".." := by
      rintro rfl
      exact notUp ((List.prefix_append_right_inj done).mpr ⟨rest, rfl⟩)
    obtain ⟨next, hnext, hrest⟩ := bind_eq_ok.mp h
    obtain ⟨-, hthere, rfl⟩ := (enter_eq_ok hup).mp hnext
    have hplace : placeOf (done ++ [name]) = placeOf done ++ [name] := by
      rw [placeOf_concat, placeOne_of_ne hup]
    have hbefore : before.get? (placeOf done ++ [name]) = none :=
      tree.none_below (by simp [hnone]) (by simp)
    rw [List.append_cons] at alone
    rw [← hplace] at hrest hthere hbefore
    rcases alone (done ++ [name]) (List.prefix_append _ _) with hsame | ⟨-, -, notUp'⟩
    · rw [hsame, hbefore] at hthere
      simp at hthere
    · exact none_of_walk_made tree alone hbefore notUp' hrest

/-- **Walks along a path that is left alone** end alike, or the first one fails and the second one
gets to nothing that was there before. -/
theorem walk_of_leftAlone (tree : before.IsTree) : ∀ {rest done : List String},
    LeftAlone (done ++ rest) before after →
      after.walk (placeOf done) rest = before.walk (placeOf done) rest ∨
        ((∃ fault, before.walk (placeOf done) rest = .error fault) ∧
          ∀ reached, after.walk (placeOf done) rest = .ok reached → before.get? reached = none)
  | [], _, _ => .inl rfl
  | name :: rest, done, alone => by
    rw [List.append_cons] at alone
    have hrest := walk_of_leftAlone tree alone
    rw [placeOf_concat] at hrest
    rw [walk, walk]
    by_cases hup : name = ".."
    · subst hup
      exact hrest
    · rw [placeOne_of_ne hup] at hrest
      rw [enter_eq hup, enter_eq hup]
      by_cases hfits : Fits name
      · rw [if_pos hfits, if_pos hfits]
        have hfront := alone (done ++ [name]) (List.prefix_append _ _)
        rw [placeOf_concat, placeOne_of_ne hup] at hfront
        rcases hfront with hsame | ⟨hnone, hdir, notUp⟩
        · rw [hsame]
          rcases before.get? (placeOf done ++ [name]) with _ | content | _
          · exact .inl rfl
          · exact .inl rfl
          · exact hrest
        · rw [hnone, hdir]
          refine .inr ⟨⟨_, rfl⟩, fun reached hreached => ?_⟩
          have hplace : placeOf (done ++ [name]) = placeOf done ++ [name] := by
            rw [placeOf_concat, placeOne_of_ne hup]
          exact none_of_walk_made tree alone (hplace ▸ hnone) notUp (hplace ▸ hreached)
      · rw [if_neg hfits, if_neg hfits]
        exact .inl rfl

/-- **Reading a name** behind others: the walk along the others, and what is under the name. -/
theorem readText_of_segments {path : Path} {front : List String} {name : String}
    (hsegments : path.segments = front ++ [name]) (hup : name ≠ "..") (store : Store) :
    store.readText path =
      if check path = .ok () ∧ Fits name ∧ path.meansDirectory = false then
        match store.walk [] front with
        | .ok reached =>
          match store.get? (reached ++ [name]) with
          | some (.file content) => String.fromUTF8? content
          | _ => none
        | .error _ => none
      else none := by
  rw [readText_eq, readFile, locate_concat hsegments hup]
  rcases check path with fault | ⟨⟩
  · simp [bind, Except.bind]
  · rcases store.walk [] front with fault | reached
    · simp [bind, Except.bind]
    · by_cases hfits : Fits name
      · rcases path.meansDirectory <;>
          rcases hget : store.get? (reached ++ [name]) with _ | _ | _ <;>
          simp [hfits, hget, bind, Except.bind, pure, Except.pure, throw, throwThe,
            MonadExceptOf.throw]
      · simp [hfits, bind, Except.bind]

theorem readText_of_directory {path : Path}
    (h : path.segments = [] ∨ path.segments.getLast? = some "..") (store : Store) :
    store.readText path = none := by
  rw [readText_eq, readFile, locate]
  rcases check path with fault | ⟨⟩
  · rfl
  · rcases h with h | h
    · simp only [h, List.getLast?_nil]
      rfl
    · simp only [h, if_true, bind, Except.bind]
      rcases store.walk [] path.segments <;> rfl

/-- **What is left alone is read alike.** -/
theorem readText_of_leftAlone (tree : before.IsTree) {path : Path}
    (alone : LeftAlone path.segments before after) :
    after.readText path = before.readText path := by
  rcases List.eq_nil_or_concat' path.segments with hnil | ⟨front, name, hsegments⟩
  · rw [readText_of_directory (.inl hnil), readText_of_directory (.inl hnil)]
  · by_cases hup : name = ".."
    · have hlast : path.segments.getLast? = some ".." := by simp [hsegments, hup]
      rw [readText_of_directory (.inr hlast), readText_of_directory (.inr hlast)]
    · rw [readText_of_segments hsegments hup, readText_of_segments hsegments hup]
      rw [hsegments] at alone
      have hfront : LeftAlone ([] ++ front) before after := fun other hother => by
        rcases alone other (hother.trans (List.prefix_append _ _)) with hsame | ⟨hnone, hdir, notUp⟩
        · exact .inl hsame
        · exact .inr ⟨hnone, hdir, fun h => notUp (h.trans (List.prefix_append _ _))⟩
      have hplace : ∀ {store : Store} {reached}, store.walk [] front = .ok reached →
          reached ++ [name] = placeOf (front ++ [name]) := fun h => by
        rw [← placeOf_nil] at h
        rw [placeOf_concat, placeOne_of_ne hup, walk_placeOf h, List.nil_append]
      congr 1
      have hwalk := walk_of_leftAlone tree hfront
      rw [placeOf_nil] at hwalk
      rcases hwalk with hsame | ⟨⟨fault, hfault⟩, hgone⟩
      · rw [hsame]
        rcases hreach : before.walk [] front with fault | reached
        · rfl
        · simp only [hplace hreach]
          rcases alone _ List.prefix_rfl with hsame | ⟨hnone, hdir, -⟩
          · rw [hsame]
          · rw [hnone, hdir]
      · rcases hreach : after.walk [] front with fault' | reached
        · rw [hfault]
        · have hnone : before.get? (reached ++ [name]) = none :=
            tree.none_below (by simp [hgone reached hreach]) (by simp)
          rw [hfault]
          simp only [hplace hreach] at hnone ⊢
          rcases alone _ List.prefix_rfl with hsame | ⟨-, hdir, -⟩
          · rw [hsame, hnone]
          · rw [hdir]

end TokenSheets.Store
