import TokenSheets.Proofs.Store.Reading

/-!
# Looking things up while others are removed

If things are removed from a store, a walk comes to the same as before, or a name on it is missing
now. So a path that is missing stays missing, and a directory that is found was found before. This
holds for every path, also for one that leads up.

* `Store.place_of_child`, `Store.place_of_directory`: what is found is at the place of the names;
* `Store.IsMissing`: a path of which a name is missing;
* `Store.Shrinks`: things were removed, nothing else happened;
* `Store.Shrinks.directory`, `Store.Shrinks.isMissing`: lookups before and after;
* `Store.of_removeFile_eq_ok`, `Store.of_removeDirectory_eq_ok`: what a removal takes away.
-/

namespace TokenSheets.Store

variable {store after : Store} {path : Path} {location reached : Location} {name : String}

/-! ### Places that are found -/

theorem of_locate_eq_child (h : store.locate path = .ok (.child location name)) :
    ∃ front, path.segments = front ++ [name] ∧ name ≠ ".." ∧ Fits name ∧
      store.walk [] front = .ok location := by
  rcases List.eq_nil_or_concat' path.segments with hnil | ⟨front, last, hsegments⟩
  · rw [locate_nil hnil] at h
    obtain ⟨-, -, h⟩ := bind_eq_ok.mp h
    simp at h
  · by_cases hup : last = ".."
    · rw [locate_up (hup ▸ hsegments)] at h
      obtain ⟨-, -, h⟩ := bind_eq_ok.mp h
      obtain ⟨reached, -, h⟩ := bind_eq_ok.mp h
      simp at h
    · rw [locate_concat hsegments hup] at h
      obtain ⟨-, -, h⟩ := bind_eq_ok.mp h
      obtain ⟨reached, hwalk, h⟩ := bind_eq_ok.mp h
      split_ifs at h with hfits
      obtain ⟨rfl, rfl⟩ := Target.child.inj (Except.ok.inj h)
      exact ⟨front, hsegments, hup, hfits, hwalk⟩

theorem place_of_child (h : store.locate path = .ok (.child location name)) :
    location ++ [name] = placeOf path.segments := by
  obtain ⟨front, hsegments, hup, -, hwalk⟩ := of_locate_eq_child h
  rw [← placeOf_nil] at hwalk
  rw [hsegments, placeOf_concat, placeOne_of_ne hup, walk_placeOf hwalk, List.nil_append]

theorem place_of_directory (h : store.directory path = .ok location) :
    location = placeOf path.segments := by
  rw [directory_eq] at h
  obtain ⟨-, -, hwalk⟩ := bind_eq_ok.mp h
  rw [← placeOf_nil] at hwalk
  simpa using walk_placeOf hwalk

/-! ### Changes in terms of the lookup -/

theorem removeFile_of_child (h : store.locate path = .ok (.child location name)) :
    store.removeFile path =
      match store.get? (location ++ [name]) with
      | none => .error .notFound
      | some .directory => .error .isDirectory
      | some (.file _) =>
        if path.meansDirectory then .error .notDirectory
        else .ok (store.remove (location ++ [name])) := by
  rw [removeFile, h]
  rfl

theorem removeDirectory_of_child (h : store.locate path = .ok (.child location name)) :
    store.removeDirectory path = (store.enter location name).bind fun place =>
      if path.endsInPoint then .error .invalidArgument
      else if store.isEmptyAt place then .ok (store.remove place)
      else .error .notEmpty := by
  rw [removeDirectory, h]
  rfl

/-! ### Paths that are missing -/

/-- **A path that is missing**: a name on the way is not there, and what is in front of it are
directories. -/
def IsMissing (store : Store) (path : Path) : Prop := store.directory path = .error .notFound

theorem isMissing_of_locate (h : store.locate path = .error .notFound) : store.IsMissing path := by
  rw [IsMissing, directory, h]
  rfl

theorem isMissing_iff_of_child (h : store.locate path = .ok (.child location name)) :
    store.IsMissing path ↔ store.get? (location ++ [name]) = none := by
  obtain ⟨-, -, hup, hfits, -⟩ := of_locate_eq_child h
  have henter : store.directory path = store.enter location name := by
    rw [directory, h]
    rfl
  rw [IsMissing, henter, enter_eq hup, if_pos hfits]
  rcases store.get? (location ++ [name]) with _ | _ | _ <;> simp

theorem removeFile_eq_notFound :
    store.removeFile path = .error .notFound ↔ store.IsMissing path := by
  rcases hlocate : store.locate path with fault | location | ⟨location, name⟩
  · rw [IsMissing, removeFile, directory, hlocate]
    simp [bind, Except.bind]
  · have hdirectory : store.directory path = .ok location := by
      rw [directory, hlocate]
      rfl
    rw [IsMissing, hdirectory, removeFile, hlocate]
    exact iff_of_false (by rintro ⟨⟩) (by rintro ⟨⟩)
  · rw [isMissing_iff_of_child hlocate, removeFile_of_child hlocate]
    rcases store.get? (location ++ [name]) with _ | _ | _ <;> simp
    split_ifs <;> simp

theorem IsMissing.isThere_eq (h : store.IsMissing path) : store.isThere path = false := by
  have hread : (store.readFile path).isOk = false := by
    rcases hlocate : store.locate path with fault | location | ⟨location, name⟩
    · rw [readFile, hlocate]
      rfl
    · rw [readFile, hlocate]
      rfl
    · rw [readFile, hlocate]
      simp only [bind, Except.bind, (isMissing_iff_of_child hlocate).mp h]
      rfl
  rw [isThere, hread, h]
  rfl

/-! ### Stores that shrink -/

/-- **Things were removed** and nothing else happened: nothing is new, and nothing is changed. -/
def Shrinks (store after : Store) : Prop :=
  ∀ place, after.get? place = store.get? place ∨ after.get? place = none


theorem Shrinks.trans {middle : Store} (h : store.Shrinks middle) (h' : middle.Shrinks after) :
    store.Shrinks after := by
  intro place
  rcases h' place with hsame | hnone
  · rw [hsame]
    exact h place
  · exact .inr hnone

theorem shrinks_remove (hne : location ≠ []) : store.Shrinks (store.remove location) := by
  intro place
  rw [get?_remove_at store hne]
  split_ifs
  · exact .inr rfl
  · exact .inl rfl

theorem Shrinks.get?_eq_some (h : store.Shrinks after) {place : Location} {entry : Entry}
    (hsome : after.get? place = some entry) : store.get? place = some entry := by
  rcases h place with hsame | hnone
  · rw [← hsame, hsome]
  · simp [hsome] at hnone

theorem Shrinks.get?_eq_none (h : store.Shrinks after) {place : Location}
    (hnone : store.get? place = none) : after.get? place = none := by
  rcases h place with hsame | hnone'
  · rw [hsame, hnone]
  · exact hnone'

/-- **One name of a walk** leads where it led, or is missing now. -/
theorem Shrinks.enter (h : store.Shrinks after) (location : Location) (name : String) :
    after.enter location name = store.enter location name ∨
      after.enter location name = .error .notFound := by
  by_cases hup : name = ".."
  · subst hup
    exact .inl rfl
  · rw [enter_eq hup, enter_eq hup]
    split_ifs
    · rcases h (location ++ [name]) with hsame | hnone
      · exact .inl (by rw [hsame])
      · exact .inr (by rw [hnone])
    · exact .inl rfl

/-- **A walk** ends as it did, or a name on it is missing now. -/
theorem Shrinks.walk (h : store.Shrinks after) : ∀ (names : List String) (location : Location),
    after.walk location names = store.walk location names ∨
      after.walk location names = .error .notFound
  | [], _ => .inl rfl
  | name :: rest, location => by
    rw [Store.walk, Store.walk]
    rcases h.enter location name with hsame | hmissing
    · rw [hsame]
      rcases store.enter location name with fault | next
      · exact .inl rfl
      · exact h.walk rest next
    · exact .inr (by rw [hmissing]; rfl)

theorem Shrinks.locate (h : store.Shrinks after) (path : Path) :
    after.locate path = store.locate path ∨ after.locate path = .error .notFound := by
  rcases List.eq_nil_or_concat' path.segments with hnil | ⟨front, name, hsegments⟩
  · exact .inl (by rw [locate_nil hnil, locate_nil hnil])
  · by_cases hup : name = ".."
    · rw [locate_up (hup ▸ hsegments), locate_up (hup ▸ hsegments)]
      rcases check path with fault | ⟨⟩
      · exact .inl rfl
      · rcases h.walk path.segments [] with hsame | hmissing
        · exact .inl (by rw [hsame])
        · exact .inr (by rw [hmissing]; rfl)
    · rw [locate_concat hsegments hup, locate_concat hsegments hup]
      rcases check path with fault | ⟨⟩
      · exact .inl rfl
      · rcases h.walk front [] with hsame | hmissing
        · exact .inl (by rw [hsame])
        · exact .inr (by rw [hmissing]; rfl)

theorem Shrinks.directory (h : store.Shrinks after) (path : Path) :
    after.directory path = store.directory path ∨ after.IsMissing path := by
  rw [IsMissing, directory_eq, directory_eq]
  rcases check path with fault | ⟨⟩
  · exact .inl rfl
  · exact h.walk path.segments []

/-- **What is missing stays missing.** -/
theorem Shrinks.isMissing (h : store.Shrinks after) (hmissing : store.IsMissing path) :
    after.IsMissing path := by
  rcases h.directory path with hsame | hmissing'
  · exact hsame.trans hmissing
  · exact hmissing'

theorem Shrinks.directory_eq_ok (h : store.Shrinks after)
    (hok : after.directory path = .ok location) : store.directory path = .ok location := by
  rcases h.directory path with hsame | hmissing
  · exact hsame.symm.trans hok
  · rw [IsMissing, hok] at hmissing
    cases hmissing

theorem Shrinks.isMissing_of_child (h : store.Shrinks after)
    (hlocate : store.locate path = .ok (.child location name))
    (hnone : after.get? (location ++ [name]) = none) : after.IsMissing path := by
  rcases h.locate path with hsame | hmissing
  · exact (isMissing_iff_of_child (hsame.trans hlocate)).mpr hnone
  · exact isMissing_of_locate hmissing

/-! ### What a removal takes away -/

theorem of_removeFile_eq_ok (hok : store.removeFile path = .ok after) :
    ∃ content, store.get? (placeOf path.segments) = some (.file content) ∧
      placeOf path.segments ≠ [] ∧ after = store.remove (placeOf path.segments) ∧
      after.IsMissing path := by
  rcases hlocate : store.locate path with fault | location | ⟨location, name⟩
  · rw [removeFile, hlocate] at hok
    cases hok
  · rw [removeFile, hlocate] at hok
    cases hok
  · rw [removeFile_of_child hlocate] at hok
    rw [← place_of_child hlocate]
    rcases hthere : store.get? (location ++ [name]) with _ | content | _ <;>
      simp only [hthere, reduceCtorEq] at hok
    split_ifs at hok
    obtain rfl := Except.ok.inj hok
    have hne : location ++ [name] ≠ [] := by simp
    refine ⟨content, rfl, hne, rfl, (shrinks_remove hne).isMissing_of_child hlocate ?_⟩
    rw [get?_remove_at store hne, if_pos rfl]

/-- **A directory that was removed** was empty. -/
theorem of_removeDirectory_eq_ok (hok : store.removeDirectory path = .ok after) :
    store.get? (placeOf path.segments) = some .directory ∧
      (∀ name, store.get? (placeOf path.segments ++ [name]) = none) ∧
      placeOf path.segments ≠ [] ∧ after = store.remove (placeOf path.segments) ∧
      after.IsMissing path := by
  rcases hlocate : store.locate path with fault | location | ⟨location, name⟩
  · rw [removeDirectory, hlocate] at hok
    cases hok
  · rw [removeDirectory, hlocate] at hok
    cases hok
  · rw [removeDirectory_of_child hlocate] at hok
    rw [← place_of_child hlocate]
    obtain ⟨-, -, hup, -, -⟩ := of_locate_eq_child hlocate
    obtain ⟨place, henter, hok⟩ := bind_eq_ok.mp hok
    obtain ⟨-, hthere, rfl⟩ := (enter_eq_ok hup).mp henter
    split_ifs at hok with _ hempty
    obtain rfl := Except.ok.inj hok
    have hne : location ++ [name] ≠ [] := by simp
    refine ⟨hthere, isEmptyAt_iff.mp hempty, hne, rfl,
      (shrinks_remove hne).isMissing_of_child hlocate ?_⟩
    rw [get?_remove_at store hne, if_pos rfl]

end TokenSheets.Store
