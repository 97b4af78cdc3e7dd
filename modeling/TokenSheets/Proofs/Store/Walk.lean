import TokenSheets.Proofs.Store.Path
import TokenSheets.Store.Basic

/-!
# Changes at a location

A path that leads to a location is looked up by walking to it, so each change of a store comes down
to the walk and to what is at the location. Nothing here depends on how the path is written.

* `Store.walk_eq_ok`: a walk that never leads up ends where its names say, in a directory;
* `Store.locate_concat`, `Store.directory_eq`: lookups in terms of the walk, for every path;
* `Store.removeFile_of_leadsTo`, `directory_of_leadsTo`, `removeDirectory_of_leadsTo`,
  `writeFile_of_leadsTo`, `makeDirectories_of_leadsTo`: each change in terms of the walk;
* `Store.of_removeFile`, `of_writeFile`, `of_removeDirectory`: what holds once a change was made.
-/

namespace TokenSheets.Store

/-- **A name that a directory takes**: it is not too long. -/
def Fits (name : String) : Prop := name.utf8ByteSize ≤ maxNameLength

instance : DecidablePred Fits := fun name => inferInstanceAs (Decidable (name.utf8ByteSize ≤ _))

variable {store : Store} {location : Location} {name : String}

/-! ### What is at a location after a change -/

theorem get?_put_at (store : Store) (entry : Entry) (h : location ≠ []) (other : Location) :
    (store.put location entry).get? other =
      if location = other then some entry else store.get? other := by
  by_cases hother : other = []
  · subst hother
    simp [h]
  · exact get?_put store location other entry hother

theorem get?_remove_at (store : Store) (h : location ≠ []) (other : Location) :
    (store.remove location).get? other =
      if location = other then none else store.get? other := by
  by_cases hother : other = []
  · subst hother
    simp [h]
  · exact get?_remove store location other hother

/-! ### Paths that can be looked up -/

theorem check_eq_ok {path : Path} : check path = .ok () ↔
    '\x00' ∉ path.text.toList ∧ path.text.utf8ByteSize ≤ maxPathLength ∧ path.text ≠ "" := by
  rw [check]
  split_ifs with hnull hsize hempty
  · simp [hnull]
  · refine iff_of_false (by simp) fun h => ?_
    have := h.2.1
    omega
  · simp [hempty]
  · simp only [not_lt] at hsize
    simp [hnull, hsize, hempty]

theorem check_ne_notFound {path : Path} (h : path.text ≠ "") : check path ≠ .error .notFound := by
  rw [check, if_neg h]
  split_ifs <;> simp

/-! ### Walks -/

/-- **One name further**: the name fits and a directory is there, or there is a fault. -/
theorem enter_eq (notUp : name ≠ "..") :
    store.enter location name =
      if Fits name then
        match store.get? (location ++ [name]) with
        | some .directory => .ok (location ++ [name])
        | some (.file _) => .error .notDirectory
        | none => .error .notFound
      else .error .tooLong := by
  by_cases hfits : Fits name
  · have : ¬ name.utf8ByteSize > maxNameLength := Nat.not_lt.mpr hfits
    exact ((if_neg notUp).trans (if_neg this)).trans (if_pos hfits).symm
  · have : name.utf8ByteSize > maxNameLength := Nat.lt_of_not_le hfits
    rw [enter, if_neg notUp, if_pos this, if_neg hfits]

theorem enter_eq_ok (notUp : name ≠ "..") {reached : Location} :
    store.enter location name = .ok reached ↔
      Fits name ∧ store.get? (location ++ [name]) = some .directory ∧
        reached = location ++ [name] := by
  rw [enter_eq notUp]
  split_ifs with hfits
  · rcases store.get? (location ++ [name]) with _ | _ | _ <;> simp [hfits, eq_comm]
  · simp [hfits]

theorem walk_append (store : Store) (front behind : List String) : ∀ location : Location,
    store.walk location (front ++ behind) =
      (store.walk location front).bind fun reached => store.walk reached behind := by
  induction front with
  | nil => exact fun _ => rfl
  | cons name rest ih =>
    intro location
    rw [List.cons_append, walk, walk]
    rcases store.enter location name with fault | next
    · rfl
    · exact ih next

/-- **A walk that never leads up** ends where its names say. All of them fit, and directories are
all the way. -/
theorem walk_eq_ok {names : List String} (notUp : ".." ∉ names) {reached : Location} :
    store.walk location names = .ok reached ↔
      reached = location ++ names ∧ (∀ name ∈ names, Fits name) ∧
        ∀ front, front <+: names → front ≠ [] →
          store.get? (location ++ front) = some .directory := by
  induction names generalizing location with
  | nil => simp [walk, eq_comm]
  | cons name rest ih =>
    simp only [List.mem_cons, not_or] at notUp
    have hname : name ≠ ".." := Ne.symm notUp.1
    rw [walk]
    rcases henter : store.enter location name with fault | next
    · simp only [Except.bind, reduceCtorEq, false_iff]
      rintro ⟨-, hfits, hall⟩
      have hdir := hall [name] (by simp) (by simp)
      have hok := (enter_eq_ok hname).mpr ⟨hfits name (by simp), hdir, rfl⟩
      simp [henter] at hok
    · obtain ⟨hfits, hdir, rfl⟩ := (enter_eq_ok hname).mp henter
      rw [Except.bind, ih notUp.2]
      simp only [List.append_assoc, List.cons_append, List.nil_append, List.forall_mem_cons, hfits,
        true_and]
      refine and_congr_right fun _ => and_congr_right fun _ => ⟨fun hall front hfront hne => ?_,
        fun hall front hfront hne => hall (name :: front) (by simpa using hfront) (by simp)⟩
      rcases front with _ | ⟨first, front⟩
      · exact absurd rfl hne
      · obtain ⟨rfl, hrest⟩ := List.cons_prefix_cons.mp hfront
        by_cases hnil : front = []
        · simpa [hnil] using hdir
        · exact hall front hrest hnil

theorem eq_of_walk {names : List String} (notUp : ".." ∉ names) {reached : Location}
    (h : store.walk [] names = .ok reached) : names = reached :=
  ((walk_eq_ok notUp).mp h).1.symm

theorem get?_of_walk {names : List String} (notUp : ".." ∉ names) {reached : Location}
    (h : store.walk [] names = .ok reached) : store.get? names = some .directory := by
  obtain ⟨-, -, hall⟩ := (walk_eq_ok notUp).mp h
  by_cases hnil : names = []
  · simp [hnil]
  · exact hall names List.prefix_rfl hnil

/-! ### Lookups in terms of the walk -/

section Lookups

variable {path : Path}

theorem locate_nil (h : path.segments = []) :
    store.locate path = (check path).bind fun _ => .ok (.here []) := by
  unfold locate
  rcases check path with fault | ⟨⟩
  · rfl
  · simp only [h, List.getLast?_nil]
    rfl

theorem locate_up {front : List String} (h : path.segments = front ++ [".."]) :
    store.locate path = (check path).bind fun _ =>
      (store.walk [] path.segments).bind fun reached => .ok (.here reached) := by
  unfold locate
  rcases check path with fault | ⟨⟩
  · rfl
  · simp only [h, List.getLast?_append, List.getLast?_singleton, Option.some_or, if_true]
    rcases store.walk [] (front ++ [".."]) <;> rfl

/-- **Any other path** means its last name in the directory that the names in front lead to. -/
theorem locate_concat {front : List String} (h : path.segments = front ++ [name])
    (notUp : name ≠ "..") :
    store.locate path = (check path).bind fun _ => (store.walk [] front).bind fun reached =>
      if Fits name then .ok (.child reached name) else .error .tooLong := by
  unfold locate
  rcases check path with fault | ⟨⟩
  · rfl
  · simp only [h, List.getLast?_append, List.getLast?_singleton, Option.some_or, if_neg notUp,
      List.dropLast_concat, bind, Except.bind]
    rcases store.walk [] front with fault | reached
    · rfl
    · by_cases hfits : Fits name
      · have : ¬ name.utf8ByteSize > maxNameLength := Nat.not_lt.mpr hfits
        simp [if_pos hfits, this, pure, Except.pure]
      · have : name.utf8ByteSize > maxNameLength := Nat.lt_of_not_le hfits
        simp [if_neg hfits, this, throw, throwThe, MonadExceptOf.throw]

/-- **The directory of a path** is where the walk along its names ends. -/
theorem directory_eq (store : Store) (path : Path) :
    store.directory path = (check path).bind fun _ => store.walk [] path.segments := by
  rw [directory]
  rcases List.eq_nil_or_concat' path.segments with hnil | ⟨front, name, hsegments⟩
  · rw [locate_nil hnil, hnil]
    rcases check path <;> rfl
  · by_cases hup : name = ".."
    · rw [locate_up (hup ▸ hsegments)]
      rcases check path with fault | ⟨⟩
      · rfl
      · rcases store.walk [] path.segments <;> rfl
    · rw [locate_concat hsegments hup, hsegments, walk_append]
      rcases check path with fault | ⟨⟩
      · rfl
      · rcases store.walk [] front with fault | reached
        · rfl
        · by_cases hfits : Fits name
          · simp only [Except.bind, bind, if_pos hfits, walk]
            rcases store.enter reached name <;> rfl
          · simp only [Except.bind, bind, if_neg hfits, walk, enter_eq hup]

end Lookups

/-! ### Changes of what a path leads to -/

section Paths

variable {path : Path} {front : Location}

theorem locate_of_leadsTo (h : path.LeadsTo (front ++ [name])) :
    store.locate path = (check path).bind fun _ => (store.walk [] front).bind fun _ =>
      if Fits name then .ok (.child front name) else .error .tooLong := by
  have hpoints := h.points_notMem
  simp only [List.mem_append, List.mem_singleton, not_or] at hpoints
  obtain ⟨hfront, hname⟩ := hpoints
  rw [locate_concat h.segments (Ne.symm hname)]
  rcases check path with fault | ⟨⟩
  · rfl
  · rcases hwalk : store.walk [] front with fault | reached
    · rfl
    · obtain rfl := eq_of_walk hfront hwalk
      rfl

theorem removeFile_of_leadsTo (h : path.LeadsTo (front ++ [name])) :
    store.removeFile path = (check path).bind fun _ => (store.walk [] front).bind fun _ =>
      if Fits name then
        match store.get? (front ++ [name]) with
        | none => .error .notFound
        | some .directory => .error .isDirectory
        | some (.file _) => .ok (store.remove (front ++ [name]))
      else .error .tooLong := by
  rw [removeFile, locate_of_leadsTo h]
  rcases check path with fault | ⟨⟩
  · rfl
  · rcases store.walk [] front with fault | reached
    · rfl
    · by_cases hfits : Fits name
      · simp only [Except.bind, bind, if_pos hfits, h.meansDirectory, Bool.false_eq_true, if_false]
        rfl
      · simp only [Except.bind, bind, if_neg hfits]

theorem writeFile_of_leadsTo (h : path.LeadsTo (front ++ [name])) (content : ByteArray) :
    store.writeFile path content = (check path).bind fun _ => (store.walk [] front).bind fun _ =>
      if Fits name then
        if store.get? (front ++ [name]) = some .directory then .error .isDirectory
        else .ok (store.put (front ++ [name]) (.file content))
      else .error .tooLong := by
  rw [writeFile, locate_of_leadsTo h]
  rcases check path with fault | ⟨⟩
  · rfl
  · rcases store.walk [] front with fault | reached
    · rfl
    · by_cases hfits : Fits name
      · simp only [Except.bind, bind, if_pos hfits, h.meansDirectory, Bool.false_eq_true, if_false]
        rcases store.get? (front ++ [name]) with _ | _ | _ <;> simp <;> rfl
      · simp only [Except.bind, bind, if_neg hfits]

theorem directory_of_leadsTo (h : path.LeadsTo location) :
    store.directory path = (check path).bind fun _ => store.walk [] location := by
  rw [directory_eq, h.segments]

theorem removeDirectory_of_leadsTo (h : path.LeadsTo location) :
    store.removeDirectory path = (check path).bind fun _ => (store.walk [] location).bind fun _ =>
      if store.isEmptyAt location then .ok (store.remove location) else .error .notEmpty := by
  obtain ⟨front, name, rfl⟩ := List.eq_nil_or_concat' location |>.resolve_left h.ne_nil
  have hpoints := h.points_notMem
  simp only [List.mem_append, List.mem_singleton, not_or] at hpoints
  rw [removeDirectory, locate_of_leadsTo h, walk_append]
  rcases check path with fault | ⟨⟩
  · rfl
  · rcases hwalk : store.walk [] front with fault | reached
    · rfl
    · obtain rfl := eq_of_walk hpoints.1 hwalk
      by_cases hfits : Fits name
      · simp only [Except.bind, bind, if_pos hfits, walk, h.endsInPoint, Bool.false_eq_true,
          if_false]
        rcases henter : store.enter front name with fault | next
        · rfl
        · obtain ⟨-, -, rfl⟩ := (enter_eq_ok (Ne.symm hpoints.2)).mp henter
          rfl
      · simp only [Except.bind, bind, if_neg hfits, walk, enter_eq (Ne.symm hpoints.2)]

theorem makeDirectories_of_leadsTo (h : path.LeadsTo location) :
    store.makeDirectories path =
      match check path with
      | .error fault => (store, some fault)
      | .ok () => store.makeAll [] location := by
  rw [makeDirectories, if_neg h.text_ne_empty]
  rcases check path with fault | ⟨⟩
  · rfl
  · simp [h.endsInPoint, h.segments]

/-! ### Changes that were made -/

theorem bind_eq_ok {ε α β : Type} {first : Except ε α} {next : α → Except ε β} {b : β} :
    first.bind next = .ok b ↔ ∃ a, first = .ok a ∧ next a = .ok b := by
  rcases first with fault | a <;> simp [Except.bind]

theorem of_removeFile (h : path.LeadsTo (front ++ [name])) {after : Store}
    (hok : store.removeFile path = .ok after) :
    (∀ name ∈ front, Fits name) ∧ (∃ content, store.get? (front ++ [name]) = some (.file content)) ∧
      after = store.remove (front ++ [name]) := by
  have hpoints : ".." ∉ front := fun hmem => h.points_notMem (by simp [hmem])
  rw [removeFile_of_leadsTo h, bind_eq_ok] at hok
  obtain ⟨-, -, hok⟩ := hok
  obtain ⟨reached, hwalk, hok⟩ := bind_eq_ok.mp hok
  refine ⟨((walk_eq_ok hpoints).mp hwalk).2.1, ?_⟩
  split_ifs at hok
  split at hok
  · simp at hok
  · simp at hok
  · exact ⟨⟨_, ‹_›⟩, (Except.ok.inj hok).symm⟩

theorem of_writeFile (h : path.LeadsTo (front ++ [name])) {content : ByteArray} {after : Store}
    (hok : store.writeFile path content = .ok after) :
    (∀ name ∈ front, Fits name) ∧ store.get? front = some .directory ∧
      store.get? (front ++ [name]) ≠ some .directory ∧
      after = store.put (front ++ [name]) (.file content) := by
  have hpoints : ".." ∉ front := fun hmem => h.points_notMem (by simp [hmem])
  rw [writeFile_of_leadsTo h, bind_eq_ok] at hok
  obtain ⟨-, -, hok⟩ := hok
  obtain ⟨reached, hwalk, hok⟩ := bind_eq_ok.mp hok
  refine ⟨((walk_eq_ok hpoints).mp hwalk).2.1, get?_of_walk hpoints hwalk, ?_⟩
  split_ifs at hok with hfits hthere
  exact ⟨hthere, (Except.ok.inj hok).symm⟩

theorem of_removeDirectory (h : path.LeadsTo location) {after : Store}
    (hok : store.removeDirectory path = .ok after) :
    (∀ name ∈ location, Fits name) ∧ store.get? location = some .directory ∧
      (∀ name, store.get? (location ++ [name]) = none) ∧ after = store.remove location := by
  rw [removeDirectory_of_leadsTo h, bind_eq_ok] at hok
  obtain ⟨-, -, hok⟩ := hok
  obtain ⟨reached, hwalk, hok⟩ := bind_eq_ok.mp hok
  refine ⟨((walk_eq_ok h.points_notMem).mp hwalk).2.1, get?_of_walk h.points_notMem hwalk, ?_⟩
  split_ifs at hok with hempty
  exact ⟨isEmptyAt_iff.mp hempty, (Except.ok.inj hok).symm⟩

end Paths

end TokenSheets.Store
