import TokenSheets.Proofs.Build.Footprint

/-!
# Files that a build leaves behind

A directory may be named in any way, also with points that lead up. What is found on the way to it
depends on the directories in the store alone, and no change that succeeds takes one of them away
while files are written. So a file that was written is still there when the next ones are.

* `readFile_join_eq_ok`, `of_writeFile_join`: a file of an ordinary name, below any directory;
* `Keeps`: directories stay directories, and walks end where they ended;
* `Holds`: the files that a directory holds, with their contents;
* `performAll_append_eq_ok`, `performAll_flatMap_eq_error`: steps in parts and in groups;
* `Holds.performAll_write`: writing files one after another.
-/

namespace TokenSheets

namespace Store

variable {store after : Store} {directory : Path} {name : String}

/-! ### Files below any directory -/

theorem locate_join (h : Path.IsOrdinary name) :
    store.locate (directory.join name) = (check (directory.join name)).bind fun _ =>
      (store.walk [] directory.segments).bind fun reached =>
        if Fits name then .ok (.child reached name) else .error .tooLong := by
  rw [locate_concat (Path.segments_join directory h) h.ne_points]

theorem meansDirectory_join (h : Path.IsOrdinary name) :
    (directory.join name).meansDirectory = false := by
  obtain ⟨front, hpieces, -⟩ := Path.pieces_join directory h.slash_notMem
  simp [Path.meansDirectory, Path.lastPiece, hpieces, h.ne_empty, h.ne_point]

/-- **A place in a directory** that can be looked up: the walk reaches it, and the name fits. -/
structure Reaches (store : Store) (directory : Path) (name : String) (reached : Location) : Prop
    where
  check : Store.check (directory.join name) = .ok ()
  walk : store.walk [] directory.segments = .ok reached
  fits : Fits name

theorem locate_join_eq_ok (h : Path.IsOrdinary name) {target : Target} :
    store.locate (directory.join name) = .ok target ↔
      ∃ reached, store.Reaches directory name reached ∧ target = .child reached name := by
  rw [locate_join h, bind_eq_ok]
  constructor
  · rintro ⟨⟨⟩, hcheck, hok⟩
    obtain ⟨reached, hwalk, hok⟩ := bind_eq_ok.mp hok
    split_ifs at hok with hfits
    exact ⟨reached, ⟨hcheck, hwalk, hfits⟩, (Except.ok.inj hok).symm⟩
  · rintro ⟨reached, ⟨hcheck, hwalk, hfits⟩, rfl⟩
    exact ⟨(), hcheck, bind_eq_ok.mpr ⟨reached, hwalk, if_pos hfits⟩⟩

/-- **Reading a file** of an ordinary name. -/
theorem readFile_join_eq_ok (h : Path.IsOrdinary name) {content : ByteArray} :
    store.readFile (directory.join name) = .ok content ↔
      ∃ reached, store.Reaches directory name reached ∧
        store.get? (reached ++ [name]) = some (.file content) := by
  unfold readFile
  constructor
  · intro hok
    obtain ⟨target, hlocate, hok⟩ := bind_eq_ok.mp hok
    obtain ⟨reached, hreaches, rfl⟩ := (locate_join_eq_ok h).mp hlocate
    refine ⟨reached, hreaches, ?_⟩
    rcases hget : store.get? (reached ++ [name]) with _ | found | _
    · simp [hget, throw, throwThe, MonadExceptOf.throw] at hok
    · simp only [hget, meansDirectory_join h, Bool.false_eq_true, if_false, pure, Except.pure,
        Except.ok.injEq] at hok
      rw [hok]
    · simp [hget, throw, throwThe, MonadExceptOf.throw] at hok
  · rintro ⟨reached, hreaches, hget⟩
    refine bind_eq_ok.mpr ⟨_, (locate_join_eq_ok h).mpr ⟨reached, hreaches, rfl⟩, ?_⟩
    simp only [hget, meansDirectory_join h, Bool.false_eq_true, if_false, pure, Except.pure]

theorem of_writeFile_join (h : Path.IsOrdinary name) {content : ByteArray}
    (hok : store.writeFile (directory.join name) content = .ok after) :
    ∃ reached, store.Reaches directory name reached ∧
      store.get? (reached ++ [name]) ≠ some .directory ∧
      after = store.put (reached ++ [name]) (.file content) := by
  obtain ⟨target, hlocate, hok⟩ := bind_eq_ok.mp hok
  obtain ⟨reached, hreaches, rfl⟩ := (locate_join_eq_ok h).mp hlocate
  refine ⟨reached, hreaches, ?_⟩
  rcases hget : store.get? (reached ++ [name]) with _ | _ | _ <;>
    simp only [hget, meansDirectory_join h, Bool.false_eq_true, if_false, pure, Except.pure, throw,
      throwThe, MonadExceptOf.throw, Except.ok.injEq, reduceCtorEq] at hok
  · exact ⟨by simp, hok.symm⟩
  · exact ⟨by simp, hok.symm⟩

/-! ### Changes that keep what is there -/

/-- **Directories stay directories.** -/
def Keeps (store after : Store) : Prop :=
  ∀ location, store.get? location = some .directory → after.get? location = some .directory

theorem Keeps.enter (h : store.Keeps after) {location reached : Location}
    (hok : store.enter location name = .ok reached) : after.enter location name = .ok reached := by
  unfold Store.enter at hok ⊢
  split_ifs at hok ⊢
  · exact hok
  · rcases hget : store.get? (location ++ [name]) with _ | _ | _
    · simp [hget] at hok
    · simp [hget] at hok
    · rw [hget] at hok
      rw [h _ hget]
      exact hok

theorem Keeps.walk (h : store.Keeps after) : ∀ {names : List String} {location reached : Location},
    store.walk location names = .ok reached → after.walk location names = .ok reached
  | [], _, _, hok => hok
  | name :: rest, location, reached, hok => by
    obtain ⟨next, hnext, hrest⟩ := bind_eq_ok.mp hok
    exact bind_eq_ok.mpr ⟨next, h.enter hnext, h.walk hrest⟩

theorem Keeps.reaches (h : store.Keeps after) {reached : Location}
    (hreaches : store.Reaches directory name reached) : after.Reaches directory name reached :=
  ⟨hreaches.check, h.walk hreaches.walk, hreaches.fits⟩

theorem keeps_put {location : Location} {entry : Entry} (hne : location ≠ [])
    (hget : store.get? location ≠ some .directory) : store.Keeps (store.put location entry) := by
  intro other hother
  rw [get?_put_at store entry hne, if_neg]
  · exact hother
  · rintro rfl
    exact hget hother

theorem get?_makeAll_of_some {names : List String} : ∀ {store : Store} {location other : Location}
    {entry : Entry}, store.get? other = some entry →
      (store.makeAll location names).1.get? other = some entry := by
  induction names with
  | nil => exact fun h => h
  | cons name rest ih =>
    intro store location other entry h
    rw [makeAll]
    rcases henter : store.enter location name with fault | next
    · cases fault with
      | notFound =>
        refine ih ?_
        have hnone : store.get? (location ++ [name]) = none := by
          unfold Store.enter at henter
          split_ifs at henter
          · simp at henter
          · rcases hget : store.get? (location ++ [name]) with _ | _ | _ <;> simp [hget] at henter ⊢
        rw [get?_put_at _ _ (by simp), if_neg, h]
        rintro rfl
        simp [h] at hnone
      | _ => exact h
    · exact ih h

theorem get?_makeDirectories_of_some (store : Store) (path : Path) {other : Location}
    {entry : Entry} (h : store.get? other = some entry) :
    (store.makeDirectories path).1.get? other = some entry := by
  unfold makeDirectories
  split
  · exact h
  · rcases check path with fault | ⟨⟩
    · exact h
    · have hall : ∀ names, (store.makeAll [] names).1.get? other = some entry := fun _ =>
        get?_makeAll_of_some h
      have hmade := hall path.segments.dropLast
      have hmade' := hall path.segments
      dsimp only
      split
      · rcases hall : store.makeAll [] path.segments.dropLast with ⟨made, _ | fault⟩
        · rw [hall] at hmade
          dsimp only
          split <;> exact hmade
        · rw [hall] at hmade
          exact hmade
      · exact hmade'

theorem keeps_makeDirectories (store : Store) (path : Path) :
    store.Keeps (store.makeDirectories path).1 :=
  fun _ h => get?_makeDirectories_of_some store path h

/-! ### Files that are held -/

/-- **The directory holds these files**, by name, with these texts. -/
def Holds (store : Store) (directory : Path) (files : List (String × String)) : Prop :=
  ∀ p ∈ files, store.readFile (directory.join p.1) = .ok p.2.toUTF8

theorem Holds.readText {files : List (String × String)} (h : store.Holds directory files)
    {p : String × String} (hp : p ∈ files) : store.readText (directory.join p.1) = some p.2 := by
  have hvalid : p.2.toUTF8.IsValidUTF8 := p.2.isValidUTF8
  rw [readText_eq, h p hp]
  exact dif_pos hvalid

theorem Holds.write {files : List (String × String)} (h : store.Holds directory files)
    (hnames : ∀ p ∈ files, Path.IsOrdinary p.1) (hname : Path.IsOrdinary name)
    (hnew : name ∉ Entries.keys files) {text : String}
    (hok : store.writeFile (directory.join name) text.toUTF8 = .ok after) :
    after.Holds directory (files ++ [(name, text)]) := by
  obtain ⟨reached, hreaches, hget, rfl⟩ := of_writeFile_join hname hok
  have hkeeps : store.Keeps (store.put (reached ++ [name]) (.file text.toUTF8)) :=
    keeps_put (by simp) hget
  intro p hp
  rcases List.mem_append.mp hp with hp | hp
  · obtain ⟨reached', hreaches', hget'⟩ := (readFile_join_eq_ok (hnames p hp)).mp (h p hp)
    have hsame : reached' = reached := by simpa [hreaches.walk] using hreaches'.walk.symm
    have hne : name ≠ p.1 := fun heq => hnew (heq ▸ List.mem_map_of_mem hp)
    refine (readFile_join_eq_ok (hnames p hp)).mpr ⟨reached', hkeeps.reaches hreaches', ?_⟩
    rw [get?_put_at _ _ (by simp), if_neg (by simp [hsame, hne]), hget']
  · obtain rfl := List.mem_singleton.mp hp
    refine (readFile_join_eq_ok hname).mpr ⟨reached, hkeeps.reaches hreaches, ?_⟩
    rw [get?_put_at _ _ (by simp), if_pos rfl]

theorem Holds.makeDirectories {files : List (String × String)} (h : store.Holds directory files)
    (hnames : ∀ p ∈ files, Path.IsOrdinary p.1) (path : Path) :
    (store.makeDirectories path).1.Holds directory files := by
  intro p hp
  obtain ⟨reached, hreaches, hget⟩ := (readFile_join_eq_ok (hnames p hp)).mp (h p hp)
  exact (readFile_join_eq_ok (hnames p hp)).mpr
    ⟨reached, (keeps_makeDirectories store path).reaches hreaches,
      get?_makeDirectories_of_some store path hget⟩

end Store

/-! ### Steps one after another -/

/-- **Steps in two parts**: the second part begins where the first one ends. -/
theorem performAll_append {shell : Shell} {first second : List Step} :
    ∀ {store : Store} {memory : Memory},
      performAll shell store memory (first ++ second) =
        match performAll shell store memory first with
        | (middle, .ok between) => performAll shell middle between second
        | (middle, .error fault) => (middle, .error fault) := by
  induction first with
  | nil => exact rfl
  | cons step rest ih =>
    intro store memory
    rw [List.cons_append, performAll, performAll]
    rcases step.perform shell store memory with ⟨next, fault | between⟩
    · rfl
    · exact ih

/-- They succeed if the second part does where the first one ended. -/
theorem performAll_append_eq_ok {shell : Shell} {first second : List Step} {store : Store}
    {memory : Memory} {after : Store} {known : Memory} :
    performAll shell store memory (first ++ second) = (after, .ok known) ↔
      ∃ middle between, performAll shell store memory first = (middle, .ok between) ∧
        performAll shell middle between second = (after, .ok known) := by
  rw [performAll_append]
  rcases performAll shell store memory first with ⟨middle, fault | between⟩
  · simp
  · exact ⟨fun h => ⟨middle, between, rfl, h⟩, by rintro ⟨_, _, ⟨⟩, h⟩; exact h⟩

theorem performAll_append_eq_error {shell : Shell} {first second : List Step} {store : Store}
    {memory : Memory} {after : Store} {fault : BuildFault} :
    performAll shell store memory (first ++ second) = (after, .error fault) ↔
      performAll shell store memory first = (after, .error fault) ∨
        ∃ middle between, performAll shell store memory first = (middle, .ok between) ∧
          performAll shell middle between second = (after, .error fault) := by
  rw [performAll_append]
  rcases performAll shell store memory first with ⟨middle, fault' | between⟩
  · simp
  · refine ⟨fun h => .inr ⟨middle, between, rfl, h⟩, ?_⟩
    rintro (⟨⟨⟩⟩ | ⟨_, _, ⟨⟩, h⟩)
    exact h

theorem performAll_singleton (shell : Shell) (store : Store) (memory : Memory) (step : Step) :
    performAll shell store memory [step] = step.perform shell store memory := by
  rw [performAll]
  rcases step.perform shell store memory with ⟨after, fault | known⟩ <;> rfl

/-- **Where steps fail** that come in groups: in one of the groups, once those in front of it
succeeded. -/
theorem performAll_flatMap_eq_error {shell : Shell} {α : Type} {f : α → List Step} :
    ∀ {items : List α} {store : Store} {memory : Memory} {after : Store} {fault : BuildFault},
      performAll shell store memory (items.flatMap f) = (after, .error fault) ↔
        ∃ earlier item later middle between, items = earlier ++ item :: later ∧
          performAll shell store memory (earlier.flatMap f) = (middle, .ok between) ∧
          performAll shell middle between (f item) = (after, .error fault)
  | [], store, memory, after, fault => by simp [performAll]
  | item :: items, store, memory, after, fault => by
    rw [List.flatMap_cons, performAll_append_eq_error]
    constructor
    · rintro (hfirst | ⟨middle, between, hfirst, hrest⟩)
      · exact ⟨[], item, items, store, memory, rfl, rfl, hfirst⟩
      · obtain ⟨earlier, other, later, middle', between', rfl, hearlier, hother⟩ :=
          performAll_flatMap_eq_error.mp hrest
        refine ⟨item :: earlier, other, later, middle', between', rfl, ?_, hother⟩
        exact performAll_append_eq_ok.mpr ⟨middle, between, hfirst, hearlier⟩
    · rintro ⟨_ | ⟨first, earlier⟩, other, later, middle, between, hitems, hearlier, hother⟩
      · obtain ⟨rfl, rfl⟩ := List.cons.inj hitems
        obtain ⟨rfl, hbetween⟩ := Prod.mk.inj hearlier
        obtain rfl := Except.ok.inj hbetween
        exact .inl hother
      · obtain ⟨rfl, rfl⟩ := List.cons.inj hitems
        obtain ⟨next, known, hfirst, hearlier⟩ := performAll_append_eq_ok.mp hearlier
        refine .inr ⟨next, known, hfirst, ?_⟩
        exact performAll_flatMap_eq_error.mpr
          ⟨earlier, other, later, middle, between, rfl, hearlier, hother⟩

/-- **Where steps fail**: at one of them, once those in front of it succeeded. -/
theorem performAll_eq_error {shell : Shell} {steps : List Step} {store : Store} {memory : Memory}
    {after : Store} {fault : BuildFault} :
    performAll shell store memory steps = (after, .error fault) ↔
      ∃ done step left middle between, steps = done ++ step :: left ∧
        performAll shell store memory done = (middle, .ok between) ∧
        step.perform shell middle between = (after, .error fault) := by
  have h := @performAll_flatMap_eq_error shell Step (fun step => [step]) steps store memory after
    fault
  simpa only [List.flatMap_singleton', performAll_singleton] using h

/-- **A step of steps that succeed** succeeds, between those in front of it and those behind it. -/
theorem performAll_step_eq_ok {shell : Shell} {done left : List Step} {step : Step} {store : Store}
    {memory : Memory} {after : Store} {known : Memory} :
    performAll shell store memory (done ++ step :: left) = (after, .ok known) ↔
      ∃ middle between next between', performAll shell store memory done = (middle, .ok between) ∧
        step.perform shell middle between = (next, .ok between') ∧
        performAll shell next between' left = (after, .ok known) := by
  rw [List.append_cons, performAll_append_eq_ok]
  constructor
  · rintro ⟨next, between', hfirst, hleft⟩
    obtain ⟨middle, between, hdone, hstep⟩ := performAll_append_eq_ok.mp hfirst
    exact ⟨middle, between, next, between', hdone, performAll_singleton .. ▸ hstep, hleft⟩
  · rintro ⟨middle, between, next, between', hdone, hstep, hleft⟩
    refine ⟨next, between', performAll_append_eq_ok.mpr ⟨middle, between, hdone, ?_⟩, hleft⟩
    rw [performAll_singleton, hstep]

/-- The step that writes a text to a file of a directory. -/
def Step.write (directory : Path) (file : String × String) : Step :=
  .writeFile (directory.join file.1) file.2

/-- **Files that are written one after another** are all held in the end. -/
theorem Store.Holds.performAll_write {shell : Shell} {directory : Path} :
    ∀ {files held : List (String × String)} {store after : Store} {memory known : Memory},
      store.Holds directory held → (∀ p ∈ held ++ files, Path.IsOrdinary p.1) →
      (Entries.keys (held ++ files)).Nodup →
      performAll shell store memory (files.map (Step.write directory)) = (after, .ok known) →
      after.Holds directory (held ++ files)
  | [], held, store, after, memory, known, h, _, _, hok => by
    obtain ⟨rfl, -⟩ := Prod.mk.inj hok
    simpa using h
  | file :: files, held, store, after, memory, known, h, hnames, hnodup, hok => by
    rw [List.map_cons, performAll] at hok
    have hfirst : Path.IsOrdinary file.1 := hnames file (by simp)
    have hnew : file.1 ∉ Entries.keys held := by
      intro hmem
      rw [Entries.keys_append] at hnodup
      exact (List.nodup_append.mp hnodup).2.2 _ hmem _ (by simp) rfl
    rcases hwrite : store.writeFile (directory.join file.1) file.2.toUTF8 with fault | next
    · simp only [Step.write, Step.perform, strict, hwrite, Prod.mk.injEq, reduceCtorEq,
        and_false] at hok
    · simp only [Step.write, Step.perform, strict, hwrite] at hok
      have hnext := h.write (fun p hp => hnames p (by simp [hp])) hfirst hnew hwrite
      have happend : held ++ file :: files = held ++ [file] ++ files := by simp
      rw [happend] at hnames hnodup ⊢
      exact hnext.performAll_write hnames hnodup hok

end TokenSheets
