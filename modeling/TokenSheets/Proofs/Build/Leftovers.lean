import TokenSheets.Proofs.Build.Cleaning
import TokenSheets.Proofs.Build.Writing

/-!
# What cleaning leaves behind

Once platforms are cleaned all their files are gone. A build path is looked at when the turn of its
platform comes, and a directory with something in it is left alone. If a platform behind removes
what was in it, the directory stays behind empty, and only cleaning again removes it.

* `Store.IsEmptyDirectory`: a directory that is left behind empty;
* `isMissing_of_cleanSteps`, `exists_settled`: files and build paths of one platform among others;
* `exists_cleanSteps_eq_iff`: when cleaning again changes nothing;
* `exists_emptied`: what a platform behind has to do with a directory that is left behind empty.
-/

namespace TokenSheets

open Store

variable {shell : Shell} {store middle after : Store} {memory known : Memory} {path : Path}
  {place : Location}

/-! ### Settled directories -/

namespace Store

/-- **A directory is there with nothing in it.** -/
def IsEmptyDirectory (store : Store) (path : Path) : Prop :=
  ∃ place, store.directory path = .ok place ∧ store.isEmptyAt place = true

theorem Shrinks.isEmptyAt (h : store.Shrinks after) (hempty : store.isEmptyAt place = true) :
    after.isEmptyAt place = true :=
  isEmptyAt_iff.mpr fun name => h.get?_eq_none (isEmptyAt_iff.mp hempty name)

/-- A settled directory stays settled, unless it is emptied. -/
theorem Shrinks.isSettled_or (h : store.Shrinks after) (hsettled : store.IsSettled path) :
    after.IsSettled path ∨ after.IsEmptyDirectory path := by
  rcases h.directory path with hsame | hmissing
  · rcases hsettled with hmissing | ⟨place, hdirectory, -⟩
    · exact .inl (.inl (hsame.trans hmissing))
    · have hthere : after.directory path = .ok place := hsame.trans hdirectory
      rcases hempty : after.isEmptyAt place with _ | _
      · exact .inl (.inr ⟨place, hthere, hempty⟩)
      · exact .inr ⟨place, hthere, hempty⟩
  · exact .inl (.inl hmissing)

/-- **A settled directory that is found empty later** was found at this place, and not empty. -/
theorem Shrinks.of_isSettled (h : store.Shrinks after) (hsettled : store.IsSettled path)
    (hdirectory : after.directory path = .ok place) :
    store.directory path = .ok place ∧ store.isEmptyAt place = false := by
  have hbefore : store.directory path = .ok place := h.directory_eq_ok hdirectory
  rcases hsettled with hmissing | ⟨place', hplace', hnonempty⟩
  · rw [IsMissing, hbefore] at hmissing
    cases hmissing
  · obtain rfl : place' = place := Except.ok.inj (hplace'.symm.trans hbefore)
    exact ⟨hbefore, hnonempty⟩

end Store

/-! ### Steps that find nothing to do -/

theorem Step.perform_removeFile_of_isMissing (h : store.IsMissing path) (shell : Shell)
    (memory : Memory) :
    (Step.removeFile path).perform shell store memory = (store, .ok memory) := by
  rw [perform, removeFile_eq_notFound.mpr h]
  rfl

theorem Step.performAll_removeIfEmpty_of_isSettled (h : store.IsSettled path) (shell : Shell)
    (memory : Memory) :
    performAll shell store memory (removeIfEmpty path) = (store, .ok false) := by
  rcases h with hmissing | ⟨place, hdirectory, hempty⟩
  · rw [IsMissing] at hmissing
    simp [removeIfEmpty, performAll, perform, hmissing]
  · simp [removeIfEmpty, performAll, perform, hdirectory, hempty]

theorem performAll_flatMap_unchanged {α : Type} {f : α → List Step} : ∀ {items : List α},
    (∀ item ∈ items, ∀ memory, ∃ known,
      performAll shell store memory (f item) = (store, .ok known)) →
    ∀ memory, ∃ known, performAll shell store memory (items.flatMap f) = (store, .ok known)
  | [], _, memory => ⟨memory, rfl⟩
  | item :: items, h, memory => by
    obtain ⟨between, hfirst⟩ := h item List.mem_cons_self memory
    obtain ⟨known, hrest⟩ := performAll_flatMap_unchanged
      (fun other hother => h other (List.mem_cons_of_mem _ hother)) between
    exact ⟨known, performAll_append_eq_ok.mpr ⟨store, between, hfirst, hrest⟩⟩

/-- **Nothing is left to clean** if all files are missing and the build path is settled. -/
theorem Platform.exists_cleanSteps_eq {platform : Platform}
    (files : ∀ file ∈ platform.files, store.IsMissing (platform.pathOf file))
    (directory : store.IsSettled platform.buildPath) (shell : Shell) (memory : Memory) :
    ∃ known, performAll shell store memory platform.cleanSteps = (store, .ok known) := by
  have hfiles : ∃ between, performAll shell store memory
      (platform.files.flatMap fun file => [.removeFile (platform.pathOf file)]) =
        (store, .ok between) := by
    refine performAll_flatMap_unchanged (fun file hfile memory => ⟨memory, ?_⟩) memory
    rw [performAll_singleton]
    exact Step.perform_removeFile_of_isMissing (files file hfile) shell memory
  obtain ⟨between, hfiles⟩ := hfiles
  refine ⟨false, performAll_append_eq_ok.mpr ⟨store, between, ?_, ?_⟩⟩
  · rwa [List.map_eq_flatMap]
  · exact Step.performAll_removeIfEmpty_of_isSettled directory shell between

/-! ### Platforms that were cleaned -/

section Cleaned

variable {platforms earlier later : Platforms} {p : String × Platform}

theorem shrinks_of_cleanSteps
    (hok : performAll shell store memory (cleanSteps platforms) = (after, .ok known)) :
    store.Shrinks after := by
  have hshrinks := shrinks_cleanSteps shell store memory platforms
  rwa [hok] at hshrinks

/-- **One platform among others**: when its turn is over, its files are gone and its build path is
settled. -/
theorem exists_settled (hok : performAll shell store memory (cleanSteps (earlier ++ p :: later)) =
      (after, .ok known)) :
    ∃ middle between, store.Shrinks middle ∧
      performAll shell middle between (cleanSteps later) = (after, .ok known) ∧
      (∀ file ∈ p.2.files, middle.IsMissing (p.2.pathOf file)) ∧
      middle.IsSettled p.2.buildPath := by
  rw [cleanSteps, List.flatMap_append, List.flatMap_cons] at hok
  obtain ⟨first, known', hearlier, hrest⟩ := performAll_append_eq_ok.mp hok
  obtain ⟨middle, between, hplatform, hlater⟩ := performAll_append_eq_ok.mp hrest
  have hfirst : store.Shrinks first := shrinks_of_cleanSteps hearlier
  have hcleaning : ∀ step ∈ p.2.cleanSteps, step.IsCleaning := fun _ =>
    Platform.isCleaning_of_mem_cleanSteps
  have hmiddle : first.Shrinks middle := by
    have hshrinks := shrinks_of_isCleaning hcleaning shell first known'
    rwa [hplatform] at hshrinks
  obtain ⟨hfiles, hdirectory⟩ := Platform.of_cleanSteps_eq_ok hplatform
  exact ⟨middle, between, hfirst.trans hmiddle, hlater, hfiles, hdirectory⟩

theorem isMissing_of_cleanSteps
    (hok : performAll shell store memory (cleanSteps platforms) = (after, .ok known))
    (hp : p ∈ platforms) {file : FileSpec} (hfile : file ∈ p.2.files) :
    after.IsMissing (p.2.pathOf file) := by
  obtain ⟨earlier, later, rfl⟩ := List.append_of_mem hp
  obtain ⟨middle, between, -, hlater, hfiles, -⟩ := exists_settled hok
  exact (shrinks_of_cleanSteps hlater).isMissing (hfiles file hfile)

/-- **Cleaning again changes nothing** if no build path is left behind empty, and only then. -/
theorem exists_cleanSteps_eq_iff
    (hok : performAll shell store memory (cleanSteps platforms) = (after, .ok known))
    (again : Memory) :
    (∃ known', performAll shell after again (cleanSteps platforms) = (after, .ok known')) ↔
      ∀ p ∈ platforms, ¬ after.IsEmptyDirectory p.2.buildPath := by
  constructor
  · rintro ⟨known', hagain⟩ p hp ⟨place, hdirectory, hempty⟩
    obtain ⟨earlier, later, rfl⟩ := List.append_of_mem hp
    -- when its turn comes again, nothing has changed and the directory is still empty
    obtain ⟨middle, between, hbefore, hlater, -, hsettled⟩ := exists_settled hagain
    obtain ⟨-, hnonempty⟩ := (shrinks_of_cleanSteps hlater).of_isSettled hsettled hdirectory
    rw [hbefore.isEmptyAt hempty] at hnonempty
    cases hnonempty
  · intro hnone
    refine performAll_flatMap_unchanged (fun p hp memory => ?_) again
    refine Platform.exists_cleanSteps_eq (fun file hfile => isMissing_of_cleanSteps hok hp hfile)
      ?_ shell memory
    have hleft := hnone p hp
    obtain ⟨earlier, later, rfl⟩ := List.append_of_mem hp
    obtain ⟨middle, between, -, hlater, -, hsettled⟩ := exists_settled hok
    exact ((shrinks_of_cleanSteps hlater).isSettled_or hsettled).resolve_right hleft

/-- **A directory that is left behind empty** was not empty when its turn came: a platform behind
removed what was in it. -/
theorem exists_emptied
    (hok : performAll shell store memory (cleanSteps (earlier ++ p :: later)) = (after, .ok known))
    (hdirectory : after.directory p.2.buildPath = .ok place)
    (hempty : after.isEmptyAt place = true) :
    ∃ q ∈ later, ∃ path ∈ q.2.paths, ∃ name, placeOf path.segments = place ++ [name] ∧
      store.get? (place ++ [name]) ≠ none := by
  obtain ⟨middle, between, hbefore, hlater, -, hsettled⟩ := exists_settled hok
  obtain ⟨-, hnonempty⟩ := (shrinks_of_cleanSteps hlater).of_isSettled hsettled hdirectory
  obtain ⟨name, hthere⟩ : ∃ name, middle.get? (place ++ [name]) ≠ none := by
    by_contra hall
    simp only [not_exists, not_not] at hall
    rw [isEmptyAt_iff.mpr hall] at hnonempty
    cases hnonempty
  have hgone : after.get? (place ++ [name]) = none := isEmptyAt_iff.mp hempty name
  have hstart : store.get? (place ++ [name]) ≠ none := fun hnone =>
    hthere (hbefore.get?_eq_none hnone)
  rcases Platforms.get?_cleanSteps hlater (place ++ [name]) with
    hsame | ⟨step, found, -, -, hremoves⟩
  · exact absurd (hsame.symm.trans hgone) hthere
  · generalize hplace : place ++ [name] = removed at hremoves
    cases hremoves with
    | @file q mem file memFile =>
      exact ⟨q, mem, _, List.mem_append_left _ (List.mem_map_of_mem memFile), name, hplace.symm,
        hstart⟩
    | @directory q mem =>
      exact ⟨q, mem, _, List.mem_append_right _ List.mem_cons_self, name, hplace.symm, hstart⟩

/-- Behind the last platform with its build path at a place, a platform of another build path has
emptied it. -/
theorem exists_last_emptied
    (hok : performAll shell store memory (cleanSteps platforms) = (after, .ok known))
    (hp : p ∈ platforms) (hdirectory : after.directory p.2.buildPath = .ok place)
    (hempty : after.isEmptyAt place = true) :
    ∃ earlier last later, platforms = earlier ++ last :: later ∧
      after.directory last.2.buildPath = .ok place ∧
      ∃ q ∈ later, after.directory q.2.buildPath ≠ .ok place ∧ ∃ path ∈ q.2.paths, ∃ name,
        placeOf path.segments = place ++ [name] ∧ store.get? (place ++ [name]) ≠ none := by
  have hsome : ∃ q ∈ platforms, after.directory q.2.buildPath = .ok place := ⟨p, hp, hdirectory⟩
  obtain ⟨earlier, last, later, rfl, hlast, hother⟩ := exists_last hsome
  obtain ⟨q, hq, hemptied⟩ := exists_emptied hok hlast hempty
  exact ⟨earlier, last, later, rfl, hlast, q, hq, hother q hq, hemptied⟩

theorem check_of_isSettled (text_ne_empty : path.text ≠ "") (h : store.IsSettled path) :
    check path = .ok () := by
  rcases hcheck : check path with fault | ⟨⟩
  · have hdirectory : store.directory path = .error fault := by
      rw [directory_eq, hcheck]
      rfl
    rcases h with hmissing | ⟨place, hplace, -⟩
    · obtain rfl : fault = .notFound := Except.error.inj (hdirectory.symm.trans hmissing)
      exact absurd hcheck (check_ne_notFound text_ne_empty)
    · simp [hdirectory] at hplace
  · rfl

/-- A build path that was dealt with means the directory that another path of the same names
means. -/
theorem directory_of_isSettled {other : Path} (text_ne_empty : path.text ≠ "")
    (hsettled : store.IsSettled path) (hsame : path.segments = other.segments)
    (hother : after.directory other = .ok place) : after.directory path = .ok place := by
  rw [directory_eq] at hother ⊢
  obtain ⟨-, -, hwalk⟩ := bind_eq_ok.mp hother
  rw [check_of_isSettled text_ne_empty hsettled, hsame]
  exact hwalk

/-- **Platforms of plain paths** leave no build path behind empty, if none of them lies directly in
the build path of a platform in front of it. -/
theorem not_isEmptyDirectory_of_pairwise
    (hok : performAll shell store memory (cleanSteps platforms) = (after, .ok known))
    (plain : ∀ p ∈ platforms, p.2.IsPlain)
    (beside : platforms.Pairwise fun p q =>
      ∀ name, q.2.buildPath.segments ≠ p.2.buildPath.segments ++ [name])
    (hp : p ∈ platforms) : ¬ after.IsEmptyDirectory p.2.buildPath := by
  rintro ⟨place, hdirectory, hempty⟩
  obtain ⟨earlier, last, later, rfl, hlast, q, hq, hother, path, hpath, name, hplace, -⟩ :=
    exists_last_emptied hok hp hdirectory hempty
  have hlastPlain : last.2.IsPlain := plain last (by simp)
  have hqPlain : q.2.IsPlain := plain q (by simp [hq])
  obtain rfl : place = last.2.buildPath.segments := by
    rw [place_of_directory hlast, placeOf_of_notUp hlastPlain.points_notMem]
  rw [Platform.paths, List.mem_append, List.mem_singleton] at hpath
  rcases hpath with hpath | rfl
  · -- a file of another platform in the same directory: then this is its build path as well
    obtain ⟨file, hfile, rfl⟩ := List.mem_map.mp hpath
    have hordinary := hqPlain.isOrdinary file hfile
    have hfront : q.2.buildPath.segments = last.2.buildPath.segments := by
      rw [Platform.pathOf, Path.segments_join _ hordinary, placeOf_of_notUp] at hplace
      · exact List.append_inj_left' hplace rfl
      · simp [hqPlain.points_notMem, Ne.symm hordinary.ne_points]
    have hmem : q ∈ earlier ++ last :: later := by simp [hq]
    obtain ⟨front, behind, hsplit⟩ := List.append_of_mem hmem
    rw [hsplit] at hok
    obtain ⟨middle, between, -, -, -, hsettled⟩ := exists_settled hok
    exact hother (directory_of_isSettled hqPlain.text_ne_empty hsettled hfront hlast)
  · rw [placeOf_of_notUp hqPlain.points_notMem] at hplace
    have hbehind := (List.pairwise_append.mp beside).2.1
    exact List.rel_of_pairwise_cons hbehind hq name hplace

end Cleaned

/-- **Cleaning that gets through** leaves no file of a platform behind. Cleaning again changes
nothing if and only if no build path is left behind empty. Where one is, there is a platform behind
the last one of this build path that removed something directly in it. With plain paths this takes a
build path that lies directly in the one of a platform in front. -/
theorem cleaning_leaves_empty_what_later_platforms_empty {platforms : Platforms}
    (hok : performAll shell store memory (cleanSteps platforms) = (after, .ok known)) :
    (∀ p ∈ platforms, ∀ file ∈ p.2.files, after.isThere (p.2.pathOf file) = false) ∧
    (∀ again,
      (∃ known', performAll shell after again (cleanSteps platforms) = (after, .ok known')) ↔
        ∀ p ∈ platforms, ¬ after.IsEmptyDirectory p.2.buildPath) ∧
    (∀ p ∈ platforms, ∀ place, after.directory p.2.buildPath = .ok place →
      after.isEmptyAt place = true →
      ∃ earlier last later, platforms = earlier ++ last :: later ∧
        after.directory last.2.buildPath = .ok place ∧
        ∃ q ∈ later, after.directory q.2.buildPath ≠ .ok place ∧ ∃ path ∈ q.2.paths, ∃ name,
          placeOf path.segments = place ++ [name] ∧ store.get? (place ++ [name]) ≠ none) ∧
    ((∀ p ∈ platforms, p.2.IsPlain) →
      (platforms.Pairwise fun p q =>
        ∀ name, q.2.buildPath.segments ≠ p.2.buildPath.segments ++ [name]) →
      ∀ p ∈ platforms, ¬ after.IsEmptyDirectory p.2.buildPath) :=
  ⟨fun _ hp _ hfile => (isMissing_of_cleanSteps hok hp hfile).isThere_eq,
    exists_cleanSteps_eq_iff hok,
    fun _ hp _ hdirectory hempty => exists_last_emptied hok hp hdirectory hempty,
    fun plain beside _ hp => not_isEmptyDirectory_of_pairwise hok plain beside hp⟩

/-- A build path in another one, whose platform comes behind: nothing is left. -/
theorem cleaning_leaves_empty_what_later_platforms_empty_inside_out :
    let inner : Platform := { flavor := .js, buildPath := ⟨"out/sub"⟩, scale := {}
                              files := [{ destination := "a", format := "javascript/es6" }] }
    let outer : Platform := { flavor := .js, buildPath := ⟨"out"⟩, files := [], scale := {} }
    let platforms : Platforms := [("inner", inner), ("outer", outer)]
    let store : Store := ⟨[(["out"], .directory), (["out", "sub"], .directory),
      (["out", "sub", "a"], .file ByteArray.empty)]⟩
    let shell : Shell := ⟨fun _ store => (store, .exited 0)⟩
    ∃ after known, performAll shell store false (cleanSteps platforms) = (after, .ok known) ∧
      ∀ p ∈ platforms, ¬ after.IsEmptyDirectory p.2.buildPath := by
  intro inner outer platforms store shell
  have hordinary : Path.IsOrdinary "a" := ⟨by decide, by decide, by decide, by decide⟩
  have plain : ∀ p ∈ platforms, p.2.IsPlain := by
    intro p hp
    rcases List.mem_pair.mp hp with rfl | rfl
    · exact ⟨by decide, by decide, by simpa [inner] using hordinary⟩
    · exact ⟨by decide, by decide, by simp [outer]⟩
  have hsegments : inner.buildPath.segments = ["out", "sub"] ∧
      outer.buildPath.segments = ["out"] := by decide
  have hisOk : (performAll shell store false (cleanSteps platforms)).2.isOk := by decide
  rcases hrun : performAll shell store false (cleanSteps platforms) with ⟨after, fault | known⟩
  · rw [hrun] at hisOk
    cases hisOk
  obtain ⟨-, -, -, hnone⟩ := cleaning_leaves_empty_what_later_platforms_empty hrun
  refine ⟨after, known, rfl, hnone plain ?_⟩
  simp [platforms, hsegments]

section

attribute [local instance] Name.Transliteration.ascii

/-- **A build path that lies in another one** and comes behind it: cleaning gets through and leaves
the outer one empty, and cleaning again removes it. -/
theorem cleaning_leaves_an_outer_build_path_empty :
    let outer : Platform := { flavor := .css, buildPath := ⟨"out"⟩, files := [], scale := {} }
    let inner : Platform := { flavor := .css, buildPath := ⟨"out/sub"⟩, files := [], scale := {} }
    let platforms : Platforms := [("a", outer), ("b", inner)]
    let shell : Shell := ⟨fun _ store => (store, .exited 0)⟩
    let built := performAll shell .empty false (buildSteps platforms {})
    let cleaned := performAll shell built.1 false (cleanSteps platforms)
    let again := performAll shell cleaned.1 false (cleanSteps platforms)
    built.2 = .ok false ∧ cleaned.2 = .ok false ∧ again.2 = .ok false ∧
      cleaned.1.IsEmptyDirectory outer.buildPath ∧
      cleaned.1.get? ["out"] = some .directory ∧ again.1.get? ["out"] = none := by
  intro outer inner platforms shell built cleaned again
  refine ⟨by decide +kernel, by decide +kernel, by decide +kernel, ⟨["out"], ?_⟩, ?_⟩
  · decide +kernel
  · decide +kernel

end

end TokenSheets
