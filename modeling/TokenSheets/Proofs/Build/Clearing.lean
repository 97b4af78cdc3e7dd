import TokenSheets.Proofs.Build.Leftovers
import TokenSheets.Proofs.Build.Sweep

/-!
# Where cleaning gets through, and what it comes to

Cleaning only takes things away, and what does not stop it in the beginning does not stop it later:
a file or directory that is taken away is missing then, and what is missing does no harm. So it is
enough to look at the store in which cleaning begins.

Platforms that share a build path sweep it together. The directory in front of it must be there and
may be named in any way, also by way of the build path itself.

* `Store.Yields`, `Store.Admits`: files and directories at which cleaning does not stop;
* `exists_cleanSteps_eq_ok`: then it gets through;
* `Path.EndsIn`: a path of a name in a directory;
* `swept_of_cleanSteps`: what platforms of one build path leave of it.
-/

namespace TokenSheets

open Store

variable {shell : Shell} {store after : Store} {memory known : Memory} {path : Path}
  {place : Location}

/-- **A path that ends in a name**: in front of it may be points, slashes behind it. -/
structure Path.EndsIn (path : Path) (front : List String) (name : String) : Prop where
  segments : path.segments = front ++ [name]
  ne_points : name ≠ ".."
  endsInPoint : path.endsInPoint = false

/-! ### What does not stop cleaning -/

namespace Store

/-- **A file that cleaning does not stop at**: it is removed, or there is none. -/
def Yields (store : Store) (path : Path) : Prop :=
  ∀ fault, store.removeFile path = .error fault → fault = .notFound

/-- **A directory that cleaning does not stop at**: it can be looked into, or there is none. -/
def Admits (store : Store) (path : Path) : Prop :=
  ∀ fault, store.directory path = .error fault → fault = .notFound

theorem Shrinks.yields (h : store.Shrinks after) (hyields : store.Yields path) :
    after.Yields path := by
  intro fault hfault
  rcases h.locate path with hsame | hmissing
  · rcases hlocate : store.locate path with fault' | location | ⟨location, name⟩
    · refine hyields fault ?_
      rw [removeFile, hsame, hlocate] at hfault
      rwa [removeFile, hlocate]
    · refine hyields fault ?_
      rw [removeFile, hsame, hlocate] at hfault
      rwa [removeFile, hlocate]
    · rw [removeFile_of_child (hsame.trans hlocate)] at hfault
      rcases hthere : after.get? (location ++ [name]) with _ | entry
      · rw [hthere] at hfault
        exact (Except.error.inj hfault).symm
      · refine hyields fault ?_
        rw [removeFile_of_child hlocate, h.get?_eq_some hthere]
        rw [hthere] at hfault
        rcases entry with content | _
        · split_ifs at hfault ⊢
          exact hfault
        · exact hfault
  · rw [removeFile, hmissing] at hfault
    exact (Except.error.inj hfault).symm

theorem Shrinks.admits (h : store.Shrinks after) (hadmits : store.Admits path) :
    after.Admits path := by
  intro fault hfault
  rcases h.directory path with hsame | hmissing
  · exact hadmits fault (hsame.symm.trans hfault)
  · exact Except.error.inj (hfault.symm.trans hmissing)

theorem removeDirectory_of_endsIn {front : List String} {name : String}
    (ends : path.EndsIn front name) (hdirectory : store.directory path = .ok place)
    (hempty : store.isEmptyAt place = true) :
    store.removeDirectory path = .ok (store.remove place) := by
  rcases hlocate : store.locate path with fault | location | ⟨location, last⟩
  · rw [directory, hlocate] at hdirectory
    cases hdirectory
  · rw [locate_concat ends.segments ends.ne_points] at hlocate
    obtain ⟨-, -, hlocate⟩ := bind_eq_ok.mp hlocate
    obtain ⟨reached, -, hlocate⟩ := bind_eq_ok.mp hlocate
    split_ifs at hlocate
    cases hlocate
  · have henter : store.enter location last = .ok place := by
      rwa [directory, hlocate] at hdirectory
    rw [removeDirectory_of_child hlocate, henter]
    simp [Except.bind, ends.endsInPoint, hempty]

end Store

theorem Step.exists_perform_of_yields (h : store.Yields path) (shell : Shell) (memory : Memory) :
    ∃ after, (Step.removeFile path).perform shell store memory = (after, .ok memory) := by
  rw [perform]
  rcases hremove : store.removeFile path with fault | after
  · obtain rfl := h fault hremove
    exact ⟨store, rfl⟩
  · exact ⟨after, rfl⟩

theorem Step.exists_performAll_of_admits {front : List String} {name : String}
    (ends : path.EndsIn front name) (h : store.Admits path) (shell : Shell) (memory : Memory) :
    ∃ after, performAll shell store memory (removeIfEmpty path) = (after, .ok false) := by
  rcases hdirectory : store.directory path with fault | place
  · obtain rfl := h fault hdirectory
    exact ⟨store, by simp [removeIfEmpty, performAll, perform, hdirectory]⟩
  · rcases hempty : store.isEmptyAt place with _ | _
    · exact ⟨store, by simp [removeIfEmpty, performAll, perform, hdirectory, hempty]⟩
    · have hremove := removeDirectory_of_endsIn ends hdirectory hempty
      exact ⟨store.remove place, by simp [removeIfEmpty, performAll, perform, hdirectory, hempty,
        hremove, strict]⟩

/-- **A platform that cleaning does not stop at.** -/
structure Platform.IsFree (platform : Platform) (store : Store) : Prop where
  yields : ∀ file ∈ platform.files, store.Yields (platform.pathOf file)
  admits : store.Admits platform.buildPath
  endsIn : ∃ front name, platform.buildPath.EndsIn front name

theorem Store.Shrinks.isFree {platform : Platform} (h : store.Shrinks after)
    (free : platform.IsFree store) : platform.IsFree after :=
  ⟨fun file hfile => h.yields (free.yields file hfile), h.admits free.admits, free.endsIn⟩

theorem Platform.cleanSteps_ne_error {platform : Platform} (free : platform.IsFree store)
    {fault : BuildFault} :
    performAll shell store memory platform.cleanSteps ≠ (after, .error fault) := by
  intro h
  rw [cleanSteps, performAll_append_eq_error] at h
  have hremoves : ∀ step ∈ platform.files.map fun file => Step.removeFile (platform.pathOf file),
      step.IsCleaning := fun _ hstep => isCleaning_of_mem_cleanSteps (List.mem_append_left _ hstep)
  rcases h with h | ⟨middle, between, hfiles, h⟩
  · obtain ⟨done, step, left, middle, between, hsteps, hdone, hstep⟩ := performAll_eq_error.mp h
    rw [hsteps] at hremoves
    have hmem : step ∈ platform.files.map fun file => .removeFile (platform.pathOf file) := by
      simp [hsteps]
    obtain ⟨file, hfile, rfl⟩ := List.mem_map.mp hmem
    have hdones : ∀ step ∈ done, step.IsCleaning := fun step hstep =>
      hremoves step (by simp [hstep])
    have hshrinks := shrinks_of_isCleaning hdones shell store memory
    rw [hdone] at hshrinks
    obtain ⟨next, hok⟩ := Step.exists_perform_of_yields
      (hshrinks.yields (free.yields file hfile)) shell between
    simp [hok] at hstep
  · have hshrinks := shrinks_of_isCleaning hremoves shell store memory
    rw [hfiles] at hshrinks
    obtain ⟨front, name, hends⟩ := free.endsIn
    obtain ⟨next, hok⟩ := Step.exists_performAll_of_admits hends (hshrinks.admits free.admits) shell
      between
    rw [Step.removeIfEmpty] at hok
    simp [hok] at h

/-- **Cleaning gets through** where nothing stops it in the beginning. -/
theorem exists_cleanSteps_eq_ok {platforms : Platforms} (free : ∀ p ∈ platforms, p.2.IsFree store)
    (shell : Shell) (memory : Memory) :
    ∃ after known, performAll shell store memory (cleanSteps platforms) = (after, .ok known) := by
  rcases hrun : performAll shell store memory (cleanSteps platforms) with ⟨after, fault | known⟩
  · obtain ⟨earlier, p, later, middle, between, rfl, hearlier, hp⟩ :=
      performAll_flatMap_eq_error.mp hrun
    have hearlier : performAll shell store memory (cleanSteps earlier) = (middle, .ok between) :=
      hearlier
    have hshrinks : store.Shrinks middle := shrinks_of_cleanSteps hearlier
    exact absurd hp (Platform.cleanSteps_ne_error (hshrinks.isFree (free p (by simp))))
  · exact ⟨after, known, rfl⟩

/-! ### One build path -/

/-- **Platforms of one directory**: their build paths end in the same names, and their files have
ordinary names. -/
structure Platforms.ShareDirectory (platforms : Platforms) (front : List String) (name : String) :
    Prop where
  endsIn : ∀ p ∈ platforms, p.2.buildPath.EndsIn front name
  isOrdinary : ∀ p ∈ platforms, ∀ file ∈ p.2.files, Path.IsOrdinary file.destination

/-- **A path that is missing**, though the directory in front of its last name is there: nothing is
at the name. -/
theorem Store.none_of_isMissing {front : List String} {name : String}
    (hsegments : path.segments = front ++ [name]) (ne_points : name ≠ "..")
    (hwalk : store.walk [] front = .ok place) (hmissing : store.IsMissing path) :
    store.get? (place ++ [name]) = none := by
  have htext : path.text ≠ "" := Path.text_ne_empty_of_segments (by simp [hsegments])
  rw [IsMissing, directory_eq, hsegments, walk_append, hwalk] at hmissing
  rcases hcheck : check path with fault | ⟨⟩
  · rw [hcheck] at hmissing
    obtain rfl := Except.error.inj hmissing
    exact absurd hcheck (check_ne_notFound htext)
  · rw [hcheck] at hmissing
    simp only [Except.bind, walk, enter_eq ne_points] at hmissing
    split_ifs at hmissing
    · rcases hthere : store.get? (place ++ [name]) with _ | _ | _ <;> simp [hthere] at hmissing ⊢
    · simp at hmissing

section OneDirectory

variable {platforms : Platforms} {front : List String} {name : String} {parent : Location}

theorem Platforms.ShareDirectory.placeOf_buildPath (share : platforms.ShareDirectory front name)
    (reach : store.walk [] front = .ok parent) {p : String × Platform} (hp : p ∈ platforms) :
    placeOf p.2.buildPath.segments = parent ++ [name] := by
  have hends := share.endsIn p hp
  rw [← placeOf_nil] at reach
  rw [hends.segments, placeOf_concat, placeOne_of_ne hends.ne_points, walk_placeOf reach,
    List.nil_append]

theorem Platforms.ShareDirectory.placeOf_pathOf (share : platforms.ShareDirectory front name)
    (reach : store.walk [] front = .ok parent) {p : String × Platform} (hp : p ∈ platforms)
    {file : FileSpec} (hfile : file ∈ p.2.files) :
    placeOf (p.2.pathOf file).segments = parent ++ [name] ++ [file.destination] := by
  have hordinary := share.isOrdinary p hp file hfile
  rw [Platform.pathOf, Path.segments_join _ hordinary, placeOf_concat,
    placeOne_of_ne hordinary.ne_points, share.placeOf_buildPath reach hp]

theorem Platforms.ShareDirectory.get?_elsewhere (share : platforms.ShareDirectory front name)
    (reach : store.walk [] front = .ok parent)
    (hok : performAll shell store memory (cleanSteps platforms) = (after, .ok known))
    (hlocation : place ≠ parent ++ [name])
    (hfiles : ∀ file ∈ platforms.fileNames, place ≠ parent ++ [name] ++ [file]) :
    after.get? place = store.get? place := by
  rcases Platforms.get?_cleanSteps hok place with hsame | ⟨step, middle, -, -, hremoves⟩
  · exact hsame
  · cases hremoves with
    | file mem memFile =>
      have hname := Platforms.mem_fileNames.mpr ⟨_, mem, _, memFile, rfl⟩
      exact absurd (share.placeOf_pathOf reach mem memFile) (hfiles _ hname)
    | directory mem => exact absurd (share.placeOf_buildPath reach mem) hlocation

theorem Platforms.ShareDirectory.directory_of_left (share : platforms.ShareDirectory front name)
    (reach : store.walk [] front = .ok parent)
    (hok : performAll shell store memory (cleanSteps platforms) = (after, .ok known))
    (hleft : after.get? (parent ++ [name]) ≠ none) {p : String × Platform} (hp : p ∈ platforms)
    (hsettled : after.IsSettled p.2.buildPath) :
    after.directory p.2.buildPath = .ok (parent ++ [name]) ∧
      after.isEmptyAt (parent ++ [name]) = false := by
  have hkeeps : store.Keeps after := fun place hthere => by
    by_cases hplace : place = parent ++ [name]
    · rcases shrinks_of_cleanSteps hok place with hsame | hnone
      · exact hsame.trans hthere
      · exact absurd (hplace ▸ hnone) hleft
    · exact Platforms.get?_directory_of_cleanSteps hok hthere
        (.inl fun q hq => share.placeOf_buildPath reach hq ▸ Ne.symm hplace)
  have hends := share.endsIn p hp
  rcases hsettled with hmissing | ⟨place, hdirectory, hempty⟩
  · -- the way to it is as it was, so nothing could be missing but the directory itself
    exact absurd (none_of_isMissing hends.segments hends.ne_points (hkeeps.walk reach) hmissing)
      hleft
  · have hplace := place_of_directory hdirectory
    rw [share.placeOf_buildPath reach hp] at hplace
    exact ⟨hplace ▸ hdirectory, hplace ▸ hempty⟩

/-- **What platforms of one directory leave of it**: nothing of their files, and the directory only
if something else is in it. -/
theorem swept_of_cleanSteps (share : platforms.ShareDirectory front name) (ne_nil : platforms ≠ [])
    (tree : store.IsTree) (reach : store.walk [] front = .ok parent)
    (hok : performAll shell store memory (cleanSteps platforms) = (after, .ok known)) :
    Swept (parent ++ [name]) platforms.fileNames store after := by
  obtain ⟨earlier, last, hsplit⟩ := (List.eq_nil_or_concat' platforms).resolve_left ne_nil
  have hlast : last ∈ platforms := by simp [hsplit]
  have hsettled : after.IsSettled last.2.buildPath := by
    rw [hsplit] at hok
    obtain ⟨middle, between, -, hnone, -, hsettled⟩ := exists_settled hok
    obtain ⟨rfl, -⟩ := Prod.mk.inj hnone
    exact hsettled
  have hleft := fun hthere => share.directory_of_left reach hok hthere hlast hsettled
  have htree : after.IsTree := by
    have hcleaning : ∀ step ∈ cleanSteps platforms, step.IsCleaning := fun _ =>
      isCleaning_of_mem_cleanSteps
    have hclean := isTree_of_isCleaning hcleaning shell memory tree
    rwa [hok] at hclean
  have hgone : ∀ file ∈ platforms.fileNames, after.get? (parent ++ [name] ++ [file]) = none := by
    intro file hfile
    by_cases hthere : after.get? (parent ++ [name]) = none
    · exact htree.none_below (by simp [hthere]) (by simp)
    · obtain ⟨p, hp, entry, hentry, rfl⟩ := Platforms.mem_fileNames.mp hfile
      have hordinary := share.isOrdinary p hp entry hentry
      have hwalk := (hleft hthere).1
      rw [directory_eq, (share.endsIn last hlast).segments, ← (share.endsIn p hp).segments] at hwalk
      obtain ⟨-, -, hwalk⟩ := bind_eq_ok.mp hwalk
      exact none_of_isMissing (Path.segments_join _ hordinary) hordinary.ne_points hwalk
        (isMissing_of_cleanSteps hok hp hentry)
  have hother : ∀ other, other ∉ platforms.fileNames →
      after.get? (parent ++ [name] ++ [other]) = store.get? (parent ++ [name] ++ [other]) := by
    refine fun other hother => share.get?_elsewhere reach hok (by simp) fun file hfile hsame => ?_
    obtain rfl : other = file := by simpa using hsame
    exact hother hfile
  refine ⟨fun file hfile rest => ?_, fun other hlocation hfiles => ?_, ?_, fun hnone => ?_⟩
  · by_cases hrest : rest = []
    · rw [hrest, hgone file hfile]
    · rw [List.append_cons]
      exact htree.none_below (by rw [hgone file hfile]; simp) hrest
  · exact share.get?_elsewhere reach hok hlocation fun file hfile hsame =>
      hfiles file hfile (hsame ▸ List.prefix_rfl)
  · rintro ⟨other, hmem, hsome⟩
    have hafter : after.get? (parent ++ [name] ++ [other]) ≠ none := hother other hmem ▸ hsome
    rw [htree _ _ hafter, tree _ _ hsome]
  · by_contra hthere
    obtain ⟨-, hempty⟩ := hleft hthere
    rw [Bool.eq_false_iff, ne_eq, isEmptyAt_iff, not_forall] at hempty
    obtain ⟨other, hsome⟩ := hempty
    by_cases hmem : other ∈ platforms.fileNames
    · exact hsome (hgone other hmem)
    · exact hsome (hother other hmem ▸ hnone other hmem)

end OneDirectory

end TokenSheets
