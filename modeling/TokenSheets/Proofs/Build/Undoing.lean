import TokenSheets.Proofs.Build.Clearing

/-!
# Cleaning undoes building

Platforms of one directory make it, if it is missing, and write files into it. Cleaning takes away
the files, whatever was there under their names, and the directory if nothing else is in it. So it
comes to the same whether platforms were built before they are cleaned or not.

* `Store.Grown`: what building changes in one directory;
* `Step.BuildsIn`, `grown_of_performAll`: the steps that build there, one and all of them;
* `isFree_of_buildSteps`: nothing stops cleaning, neither before building nor behind it;
* `Store.Swept.eq_of_agree`, `Store.Swept.eq_of_none`: stores that are swept;
* `cleaning_undoes_building`: cleaning with and without building in front of it.
-/

namespace TokenSheets

open Store

variable {shell : Shell} {store before middle after : Store} {memory known : Memory} {path : Path}
  {front : List String} {name : String} {parent location : Location} {tokens : Tree}

namespace Store

/-! ### Changes in one directory -/

/-- **Making a directory** whose parent is there. -/
theorem of_makeDirectories_of_endsIn (ends : path.EndsIn front name)
    (reach : store.walk [] front = .ok parent) (hok : store.makeDirectories path = (after, none)) :
    check path = .ok () ∧ Fits name ∧
      ((store.get? (parent ++ [name]) = some .directory ∧ after = store) ∨
        (store.get? (parent ++ [name]) = none ∧
          after = store.put (parent ++ [name]) .directory)) := by
  have htext : path.text ≠ "" := Path.text_ne_empty_of_segments (by simp [ends.segments])
  rw [makeDirectories, if_neg htext] at hok
  rcases hcheck : check path with fault | ⟨⟩
  · simp [hcheck] at hok
  · simp only [hcheck, ends.endsInPoint, Bool.false_eq_true, if_false, ends.segments] at hok
    rw [makeAll_append_of_walk reach, makeAll_cons ends.ne_points] at hok
    split_ifs at hok with hfits
    · refine ⟨rfl, hfits, ?_⟩
      rcases hthere : store.get? (parent ++ [name]) with _ | content | _
      · rw [hthere] at hok
        exact .inr ⟨rfl, (Prod.mk.inj hok).1.symm⟩
      · simp [hthere] at hok
      · rw [hthere] at hok
        exact .inl ⟨rfl, (Prod.mk.inj hok).1.symm⟩
    · simp at hok

/-- **What building changes in one directory**: it is made if nothing was there, and files may be
written under these names where no directory is. -/
structure Grown (location : Location) (names : List String) (before after : Store) : Prop where
  at_location : after.get? location = before.get? location ∨
    (before.get? location = none ∧ after.get? location = some .directory)
  directories : ∀ place, place ≠ location →
    (after.get? place = some .directory ↔ before.get? place = some .directory)
  elsewhere : ∀ place, place ≠ location → (∀ name ∈ names, place ≠ location ++ [name]) →
    after.get? place = before.get? place

variable {names : List String}

theorem Grown.refl (location : Location) (names : List String) (store : Store) :
    Grown location names store store :=
  ⟨.inl rfl, fun _ _ => Iff.rfl, fun _ _ _ => rfl⟩

theorem Grown.trans (h : Grown location names before middle)
    (h' : Grown location names middle after) : Grown location names before after where
  at_location := by
    rcases h'.at_location with hsame | ⟨hnone, hdir⟩
    · rw [hsame]
      exact h.at_location
    · rcases h.at_location with hsame' | ⟨-, hdir'⟩
      · exact .inr ⟨hsame' ▸ hnone, hdir⟩
      · simp [hnone] at hdir'
  directories place hplace := (h'.directories place hplace).trans (h.directories place hplace)
  elsewhere place hplace hnames :=
    (h'.elsewhere place hplace hnames).trans (h.elsewhere place hplace hnames)

theorem Grown.keeps (h : Grown location names before after) : before.Keeps after := by
  intro place hthere
  by_cases hplace : place = location
  · subst hplace
    rcases h.at_location with hsame | ⟨-, hdir⟩
    · exact hsame.trans hthere
    · exact hdir
  · exact (h.directories place hplace).mpr hthere

theorem Grown.of_put_directory (hne : location ≠ []) (hnone : store.get? location = none) :
    Grown location names store (store.put location .directory) := by
  have hafter := get?_put_at store .directory hne
  refine ⟨.inr ⟨hnone, by rw [hafter, if_pos rfl]⟩, fun place hplace => ?_,
    fun place hplace _ => ?_⟩
  · rw [hafter, if_neg (Ne.symm hplace)]
  · rw [hafter, if_neg (Ne.symm hplace)]

theorem Grown.of_put_file (hmem : name ∈ names)
    (hnot : store.get? (location ++ [name]) ≠ some .directory) (content : ByteArray) :
    Grown location names store (store.put (location ++ [name]) (.file content)) := by
  have hafter := get?_put_at store (.file content) (by simp : location ++ [name] ≠ [])
  refine ⟨.inl (by rw [hafter, if_neg (by simp)]), fun place _ => ?_, fun place _ hother => ?_⟩
  · rw [hafter]
    split_ifs with hplace
    · exact iff_of_false (by simp) (hplace ▸ hnot)
    · rfl
  · rw [hafter, if_neg (Ne.symm (hother name hmem))]

theorem Grown.isTree (h : Grown (parent ++ [name]) names before after) (tree : before.IsTree)
    (hparent : before.get? parent = some .directory)
    (made : after.get? (parent ++ [name]) = some .directory) : after.IsTree := by
  intro place last hsome
  by_cases hplace : place = parent ++ [name]
  · rw [hplace, made]
  · rw [h.directories place hplace]
    by_cases hlast : place ++ [last] = parent ++ [name]
    · obtain ⟨rfl, -⟩ := List.append_inj' hlast rfl
      exact hparent
    · refine tree place last ?_
      rwa [← h.elsewhere _ hlast fun file _ heq => hplace (List.append_inj' heq rfl).1]

end Store

/-! ### Steps that build in one directory -/

/-- **A step that builds in one directory**: it makes the directory, writes one of these files into
it, or gives up. -/
inductive Step.BuildsIn (front : List String) (name : String) (files : List String) : Step → Prop
  | makes {path : Path} (ends : path.EndsIn front name) :
    BuildsIn front name files (.makeDirectories path)
  | writes {directory : Path} {file : String} (ends : directory.EndsIn front name)
    (ordinary : Path.IsOrdinary file) (mem : file ∈ files) (text : String) :
    BuildsIn front name files (.writeFile (directory.join file) text)
  | refuses (error : SheetError) : BuildsIn front name files (.refuse error)

section Building

variable {files : List String} {step : Step} {steps : List Step}

theorem of_perform_makeDirectories (ends : path.EndsIn front name)
    (reach : store.walk [] front = .ok parent)
    (hok : (Step.makeDirectories path).perform shell store memory = (after, .ok known)) :
    check path = .ok () ∧ Fits name ∧
      ((store.get? (parent ++ [name]) = some .directory ∧ after = store) ∨
        (store.get? (parent ++ [name]) = none ∧
          after = store.put (parent ++ [name]) .directory)) := by
  rw [Step.perform] at hok
  rcases hmake : store.makeDirectories path with ⟨made, _ | fault⟩
  · rw [hmake] at hok
    obtain ⟨rfl, -⟩ := Prod.mk.inj hok
    exact of_makeDirectories_of_endsIn ends reach hmake
  · simp [hmake] at hok

theorem of_perform_writeFile {directory : Path} {file text : String}
    (ends : directory.EndsIn front name) (ordinary : Path.IsOrdinary file)
    (reach : store.walk [] front = .ok parent)
    (hok : (Step.writeFile (directory.join file) text).perform shell store memory =
      (after, .ok known)) :
    store.Reaches directory file (parent ++ [name]) ∧
      store.get? (parent ++ [name] ++ [file]) ≠ some .directory ∧
      after = store.put (parent ++ [name] ++ [file]) (.file text.toUTF8) := by
  rw [Step.perform] at hok
  rcases hwrite : store.writeFile (directory.join file) text.toUTF8 with fault | written
  · rw [hwrite] at hok
    simp [strict] at hok
  · rw [hwrite, strict] at hok
    obtain ⟨rfl, -⟩ := Prod.mk.inj hok
    obtain ⟨reached, hreaches, hnot, hafter⟩ := of_writeFile_join ordinary hwrite
    obtain rfl : reached = parent ++ [name] := by
      have hwalk := hreaches.walk
      rw [ends.segments, walk_append, reach, Except.bind, walk] at hwalk
      obtain ⟨next, henter, hnext⟩ := bind_eq_ok.mp hwalk
      obtain ⟨-, -, rfl⟩ := (enter_eq_ok ends.ne_points).mp henter
      exact (Except.ok.inj hnext).symm
    exact ⟨hreaches, hnot, hafter⟩

theorem Step.BuildsIn.grown (h : step.BuildsIn front name files)
    (reach : store.walk [] front = .ok parent)
    (hok : step.perform shell store memory = (after, .ok known)) :
    Grown (parent ++ [name]) files store after := by
  cases h with
  | makes ends =>
    obtain ⟨-, -, ⟨-, rfl⟩ | ⟨hnone, rfl⟩⟩ := of_perform_makeDirectories ends reach hok
    · exact Grown.refl _ _ _
    · exact Grown.of_put_directory (by simp) hnone
  | writes ends ordinary mem text =>
    obtain ⟨-, hnot, rfl⟩ := of_perform_writeFile ends ordinary reach hok
    exact Grown.of_put_file mem hnot _
  | refuses error => simp [Step.perform] at hok

/-- **Steps that build in one directory** change only that directory. -/
theorem grown_of_performAll (builds : ∀ step ∈ steps, step.BuildsIn front name files) :
    ∀ {store : Store} {memory : Memory}, store.walk [] front = .ok parent →
      performAll shell store memory steps = (after, .ok known) →
      Grown (parent ++ [name]) files store after := by
  induction steps with
  | nil =>
    intro store memory _ hok
    obtain ⟨rfl, -⟩ := Prod.mk.inj hok
    exact Grown.refl _ _ _
  | cons step rest ih =>
    intro store memory reach hok
    rw [performAll] at hok
    rcases hstep : step.perform shell store memory with ⟨next, fault | between⟩
    · simp [hstep] at hok
    · rw [hstep] at hok
      have hfirst := (builds step List.mem_cons_self).grown reach hstep
      have hrest := ih (fun other hother => builds other (List.mem_cons_of_mem _ hother))
        (hfirst.keeps.walk reach) hok
      exact hfirst.trans hrest

/-- **Every step has its turn**: what was done in front of it and behind it changes only the
directory. -/
theorem exists_perform_of_mem (builds : ∀ step ∈ steps, step.BuildsIn front name files)
    (reach : store.walk [] front = .ok parent)
    (hok : performAll shell store memory steps = (after, .ok known)) (hmem : step ∈ steps) :
    ∃ middle between next known', step.perform shell middle between = (next, .ok known') ∧
      Grown (parent ++ [name]) files store middle ∧ Grown (parent ++ [name]) files next after := by
  obtain ⟨done, left, rfl⟩ := List.append_of_mem hmem
  obtain ⟨middle, between, hdone, hrest⟩ := performAll_append_eq_ok.mp hok
  rw [performAll] at hrest
  rcases hstep : step.perform shell middle between with ⟨next, fault | known'⟩
  · simp [hstep] at hrest
  · rw [hstep] at hrest
    have hbefore := grown_of_performAll
      (fun other hother => builds other (List.mem_append_left _ hother)) reach hdone
    have hreach := hbefore.keeps.walk reach
    have hnext := (builds step hmem).grown hreach hstep
    have hafter := grown_of_performAll
      (fun other hother => builds other
        (List.mem_append_right _ (List.mem_cons_of_mem _ hother))) (hnext.keeps.walk hreach) hrest
    exact ⟨middle, between, next, known', hstep, hbefore, hafter⟩

theorem of_makeDirectories_mem (builds : ∀ step ∈ steps, step.BuildsIn front name files)
    (reach : store.walk [] front = .ok parent)
    (hok : performAll shell store memory steps = (after, .ok known))
    (ends : path.EndsIn front name) (hmem : .makeDirectories path ∈ steps) :
    check path = .ok () ∧ Fits name ∧ after.get? (parent ++ [name]) = some .directory := by
  obtain ⟨middle, between, next, known', hstep, hbefore, hafter⟩ :=
    exists_perform_of_mem builds reach hok hmem
  obtain ⟨hcheck, hfits, hmade⟩ :=
    of_perform_makeDirectories ends (hbefore.keeps.walk reach) hstep
  refine ⟨hcheck, hfits, hafter.keeps _ ?_⟩
  rcases hmade with ⟨hthere, rfl⟩ | ⟨-, rfl⟩
  · exact hthere
  · rw [get?_put_at _ _ (by simp), if_pos rfl]

theorem of_writeFile_mem (builds : ∀ step ∈ steps, step.BuildsIn front name files)
    (reach : store.walk [] front = .ok parent)
    (hok : performAll shell store memory steps = (after, .ok known)) {directory : Path}
    {file text : String} (ends : directory.EndsIn front name) (ordinary : Path.IsOrdinary file)
    (hmem : .writeFile (directory.join file) text ∈ steps) :
    check (directory.join file) = .ok () ∧ Fits file ∧
      store.get? (parent ++ [name] ++ [file]) ≠ some .directory := by
  obtain ⟨middle, between, next, known', hstep, hbefore, -⟩ :=
    exists_perform_of_mem builds reach hok hmem
  obtain ⟨hreaches, hnot, -⟩ :=
    of_perform_writeFile ends ordinary (hbefore.keeps.walk reach) hstep
  exact ⟨hreaches.check, hreaches.fits,
    fun hthere => hnot ((hbefore.directories _ (by simp)).mpr hthere)⟩

end Building

/-! ### Platforms that were built -/

section Platforms

variable {platforms : Platforms} {built : Store}

theorem Platforms.ShareDirectory.buildsIn [Name.Transliteration]
    (share : platforms.ShareDirectory front name) :
    ∀ step ∈ buildSteps platforms tokens, step.BuildsIn front name platforms.fileNames := by
  intro step hstep
  obtain ⟨p, hp, hstep⟩ := List.mem_flatMap.mp hstep
  rw [Platform.buildSteps] at hstep
  rcases houtputs : p.2.outputs tokens with error | outputs
  · simp only [houtputs, List.mem_singleton] at hstep
    exact hstep ▸ .refuses error
  · simp only [houtputs, List.mem_cons, List.mem_map] at hstep
    rcases hstep with rfl | ⟨output, houtput, rfl⟩
    · exact .makes (share.endsIn p hp)
    · obtain ⟨file, hfile, hpath⟩ := Platform.exists_of_mem_outputs houtputs houtput
      rw [hpath]
      exact .writes (share.endsIn p hp) (share.isOrdinary p hp file hfile)
        (Platforms.mem_fileNames.mpr ⟨p, hp, file, hfile, rfl⟩) output.2

/-- **Every platform is written** if building gets through: its directory is made, and each of its
files is written. -/
theorem mem_buildSteps_of_ok [Name.Transliteration]
    (hok : performAll shell store memory (buildSteps platforms tokens) = (built, .ok known))
    {p : String × Platform} (hp : p ∈ platforms) :
    .makeDirectories p.2.buildPath ∈ buildSteps platforms tokens ∧
      ∀ file ∈ p.2.files, ∃ text, .writeFile (p.2.pathOf file) text ∈ buildSteps platforms tokens
        := by
  rcases houtputs : p.2.outputs tokens with error | outputs
  · -- a platform that gives up does not let the build through
    exfalso
    obtain ⟨earlier, later, rfl⟩ := List.append_of_mem hp
    rw [buildSteps, List.flatMap_append, List.flatMap_cons] at hok
    obtain ⟨middle, between, -, hrest⟩ := performAll_append_eq_ok.mp hok
    simp [Platform.buildSteps, houtputs, performAll, Step.perform] at hrest
  · have hmem : ∀ step ∈ p.2.buildSteps tokens, step ∈ buildSteps platforms tokens :=
      fun step hstep => List.mem_flatMap.mpr ⟨p, hp, hstep⟩
    refine ⟨hmem _ (by simp [Platform.buildSteps, houtputs]), fun file hfile => ?_⟩
    obtain ⟨output, houtput, hpath⟩ := Platform.exists_output houtputs hfile
    refine ⟨output.2, hmem _ ?_⟩
    rw [Platform.buildSteps, houtputs, ← hpath]
    exact List.mem_cons_of_mem _ (List.mem_map.mpr ⟨output, houtput, rfl⟩)

/-- **A platform does not stop cleaning** if no file is in the place of its directory, and no
directory in the place of its files. -/
theorem Platform.isFree_of_endsIn {platform : Platform}
    (ends : platform.buildPath.EndsIn front name) (reach : store.walk [] front = .ok parent)
    (hcheck : check platform.buildPath = .ok ()) (hfits : Fits name)
    (notFile : ∀ content, store.get? (parent ++ [name]) ≠ some (.file content))
    (files : ∀ file ∈ platform.files, Path.IsOrdinary file.destination ∧
      check (platform.pathOf file) = .ok () ∧ Fits file.destination ∧
      store.get? (parent ++ [name] ++ [file.destination]) ≠ some .directory) :
    platform.IsFree store := by
  have hwalk : store.walk [] platform.buildPath.segments = .ok (parent ++ [name]) ∨
      store.walk [] platform.buildPath.segments = .error .notFound := by
    rw [ends.segments, walk_append, reach]
    simp only [Except.bind, walk, enter_eq ends.ne_points, if_pos hfits]
    rcases hthere : store.get? (parent ++ [name]) with _ | content | _
    · exact .inr rfl
    · exact absurd hthere (notFile content)
    · exact .inl rfl
  refine ⟨fun file hfile fault hfault => ?_, fun fault hfault => ?_, front, name, ends⟩
  · obtain ⟨ordinary, hcheck', hfits', hnot⟩ := files file hfile
    have hlocate := @locate_join store platform.buildPath _ ordinary
    rw [← pathOf, hcheck'] at hlocate
    rcases hwalk with hwalk | hwalk <;> simp only [hwalk, Except.bind, if_pos hfits'] at hlocate
    · rw [removeFile_of_child hlocate, pathOf, meansDirectory_join ordinary] at hfault
      rcases hthere : store.get? (parent ++ [name] ++ [file.destination]) with _ | content | _
      · rw [hthere] at hfault
        exact (Except.error.inj hfault).symm
      · rw [hthere] at hfault
        simp at hfault
      · exact absurd hthere hnot
    · rw [removeFile, hlocate] at hfault
      exact (Except.error.inj hfault).symm
  · rw [directory_eq, hcheck] at hfault
    rcases hwalk with hwalk | hwalk
    · simp [Except.bind, hwalk] at hfault
    · simpa [Except.bind, hwalk, eq_comm] using hfault

/-- **Building that gets through** leaves nothing that stops cleaning, and found nothing of the
kind. -/
theorem isFree_of_buildSteps [Name.Transliteration] (share : platforms.ShareDirectory front name)
    (reach : store.walk [] front = .ok parent)
    (hok : performAll shell store memory (buildSteps platforms tokens) = (built, .ok known))
    {p : String × Platform} (hp : p ∈ platforms) : p.2.IsFree store ∧ p.2.IsFree built := by
  have hbuilds : ∀ step ∈ buildSteps platforms tokens,
      step.BuildsIn front name platforms.fileNames := share.buildsIn
  have hgrown := grown_of_performAll hbuilds reach hok
  obtain ⟨hmakes, hwrites⟩ := mem_buildSteps_of_ok hok hp
  obtain ⟨hcheck, hfits, hmade⟩ :=
    of_makeDirectories_mem hbuilds reach hok (share.endsIn p hp) hmakes
  have hfiles : ∀ file ∈ p.2.files, Path.IsOrdinary file.destination ∧
      check (p.2.pathOf file) = .ok () ∧ Fits file.destination ∧
      store.get? (parent ++ [name] ++ [file.destination]) ≠ some .directory := by
    intro file hfile
    obtain ⟨text, hwrite⟩ := hwrites file hfile
    have ordinary := share.isOrdinary p hp file hfile
    exact ⟨ordinary, of_writeFile_mem hbuilds reach hok (share.endsIn p hp) ordinary hwrite⟩
  constructor
  · refine Platform.isFree_of_endsIn (share.endsIn p hp) reach hcheck hfits (fun content => ?_)
      hfiles
    rcases hgrown.at_location with hsame | ⟨hnone, -⟩
    · rw [← hsame, hmade]
      simp
    · simp [hnone]
  · refine Platform.isFree_of_endsIn (share.endsIn p hp) (hgrown.keeps.walk reach) hcheck hfits
      (fun content => by simp [hmade]) fun file hfile => ?_
    obtain ⟨ordinary, hcheck', hfits', hnot⟩ := hfiles file hfile
    exact ⟨ordinary, hcheck', hfits', fun hthere =>
      hnot ((hgrown.directories _ (by simp)).mp hthere)⟩

end Platforms

/-! ### Swept directories -/

namespace Store

variable {names : List String} {left cleaned : Store}

/-- **Two stores that are swept** end alike if they agree apart from the directory and the names in
it, and on the directory itself if something else is in it. -/
theorem Swept.eq_of_agree (h : Swept location names before left)
    (h' : Swept location names after cleaned)
    (elsewhere : ∀ place, place ≠ location → (∀ name ∈ names, place ≠ location ++ [name]) →
      after.get? place = before.get? place)
    (at_location : (∃ name, name ∉ names ∧ before.get? (location ++ [name]) ≠ none) →
      after.get? location = before.get? location) (place : Location) :
    cleaned.get? place = left.get? place := by
  have hother : ∀ name, name ∉ names →
      after.get? (location ++ [name]) = before.get? (location ++ [name]) := fun name hname =>
    elsewhere _ (by simp) fun file hfile hsame =>
      hname (List.singleton_inj.mp (List.append_cancel_left hsame) ▸ hfile)
  by_cases hplace : place = location
  · subst hplace
    by_cases more : ∃ name, name ∉ names ∧ before.get? (place ++ [name]) ≠ none
    · have more' : ∃ name, name ∉ names ∧ after.get? (place ++ [name]) ≠ none := by
        obtain ⟨name, hname, hsome⟩ := more
        exact ⟨name, hname, hother name hname ▸ hsome⟩
      rw [h'.stays more', h.stays more, at_location more]
    · have hnone : ∀ name, name ∉ names → before.get? (place ++ [name]) = none :=
        fun name hname => by_contra fun hsome => more ⟨name, hname, hsome⟩
      rw [h'.leaves fun name hname => (hother name hname).trans (hnone name hname), h.leaves hnone]
  · by_cases hbelow : ∃ name ∈ names, location ++ [name] <+: place
    · obtain ⟨name, hname, rest, rfl⟩ := hbelow
      have hgone := h.gone name hname rest
      have hgone' := h'.gone name hname rest
      rw [List.append_assoc, List.singleton_append, hgone, hgone']
    · have hnames : ∀ name ∈ names, ¬ location ++ [name] <+: place := fun name hname hahead =>
        hbelow ⟨name, hname, hahead⟩
      rw [h'.kept place hplace hnames, h.kept place hplace hnames,
        elsewhere place hplace fun name hname hsame =>
          hnames name hname (hsame ▸ List.prefix_rfl)]

theorem Swept.eq_of_none (h : Swept location names before left) (tree : before.IsTree)
    (hnone : before.get? location = none) (place : Location) :
    left.get? place = before.get? place := by
  have hbelow : ∀ rest, rest ≠ [] → before.get? (location ++ rest) = none := fun rest hrest =>
    tree.none_below (by simp [hnone]) hrest
  by_cases hplace : place = location
  · rw [hplace, hnone, h.leaves fun name _ => hbelow [name] (by simp)]
  · by_cases hnames : ∃ name ∈ names, location ++ [name] <+: place
    · obtain ⟨name, hname, rest, rfl⟩ := hnames
      have hgone := h.gone name hname rest
      rw [List.append_assoc, List.singleton_append, hgone, hbelow _ (by simp)]
    · exact h.kept place hplace fun name hname hahead => hnames ⟨name, hname, hahead⟩

end Store

/-- **Cleaning undoes building.** The platforms have one build path, by any spelling; the directory
in front of it is there. If building gets through, so does cleaning behind it, and it leaves what
cleaning alone would have left. If nothing was at the build path, this is the store that building
began in. -/
theorem cleaning_undoes_building [Name.Transliteration] {platforms : Platforms} {built : Store}
    (share : platforms.ShareDirectory front name) (tree : store.IsTree)
    (reach : store.walk [] front = .ok parent)
    (hok : performAll shell store memory (buildSteps platforms tokens) = (built, .ok known))
    (again alone : Memory) :
    ∃ cleaned left known' known'',
      performAll shell built again (cleanSteps platforms) = (cleaned, .ok known') ∧
      performAll shell store alone (cleanSteps platforms) = (left, .ok known'') ∧
      (∀ place, cleaned.get? place = left.get? place) ∧
      (store.get? (parent ++ [name]) = none → ∀ place, cleaned.get? place = store.get? place) := by
  have hbuilds : ∀ step ∈ buildSteps platforms tokens,
      step.BuildsIn front name platforms.fileNames := share.buildsIn
  have hgrown := grown_of_performAll hbuilds reach hok
  have hfree := fun p (hp : p ∈ platforms) => isFree_of_buildSteps share reach hok hp
  obtain ⟨cleaned, known', hcleaned⟩ :=
    exists_cleanSteps_eq_ok (fun p hp => (hfree p hp).2) shell again
  obtain ⟨left, known'', hleft⟩ := exists_cleanSteps_eq_ok (fun p hp => (hfree p hp).1) shell alone
  refine ⟨cleaned, left, known', known'', hcleaned, hleft, ?_⟩
  by_cases ne_nil : platforms = []
  · subst ne_nil
    obtain ⟨rfl, -⟩ := Prod.mk.inj hok
    obtain ⟨rfl, -⟩ := Prod.mk.inj hcleaned
    obtain ⟨rfl, -⟩ := Prod.mk.inj hleft
    exact ⟨fun _ => rfl, fun _ _ => rfl⟩
  · have hreach := hgrown.keeps.walk reach
    obtain ⟨p, hp⟩ := List.exists_mem_of_ne_nil platforms ne_nil
    obtain ⟨-, -, hmade⟩ := of_makeDirectories_mem hbuilds reach hok (share.endsIn p hp)
      (mem_buildSteps_of_ok hok hp).1
    have htree : built.IsTree :=
      hgrown.isTree tree (tree.directory_of_walk (get?_root store) reach) hmade
    have hswept := swept_of_cleanSteps share ne_nil tree reach hleft
    have hswept' := swept_of_cleanSteps share ne_nil htree hreach hcleaned
    have hsame := hswept.eq_of_agree hswept' hgrown.elsewhere fun more => by
      obtain ⟨other, -, hsome⟩ := more
      rw [tree _ _ hsome, hmade]
    exact ⟨hsame, fun hnone place => (hsame place).trans (hswept.eq_of_none tree hnone place)⟩

section

attribute [local instance] Name.Transliteration.ascii

/-- Two platforms write one file, by different spellings of a path that leads up: it was there
before, with another text, and is gone in the end. A file of another name stays. -/
theorem cleaning_undoes_building_twice :
    let platform (path : String) (format : String) : Platform :=
      { flavor := .js, buildPath := ⟨path⟩, scale := {}
        files := [{ destination := "a", format := format }] }
    let platforms : Platforms := [("first", platform "../dist/out" "javascript/es6"),
      ("second", platform ".././dist/out/" "typescript/declarations")]
    let store : Store := ⟨[(["dist"], .directory), (["dist", "out"], .directory),
      (["dist", "out", "a"], .file ByteArray.empty),
      (["dist", "out", "notes"], .file ByteArray.empty)]⟩
    let shell : Shell := ⟨fun _ store => (store, .exited 0)⟩
    ∃ built cleaned left known known' known'',
      performAll shell store false (buildSteps platforms {}) = (built, .ok known) ∧
      performAll shell built false (cleanSteps platforms) = (cleaned, .ok known') ∧
      performAll shell store false (cleanSteps platforms) = (left, .ok known'') ∧
      ∀ place, cleaned.get? place = left.get? place := by
  intro platform platforms store shell
  have hordinary : Path.IsOrdinary "a" := ⟨by decide, by decide, by decide, by decide⟩
  have share : platforms.ShareDirectory ["..", "dist"] "out" := by
    refine ⟨fun p hp => ?_, fun p hp => ?_⟩ <;> rcases List.mem_pair.mp hp with rfl | rfl
    · exact ⟨by decide, by decide, by decide⟩
    · exact ⟨by decide, by decide, by decide⟩
    · simpa [platform] using hordinary
    · simpa [platform] using hordinary
  have tree : store.IsTree := isTree_of_keys (by decide)
  have reach : store.walk [] ["..", "dist"] = .ok ["dist"] := by decide
  have hisOk : (performAll shell store false (buildSteps platforms {})).2.isOk := by
    decide +kernel
  rcases hrun : performAll shell store false (buildSteps platforms {}) with ⟨built, fault | known⟩
  · rw [hrun] at hisOk
    cases hisOk
  obtain ⟨cleaned, left, known', known'', hcleaned, hleft, hsame, -⟩ :=
    cleaning_undoes_building share tree reach hrun false false
  exact ⟨built, cleaned, left, known, known', known'', rfl, hcleaned, hleft, hsame⟩

end

end TokenSheets
