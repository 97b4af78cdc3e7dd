import TokenSheets.Build.Platform
import TokenSheets.Proofs.Sheet.Stylesheet
import TokenSheets.Proofs.Store.Files
import TokenSheets.Proofs.Store.Removal

/-!
# Building platforms

A build that gets through has made the build path of every platform and written every file entry,
one after another. Where several entries mean the same place the last one stays, and nothing else is
changed apart from the directories in front of build paths.

* `Platform.IsPlain`: build paths that never lead up, and files of ordinary names;
* `Platforms.fileNames`: the names all platforms write under;
* `Platforms.entries`, `Platform.placeOf`: file entries in the order in which they are written, and
  their places;
* `Built`: what a store holds once some build paths were made and some entries written;
* `Built.trans`: builds add up;
* `Built.of_buildSteps`, `Built.of_buildSteps_platforms`: one platform, and all of them;
* `built_platforms_hold_the_last_texts`: what is found afterwards.
-/

namespace TokenSheets

open Store

theorem exists_last {α : Type} {P : α → Prop} : ∀ {list : List α}, (∃ x ∈ list, P x) →
    ∃ front x behind, list = front ++ x :: behind ∧ P x ∧ ∀ y ∈ behind, ¬ P y
  | [], h => by simp at h
  | x :: list, h => by
    by_cases hlater : ∃ y ∈ list, P y
    · obtain ⟨front, y, behind, rfl, hy, hlast⟩ := exists_last hlater
      exact ⟨x :: front, y, behind, rfl, hy, hlast⟩
    · have hx : P x := by
        obtain ⟨y, hy, hmeets⟩ := h
        rcases List.mem_cons.mp hy with rfl | hy
        · exact hmeets
        · exact absurd ⟨y, hy, hmeets⟩ hlater
      exact ⟨[], x, list, rfl, hx, fun y hy hmeets => hlater ⟨y, hy, hmeets⟩⟩

variable {shell : Shell} {store before middle after : Store} {memory known : Memory} {path : Path}
  {tree : Tree}

namespace Platform

/-- **A platform of plain paths**: its build path is named and never leads up, and its files have
ordinary names. -/
structure IsPlain (platform : Platform) : Prop where
  text_ne_empty : platform.buildPath.text ≠ ""
  points_notMem : ".." ∉ platform.buildPath.segments
  isOrdinary : ∀ file ∈ platform.files, Path.IsOrdinary file.destination

/-- The place of a file of a platform. -/
def placeOf (platform : Platform) (file : FileSpec) : Location :=
  platform.buildPath.segments ++ [file.destination]

/-- **The text of a file**: its format shows what its filter leaves of the dictionary. -/
theorem textOf_eq_ok {platform : Platform} {dictionary : Dictionary} {file : FileSpec}
    {text : String} :
    platform.textOf dictionary file = .ok text ↔
      ∃ format, Format.ofName file.format = .ok format ∧
        format.render platform.scale (dictionary.filtered file.filter) = .ok text :=
  bind_eq_ok

variable [Name.Transliteration]

/-- The output of one file: its path and its text. -/
def outputOf (platform : Platform) (tree : Tree) (file : FileSpec) :
    Except SheetError (Path × String) := do
  return (platform.pathOf file, ← platform.textOf (Dictionary.ofTree platform.flavor tree) file)

theorem outputs_eq (platform : Platform) (tree : Tree) :
    platform.outputs tree = platform.files.mapM (platform.outputOf tree) := rfl

theorem outputOf_eq_ok {platform : Platform} {file : FileSpec} {output : Path × String} :
    platform.outputOf tree file = .ok output ↔ output.1 = platform.pathOf file ∧
      platform.textOf (Dictionary.ofTree platform.flavor tree) file = .ok output.2 := by
  rw [outputOf]
  rcases platform.textOf (Dictionary.ofTree platform.flavor tree) file with error | text
  · simp [bind, Except.bind]
  · simp [bind, Except.bind, pure, Except.pure, Prod.ext_iff, eq_comm]

theorem outputOf_eq_error {platform : Platform} {file : FileSpec} {error : SheetError} :
    platform.outputOf tree file = .error error ↔
      platform.textOf (Dictionary.ofTree platform.flavor tree) file = .error error := by
  rw [outputOf]
  rcases platform.textOf (Dictionary.ofTree platform.flavor tree) file with error' | text
  · simp [bind, Except.bind]
  · simp [bind, Except.bind, pure, Except.pure]

theorem exists_of_mem_outputs {platform : Platform} {outputs : List (Path × String)}
    (h : platform.outputs tree = .ok outputs) {output : Path × String} (hmem : output ∈ outputs) :
    ∃ file ∈ platform.files, output.1 = platform.pathOf file := by
  obtain ⟨done, left, rfl⟩ := List.append_of_mem hmem
  obtain ⟨front, file, behind, hfiles, -, hfile, -⟩ := mapM_eq_ok_append.mp h
  exact ⟨file, by simp [hfiles], (outputOf_eq_ok.mp hfile).1⟩

theorem exists_output {platform : Platform} {outputs : List (Path × String)}
    (h : platform.outputs tree = .ok outputs) {file : FileSpec} (hfile : file ∈ platform.files) :
    ∃ output ∈ outputs, output.1 = platform.pathOf file := by
  obtain ⟨output, hmem, houtput⟩ := exists_mem_of_mapM_eq_ok h file hfile
  exact ⟨output, hmem, (outputOf_eq_ok.mp houtput).1⟩

end Platform

/-- **The file entries of platforms**, in the order in which they are written. -/
def Platforms.entries (platforms : Platforms) : List (Platform × FileSpec) :=
  platforms.flatMap fun p => p.2.files.map fun file => (p.2, file)

/-! ### Directories that are made -/

/-- **A directory that was made** is there, and nothing else is new but directories in front of
it. -/
theorem Store.of_makeDirectories (text_ne_empty : path.text ≠ "") (notUp : ".." ∉ path.segments)
    (hok : store.makeDirectories path = (after, none)) :
    after.directory path = .ok path.segments ∧ ∀ place, after.get? place = store.get? place ∨
      (place <+: path.segments ∧ store.get? place = none ∧
        after.get? place = some .directory) := by
  rw [makeDirectories, if_neg text_ne_empty] at hok
  rcases hcheck : check path with fault | ⟨⟩
  · simp [hcheck] at hok
  simp only [hcheck] at hok
  have hmade : ∀ {names : List String}, names <+: path.segments → ∀ place,
      (store.makeAll [] names).1.get? place = store.get? place ∨
        (place <+: path.segments ∧ store.get? place = none ∧
          (store.makeAll [] names).1.get? place = some .directory) := fun {names} hnames place => by
    have notUp' : ".." ∉ names := fun hmem => notUp (hnames.subset hmem)
    rcases @get?_makeAll names store [] notUp' place with hsame | ⟨hfront, hrest⟩
    · exact .inl hsame
    · rw [List.nil_append] at hfront
      exact .inr ⟨(hfront.trans (List.takeWhile_prefix _)).trans hnames, hrest⟩
  split_ifs at hok
  · -- the last name must be there already
    rcases hall : store.makeAll [] path.segments.dropLast with ⟨made, _ | fault⟩
    · have hplaces := hmade (List.dropLast_prefix path.segments)
      simp only [hall] at hok hplaces
      rcases hwalk : made.walk [] path.segments with fault | reached
      · simp [hwalk] at hok
      · obtain rfl : made = after := by simpa [hwalk] using hok
        obtain rfl := eq_of_walk notUp hwalk
        refine ⟨?_, hplaces⟩
        rw [directory_eq, hcheck]
        exact hwalk
    · simp [hall] at hok
  · have hwalk := @walk_makeAll path.segments store [] notUp
    have hplaces := hmade List.prefix_rfl
    simp only [hok] at hwalk hplaces
    refine ⟨?_, hplaces⟩
    rw [directory_eq, hcheck]
    exact hwalk

/-! ### What a build leaves behind -/

/-- **What a store holds** once build paths were made and file entries written: the last entry of
every place, all that was there elsewhere, and nothing new but directories in front of build
paths. -/
structure Built [Name.Transliteration]
    (tree : Tree) (made : List Path) (entries : List (Platform × FileSpec))
    (before after : Store) : Prop where
  held : ∀ front platform file behind, entries = front ++ (platform, file) :: behind →
    (∀ e ∈ behind, e.1.placeOf e.2 ≠ platform.placeOf file) →
    ∃ text, platform.textOf (Dictionary.ofTree platform.flavor tree) file = .ok text ∧
      after.get? (platform.placeOf file) = some (.file text.toUTF8)
  reaches : ∀ e ∈ entries,
    after.Reaches e.1.buildPath e.2.destination e.1.buildPath.segments
  directories : ∀ path ∈ made, after.directory path = .ok path.segments
  keeps : before.Keeps after
  elsewhere : ∀ place, (∀ e ∈ entries, e.1.placeOf e.2 ≠ place) →
    after.get? place = before.get? place ∨
      (before.get? place = none ∧ after.get? place = some .directory ∧
        ∃ path ∈ made, place <+: path.segments)

namespace Built

variable [Name.Transliteration]
  {made made' : List Path} {entries entries' : List (Platform × FileSpec)}

theorem nil (tree : Tree) (store : Store) : Built tree [] [] store store where
  held front platform file behind h := by simp at h
  reaches := by simp
  directories := by simp
  keeps _ h := h
  elsewhere _ _ := .inl rfl

omit [Name.Transliteration] in
theorem directory_of_keeps (h : store.Keeps after) {reached : Location}
    (hok : store.directory path = .ok reached) : after.directory path = .ok reached := by
  rw [directory_eq] at hok ⊢
  obtain ⟨⟨⟩, hcheck, hwalk⟩ := bind_eq_ok.mp hok
  exact bind_eq_ok.mpr ⟨(), hcheck, h.walk hwalk⟩

theorem trans (h : Built tree made entries before middle)
    (h' : Built tree made' entries' middle after) :
    Built tree (made ++ made') (entries ++ entries') before after where
  held front platform file behind hsplit hlast := by
    rcases List.append_eq_append_iff.mp hsplit with
      ⟨between, rfl, hentries'⟩ | ⟨between, hentries, hbehind⟩
    · exact h'.held between platform file behind hentries' hlast
    · rcases between with _ | ⟨first, between⟩
      · exact h'.held [] platform file behind hbehind.symm hlast
      · obtain ⟨rfl, rfl⟩ := List.cons.inj hbehind
        obtain ⟨text, htext, hheld⟩ := h.held front platform file between hentries fun e he =>
          hlast e (List.mem_append_left _ he)
        refine ⟨text, htext, ?_⟩
        rcases h'.elsewhere _ fun e he => hlast e (List.mem_append_right _ he) with
          hsame | ⟨hnone, -⟩
        · rw [hsame, hheld]
        · simp [hheld] at hnone
  reaches e he := by
    rcases List.mem_append.mp he with he | he
    · exact h'.keeps.reaches (h.reaches e he)
    · exact h'.reaches e he
  directories path hpath := by
    rcases List.mem_append.mp hpath with hpath | hpath
    · exact directory_of_keeps h'.keeps (h.directories path hpath)
    · exact h'.directories path hpath
  keeps place hthere := h'.keeps place (h.keeps place hthere)
  elsewhere place hother := by
    have hfirst := h.elsewhere place fun e he => hother e (List.mem_append_left _ he)
    have hsecond := h'.elsewhere place fun e he => hother e (List.mem_append_right _ he)
    rcases hsecond with hsame | ⟨hnone, hdir, path, hpath, hfront⟩
    · rcases hfirst with hsame' | ⟨hnone', hdir', path, hpath, hfront⟩
      · exact .inl (hsame.trans hsame')
      · exact .inr ⟨hnone', hsame.trans hdir', path, List.mem_append_left _ hpath, hfront⟩
    · rcases hfirst with hsame' | ⟨-, hdir', -⟩
      · exact .inr ⟨hsame'.symm.trans hnone, hdir, path, List.mem_append_right _ hpath, hfront⟩
      · simp [hnone] at hdir'

theorem of_makeDirectories (tree : Tree) (text_ne_empty : path.text ≠ "")
    (notUp : ".." ∉ path.segments) (hok : store.makeDirectories path = (after, none)) :
    Built tree [path] [] store after where
  held front platform file behind h := by simp at h
  reaches := by simp
  directories := by
    obtain ⟨hdirectory, -⟩ := Store.of_makeDirectories text_ne_empty notUp hok
    simpa using hdirectory
  keeps := by
    have hkeeps := keeps_makeDirectories store path
    rwa [hok] at hkeeps
  elsewhere place _ := by
    obtain ⟨-, hplaces⟩ := Store.of_makeDirectories text_ne_empty notUp hok
    rcases hplaces place with hsame | ⟨hfront, hnone, hdir⟩
    · exact .inl hsame
    · exact .inr ⟨hnone, hdir, path, by simp, hfront⟩

theorem of_writeFile {platform : Platform} (plain : platform.IsPlain) {file : FileSpec}
    (hfile : file ∈ platform.files) {text : String}
    (htext : platform.textOf (Dictionary.ofTree platform.flavor tree) file = .ok text)
    (hok : store.writeFile (platform.pathOf file) text.toUTF8 = .ok after) :
    Built tree [] [(platform, file)] store after := by
  obtain ⟨reached, hreaches, hnot, rfl⟩ := of_writeFile_join (plain.isOrdinary file hfile) hok
  obtain rfl := eq_of_walk plain.points_notMem hreaches.walk
  have hne : platform.buildPath.segments ++ [file.destination] ≠ [] := by simp
  have hkeeps : store.Keeps (store.put (platform.placeOf file) (.file text.toUTF8)) :=
    keeps_put hne hnot
  refine ⟨fun front platform' file' behind hsplit _ => ?_, ?_, by simp, hkeeps,
    fun place hother => .inl ?_⟩
  · obtain ⟨rfl, hentry, -⟩ : front = [] ∧ (platform', file') = (platform, file) ∧ behind = [] := by
      rcases front with _ | ⟨first, front⟩
      · simpa [eq_comm] using hsplit
      · simp at hsplit
    obtain ⟨rfl, rfl⟩ := Prod.mk.inj hentry
    refine ⟨text, htext, ?_⟩
    rw [Platform.placeOf, get?_put_at _ _ hne, if_pos rfl]
  · intro e he
    obtain rfl := List.mem_singleton.mp he
    exact hkeeps.reaches hreaches
  · rw [get?_put_at _ _ hne, if_neg]
    exact hother (platform, file) List.mem_cons_self

theorem of_writes {platform : Platform} (plain : platform.IsPlain) {files : List FileSpec}
    {outputs : List (Path × String)}
    (houtputs : List.Forall₂ (fun file output => platform.outputOf tree file = .ok output)
      files outputs) :
    ∀ {store : Store} {memory : Memory}, (∀ file ∈ files, file ∈ platform.files) →
      performAll shell store memory (outputs.map fun output => .writeFile output.1 output.2) =
        (after, .ok known) →
      Built tree [] (files.map (platform, ·)) store after := by
  induction houtputs with
  | nil =>
    intro store memory _ hok
    obtain ⟨rfl, -⟩ := Prod.mk.inj hok
    exact nil tree store
  | @cons file output files outputs hfile _ ih =>
    intro store memory hfiles hok
    obtain ⟨hpath, htext⟩ := Platform.outputOf_eq_ok.mp hfile
    rw [List.map_cons, performAll, Step.perform] at hok
    rcases hwrite : store.writeFile output.1 output.2.toUTF8 with fault | next
    · rw [hwrite] at hok
      simp [strict] at hok
    · rw [hwrite] at hok
      simp only [strict] at hok
      rw [hpath] at hwrite
      have hfirst : Built tree [] [(platform, file)] store next :=
        of_writeFile plain (hfiles file List.mem_cons_self) htext hwrite
      have hbehind : Built tree [] (files.map (platform, ·)) next after :=
        ih (fun other hother => hfiles other (List.mem_cons_of_mem _ hother)) hok
      exact hfirst.trans hbehind

theorem of_buildSteps {platform : Platform} (plain : platform.IsPlain)
    (hok : performAll shell store memory (platform.buildSteps tree) = (after, .ok known)) :
    Built tree [platform.buildPath] (platform.files.map (platform, ·)) store after := by
  rw [Platform.buildSteps] at hok
  rcases houtputs : platform.outputs tree with error | outputs
  · simp [houtputs, performAll, Step.perform] at hok
  · simp only [houtputs, performAll, Step.perform] at hok
    rcases hmake : store.makeDirectories platform.buildPath with ⟨next, _ | fault⟩
    · simp only [hmake] at hok
      have hfirst : Built tree [platform.buildPath] [] store next :=
        of_makeDirectories tree plain.text_ne_empty plain.points_notMem hmake
      have hfiles : Built tree [] (platform.files.map (platform, ·)) next after :=
        of_writes plain (mapM_eq_ok.mp houtputs) (fun _ h => h) hok
      exact hfirst.trans hfiles
    · simp [hmake] at hok

theorem of_buildSteps_platforms : ∀ {platforms : Platforms} {store : Store} {memory : Memory},
    (∀ p ∈ platforms, p.2.IsPlain) →
    performAll shell store memory (buildSteps platforms tree) = (after, .ok known) →
    Built tree (platforms.map fun p => p.2.buildPath) platforms.entries store after
  | [], store, _, _, hok => by
    obtain ⟨rfl, -⟩ := Prod.mk.inj hok
    exact nil tree store
  | p :: platforms, store, memory, plain, hok => by
    obtain ⟨next, between, hfirst, hrest⟩ := performAll_append_eq_ok.mp hok
    have hplatform : Built tree [p.2.buildPath] (p.2.files.map (p.2, ·)) store next :=
      of_buildSteps (plain p List.mem_cons_self) hfirst
    have hplatforms : Built tree (platforms.map fun p => p.2.buildPath)
        (Platforms.entries platforms) next after :=
      of_buildSteps_platforms (fun q hq => plain q (List.mem_cons_of_mem _ hq)) hrest
    exact hplatform.trans hplatforms

/-! ### What is found afterwards -/

/-- **The place of an entry** holds what the last entry of this place shows. -/
theorem exists_held (h : Built tree made entries before after) {e : Platform × FileSpec}
    (he : e ∈ entries) : ∃ front last behind text, entries = front ++ last :: behind ∧
      last.1.placeOf last.2 = e.1.placeOf e.2 ∧
      (∀ other ∈ behind, other.1.placeOf other.2 ≠ e.1.placeOf e.2) ∧
      last.1.textOf (Dictionary.ofTree last.1.flavor tree) last.2 = .ok text ∧
      after.get? (e.1.placeOf e.2) = some (.file text.toUTF8) := by
  have hsome : ∃ other ∈ entries, other.1.placeOf other.2 = e.1.placeOf e.2 := ⟨e, he, rfl⟩
  obtain ⟨front, last, behind, hsplit, hplace, hlast⟩ := exists_last hsome
  obtain ⟨text, htext, hheld⟩ := h.held front last.1 last.2 behind hsplit (by rwa [hplace])
  exact ⟨front, last, behind, text, hsplit, hplace, hlast, htext, hplace ▸ hheld⟩

/-- **What is read at a path** is what is at its place. -/
theorem readFile_eq_ok (h : Built tree made entries before after) {e : Platform × FileSpec}
    (he : e ∈ entries) (hordinary : Path.IsOrdinary e.2.destination) {content : ByteArray} :
    after.readFile (e.1.pathOf e.2) = .ok content ↔
      after.get? (e.1.placeOf e.2) = some (.file content) := by
  have hreaches := h.reaches e he
  rw [Platform.pathOf, readFile_join_eq_ok hordinary]
  constructor
  · rintro ⟨reached, hreaches', hget⟩
    obtain rfl : reached = e.1.buildPath.segments :=
      Except.ok.inj (hreaches'.walk.symm.trans hreaches.walk)
    exact hget
  · exact fun hget => ⟨_, hreaches, hget⟩

theorem get?_of_front (h : Built tree made entries before after) {path : Path} (hpath : path ∈ made)
    (notUp : ".." ∉ path.segments) {place : Location} (hfront : place <+: path.segments) :
    after.get? place = some .directory := by
  have hdirectory := h.directories path hpath
  rw [directory_eq] at hdirectory
  obtain ⟨-, -, hwalk⟩ := bind_eq_ok.mp hdirectory
  by_cases hroot : place = []
  · rw [hroot, get?_root]
  · exact ((walk_eq_ok notUp).mp hwalk).2.2 place hfront hroot

end Built

theorem Platforms.mem_entries {platforms : Platforms} {e : Platform × FileSpec} :
    e ∈ platforms.entries ↔ ∃ p ∈ platforms, e.1 = p.2 ∧ e.2 ∈ p.2.files := by
  simp only [entries, List.mem_flatMap, List.mem_map]
  constructor
  · rintro ⟨p, hp, file, hfile, rfl⟩
    exact ⟨p, hp, rfl, hfile⟩
  · rintro ⟨p, hp, hplatform, hfile⟩
    exact ⟨p, hp, e.2, hfile, by rw [← hplatform]⟩

/-- **The names of the files** of platforms. -/
def Platforms.fileNames (platforms : Platforms) : List String :=
  platforms.entries.map fun e => e.2.destination

theorem Platforms.mem_fileNames {platforms : Platforms} {name : String} :
    name ∈ platforms.fileNames ↔ ∃ p ∈ platforms, ∃ file ∈ p.2.files, file.destination = name := by
  rw [fileNames, List.mem_map]
  constructor
  · rintro ⟨e, he, rfl⟩
    obtain ⟨p, hp, -, hfile⟩ := Platforms.mem_entries.mp he
    exact ⟨p, hp, e.2, hfile, rfl⟩
  · rintro ⟨p, hp, file, hfile, rfl⟩
    exact ⟨(p.2, file), Platforms.mem_entries.mpr ⟨p, hp, rfl, hfile⟩, rfl⟩

/-- **Platforms that were built** hold under the path of each entry what the last entry of its place
shows. All build paths are directories. No other file is changed, made or lost, and no other
directory is new but those in front of build paths. -/
theorem built_platforms_hold_the_last_texts [Name.Transliteration] {platforms : Platforms}
    (plain : ∀ p ∈ platforms, p.2.IsPlain)
    (hok : performAll shell store memory (buildSteps platforms tree) = (after, .ok known)) :
    (∀ e ∈ platforms.entries, ∃ front last behind format text,
      platforms.entries = front ++ last :: behind ∧
      last.1.placeOf last.2 = e.1.placeOf e.2 ∧
      (∀ other ∈ behind, other.1.placeOf other.2 ≠ e.1.placeOf e.2) ∧
      Format.ofName last.2.format = .ok format ∧
      format.render last.1.scale
        ((Dictionary.ofTree last.1.flavor tree).filtered last.2.filter) = .ok text ∧
      after.readFile (e.1.pathOf e.2) = .ok text.toUTF8) ∧
    (∀ p ∈ platforms, after.directory p.2.buildPath = .ok p.2.buildPath.segments) ∧
    (∀ place content, (∀ e ∈ platforms.entries, e.1.placeOf e.2 ≠ place) →
      (after.get? place = some (.file content) ↔ store.get? place = some (.file content))) ∧
    ∀ place, after.get? place = some .directory ↔ store.get? place = some .directory ∨
      ∃ p ∈ platforms, place <+: p.2.buildPath.segments := by
  have hbuilt : Built tree (platforms.map fun p => p.2.buildPath) platforms.entries store after :=
    Built.of_buildSteps_platforms plain hok
  refine ⟨fun e he => ?_, fun p hp => ?_, fun place content hother => ?_,
    fun place => ⟨fun hdir => ?_, ?_⟩⟩
  · obtain ⟨front, last, behind, text, hsplit, hplace, hlast, htext, hheld⟩ :=
      hbuilt.exists_held he
    obtain ⟨format, hformat, hrender⟩ := Platform.textOf_eq_ok.mp htext
    obtain ⟨p, hp, -, hfile⟩ := Platforms.mem_entries.mp he
    have hordinary : Path.IsOrdinary e.2.destination := (plain p hp).isOrdinary e.2 hfile
    exact ⟨front, last, behind, format, text, hsplit, hplace, hlast, hformat, hrender,
      (hbuilt.readFile_eq_ok he hordinary).mpr hheld⟩
  · exact hbuilt.directories _ (List.mem_map_of_mem hp)
  · rcases hbuilt.elsewhere place hother with hsame | ⟨hnone, hdir, -⟩
    · rw [hsame]
    · simp [hnone, hdir]
  · by_cases hentry : ∃ e ∈ platforms.entries, e.1.placeOf e.2 = place
    · obtain ⟨e, he, rfl⟩ := hentry
      obtain ⟨-, -, -, text, -, -, -, -, hheld⟩ := hbuilt.exists_held he
      simp [hheld] at hdir
    · have hother : ∀ e ∈ platforms.entries, e.1.placeOf e.2 ≠ place := fun e he hplace =>
        hentry ⟨e, he, hplace⟩
      rcases hbuilt.elsewhere place hother with hsame | ⟨-, -, path, hpath, hfront⟩
      · exact .inl (hsame ▸ hdir)
      · obtain ⟨p, hp, rfl⟩ := List.mem_map.mp hpath
        exact .inr ⟨p, hp, hfront⟩
  · rintro (hthere | ⟨p, hp, hfront⟩)
    · exact hbuilt.keeps place hthere
    · exact hbuilt.get?_of_front (List.mem_map_of_mem hp) (plain p hp).points_notMem hfront

section

attribute [local instance] Name.Transliteration.ascii

/-- Two platforms write to one place, by different paths, over an old file: what stays is the style
sheet of the second one, in its scale and without the text that its filter leaves out. -/
theorem built_platforms_hold_the_last_texts_twice :
    let tree : Tree := { children := [
      ("gap", .group (some "size") [("wide", .token { plainValue := some (.text "20px") })]),
      ("title", .token (.ofValue (.text "Hi") "text"))] }
    let script : FileSpec := { destination := "a", format := "javascript/es6" }
    let sheet : FileSpec :=
      { destination := "a", format := "css/variables-units", filter := some .nonText }
    let first : Platform := { flavor := .js, buildPath := ⟨"out"⟩, files := [script], scale := {} }
    let second : Platform :=
      { flavor := .css, buildPath := ⟨"out/"⟩, files := [sheet],
        scale := { baseFontSize := 10.0, baseScreenWidth := 375.0 } }
    let store : Store := ⟨[(["out"], .directory), (["out", "a"], .file ByteArray.empty),
      (["out", "b"], .file ByteArray.empty)]⟩
    let shell : Shell := ⟨fun _ store => (store, .exited 0)⟩
    let shown := "/**\n * Do not edit directly, this file was auto-generated.\n */\n\n" ++
      ":root \x7b\n  font-size: 10px;\n  --gap-wide: 20px;\n\x7d\n" ++
      "\n/**\n * Variables in px units\n */\n.variables-px \x7b\n  --gap-wide: 20px;\n\x7d\n" ++
      "\n/**\n * Variables in rem units\n */\n.variables-rem \x7b\n  --gap-wide: 2rem;\n\x7d\n" ++
      "\n/**\n * Variables in rpx units\n */\n.variables-rpx \x7b\n  --gap-wide: 40rpx;\n\x7d\n"
    ∃ after known, performAll shell store false
        (buildSteps [("first", first), ("second", second)] tree) = (after, .ok known) ∧
      after.readFile ⟨"out/a"⟩ = .ok shown.toUTF8 ∧
      after.get? ["out", "b"] = some (.file ByteArray.empty) := by
  intro tree script sheet first second store shell shown
  have hordinary : Path.IsOrdinary "a" := ⟨by decide, by decide, by decide, by decide⟩
  have plain : ∀ p ∈ [("first", first), ("second", second)], p.2.IsPlain := by
    intro p hp
    simp only [List.mem_cons, List.not_mem_nil, or_false] at hp
    rcases hp with rfl | rfl
    · exact ⟨by decide, by decide, by simpa [first] using hordinary⟩
    · exact ⟨by decide, by decide, by simpa [second] using hordinary⟩
  have hisOk : (performAll shell store false
      (buildSteps [("first", first), ("second", second)] tree)).2.isOk := by
    decide +kernel
  rcases hrun : performAll shell store false
    (buildSteps [("first", first), ("second", second)] tree) with ⟨after, fault | known⟩
  · rw [hrun] at hisOk
    cases hisOk
  obtain ⟨hheld, -, helsewhere, -⟩ := built_platforms_hold_the_last_texts plain hrun
  refine ⟨after, known, rfl, ?_, (helsewhere _ _ ?_).mpr rfl⟩
  · obtain ⟨front, last, behind, format, text, hsplit, -, hlast, hformat, hrender, hread⟩ :=
      hheld (first, script) (by simp [Platforms.entries, first])
    obtain rfl : (second, sheet) = last := by
      have hentries : [(first, script), (second, sheet)] = front ++ last :: behind := hsplit
      rcases front with _ | ⟨one, _ | ⟨two, front⟩⟩
      · obtain ⟨-, rfl⟩ := List.cons.inj hentries
        exact absurd (by decide) (hlast _ List.mem_cons_self)
      · exact (List.cons.inj (List.cons.inj hentries).2).1
      · simp at hentries
    have hsheet : Format.ofName "css/variables-units" = .ok .stylesheet := by rfl
    obtain rfl : Format.stylesheet = format := Except.ok.inj (hsheet.symm.trans hformat)
    have htext : (Stylesheet.render second.scale
        ((Dictionary.ofTree .css tree).filtered (some .nonText))).toOption = some shown := by
      decide +kernel
    have hpath : first.pathOf script = ⟨"out/a"⟩ := by decide
    have hsame : Stylesheet.render second.scale
        ((Dictionary.ofTree .css tree).filtered (some .nonText)) = .ok text := hrender
    rw [hsame] at htext
    obtain rfl : text = shown := Option.some.inj htext
    rw [hpath] at hread
    exact hread
  · simp only [Platforms.entries, List.flatMap_cons, List.flatMap_nil, first, second,
      List.map_cons, List.map_nil, List.append_nil, List.cons_append, List.nil_append,
      List.forall_mem_cons]
    decide

end

end TokenSheets
