import TokenSheets.Proofs.Build.Sweep
import TokenSheets.Proofs.Namespace.Results

/-!
# How a job ends, and ends again

What a job comes to alone is told by a few things: whether it can look into its directory, which of
its files a directory stands in the way of, whether its style sheet can be rendered, and whether the
names on the way fit. Each of its ends is one that the next run of the job comes to as well and
changes nothing at, also where other jobs have made directories in front of its own.

* `Job.alone_of_lost`, `alone_of_blocked`, `alone_of_refused`, `alone_of_stuck`, `alone_of_built`:
  the five ends;
* `Job.repeats`: a job that runs again changes nothing, and comes to the same apart from a job whose
  way is missing and has a name that does not fit.
-/

namespace TokenSheets

open Store

/-! ### Paths in one directory -/

theorem Path.exists_text_join {directory : Path} (h : directory.text ≠ "") :
    ∃ slash : String, ∀ name : String, '/' ∉ name.toList →
      (directory.join name).text = directory.text ++ (slash ++ name) := by
  have habs : ∀ name : String, '/' ∉ name.toList → (Path.mk name).isAbsolute = false :=
    fun name hname => by simpa [isAbsolute] using fun hhead => hname (List.mem_of_mem_head? hhead)
  by_cases hlast : directory.text.toList.getLast? = some '/'
  · refine ⟨"", fun name hname => ?_⟩
    simp [join, habs name hname, h, hlast]
  · refine ⟨"/", fun name hname => ?_⟩
    simp [join, habs name hname, h, hlast, String.append_assoc]

/-- **If the longest path in a directory can be looked up**, so can the directory and the others. -/
theorem Store.check_of_join {directory : Path} {longest : String} (h : directory.text ≠ "")
    (hslash : '/' ∉ longest.toList) (checked : check (directory.join longest) = .ok ()) :
    check directory = .ok () ∧ ∀ name : String, name ≠ "" → '/' ∉ name.toList →
      '\x00' ∉ name.toList → name.utf8ByteSize ≤ longest.utf8ByteSize →
      check (directory.join name) = .ok () := by
  obtain ⟨slash, htext⟩ := Path.exists_text_join h
  obtain ⟨hnull, hsize, -⟩ := check_eq_ok.mp checked
  rw [htext longest hslash] at hnull hsize
  rw [String.utf8ByteSize_append, String.utf8ByteSize_append] at hsize
  simp only [String.toList_append, List.mem_append, not_or] at hnull
  refine ⟨check_eq_ok.mpr ⟨hnull.1, by omega, h⟩, fun name hne hname hnull' hlength => ?_⟩
  refine check_eq_ok.mpr ⟨?_, ?_, Path.text_join_ne_empty _ hne⟩
  · rw [htext name hname]
    simp [hnull, hnull']
  · rw [htext name hname, String.utf8ByteSize_append, String.utf8ByteSize_append]
    omega

/-! ### Stores that agree are open alike -/

namespace Store

variable {location : Location} {alone shared : Store}

theorem walk_ne_ok_of_long (notUp : ".." ∉ location) (long : ∃ name ∈ location, ¬ Fits name)
    {store : Store} {reached : Location} : store.walk [] location ≠ .ok reached := by
  intro hwalk
  obtain ⟨name, hname, hlong⟩ := long
  exact hlong (((walk_eq_ok notUp).mp hwalk).2.1 name hname)

theorem Opens.of_walk {store : Store} (notUp : ".." ∉ location) {reached : Location}
    (h : store.walk [] location = .ok reached) : Opens location store := by
  obtain rfl := eq_of_walk notUp h
  exact .inl h

theorem not_opens_of_agrees (tree : alone.IsTree) (notUp : ".." ∉ location)
    (agrees : AgreesAt location alone shared) (closed : ¬ Opens location alone) :
    ¬ Opens location shared := by
  rcases walk_of_agrees tree (List.nil_append location ▸ agrees) notUp with hsame | ⟨hmissing, -⟩
  · rwa [Opens, hsame]
  · exact absurd (.inr hmissing) closed

/-- **What is open** in the first one is open in the other one, or it is missing and a name does not
fit. -/
theorem opens_of_agrees (tree : alone.IsTree) (notUp : ".." ∉ location)
    (agrees : AgreesAt location alone shared) (opens : Opens location alone) :
    Opens location shared ∨ (alone.walk [] location = .error .notFound ∧
      ∃ name ∈ location, ¬ Fits name) := by
  rcases walk_of_agrees tree (List.nil_append location ▸ agrees) notUp with
    hsame | ⟨hmissing, -, hlong⟩
  · left
    rwa [Opens, hsame]
  · exact .inr ⟨hmissing, hlong⟩

theorem AgreesAt.isBlocked_eq (agrees : AgreesAt location alone shared) :
    shared.isBlocked location = alone.isBlocked location := by
  funext name
  rw [isBlocked, isBlocked, agrees.below [name]]

/-- **A directory that was swept** is as it was when the same names are swept again, also if more
directories are in front of it. -/
theorem Swept.again {before final : Store} {names : List String}
    (h : Swept location names before alone) (agrees : AgreesAt location alone shared)
    (h' : Swept location names shared final) (other : Location) :
    final.get? other = shared.get? other := by
  refine h'.unchanged (fun name hname rest => ?_) ?_ other
  · rw [agrees.below, h.gone name hname]
  · rcases h.settled with ⟨name, hname, hsome⟩ | hnone
    · exact .inl ⟨name, hname, by rwa [agrees.below [name]]⟩
    · exact .inr (agrees.at_location.trans hnone)

end Store

/-! ### Steps that succeed -/

theorem performAll_succeeds {P : Store → Prop} {shell : Shell} : ∀ {steps : List Step}
    {store : Store} {memory : Memory}, (∀ step ∈ steps, ∀ store memory, P store →
      ∃ after known, step.perform shell store memory = (after, .ok known) ∧ P after) → P store →
    ∃ after known, performAll shell store memory steps = (after, .ok known)
  | [], store, memory, _, _ => ⟨store, memory, rfl⟩
  | step :: rest, store, memory, succeeds, h => by
    obtain ⟨next, known, hstep, hnext⟩ := succeeds step List.mem_cons_self store memory h
    rw [performAll, hstep]
    exact performAll_succeeds (fun s hs => succeeds s (List.mem_cons_of_mem _ hs)) hnext

namespace Job

variable {shell : Shell} {store : Store} {job : Job} {location : Location}

/-! ### Cleaning -/

/-- **The rounds** in which a job cleans its directory. -/
def rounds (job : Job) : List (List String) :=
  ["variables.css"] :: if job.settings.text then [["tokens.js", "tokens.d.ts"]] else []

theorem flatten_rounds (job : Job) : job.rounds.flatten = job.outputNames := by
  rw [rounds, outputNames]
  split_ifs <;> rfl

theorem cleanSteps_platforms (job : Job) :
    cleanSteps job.platforms = job.rounds.flatMap (sweepSteps job.buildPath) := by
  rw [cleanSteps, platforms, rounds, List.flatMap_cons, List.flatMap_cons]
  refine congrArg₂ _ (Platform.cleanSteps_eq _) ?_
  split_ifs
  · simp only [List.flatMap_singleton]
    exact Platform.cleanSteps_eq _
  · rfl

/-- **A job can look into its directory**, or finds it missing. -/
structure Finds (job : Job) (location : Location) (store : Store) : Prop where
  checked : check (job.buildPath.join "variables.css") = .ok ()
  opens : Opens location store

theorem leadsTo_outputName (leads : job.buildPath.LeadsTo location) {file : String}
    (hfile : file ∈ job.outputNames) :
    (job.buildPath.join file).LeadsTo (location ++ [file]) :=
  leads.segments ▸ Path.leadsTo_join (leads.segments ▸ leads.points_notMem)
    (isOrdinary_of_mem_fileNames (job.outputNames_subset hfile))

theorem Finds.inPlace (finds : job.Finds location store)
    (leads : job.buildPath.LeadsTo location) : check job.buildPath = .ok () ∧
      ∀ file ∈ job.outputNames, InPlace job.buildPath location file := by
  obtain ⟨hdirectory, hfiles⟩ := check_of_join leads.text_ne_empty (by decide) finds.checked
  refine ⟨hdirectory, fun file hfile => ?_⟩
  have hshort : ∀ file ∈ fileNames, '\x00' ∉ file.toList ∧
      file.utf8ByteSize ≤ "variables.css".utf8ByteSize ∧ Fits file := by decide
  have hmem := job.outputNames_subset hfile
  have hordinary := isOrdinary_of_mem_fileNames hmem
  obtain ⟨hnull, hsize, hfits⟩ := hshort file hmem
  exact ⟨leadsTo_outputName leads hfile,
    hfiles file hordinary.ne_empty hordinary.slash_notMem hnull hsize, hfits⟩

theorem performAll_cleanSteps (shell : Shell) (leads : job.buildPath.LeadsTo location)
    (tree : store.IsTree) (finds : job.Finds location store) (rest : List Step) :
    ∃ after, after.IsTree ∧ Opens location after ∧
      Swept location (job.outputNames.takeWhile (!store.isBlocked location ·)) store after ∧
      performAll shell store false (cleanSteps job.platforms ++ rest) =
        match job.outputNames.find? (store.isBlocked location) with
        | some name => (after, .error (.io (job.buildPath.join name) .isDirectory))
        | none => performAll shell after false rest := by
  obtain ⟨checked, inPlace⟩ := finds.inPlace leads
  rw [cleanSteps_platforms]
  rw [← flatten_rounds] at inPlace ⊢
  exact performAll_rounds shell leads checked rest false (by simp [rounds]) inPlace tree finds.opens

/-! ### The five ends -/

/-- **How a job looks for its first file**: its path is checked, and the names in front of it are
followed. -/
def lookup (job : Job) (location : Location) (store : Store) : Except PathFault Location :=
  (check (job.buildPath.join "variables.css")).bind fun _ => store.walk [] location

theorem exists_fault_of_lost (leads : job.buildPath.LeadsTo location)
    (lost : ¬ job.Finds location store) :
    ∃ cause, cause ≠ .notFound ∧ job.lookup location store = .error cause := by
  unfold lookup
  rcases hcheck : check (job.buildPath.join "variables.css") with cause | ⟨⟩
  · have hnever := check_ne_notFound (Path.text_join_ne_empty job.buildPath
      (by decide : "variables.css" ≠ ""))
    exact ⟨cause, fun h => hnever (by rw [hcheck, h]), rfl⟩
  · rcases hwalk : store.walk [] location with cause | reached
    · exact ⟨cause, fun h => lost ⟨hcheck, .inr (by rw [hwalk, h])⟩, rfl⟩
    · exact absurd ⟨hcheck, Opens.of_walk leads.points_notMem hwalk⟩ lost

/-- **A job that cannot look into its directory** fails at its first file. -/
theorem alone_of_lost [Name.Transliteration]
    (shell : Shell) (leads : job.buildPath.LeadsTo location)
    {cause : PathFault} (found : cause ≠ .notFound)
    (hlookup : job.lookup location store = .error cause) : job.alone shell store =
      (store, .failed (.io (job.buildPath.join "variables.css") cause)) := by
  obtain ⟨rest, hsteps⟩ : ∃ rest,
      job.steps = .removeFile (job.buildPath.join "variables.css") :: rest := ⟨_, rfl⟩
  have leadsIn := leadsTo_outputName leads (List.mem_cons_self : "variables.css" ∈ job.outputNames)
  have hremove : store.removeFile (job.buildPath.join "variables.css") = .error cause := by
    rw [removeFile_of_leadsTo leadsIn]
    rw [lookup] at hlookup
    rcases hcheck : check (job.buildPath.join "variables.css") with fault | ⟨⟩
    · simpa [hcheck, Except.bind] using hlookup
    · rw [hcheck, Except.bind] at hlookup
      simp only [hlookup, Except.bind]
  have hstep : tolerant store false (job.buildPath.join "variables.css") (.error cause) =
      (store, .error (.io (job.buildPath.join "variables.css") cause)) := by
    cases cause with
    | notFound => exact absurd rfl found
    | _ => rfl
  rw [alone_eq, hsteps, performAll, Step.perform, hremove, hstep]
  rfl

/-- **A directory that a job can write to**: it is there, and no directory stands where a file
goes. -/
structure Writable (job : Job) (location : Location) (store : Store) : Prop where
  reach : store.walk [] location = .ok location
  free : ∀ file ∈ job.outputNames, store.get? (location ++ [file]) ≠ some .directory

theorem Writable.write (shell : Shell) (leads : job.buildPath.LeadsTo location)
    (finds : job.Finds location store) {p : String × String} (hp : p.1 ∈ job.outputNames)
    {current : Store} (memory : Memory) (writable : job.Writable location current) :
    ∃ after known, (Step.write job.buildPath p).perform shell current memory = (after, .ok known) ∧
      job.Writable location after := by
  obtain ⟨leadsIn, checked, fits⟩ := (finds.inPlace leads).2 p.1 hp
  have hwrite : current.writeFile (job.buildPath.join p.1) p.2.toUTF8 =
      .ok (current.put (location ++ [p.1]) (.file p.2.toUTF8)) := by
    rw [writeFile_of_leadsTo leadsIn, checked, writable.reach]
    simp only [Except.bind, if_pos fits, if_neg (writable.free p.1 hp)]
  refine ⟨current.put (location ++ [p.1]) (.file p.2.toUTF8), memory, ?_, ?_, fun file hfile => ?_⟩
  · rw [Step.write, Step.perform, hwrite]
    rfl
  · exact (keeps_put (by simp) (writable.free p.1 hp)).walk writable.reach
  · rw [get?_put_at _ _ (by simp)]
    split_ifs
    · simp
    · exact writable.free file hfile

theorem Writable.makeDirectories (shell : Shell) (leads : job.buildPath.LeadsTo location)
    (finds : job.Finds location store) {current : Store} (memory : Memory)
    (writable : job.Writable location current) :
    (Step.makeDirectories job.buildPath).perform shell current memory = (current, .ok memory) := by
  rw [Step.perform, makeDirectories_of_leadsTo leads, (finds.inPlace leads).1]
  simp only [makeAll_of_walk writable.reach]

/-- **The building steps** of a job whose style sheet is rendered: its directory is made, and its
files are written. -/
theorem buildSteps_of_render [Name.Transliteration] {css : String}
    (hrender : Stylesheet.render job.scale (job.styles.map Flavor.css.resolve) = .ok css) :
    ∃ steps, buildSteps job.platforms job.tokens = .makeDirectories job.buildPath :: steps ∧
      ∀ step ∈ steps, step = .makeDirectories job.buildPath ∨
        ∃ p : String × String, p.1 ∈ job.outputNames ∧ step = Step.write job.buildPath p := by
  rw [buildSteps_platforms, hrender]
  simp only [List.cons_append, List.nil_append]
  refine ⟨_, rfl, fun step hstep => ?_⟩
  rw [← job.keys_files css, files]
  rcases List.mem_cons.mp hstep with rfl | hstep
  · exact .inr ⟨("variables.css", css), List.mem_cons_self, rfl⟩
  · split_ifs at hstep ⊢ with htext
    · rcases List.mem_cons.mp hstep with rfl | hstep
      · exact .inl rfl
      · obtain ⟨p, hp, rfl⟩ := List.mem_map.mp hstep
        exact .inr ⟨p, List.mem_map_of_mem (List.mem_cons_of_mem _ hp), rfl⟩
    · simp at hstep

section Cleaned

variable [Name.Transliteration]
  (leads : job.buildPath.LeadsTo location) (hscript : job.settings.script = none)
  (tree : store.IsTree) (finds : job.Finds location store)

include leads tree finds

/-- **A job that has a directory where one of its files goes** cleans up to it. -/
theorem alone_of_blocked (shell : Shell) {name : String}
    (hfind : job.outputNames.find? (store.isBlocked location) = some name) :
    ∃ after, after.IsTree ∧ Opens location after ∧
      Swept location (job.outputNames.takeWhile (!store.isBlocked location ·)) store after ∧
      job.alone shell store = (after, .failed (.io (job.buildPath.join name) .isDirectory)) := by
  obtain ⟨after, htree, hopens, hswept, hall⟩ := performAll_cleanSteps shell leads tree finds
    (buildSteps job.platforms job.tokens ++ job.settings.script.toList.map Step.command)
  refine ⟨after, htree, hopens, hswept, ?_⟩
  rw [alone_eq, steps, List.append_assoc, hall, hfind]
  rfl

include hscript

theorem alone_of_cleaned (shell : Shell)
    (hfind : job.outputNames.find? (store.isBlocked location) = none) :
    ∃ after, after.IsTree ∧ Opens location after ∧ Swept location job.outputNames store after ∧
      job.alone shell store =
        ((performAll shell after false (buildSteps job.platforms job.tokens)).1, .ofOutcome []
          (performAll shell after false (buildSteps job.platforms job.tokens)).2) := by
  obtain ⟨after, htree, hopens, hswept, hall⟩ := performAll_cleanSteps shell leads tree finds
    (buildSteps job.platforms job.tokens)
  have htake : job.outputNames.takeWhile (!store.isBlocked location ·) = job.outputNames :=
    List.takeWhile_eq_self_iff.mpr fun name hname => by
      simpa using List.find?_eq_none.mp hfind name hname
  rw [htake] at hswept
  refine ⟨after, htree, hopens, hswept, ?_⟩
  rw [alone_eq, steps, hscript, Option.toList_none, List.map_nil, List.append_nil, hall, hfind]

/-- **A job whose style sheet cannot be rendered** cleans and gives up. -/
theorem alone_of_refused (shell : Shell)
    (hfind : job.outputNames.find? (store.isBlocked location) = none) {error : SheetError}
    (hrender : Stylesheet.render job.scale (job.styles.map Flavor.css.resolve) = .error error) :
    ∃ after, after.IsTree ∧ Opens location after ∧ Swept location job.outputNames store after ∧
      job.alone shell store = (after, .failed (.sheet error)) := by
  obtain ⟨after, htree, hopens, hswept, hall⟩ :=
    alone_of_cleaned leads hscript tree finds shell hfind
  refine ⟨after, htree, hopens, hswept, ?_⟩
  rw [hall, buildSteps_platforms, hrender]
  rfl

/-- **A job with a name that does not fit on its way** makes what is in front of the name. From then
on the name is in the way. -/
theorem alone_of_stuck (shell : Shell)
    (hfind : job.outputNames.find? (store.isBlocked location) = none) {css : String}
    (hrender : Stylesheet.render job.scale (job.styles.map Flavor.css.resolve) = .ok css)
    (long : ∃ name ∈ location, ¬ Fits name) :
    (∃ cause, (job.alone shell store).2 = .failed (.io job.buildPath cause)) ∧
      ¬ Opens location (job.alone shell store).1 := by
  have notUp := leads.points_notMem
  obtain ⟨after, htree, hopens, -, hall⟩ := alone_of_cleaned leads hscript tree finds shell hfind
  have hwalk : (after.makeAll [] location).1.walk [] location = _ := walk_makeAll notUp
  have hnever : (after.makeAll [] location).2 ≠ some .notFound := makeAll_ne_notFound notUp
  rcases hmake : after.makeAll [] location with ⟨made, _ | fault⟩
  · obtain ⟨name, hname, hlong⟩ := long
    exact absurd (fits_of_makeAll notUp (by rw [hmake]) name hname) hlong
  · rw [hmake] at hwalk hnever
    have hstep : (Step.makeDirectories job.buildPath).perform shell after false =
        (made, .error (.io job.buildPath fault)) := by
      rw [Step.perform, makeDirectories_of_leadsTo leads, (finds.inPlace leads).1]
      simp only [hmake]
    have hbuild : performAll shell after false (buildSteps job.platforms job.tokens) =
        (made, .error (.io job.buildPath fault)) := by
      rw [buildSteps_platforms, hrender]
      simp only [List.cons_append, performAll, hstep]
    rw [hall, hbuild]
    refine ⟨⟨fault, rfl⟩, ?_⟩
    rintro (h | h)
    · simp [hwalk] at h
    · simp only [hwalk, Except.error.injEq] at h
      exact faultOnWay_ne_notFound (fun hfault => hnever (congrArg some hfault)) h

/-- **A job with nothing in its way** is built. -/
theorem alone_of_built (shell : Shell)
    (hfind : job.outputNames.find? (store.isBlocked location) = none) {css : String}
    (hrender : Stylesheet.render job.scale (job.styles.map Flavor.css.resolve) = .ok css)
    (fits : ∀ name ∈ location, Fits name) : (job.alone shell store).2.result = .ok () := by
  have notUp := leads.points_notMem
  obtain ⟨after, htree, hopens, hswept, hall⟩ :=
    alone_of_cleaned leads hscript tree finds shell hfind
  -- the directory is made if it is missing, and nothing is where the files go
  have hmakes : (after.makeAll [] location).2 = none := by
    rcases hopens with reach | missing
    · rw [makeAll_of_walk reach]
    · exact makeAll_of_notFound htree notUp fits missing
  rcases hmake : after.makeAll [] location with ⟨made, fault⟩
  obtain rfl : fault = none := by simpa [hmake] using hmakes
  have hwritable : job.Writable location made := by
    have hwalk : (after.makeAll [] location).1.walk [] location = _ := walk_makeAll notUp
    refine ⟨by simpa [hmake] using hwalk, fun file hfile => ?_⟩
    have hnone := hswept.gone file hfile []
    rcases get?_makeAll notUp (location ++ [file]) with hsame | ⟨hfront, -, -⟩
    · rw [hmake] at hsame
      simp [hsame, hnone]
    · have := (hfront.trans (List.takeWhile_prefix _)).length_le
      simp at this
  have hstep : (Step.makeDirectories job.buildPath).perform shell after false =
      (made, .ok false) := by
    rw [Step.perform, makeDirectories_of_leadsTo leads, (finds.inPlace leads).1]
    simp only [hmake]
  obtain ⟨steps, hsteps, hmem⟩ := buildSteps_of_render hrender
  obtain ⟨final, known, hfinal⟩ : ∃ final known,
      performAll shell made false steps = (final, .ok known) := by
    refine performAll_succeeds (P := job.Writable location) (fun step hs current memory h => ?_)
      hwritable
    rcases hmem step hs with rfl | ⟨p, hp, rfl⟩
    · exact ⟨current, memory, h.makeDirectories shell leads finds memory, h⟩
    · exact h.write shell leads finds hp memory
  rw [hall, hsteps, performAll, hstep]
  simp only [hfinal]
  rfl

end Cleaned

/-! ### The job again -/

/-- Beside its directory, and in front of it where directories are, a job changes nothing. -/
theorem get?_alone_elsewhere [Name.Transliteration]
    (shell : Shell) (leads : job.buildPath.LeadsTo location)
    (hscript : job.settings.script = none) {other : Location} (notBelow : ¬ location <+: other)
    (front : other <+: location → store.get? other = some .directory) :
    (job.alone shell store).1.get? other = store.get? other := by
  rw [alone_eq]
  refine performAll_store (P := fun after => after.get? other = store.get? other)
    (fun step hstep before memory h => ?_) rfl
  cases Step.touched_of_keepsTo shell before memory leads (fun file => leadsTo_outputName leads)
    (keepsTo_outputNames hscript step hstep) other with
  | same unchanged => exact unchanged.trans h
  | file _ _ place => exact absurd (place ▸ List.prefix_append _ _) notBelow
  | removed _ place => exact absurd (place ▸ List.prefix_rfl) notBelow
  | made place was =>
    rw [h, front (place.trans (List.takeWhile_prefix _))] at was
    simp at was

theorem isTree_alone [Name.Transliteration] (shell : Shell) (leads : job.buildPath.LeadsTo location)
    (hscript : job.settings.script = none) (tree : store.IsTree) :
    (job.alone shell store).1.IsTree :=
  (performAll_isTree_and_grown shell leads (fun _ => leadsTo_outputName leads)
    (keepsTo_outputNames hscript) tree false).1

/-- **A job repeats itself** in a store: it changes nothing, and it comes to the same as before,
unless its way was missing and has a name that does not fit. Then it fails at its first file. -/
structure Repeats [Name.Transliteration]
    (shell : Shell) (location : Location) (store after : Store) (job : Job) : Prop where
  unchanged : ∀ other, (job.alone shell after).1.get? other = after.get? other
  result : (job.alone shell after).2.result = (job.alone shell store).2.result ∨
    (Exposed location store ∧ ∃ cause, (job.alone shell after).2.result =
      .error (.io (job.buildPath.join "variables.css") cause))

section Again

variable [Name.Transliteration] {after : Store} (leads : job.buildPath.LeadsTo location)
  (hscript : job.settings.script = none) (tree : store.IsTree) (treeAfter : after.IsTree)
  (agrees : AgreesAt location (job.alone shell store).1 after)

include leads agrees

omit agrees in
theorem repeats_of_closed (exposed : Exposed location store)
    (closed : ¬ Opens location after) : job.Repeats shell location store after := by
  obtain ⟨cause, found, hlookup⟩ := exists_fault_of_lost leads fun h => closed h.opens
  have hagain := alone_of_lost shell leads found hlookup
  exact ⟨fun _ => by rw [hagain], .inr ⟨exposed, cause, by rw [hagain]; rfl⟩⟩

include tree

theorem repeats_of_lost (lost : ¬ job.Finds location store) :
    job.Repeats shell location store after := by
  obtain ⟨cause, found, hlookup⟩ := exists_fault_of_lost leads lost
  have hlost := alone_of_lost shell leads found hlookup
  rw [hlost] at agrees
  have hlookup' : job.lookup location after = .error cause := by
    rw [← hlookup, lookup, lookup]
    rcases hcheck : check (job.buildPath.join "variables.css") with fault | ⟨⟩
    · rfl
    · refine (walk_of_agrees tree (List.nil_append location ▸ agrees)
        leads.points_notMem).resolve_right fun ⟨missing, _⟩ => ?_
      exact lost ⟨hcheck, .inr missing⟩
  have hagain := alone_of_lost shell leads found hlookup'
  exact ⟨fun _ => by rw [hagain], .inl (by rw [hagain, hlost])⟩

theorem not_exposed_again (hexposed : ¬ Exposed location store) : ¬ Exposed location after := by
  rintro ⟨missing, long⟩
  have notUp := leads.points_notMem
  have closed : ¬ Opens location store := by
    rintro (reach | missing)
    · exact walk_ne_ok_of_long notUp long reach
    · exact hexposed ⟨missing, long⟩
  obtain ⟨cause, found, hlookup⟩ := exists_fault_of_lost leads
    fun h : job.Finds location store => closed h.opens
  rw [alone_of_lost shell leads found hlookup] at agrees
  exact not_opens_of_agrees tree notUp agrees closed (.inr missing)

include treeAfter

theorem repeats_of_blocked (finds : job.Finds location store) {name : String}
    (hfind : job.outputNames.find? (store.isBlocked location) = some name) :
    job.Repeats shell location store after := by
  have notUp := leads.points_notMem
  obtain ⟨middle, htree, hopens, hswept, hall⟩ :=
    alone_of_blocked leads tree finds shell hfind
  rw [hall] at agrees
  have hsame : after.isBlocked location = store.isBlocked location := by
    rw [agrees.isBlocked_eq, hswept.isBlocked_eq]
    exact fun other hother => by simpa using List.mem_takeWhile_imp hother
  have opens : Opens location after := by
    refine (opens_of_agrees htree notUp agrees hopens).resolve_right ?_
    rintro ⟨missing, -⟩
    have hnone := none_of_walk_notFound htree notUp missing [name]
    have hblocked := List.find?_some hfind
    rw [← hsame, agrees.isBlocked_eq, isBlocked_iff] at hblocked
    rw [List.nil_append, hblocked] at hnone
    simp at hnone
  obtain ⟨final, -, -, hswept', hagain⟩ :=
    alone_of_blocked leads treeAfter ⟨finds.checked, opens⟩ shell (hsame ▸ hfind)
  rw [hsame] at hswept'
  exact ⟨by rw [hagain]; exact hswept.again agrees hswept', .inl (by rw [hagain, hall])⟩

include hscript

theorem repeats_of_refused (finds : job.Finds location store)
    (hfind : job.outputNames.find? (store.isBlocked location) = none) {error : SheetError}
    (hrender : Stylesheet.render job.scale (job.styles.map Flavor.css.resolve) = .error error) :
    job.Repeats shell location store after := by
  have notUp := leads.points_notMem
  obtain ⟨middle, htree, hopens, hswept, hall⟩ :=
    alone_of_refused leads hscript tree finds shell hfind hrender
  by_cases opens : Opens location after
  · rw [hall] at agrees
    have hsame : after.isBlocked location = store.isBlocked location := by
      rw [agrees.isBlocked_eq, hswept.isBlocked_eq]
      simpa using List.find?_eq_none.mp hfind
    obtain ⟨final, -, -, hswept', hagain⟩ := alone_of_refused leads hscript treeAfter
      ⟨finds.checked, opens⟩ shell (hsame ▸ hfind) hrender
    exact ⟨by rw [hagain]; exact hswept.again agrees hswept', .inl (by rw [hagain, hall])⟩
  · refine repeats_of_closed leads ⟨?_, ?_⟩ opens
    all_goals
      rw [hall] at agrees
      obtain ⟨-, long⟩ := (opens_of_agrees htree notUp agrees hopens).resolve_left opens
    · exact finds.opens.resolve_left (walk_ne_ok_of_long notUp long)
    · exact long

omit tree in
theorem repeats_of_built (finds : job.Finds location store)
    (hok : (job.alone shell store).2.result = .ok ()) (fits : ∀ name ∈ location, Fits name) :
    job.Repeats shell location store after := by
  obtain ⟨css, hcss, hdir, hfiles⟩ := files_of_alone shell store leads hscript hok
  have hthere : after.get? location = some .directory := agrees.at_location.trans hdir
  have hfile : ∀ p ∈ job.files css, after.get? (location ++ [p.1]) = some (.file p.2.toUTF8) :=
    fun p hp => (agrees.below [p.1]).trans (hfiles p hp)
  have hreach : after.walk [] location = .ok location :=
    (walk_eq_ok leads.points_notMem).mpr
      ⟨rfl, fits, fun front hfront _ => treeAfter.directory_front hthere hfront⟩
  have hfind : job.outputNames.find? (after.isBlocked location) = none := by
    rw [← job.keys_files css, List.find?_eq_none]
    intro name hname
    obtain ⟨p, hp, rfl⟩ := List.mem_map.mp hname
    simp [isBlocked_iff, hfile p hp]
  have hagain : (job.alone shell after).2.result = .ok () :=
    alone_of_built leads hscript treeAfter ⟨finds.checked, .inl hreach⟩ shell hfind hcss fits
  refine ⟨fun other => ?_, .inl (hagain.trans hok.symm)⟩
  obtain ⟨css', hcss', hdir', hfiles'⟩ := files_of_alone shell after leads hscript hagain
  obtain rfl : css = css' := Except.ok.inj (hcss.symm.trans hcss')
  by_cases hbelow : location <+: other
  · obtain ⟨_ | ⟨name, rest⟩, rfl⟩ := hbelow
    · rw [List.append_nil, hdir', hthere]
    · rcases get?_alone_below shell after leads hscript name rest with hsame | ⟨hname, rfl, -⟩
      · exact hsame
      · rw [← job.keys_files css] at hname
        obtain ⟨p, hp, rfl⟩ := List.mem_map.mp hname
        rw [hfiles' p hp, hfile p hp]
  · exact get?_alone_elsewhere shell leads hscript hbelow (treeAfter.directory_front hthere)

/-- **A job that runs again** where it ended repeats itself. -/
theorem repeats : job.Repeats shell location store after := by
  have notUp := leads.points_notMem
  by_cases finds : job.Finds location store
  · rcases hfind : job.outputNames.find? (store.isBlocked location) with _ | name
    · rcases hrender : Stylesheet.render job.scale (job.styles.map Flavor.css.resolve) with
        error | css
      · exact repeats_of_refused leads hscript tree treeAfter agrees finds hfind hrender
      · by_cases fits : ∀ name ∈ location, Fits name
        · exact repeats_of_built leads hscript treeAfter agrees finds
            (alone_of_built leads hscript tree finds shell hfind hrender fits) fits
        · -- what is in front of the name that does not fit was made, so it is in the way now
          simp only [not_forall, exists_prop] at fits
          obtain ⟨-, closed⟩ :=
            alone_of_stuck leads hscript tree finds shell hfind hrender fits
          refine repeats_of_closed leads
            ⟨finds.opens.resolve_left (walk_ne_ok_of_long notUp fits), fits⟩ ?_
          exact not_opens_of_agrees (isTree_alone shell leads hscript tree) notUp agrees closed
    · exact repeats_of_blocked leads tree treeAfter agrees finds hfind
  · exact repeats_of_lost leads tree agrees finds

end Again

end Job

end TokenSheets
