import TokenSheets.Proofs.Namespace.Interleaving
import TokenSheets.Proofs.Namespace.Outputs

/-!
# What a run comes to, job by job

A run is known by its jobs alone: what a job leaves in its directory and what the report says under
its key. `Job.ComesTo` puts this together for one job, along any schedule.

* `Job.alone_fails_of_exposed`: a job that cannot get to its directory fails;
* `Job.comesTo_runAlong`: what becomes of a dispatched job;
* `Job.Similar.of_alone`: two results among others, known from those alone;
* `isTree_runAlong`: a run leaves a tree behind;
* `Job.outputNames`, `Job.get?_alone_below`: below its directory a job changes its own files only;
* `ReadyInCss.runAlong_missing`, `runAlong_there`: jobs below a name that does not fit, before and
  after something is there.
-/

namespace TokenSheets

open Store

namespace Job

variable {shell : Shell} {config : Config} {store : Store} {job : Job}

theorem script_of_mem_dispatched (scripts : config.WithoutScripts)
    (hjob : job ∈ dispatched (jobsOf config store)) : job.settings.script = none := by
  rw [(of_mem_jobsOf (mem_dispatched.mp hjob).1).2.2, scripts.script_settings]

variable [Name.Transliteration]

theorem keepsTo_of_script (hscript : job.settings.script = none) :
    ∀ step ∈ job.steps, step.KeepsTo job.buildPath fileNames := by
  intro step hstep
  rcases keepsTo_of_mem_steps hstep with hkeeps | ⟨script, hsome, -⟩
  · exact hkeeps
  · simp [hscript] at hsome

theorem steps_ne_nil (job : Job) : job.steps ≠ [] := by
  rw [steps, platforms, cleanSteps, List.flatMap_cons]
  simp [Platform.cleanSteps]

theorem alone_eq (shell : Shell) (store : Store) (job : Job) :
    job.alone shell store = ((performAll shell store false job.steps).1,
      .ofOutcome [] (performAll shell store false job.steps).2) := by
  rw [alone, Task.ofSteps, Task.finish]

theorem result_alone (shell : Shell) (store : Store) (job : Job) :
    (job.alone shell store).2.result =
      (performAll shell store false job.steps).2.map fun _ => () := by
  rw [alone_eq]
  rcases (performAll shell store false job.steps).2 with fault | known <;> rfl

/-- **A job that cannot get to its directory**, and could not make it either, fails. -/
theorem alone_fails_of_exposed (leads : job.buildPath.LeadsTo job.buildPath.segments)
    (leadsIn : ∀ file ∈ fileNames,
      (job.buildPath.join file).LeadsTo (job.buildPath.segments ++ [file]))
    (hscript : job.settings.script = none) (exposed : Exposed job.buildPath.segments store) :
    ∃ fault, (job.alone shell store).2.result = .error fault := by
  obtain ⟨fault, hfault⟩ : ∃ fault, (performAll shell store false job.steps).2 = .error fault :=
    performAll_of_missing leads leadsIn exposed.missing exposed.long job.steps_ne_nil
      (keepsTo_of_script hscript) fun last => not_isCleaning_of_getLast? hscript
  exact ⟨fault, by rw [result_alone, hfault]; rfl⟩

/-! ### Jobs among others -/

/-- **What becomes of a job** in a run that ends with `after` and `report`: below its directory is
what it leaves there alone, and the report says what it comes to alone, apart from the exception of
a job that cannot get to its directory. -/
structure ComesTo (shell : Shell) (store : Store) (job : Job) (after : Store) (report : Report)
    (result : Except BuildFault Unit) : Prop where
  below : ∀ rest, after.get? (job.buildPath.segments ++ rest) =
    (job.alone shell store).1.get? (job.buildPath.segments ++ rest)
  built : job.key ∈ report.built ↔ result = .ok ()
  failed : ∀ fault, (job.key, .build fault) ∈ report.failures ↔ result = .error fault
  notRefused : ∀ refusal, (job.key, .refused refusal) ∉ report.failures
  alone : result = (job.alone shell store).2.result ∨
    ∃ fault fault', result = .error fault ∧ (job.alone shell store).2.result = .error fault' ∧
      fault.IsAt job.buildPath fileNames ∧ Exposed job.buildPath.segments store

theorem ComesTo.result_eq {after : Store} {report : Report} {result : Except BuildFault Unit}
    (h : job.ComesTo shell store after report result)
    (hexposed : ¬ Exposed job.buildPath.segments store) :
    result = (job.alone shell store).2.result := by
  rcases h.alone with hsame | ⟨-, -, -, -, -, hlong⟩
  · exact hsame
  · exact absurd hlong hexposed

theorem ComesTo.result_eq_ok_iff {after : Store} {report : Report}
    {result : Except BuildFault Unit} (h : job.ComesTo shell store after report result) :
    result = .ok () ↔ (job.alone shell store).2.result = .ok () := by
  rcases h.alone with hsame | ⟨fault, fault', hfault, hfault', -⟩
  · rw [hsame]
  · rw [hfault, hfault']
    simp

/-- **Results of one job that are the same**, or two faults of which one is at its directory or at
one of its files. -/
inductive Similar (job : Job) : Except BuildFault Unit → Except BuildFault Unit → Prop
  | same (result : Except BuildFault Unit) : Similar job result result
  | faults {fault fault' : BuildFault}
    (place : fault.IsAt job.buildPath fileNames ∨ fault'.IsAt job.buildPath fileNames) :
    Similar job (.error fault) (.error fault')

omit [Name.Transliteration] in
theorem Similar.of_alone {result result' own own' : Except BuildFault Unit} {p p' : Prop}
    (h : result = own ∨ ∃ fault fault', result = .error fault ∧ own = .error fault' ∧
      fault.IsAt job.buildPath fileNames ∧ p)
    (h' : result' = own' ∨ ∃ fault fault', result' = .error fault ∧ own' = .error fault' ∧
      fault.IsAt job.buildPath fileNames ∧ p')
    (alone : job.Similar own own') : job.Similar result result' := by
  rcases h with rfl | ⟨fault, _, rfl, rfl, place, -⟩
  · rcases h' with rfl | ⟨fault', _, rfl, rfl, place', -⟩
    · exact alone
    · cases alone <;> exact .faults (.inr place')
  · rcases h' with rfl | ⟨fault', _, rfl, rfl, -⟩
    · cases alone <;> exact .faults (.inl place)
    · exact .faults (.inl place)

/-- **What becomes of a dispatched job**, along every schedule. -/
theorem comesTo_runAlong (shell : Shell) (notUp : ".." ∉ config.targetDir.segments)
    (scripts : config.WithoutScripts) (tree : store.IsTree) (schedule : Schedule)
    (hjob : job ∈ dispatched (jobsOf config store)) :
    ∃ result, job.ComesTo shell store (runAlong shell schedule config store).1
      (runAlong shell schedule config store).2 result := by
  set jobs := jobsOf config store with hjobs
  set tasks := (along shell schedule store
    ((dispatched jobs).map fun job => .ofSteps job.steps)).2 with htasks
  have hnodup : (jobs.map Job.key).Nodup := nodup_keys_jobsOf config store
  have hreport : (runAlong shell schedule config store).2 = .ofOutcomes (refused jobs)
      (((dispatched jobs).map Job.key).zip (tasks.map Task.result)) := rfl
  have htracks := tracks_along shell notUp scripts tree schedule
  obtain ⟨i, hi⟩ := List.getElem?_of_mem hjob
  obtain ⟨task, htask, hagrees, halone⟩ :=
    htracks.at_end (isDone_along shell schedule store _) hi
  obtain ⟨hbuilt, hfailed⟩ := report_of_task hi htask
  refine ⟨task.result, hagrees.below, hbuilt, hfailed, fun refusal => ?_, halone⟩
  rw [hreport, Report.failures_ofOutcomes, List.mem_append]
  rintro (hmem | hmem)
  · obtain ⟨p, hp, hsame⟩ := List.mem_map.mp hmem
    have hkey : job.key = p.1 := (Prod.mk.inj hsame).1.symm
    have hrefused : job.key ∈ Entries.keys (refused jobs) := hkey ▸ List.mem_map_of_mem hp
    exact disjoint_refused_dispatched hnodup hrefused (List.mem_map_of_mem hjob)
  · obtain ⟨p, -, hsame⟩ := List.mem_map.mp hmem
    simp at hsame

end Job

theorem isTree_runAlong [Name.Transliteration] {config : Config} {store : Store} (shell : Shell)
    (notUp : ".." ∉ config.targetDir.segments) (scripts : config.WithoutScripts)
    (tree : store.IsTree) (schedule : Schedule) :
    (runAlong shell schedule config store).1.IsTree := by
  refine along_store (A := fun step => ∃ job ∈ Job.dispatched (jobsOf config store),
    step ∈ job.steps) ?_ ?_ schedule tree
  · intro task htask step hstep
    obtain ⟨job, hjob, rfl⟩ := List.mem_map.mp htask
    exact ⟨job, hjob, hstep⟩
  · rintro step before memory ⟨job, hjob, hstep⟩ htree
    have leads := Job.leadsTo_buildPath notUp hjob
    exact (Step.changes_of_keepsTo shell memory leads (Job.leadsTo_file notUp hjob)
      (Job.keepsTo_of_script (Job.script_of_mem_dispatched scripts hjob) step hstep)).isTree htree
        leads.ne_nil leads.points_notMem

/-! ### The files that a job changes -/

/-- **What may become of a location below a directory** when a build keeps to some files in it. -/
theorem performAll_below (shell : Shell) {directory : Path} {location : Location}
    {files : List String} (leads : directory.LeadsTo location)
    (leadsIn : ∀ file ∈ files, (directory.join file).LeadsTo (location ++ [file]))
    {steps : List Step} (keeps : ∀ step ∈ steps, step.KeepsTo directory files) (store : Store)
    (memory : Memory) (name : String) (rest : Location) :
    let after := (performAll shell store memory steps).1
    after.get? (location ++ name :: rest) = store.get? (location ++ name :: rest) ∨
      (name ∈ files ∧ rest = [] ∧ store.get? (location ++ [name]) ≠ some .directory ∧
        after.get? (location ++ [name]) ≠ some .directory) := by
  refine performAll_store (P := fun after =>
    after.get? (location ++ name :: rest) = store.get? (location ++ name :: rest) ∨
      (name ∈ files ∧ rest = [] ∧ store.get? (location ++ [name]) ≠ some .directory ∧
        after.get? (location ++ [name]) ≠ some .directory))
    (fun step hstep before known h => ?_) (.inl rfl)
  have hlength : location.length < (location ++ name :: rest).length := by simp
  cases Step.touched_of_keepsTo shell before known leads leadsIn (keeps step hstep)
    (location ++ name :: rest) with
  | same unchanged =>
    rcases h with h | ⟨hname, rfl, hwas, his⟩
    · exact .inl (unchanged.trans h)
    · exact .inr ⟨hname, rfl, hwas, unchanged ▸ his⟩
  | @file _ file mem place wasFile isFile =>
    obtain ⟨rfl, rfl⟩ : name = file ∧ rest = [] := by simpa using place
    rcases h with h | ⟨hname, -, hwas, -⟩
    · exact .inr ⟨mem, rfl, h ▸ wasFile, isFile⟩
    · exact .inr ⟨mem, rfl, hwas, isFile⟩
  | removed _ place => simp at place
  | made place =>
    have hahead := (place.trans (List.takeWhile_prefix _)).length_le
    omega

namespace Job

/-- **The names of the files that a job writes.** -/
def outputNames (job : Job) : List String :=
  "variables.css" :: if job.settings.text then ["tokens.js", "tokens.d.ts"] else []

theorem outputNames_subset (job : Job) : job.outputNames ⊆ fileNames := by
  rw [outputNames, fileNames]
  split_ifs <;> simp

theorem fileNames_platforms (job : Job) : job.platforms.fileNames = job.outputNames := by
  rw [platforms, outputNames]
  split_ifs <;> rfl

variable [Name.Transliteration]

@[simp] theorem keys_files (job : Job) (css : String) :
    Entries.keys (job.files css) = job.outputNames := by
  rw [files, outputNames]
  split_ifs <;> rfl

theorem keepsTo_outputNames {job : Job} (hscript : job.settings.script = none) :
    ∀ step ∈ job.steps, step.KeepsTo job.buildPath job.outputNames := by
  intro step hstep
  rw [steps_eq, hscript, Option.toList_none, List.map_nil, List.append_nil] at hstep
  refine keepsTo_of_mem_fileSteps (fun p hp file hfile => ?_) hstep
  rw [← fileNames_platforms]
  exact Platforms.mem_fileNames.mpr ⟨p, hp, file, hfile, rfl⟩

/-- **Below its directory a job changes its own files only**, and makes no directory. -/
theorem get?_alone_below (shell : Shell) (store : Store) {job : Job} {location : Location}
    (leads : job.buildPath.LeadsTo location) (hscript : job.settings.script = none) (name : String)
    (rest : Location) :
    (job.alone shell store).1.get? (location ++ name :: rest) =
        store.get? (location ++ name :: rest) ∨
      (name ∈ job.outputNames ∧ rest = [] ∧ store.get? (location ++ [name]) ≠ some .directory ∧
        (job.alone shell store).1.get? (location ++ [name]) ≠ some .directory) :=
  performAll_below shell leads (fun _ hfile => leads.segments ▸ Path.leadsTo_join
    (leads.segments ▸ leads.points_notMem)
    (isOrdinary_of_mem_fileNames (job.outputNames_subset hfile))) (keepsTo_outputNames hscript)
    store false name rest

/-- **A job that succeeds alone** has rendered its style sheet, and its files are in its
directory. -/
theorem files_of_alone (shell : Shell) (store : Store) {job : Job} {location : Location}
    (leads : job.buildPath.LeadsTo location) (hscript : job.settings.script = none)
    (hok : (job.alone shell store).2.result = .ok ()) :
    ∃ css, Stylesheet.render job.scale (job.styles.map Flavor.css.resolve) = .ok css ∧
      (job.alone shell store).1.get? location = some .directory ∧
      ∀ p ∈ job.files css, (job.alone shell store).1.get? (location ++ [p.1]) =
        some (.file p.2.toUTF8) := by
  rcases hall : performAll shell store false job.steps with ⟨after, fault | known⟩
  · simp [result_alone, hall, Except.map] at hok
  · have hafter : (job.alone shell store).1 = after := by rw [alone_eq, hall]
    rw [steps, hscript, Option.toList_none, List.map_nil, List.append_nil] at hall
    obtain ⟨clean, between, -, hbuild⟩ := performAll_append_eq_ok.mp hall
    obtain ⟨css, hcss, hholds⟩ := of_performAll_buildSteps hbuild
    have hfile : ∀ p ∈ job.files css, after.walk [] location = .ok location ∧
        after.get? (location ++ [p.1]) = some (.file p.2.toUTF8) := fun p hp => by
      obtain ⟨reached, hreaches, hget⟩ :=
        (readFile_join_eq_ok (isOrdinary_of_mem_files hp)).mp (hholds p hp)
      have hwalk := hreaches.walk
      rw [leads.segments] at hwalk
      obtain rfl := eq_of_walk leads.points_notMem hwalk
      exact ⟨hwalk, hget⟩
    rw [hafter]
    refine ⟨css, hcss, ?_, fun p hp => (hfile p hp).2⟩
    exact get?_of_walk leads.points_notMem (hfile ("variables.css", css) (by simp [files])).1

end Job

/-- A store with nothing but a main document. -/
def Store.ofDocument (document : String) : Store :=
  ⟨[(["tokens"], .directory), (["tokens", "core.json"], .file document.toUTF8)]⟩

theorem Store.isTree_ofDocument (document : String) : (ofDocument document).IsTree :=
  isTree_document document.toUTF8

/-! ### Runs without refusals -/

section Runs

variable [Name.Transliteration]

theorem run_eq_of_refused_nil {shell : Shell} {config : Config} {store : Store} {ready : List Job}
    (hrefused : Job.refused (jobsOf config store) = [])
    (hready : Job.dispatched (jobsOf config store) = ready) :
    let run := finishAll shell store (ready.map fun job => .ofSteps job.steps)
    runAlong shell [] config store =
      (run.1, .ofOutcomes [] ((ready.map Job.key).zip (run.2.map Task.result))) := by
  subst hready
  rw [← hrefused]
  rfl

theorem finishAll_ofSteps_cons (shell : Shell) (store : Store) (job : Job) (rest : List Task) :
    finishAll shell store (.ofSteps job.steps :: rest) =
      ((finishAll shell (job.alone shell store).1 rest).1,
        (job.alone shell store).2 :: (finishAll shell (job.alone shell store).1 rest).2) := by
  rw [finishAll, Job.alone]

end Runs

/-! ### A target directory with a name that does not fit -/

/-- A name that does not fit. -/
def longName : String := String.ofList (List.replicate 256 'b')

theorem toList_longName : longName.toList = List.replicate 256 'b' := String.toList_ofList

-- unfolded, it would be spelled out letter by letter
attribute [irreducible] longName

/-- The configuration whose target directory has this name and is in `css`. -/
def Config.inCss : Config := { targetDir := (Path.mk "css").join longName }

theorem Config.targetDir_inCss : inCss.targetDir = (Path.mk "css").join longName := rfl

theorem not_fits_longName : ¬ Fits longName := by decide +kernel

theorem eq_of_mem_longName : ∀ c ∈ longName.toList, c = 'b' := by
  rw [toList_longName]
  exact fun c => List.eq_of_mem_replicate

theorem isOrdinary_longName : Path.IsOrdinary longName :=
  ⟨by decide +kernel, by decide +kernel, by decide +kernel,
    fun h => absurd (eq_of_mem_longName _ h) (by decide)⟩

section InCss

variable [Name.Transliteration]

/-- **A job alone below such a directory** finds `css` missing and makes it, or passes it and is
refused. -/
theorem Job.alone_inCss (shell : Shell) {start store : Store} {job : Job}
    (hjob : job ∈ dispatched (jobsOf Config.inCss start)) (hkey : job.key = "a" ∨ job.key = "b")
    (hrender : (job.stylesheet.outputs job.tokens).isOk) :
    job.buildPath = Config.inCss.targetDir.join job.key ∧
    (store.get? ["css"] = none → job.alone shell store =
      (store.put ["css"] .directory, .failed (.io job.buildPath .tooLong))) ∧
    (store.get? ["css"] = some .directory → job.alone shell store =
      (store, .failed (.io (job.buildPath.join "variables.css") .tooLong))) := by
  obtain ⟨hname', hpath, hsettings⟩ := of_mem_jobsOf (mem_dispatched.mp hjob).1
  obtain ⟨hname, hordinary, hnull, hsize⟩ : Namespace.nameOf job.key = job.key ∧
      Path.IsOrdinary job.key ∧ '\x00' ∉ job.key.toList ∧ job.key.utf8ByteSize ≤ 1 := by
    rcases hkey with h | h <;> rw [h] <;>
      exact ⟨by decide +kernel, ⟨by decide, by decide, by decide, by decide⟩, by decide, by decide⟩
  rw [hname', hname] at hpath hsettings
  have hlong : longName.utf8ByteSize ≤ 1000 := by decide +kernel
  obtain ⟨outputs, hout⟩ : ∃ outputs, job.stylesheet.outputs job.tokens = .ok outputs := by
    rcases hout : job.stylesheet.outputs job.tokens with error | outputs
    · simp [hout, Except.isOk, Except.toBool] at hrender
    · exact ⟨outputs, rfl⟩
  have hplace := hpath
  rw [Config.targetDir_inCss] at hplace
  obtain ⟨leads, leadsIn, checked, checkedIn⟩ := lookup_of_short isOrdinary_longName hordinary
    (fun h => absurd (eq_of_mem_longName _ h) (by decide)) hnull (by omega) hplace
  refine ⟨hpath, fun missing => ?_, fun there => ?_⟩
  · exact alone_of_exposed leads leadsIn checked checkedIn (hsettings.trans rfl) hout
      (exposed_of_missing (by decide) (by decide) not_fits_longName missing [job.key])
      (makeAll_of_missing (by decide) (by decide) isOrdinary_longName.ne_points
        not_fits_longName missing)
  · refine finish_of_refused leadsIn checkedIn ?_
    rw [walk, enter_eq (by decide), if_pos (by decide), List.nil_append, there]
    simp only [Except.bind]
    rw [walk, enter_eq isOrdinary_longName.ne_points, if_neg not_fits_longName]
    rfl

/-- **A store with jobs below such a directory**: none is refused, and all of them are rendered. -/
structure ReadyInCss (store : Store) (keys : List String) : Prop where
  refused : Job.refused (jobsOf Config.inCss store) = []
  keys_eq : (Job.dispatched (jobsOf Config.inCss store)).map Job.key = keys
  each : ∀ job ∈ Job.dispatched (jobsOf Config.inCss store),
    (job.key = "a" ∨ job.key = "b") ∧ (job.stylesheet.outputs job.tokens).isOk

/-- The fault of a job that is refused at its first file. -/
def refusedInCss (key : String) : BuildFault :=
  .io ((Config.inCss.targetDir.join key).join "variables.css") .tooLong

omit [Name.Transliteration] in
theorem Report.ofOutcomes_refusedInCss : ∀ jobs : List Job,
    ofOutcomes [] ((jobs.map Job.key).zip
        ((jobs.map fun job => Task.failed (refusedInCss job.key)).map Task.result)) =
      ⟨[], (jobs.map Job.key).map fun key => (key, .build (refusedInCss key))⟩
  | [] => rfl
  | job :: jobs => by
    have hrest := ofOutcomes_refusedInCss jobs
    simp only [ofOutcomes, List.map_nil, List.nil_append, mk.injEq] at hrest ⊢
    exact ⟨hrest.1, congrArg (_ :: ·) hrest.2⟩

theorem finishAll_inCss (shell : Shell) {start store : Store}
    (there : store.get? ["css"] = some .directory) : ∀ {jobs : List Job},
    (∀ job ∈ jobs, job ∈ Job.dispatched (jobsOf Config.inCss start) ∧
      (job.key = "a" ∨ job.key = "b") ∧ (job.stylesheet.outputs job.tokens).isOk) →
    finishAll shell store (jobs.map fun job => .ofSteps job.steps) =
      (store, jobs.map fun job => .failed (refusedInCss job.key))
  | [], _ => rfl
  | job :: jobs, ready => by
    obtain ⟨hjob, hkey, hrender⟩ := ready job List.mem_cons_self
    obtain ⟨hpath, -, halone⟩ := @Job.alone_inCss _ shell start store job hjob hkey hrender
    have hrest := finishAll_inCss shell there fun other hother =>
      ready other (List.mem_cons_of_mem _ hother)
    rw [List.map_cons, finishAll_ofSteps_cons, halone there, hrest, List.map_cons, refusedInCss,
      hpath]

theorem ReadyInCss.runAlong_there (shell : Shell) {store : Store} {keys : List String}
    (ready : ReadyInCss store keys) (there : store.get? ["css"] = some .directory) :
    runAlong shell [] Config.inCss store =
      (store, ⟨[], keys.map fun key => (key, .build (refusedInCss key))⟩) := by
  have hall := finishAll_inCss shell there fun job hjob => ⟨hjob, ready.each job hjob⟩
  rw [run_eq_of_refused_nil ready.refused rfl, hall, ← ready.keys_eq]
  exact congrArg (store, ·) (Report.ofOutcomes_refusedInCss _)

theorem ReadyInCss.runAlong_missing (shell : Shell) {store : Store} {key : String}
    {keys : List String} (ready : ReadyInCss store (key :: keys))
    (missing : store.get? ["css"] = none) :
    runAlong shell [] Config.inCss store = (store.put ["css"] .directory,
      ⟨[], (key, .build (.io (Config.inCss.targetDir.join key) .tooLong)) ::
        keys.map fun key => (key, .build (refusedInCss key))⟩) := by
  obtain ⟨first, jobs, hready, rfl, hkeys⟩ := List.map_eq_cons_iff.mp ready.keys_eq
  have hfirst : first ∈ Job.dispatched (jobsOf Config.inCss store) := by simp [hready]
  have hbehind : ∀ job ∈ jobs, job ∈ Job.dispatched (jobsOf Config.inCss store) :=
    fun job hjob => hready ▸ List.mem_cons_of_mem _ hjob
  obtain ⟨hkey, hrender⟩ := ready.each first hfirst
  obtain ⟨hpath, halone, -⟩ := @Job.alone_inCss _ shell store store first hfirst hkey hrender
  have there : (store.put ["css"] .directory).get? ["css"] = some .directory := by
    rw [get?_put_at _ _ (by simp), if_pos rfl]
  have hrest := finishAll_inCss shell there fun job hjob =>
    ⟨hbehind job hjob, ready.each job (hbehind job hjob)⟩
  rw [run_eq_of_refused_nil ready.refused hready, List.map_cons, finishAll_ofSteps_cons,
    halone missing, hrest, ← hkeys, ← hpath]
  have hreport := Report.ofOutcomes_refusedInCss jobs
  simp only [Report.ofOutcomes, List.map_nil, List.nil_append, Report.mk.injEq] at hreport
  exact congrArg (store.put ["css"] .directory, ·)
    (congrArg₂ Report.mk hreport.1 (congrArg (_ :: ·) hreport.2))

end InCss

end TokenSheets
