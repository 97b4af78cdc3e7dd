import TokenSheets.Proofs.Build.Schedule
import TokenSheets.Proofs.Namespace.Jobs
import TokenSheets.Proofs.Namespace.Steps

/-!
# Every namespace has a directory of its own

The jobs that a run dispatches have different names, and each name is one component of a path. So
their directories stand side by side in the target directory, and no job reaches out of its own.

* `Job.leadsTo_buildPath`: the directory of a dispatched job is one name below the target directory;
* `touchedBy_along`: what jobs touch that keep to such directories, along every schedule;
* `dispatched_jobs_keep_to_their_directories`: which namespaces are dispatched, and what is touched
  on their account.
-/

namespace TokenSheets

open Store (Touched TouchedBy)

/-- **No commands**: there is none in the settings of any namespace. -/
def Config.WithoutScripts (config : Config) : Prop :=
  ∀ p ∈ config.namespaces, p.2.script = none

theorem Config.WithoutScripts.script_settings {config : Config} (h : config.WithoutScripts)
    (name : String) : (config.settings name).script = none := by
  unfold settings
  rcases hget : config.namespaces.get? name with _ | settings
  · rfl
  · exact h (name, settings) (Entries.mem_of_get? hget)

namespace Job

variable {config : Config} {store : Store} {job : Job}

theorem segments_buildPath (h : job ∈ dispatched (jobsOf config store)) :
    job.buildPath.segments = config.targetDir.segments ++ [job.name] := by
  rw [(of_mem_jobsOf (mem_dispatched.mp h).1).2.1]
  exact Path.segments_join _ (Namespace.isOrdinary (isDirectoryName_of_mem_dispatched h))

theorem leadsTo_buildPath (notUp : ".." ∉ config.targetDir.segments)
    (h : job ∈ dispatched (jobsOf config store)) :
    job.buildPath.LeadsTo job.buildPath.segments := by
  rw [segments_buildPath h, (of_mem_jobsOf (mem_dispatched.mp h).1).2.1]
  exact Path.leadsTo_join notUp (Namespace.isOrdinary (isDirectoryName_of_mem_dispatched h))

theorem pairwise_segments_dispatched (config : Config) (store : Store) :
    (dispatched (jobsOf config store)).Pairwise fun a b =>
      a.buildPath.segments ≠ b.buildPath.segments := by
  refine (pairwise_name_dispatched (nodup_keys_jobsOf config store)).imp_of_mem
    fun {a b} ha hb hname hpath => ?_
  rw [segments_buildPath ha, segments_buildPath hb] at hpath
  exact hname (List.append_inj' hpath rfl |>.2 |> List.singleton_inj.mp)

theorem leadsTo_file (notUp : ".." ∉ config.targetDir.segments)
    (h : job ∈ dispatched (jobsOf config store)) :
    ∀ file ∈ fileNames, (job.buildPath.join file).LeadsTo (job.buildPath.segments ++ [file]) :=
  fun _ hfile => Path.leadsTo_join (leadsTo_buildPath notUp h).points_notMem
    (isOrdinary_of_mem_fileNames hfile)

theorem touched_of_mem_steps [Name.Transliteration] (notUp : ".." ∉ config.targetDir.segments)
    (h : job ∈ dispatched (jobsOf config store)) {step : Step} (hstep : step ∈ job.steps) :
    (∃ script, job.settings.script = some script ∧ step = .command script) ∨
      ∀ shell before memory other, Touched job.buildPath.segments fileNames before
        (step.perform shell before memory).1 other := by
  rcases keepsTo_of_mem_steps hstep with hkeeps | hcommand
  · exact .inr fun shell before memory other => Step.touched_of_keepsTo shell before memory
      (leadsTo_buildPath notUp h) (leadsTo_file notUp h) hkeeps other
  · exact .inl hcommand

end Job

/-- **What dispatched jobs touch** along a schedule. -/
theorem touchedBy_along [Name.Transliteration]
    {config : Config} {store : Store} (notUp : ".." ∉ config.targetDir.segments)
    (scripts : config.WithoutScripts) (shell : Shell) (schedule : Schedule) (other : Location) :
    TouchedBy ((Job.dispatched (jobsOf config store)).map fun job => job.buildPath.segments)
      Job.fileNames store (runAlong shell schedule config store).1 other := by
  set ready := Job.dispatched (jobsOf config store) with hready
  have hdeep : ∀ location ∈ ready.map fun job => job.buildPath.segments,
      location.length = config.targetDir.segments.length + 1 := by
    intro location hlocation
    obtain ⟨job, hjob, rfl⟩ := List.mem_map.mp hlocation
    simp [Job.segments_buildPath hjob]
  refine along_store (A := fun step => ∃ job ∈ ready, step ∈ job.steps)
    (P := fun after => TouchedBy (ready.map fun job => job.buildPath.segments) Job.fileNames store
      after other) ?_ ?_ schedule (.same rfl)
  · intro task htask step hstep
    obtain ⟨job, hjob, rfl⟩ := List.mem_map.mp htask
    exact ⟨job, hjob, hstep⟩
  · rintro step before memory ⟨job, hjob, hstep⟩ h
    rcases Job.touched_of_mem_steps notUp hjob hstep with ⟨script, hscript, -⟩ | htouched
    · obtain ⟨-, -, hsettings⟩ := of_mem_jobsOf (Job.mem_dispatched.mp hjob).1
      rw [hsettings, scripts.script_settings] at hscript
      simp at hscript
    · exact h.step hdeep (List.mem_map_of_mem hjob) (htouched shell before memory other)

/-- **What no dispatched job is named after** is not touched. -/
theorem Store.TouchedBy.same_of_name {front : Location} {names : List String} {files : List String}
    {before after : Store} {name : String} (hname : name ∉ names) (rest : Location)
    (h : TouchedBy (names.map fun name => front ++ [name]) files before after
      (front ++ name :: rest)) :
    after.get? (front ++ name :: rest) = before.get? (front ++ name :: rest) := by
  cases h with
  | same unchanged => exact unchanged
  | @file _ mem _ _ place =>
    obtain ⟨other, hother, rfl⟩ := List.mem_map.mp mem
    rw [List.append_assoc, List.append_cancel_left_eq] at place
    exact absurd ((List.cons.inj place).1 ▸ hother) hname
  | directory mem =>
    obtain ⟨other, hother, place⟩ := List.mem_map.mp mem
    rw [List.append_cancel_left_eq] at place
    exact absurd ((List.cons.inj place).1 ▸ hother) hname
  | @above _ mem place =>
    obtain ⟨other, hother, rfl⟩ := List.mem_map.mp mem
    rw [List.prefix_append_right_inj, List.cons_prefix_cons] at place
    exact absurd (place.1 ▸ hother) hname

theorem get?_runAlong_of_name_ne [Name.Transliteration] {config : Config} {store : Store}
    (notUp : ".." ∉ config.targetDir.segments) (scripts : config.WithoutScripts) (shell : Shell)
    (schedule : Schedule) {name : String}
    (hname : ∀ job ∈ Job.dispatched (jobsOf config store), job.name ≠ name) (rest : Location) :
    (runAlong shell schedule config store).1.get? (config.targetDir.segments ++ name :: rest) =
      store.get? (config.targetDir.segments ++ name :: rest) := by
  set ready := Job.dispatched (jobsOf config store)
  have hplaces : (ready.map fun job => job.buildPath.segments) =
      (ready.map Job.name).map fun name => config.targetDir.segments ++ [name] := by
    rw [List.map_map]
    exact List.map_congr_left fun job hjob => Job.segments_buildPath hjob
  have hnames : name ∉ ready.map Job.name := by
    intro hmem
    obtain ⟨job, hjob, rfl⟩ := List.mem_map.mp hmem
    exact hname job hjob rfl
  exact (hplaces ▸ touchedBy_along notUp scripts shell schedule _).same_of_name hnames rest

/-- **Every namespace that is built has a directory of its own.** The jobs are those of the
namespaces, in order; a job is refused if its name is no directory name, that is one ordinary
component of a path, or if another namespace has the same name, and then for all of them. The
places of the others are different, and each is one name below the target directory. Unless the
target directory leads up, each of their steps is a command or touches this place, the three files
in it and what is missing above it; so does a whole run without commands, along every schedule, and
what nothing is dispatched for is not touched. -/
theorem dispatched_jobs_keep_to_their_directories [Name.Transliteration]
    (shell : Shell) (config : Config) (store : Store) :
    let keys := Entries.keys (readTree store config.source).namespaces
    let jobs := jobsOf config store
    let ready := Job.dispatched jobs
    (jobs.map Job.key = keys ∧ ∀ job ∈ jobs,
      job.buildPath = config.targetDir.join job.name ∧ job.name = Namespace.nameOf job.key ∧
      ∃ last : String, job.name = Text.lowercase last ∧ '/' ∉ last.toList ∧
        (job.key = last ∨ ∃ front, job.key = front ++ "/" ++ last)) ∧
    (∀ name, Namespace.isDirectoryName name = true ↔
      name ≠ "" ∧ name ≠ "." ∧ name ≠ ".." ∧ '/' ∉ name.toList ∧ '\\' ∉ name.toList) ∧
    (∀ job ∈ jobs, (job ∈ ready ↔ Job.refusal? jobs job = none) ∧
      ∀ refusal, Job.refusal? jobs job = some refusal ↔
        (Namespace.isDirectoryName job.name = false ∧ refusal = .invalidName job.name) ∨
        (Namespace.isDirectoryName job.name = true ∧
          (∃ key ∈ keys, key ≠ job.key ∧ Namespace.nameOf key = job.name) ∧
          refusal = .outputConflict job.buildPath
            (keys.filter fun key => Namespace.nameOf key = job.name))) ∧
    (ready.Pairwise fun a b => a.buildPath.segments ≠ b.buildPath.segments) ∧
    (∀ job ∈ ready, Namespace.isDirectoryName job.name = true ∧
      job.buildPath.segments = config.targetDir.segments ++ [job.name]) ∧
    (".." ∉ config.targetDir.segments → ∀ job ∈ ready, ∀ step ∈ job.steps,
      (∃ script, job.settings.script = some script ∧ step = .command script) ∨
      ∀ before memory other, Touched job.buildPath.segments Job.fileNames before
        (step.perform shell before memory).1 other) ∧
    (".." ∉ config.targetDir.segments → config.WithoutScripts → ∀ schedule,
      let after := (runAlong shell schedule config store).1
      (∀ other, TouchedBy (ready.map fun job => job.buildPath.segments) Job.fileNames
        store after other) ∧
      ∀ name, (∀ job ∈ ready, job.name ≠ name) → ∀ rest,
        after.get? (config.targetDir.segments ++ name :: rest) =
          store.get? (config.targetDir.segments ++ name :: rest)) := by
  intro keys jobs ready
  have hkeys : jobs.map Job.key = keys := keys_jobsOf config store
  refine ⟨⟨hkeys, fun job hjob => ?_⟩, fun _ => Namespace.isDirectoryName_iff,
    fun job hjob => ⟨?_, fun _ => refusal?_jobsOf hjob⟩,
    Job.pairwise_segments_dispatched config store, fun job hjob => ?_,
    fun notUp job hjob step hstep => ?_, fun notUp scripts schedule => ?_⟩
  · obtain ⟨hname, hpath, -⟩ := of_mem_jobsOf hjob
    exact ⟨hpath, hname, hname ▸ Namespace.nameOf_spec job.key⟩
  · rw [Job.mem_dispatched]
    exact and_iff_right hjob
  · exact ⟨Job.isDirectoryName_of_mem_dispatched hjob, Job.segments_buildPath hjob⟩
  · rcases Job.touched_of_mem_steps notUp hjob hstep with hcommand | htouched
    · exact .inl hcommand
    · exact .inr (htouched shell)
  · exact ⟨touchedBy_along notUp scripts shell schedule,
      fun name hname rest => get?_runAlong_of_name_ne notUp scripts shell schedule hname rest⟩

section

attribute [local instance] Name.Transliteration.ascii

/-- Two namespaces that share a name and one that has no name: only the fourth one is dispatched,
and the sheet of the shared name stays as it was. -/
theorem dispatched_jobs_keep_to_their_directories_shared :
    let document := "\x7b\"Web/Button\":\x7b\x7d,\"Mobile/button\":\x7b\x7d,\"x/..\":\x7b\x7d," ++
      "\"Card\":\x7b\x7d\x7d"
    let store : Store := ⟨[(["tokens"], .directory),
      (["tokens", "core.json"], .file document.toUTF8), (["css"], .directory),
      (["css", "button"], .directory), (["css", "button", "variables.css"], .file "old".toUTF8)]⟩
    let shell : Shell := ⟨fun _ store => (store, .exited 0)⟩
    ".." ∉ ({} : Config).targetDir.segments ∧ ({} : Config).WithoutScripts ∧
    (Job.dispatched (jobsOf {} store)).map Job.name = ["card"] ∧
    (runAlong shell [0, 0] {} store).1.get? ["css", "button", "variables.css"] =
      some (.file "old".toUTF8) := by
  intro document store shell
  have notUp : ".." ∉ ({} : Config).targetDir.segments := by decide
  have scripts : ({} : Config).WithoutScripts := by simp [Config.WithoutScripts]
  have hnames : (Job.dispatched (jobsOf {} store)).map Job.name = ["card"] := by decide +kernel
  have hother : ∀ job ∈ Job.dispatched (jobsOf {} store), job.name ≠ "button" := by
    intro job hjob
    have hmem := List.mem_map_of_mem (f := Job.name) hjob
    rw [hnames, List.mem_singleton] at hmem
    simp [hmem]
  obtain ⟨-, -, -, -, -, -, hrun⟩ := dispatched_jobs_keep_to_their_directories shell {} store
  have hsame := (hrun notUp scripts [0, 0]).2 "button" hother ["variables.css"]
  exact ⟨notUp, scripts, hnames, hsame⟩

end

end TokenSheets
