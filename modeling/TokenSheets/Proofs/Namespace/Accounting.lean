import TokenSheets.Proofs.Build.Schedule
import TokenSheets.Proofs.Namespace.Jobs

/-!
# Reports account for every namespace

A report is put together from what was refused and from the results of tasks, which come back
without their keys. `Report.Covers` says that the keys of a document are all there, each of them
once and in order.

* `Report.covers_ofOutcomes`: refused and dispatched keys that make up a document are covered;
* `Report.Covers.isSuccess_iff`: a covered run is a success if everything was built;
* `Report.mem_outcomes`: a key meets the result of the task with its own number;
* `report_of_task`, `exists_job_of_report`: what the report says of the jobs that were dispatched;
* `runAlong_accounts_for_every_namespace`: all of it for a run along a schedule.
-/

namespace TokenSheets

namespace Report

/-- **The report accounts for the keys**: each of them was either built or not, once. -/
structure Covers (report : Report) (keys : List String) : Prop where
  mem_iff : ∀ key, key ∈ keys ↔ key ∈ report.built ∨ key ∈ Entries.keys report.failures
  disjoint : report.built.Disjoint (Entries.keys report.failures)
  nodup_built : report.built.Nodup
  nodup_failures : (Entries.keys report.failures).Nodup
  built_sublist : report.built.Sublist keys

/-- The builds that failed. -/
def failed (outcomes : List (String × Except BuildFault Unit)) : List (String × BuildFault) :=
  outcomes.filterMap fun p => match p.2 with
    | .ok () => none
    | .error fault => some (p.1, fault)

section Outcomes

variable {refused : List (String × Refusal)} {outcomes : List (String × Except BuildFault Unit)}
  {key : String}

/-- **Failures** are what was refused, and behind it the builds that failed. -/
theorem failures_ofOutcomes (refused : List (String × Refusal))
    (outcomes : List (String × Except BuildFault Unit)) :
    (ofOutcomes refused outcomes).failures =
      refused.map (fun p => (p.1, .refused p.2)) ++
        (failed outcomes).map fun p => (p.1, .build p.2) := by
  rw [ofOutcomes, failed, List.map_filterMap, List.append_cancel_left_eq]
  refine List.filterMap_congr fun p _ => ?_
  rcases p with ⟨key, fault | ⟨⟩⟩ <;> rfl

theorem mem_built : key ∈ (ofOutcomes refused outcomes).built ↔ (key, .ok ()) ∈ outcomes := by
  simp only [ofOutcomes, List.mem_filterMap]
  constructor
  · rintro ⟨⟨key', fault | ⟨⟩⟩, hp, h⟩
    · simp at h
    · obtain rfl : key' = key := by simpa using h
      exact hp
  · exact fun h => ⟨_, h, rfl⟩

theorem mem_failed {fault : BuildFault} :
    (key, fault) ∈ failed outcomes ↔ (key, .error fault) ∈ outcomes := by
  simp only [failed, List.mem_filterMap]
  constructor
  · rintro ⟨⟨key', fault' | ⟨⟩⟩, hp, h⟩
    · obtain ⟨rfl, rfl⟩ : key' = key ∧ fault' = fault := by simpa using h
      exact hp
    · simp at h
  · exact fun h => ⟨_, h, rfl⟩

theorem mem_failures_build {fault : BuildFault} :
    (key, .build fault) ∈ (ofOutcomes refused outcomes).failures ↔
      (key, .error fault) ∈ outcomes := by
  simp [failures_ofOutcomes, mem_failed]

theorem keys_failures (refused : List (String × Refusal))
    (outcomes : List (String × Except BuildFault Unit)) :
    Entries.keys (ofOutcomes refused outcomes).failures =
      Entries.keys refused ++ Entries.keys (failed outcomes) := by
  simp [failures_ofOutcomes, Entries.keys, Function.comp_def]

theorem built_sublist_keys (refused : List (String × Refusal))
    (outcomes : List (String × Except BuildFault Unit)) :
    (ofOutcomes refused outcomes).built.Sublist (Entries.keys outcomes) := by
  refine Entries.filterMap_sublist_map (fun p key h => ?_) outcomes
  rcases p with ⟨key', fault | ⟨⟩⟩
  · simp at h
  · simpa using h.symm

theorem keys_failed_sublist (outcomes : List (String × Except BuildFault Unit)) :
    (Entries.keys (failed outcomes)).Sublist (Entries.keys outcomes) := by
  refine Entries.keys_filterMap_sublist (fun p q h => ?_) outcomes
  rcases p with ⟨key', fault | ⟨⟩⟩
  · obtain rfl := Option.some.inj h
    rfl
  · simp at h

theorem disjoint_built_failed (distinct : (Entries.keys outcomes).Nodup) :
    (ofOutcomes refused outcomes).built.Disjoint (Entries.keys (failed outcomes)) := by
  intro key hb hf
  obtain ⟨⟨key', fault⟩, hmem, rfl⟩ := List.mem_map.mp hf
  have hsame := List.inj_on_of_nodup_map distinct (mem_built.mp hb) (mem_failed.mp hmem) rfl
  simp at hsame

/-- **Keys that were refused or dispatched are covered** by the report of what became of them. -/
theorem covers_ofOutcomes {keys : List String} (distinct : keys.Nodup)
    (hrefused : (Entries.keys refused).Sublist keys)
    (houtcomes : (Entries.keys outcomes).Sublist keys)
    (apart : (Entries.keys refused).Disjoint (Entries.keys outcomes))
    (all : ∀ key ∈ keys, key ∈ Entries.keys refused ∨ key ∈ Entries.keys outcomes) :
    (ofOutcomes refused outcomes).Covers keys where
  mem_iff key := by
    rw [keys_failures, List.mem_append]
    constructor
    · intro hkey
      rcases all key hkey with h | h
      · exact .inr (.inl h)
      · obtain ⟨⟨_, fault | ⟨⟩⟩, hp, rfl⟩ := List.mem_map.mp h
        · exact .inr (.inr (List.mem_map_of_mem (mem_failed.mpr hp)))
        · exact .inl (mem_built.mpr hp)
    · rintro (h | h | h)
      · exact houtcomes.subset ((built_sublist_keys _ _).subset h)
      · exact hrefused.subset h
      · exact houtcomes.subset ((keys_failed_sublist _).subset h)
  disjoint := by
    rw [keys_failures, List.disjoint_append_right]
    refine ⟨fun key hb hr => apart hr ((built_sublist_keys _ _).subset hb), ?_⟩
    exact disjoint_built_failed (distinct.sublist houtcomes)
  nodup_built := distinct.sublist ((built_sublist_keys _ _).trans houtcomes)
  nodup_failures := by
    rw [keys_failures]
    refine List.Nodup.append (distinct.sublist hrefused)
      (distinct.sublist ((keys_failed_sublist _).trans houtcomes)) fun key hr hf => ?_
    exact apart hr ((keys_failed_sublist _).subset hf)
  built_sublist := (built_sublist_keys _ _).trans houtcomes

end Outcomes

theorem length_ofOutcomes (refused : List (String × Refusal))
    (outcomes : List (String × Except BuildFault Unit)) :
    (ofOutcomes refused outcomes).built.length + (ofOutcomes refused outcomes).failures.length =
      refused.length + outcomes.length := by
  induction outcomes with
  | nil => simp [ofOutcomes]
  | cons p rest ih =>
    rcases p with ⟨key, fault | ⟨⟩⟩ <;> simp [ofOutcomes] at ih ⊢ <;> omega

/-- **A covered run is a success** if and only if everything was built. -/
theorem Covers.isSuccess_iff {report : Report} {keys : List String} (h : report.Covers keys)
    (distinct : keys.Nodup) : report.isSuccess = true ↔ report.built = keys := by
  rw [isSuccess, List.isEmpty_iff]
  constructor
  · intro hnone
    have hperm : report.built.Perm keys := by
      refine (List.perm_ext_iff_of_nodup h.nodup_built distinct).mpr fun key => ?_
      rw [h.mem_iff key, hnone]
      simp
    exact h.built_sublist.eq_of_length hperm.length_eq
  · intro hall
    rw [← List.map_eq_nil_iff (f := Prod.fst)]
    refine List.eq_nil_iff_forall_not_mem.mpr fun key hkey => ?_
    have hbuilt : key ∈ report.built := hall ▸ (h.mem_iff key).mpr (.inr hkey)
    exact h.disjoint hbuilt hkey

/-- **A key meets its own result**: the one of the task with the number of its job. -/
theorem mem_outcomes {ready : List Job} {tasks : List Task} {i : Nat} {job : Job} {task : Task}
    (distinct : (ready.map Job.key).Nodup) (hjob : ready[i]? = some job)
    (htask : tasks[i]? = some task) {result : Except BuildFault Unit} :
    (job.key, result) ∈ (ready.map Job.key).zip (tasks.map Task.result) ↔
      task.result = result := by
  have hkey : (ready.map Job.key)[i]? = some job.key := by simp [hjob]
  -- keys are distinct, so there is no second place at which the key could meet a result
  rw [List.mem_iff_getElem?]
  simp only [List.getElem?_zip_eq_some]
  constructor
  · rintro ⟨j, hj, hresult⟩
    obtain ⟨hi, -⟩ := List.getElem?_eq_some_iff.mp hkey
    obtain rfl := (List.getElem?_inj hi distinct).mp (hkey.trans hj.symm)
    simpa [htask] using hresult
  · rintro rfl
    exact ⟨i, hkey, by simp [htask]⟩

end Report

/-! ### Runs -/

section Runs

variable [Name.Transliteration]
  {shell : Shell} {schedule : Schedule} {config : Config} {store : Store}

/-- **What the report says of a job that was dispatched** is what its task comes to. -/
theorem report_of_task {i : Nat} {job : Job} {task : Task}
    (hjob : (Job.dispatched (jobsOf config store))[i]? = some job)
    (htask : (along shell schedule store ((Job.dispatched (jobsOf config store)).map fun job =>
      .ofSteps job.steps)).2[i]? = some task) :
    (job.key ∈ (runAlong shell schedule config store).2.built ↔ task.result = .ok ()) ∧
      ∀ fault, (job.key, .build fault) ∈ (runAlong shell schedule config store).2.failures ↔
        task.result = .error fault := by
  have hready : ((Job.dispatched (jobsOf config store)).map Job.key).Nodup :=
    (nodup_keys_jobsOf config store).sublist (Job.keys_dispatched_sublist _)
  exact ⟨Report.mem_built.trans (Report.mem_outcomes hready hjob htask),
    fun fault => Report.mem_failures_build.trans (Report.mem_outcomes hready hjob htask)⟩

theorem runAlong_of_readTree_empty (h : readTree store config.source = {}) (shell : Shell)
    (schedule : Schedule) : runAlong shell schedule config store = (store, ⟨[], []⟩) := by
  have hjobs : jobsOf config store = [] := by
    rw [jobsOf, h]
    rfl
  simp [runAlong, hjobs, buildJobs, along, finishAll, Job.dispatched, Job.refused,
    Report.ofOutcomes]

/-- **A run is a success** if it built every namespace of its document, and only then. -/
theorem isSuccess_runAlong_iff (shell : Shell) (schedule : Schedule) (config : Config)
    (store : Store) :
    (runAlong shell schedule config store).2.isSuccess = true ↔
      (runAlong shell schedule config store).2.built =
        Entries.keys (readTree store config.source).namespaces := by
  set jobs := jobsOf config store with hjobs
  set tasks := (along shell schedule store ((Job.dispatched jobs).map fun job =>
    .ofSteps job.steps)).2 with htasks
  set outcomes := ((Job.dispatched jobs).map Job.key).zip (tasks.map Task.result) with houtcomes
  have hreport : (runAlong shell schedule config store).2 =
      .ofOutcomes (Job.refused jobs) outcomes := rfl
  have hkeys : jobs.map Job.key = Entries.keys (readTree store config.source).namespaces :=
    keys_jobsOf config store
  have hlength : tasks.length = (Job.dispatched jobs).length := by
    simp [htasks, length_along]
  have hsublist : (Report.ofOutcomes (Job.refused jobs) outcomes).built.Sublist
      (jobs.map Job.key) := by
    refine (Report.built_sublist_keys _ _).trans ?_
    rw [houtcomes, Entries.keys, List.map_fst_zip (by simp [hlength])]
    exact Job.keys_dispatched_sublist jobs
  have htotal := Report.length_ofOutcomes (Job.refused jobs) outcomes
  rw [houtcomes, List.length_zip, List.length_map, List.length_map, hlength, Nat.min_self,
    Job.length_refused_add_dispatched, ← houtcomes] at htotal
  rw [hreport, ← hkeys, Report.isSuccess, List.isEmpty_iff, ← List.length_eq_zero_iff]
  refine ⟨fun hnone => hsublist.eq_of_length (by simpa [hnone] using htotal), fun hall => ?_⟩
  rw [hall, List.length_map] at htotal
  omega

/-- **Only jobs that were dispatched** are built, or fail to be built. -/
theorem exists_job_of_report {key : String}
    (h : key ∈ (runAlong shell schedule config store).2.built ∨
      ∃ fault, (key, .build fault) ∈ (runAlong shell schedule config store).2.failures) :
    ∃ job ∈ Job.dispatched (jobsOf config store), job.key = key := by
  rcases h with h | ⟨fault, h⟩
  · exact List.mem_map.mp (List.of_mem_zip (Report.mem_built.mp h)).1
  · exact List.mem_map.mp (List.of_mem_zip (Report.mem_failures_build.mp h)).1

end Runs

/-- **A run accounts for every namespace** of its document, along every schedule. Its report covers
the keys of the namespaces; the failures are what was refused and then the builds that failed, both
in the order of the document; what stands under the key of a job that was dispatched is the result
of this job, whose task took all of its own steps and no others; and the run is a success if and
only if everything was built. -/
theorem runAlong_accounts_for_every_namespace [Name.Transliteration]
    (shell : Shell) (schedule : Schedule) (config : Config) (store : Store) :
    let keys := Entries.keys (readTree store config.source).namespaces
    let jobs := jobsOf config store
    let ready := Job.dispatched jobs
    let tasks := (along shell schedule store (ready.map fun job => .ofSteps job.steps)).2
    let report := (runAlong shell schedule config store).2
    report.Covers keys ∧
    (∃ refused failed, report.failures = refused.map (fun p => (p.1, .refused p.2)) ++
        failed.map (fun p => (p.1, .build p.2)) ∧
      (Entries.keys refused).Sublist keys ∧ (Entries.keys failed).Sublist keys ∧
      (∀ key refusal, (key, refusal) ∈ refused ↔
        ∃ job ∈ jobs, job.key = key ∧ Job.refusal? jobs job = some refusal)) ∧
    (∀ (i : Nat) (job : Job), ready[i]? = some job → ∃ task, tasks[i]? = some task ∧
      task.IsDone ∧ task.From shell job.steps ∧
      (job.key ∈ report.built ↔ task.result = .ok ()) ∧
      ∀ fault, (job.key, .build fault) ∈ report.failures ↔ task.result = .error fault) ∧
    (report.isSuccess = true ↔ report.built = keys) := by
  intro keys jobs ready tasks report
  have hkeys : jobs.map Job.key = keys := keys_jobsOf config store
  have hnodup : (jobs.map Job.key).Nodup := nodup_keys_jobsOf config store
  have hlength : tasks.length = ready.length := by
    simp [tasks, length_along]
  set outcomes := (ready.map Job.key).zip (tasks.map Task.result) with houtcomes
  have hreport : report = .ofOutcomes (Job.refused jobs) outcomes := rfl
  have hrefused : (Entries.keys (Job.refused jobs)).Sublist keys :=
    hkeys ▸ Job.keys_refused_sublist jobs
  have hsame : Entries.keys outcomes = ready.map Job.key := List.map_fst_zip (by simp [hlength])
  have hsublist : (Entries.keys outcomes).Sublist keys := by
    rw [hsame, ← hkeys]
    exact Job.keys_dispatched_sublist jobs
  have hcovers : report.Covers keys := by
    rw [hreport]
    refine Report.covers_ofOutcomes (hkeys ▸ hnodup) hrefused hsublist ?_ fun key hkey => ?_
    · rw [hsame]
      exact Job.disjoint_refused_dispatched hnodup
    · rw [hsame]
      exact (Job.mem_keys_iff key).mp (hkeys ▸ hkey)
  refine ⟨hcovers, ?_, fun i job hjob => ?_, hcovers.isSuccess_iff (hkeys ▸ hnodup)⟩
  · refine ⟨Job.refused jobs, Report.failed outcomes, ?_, hrefused, ?_, fun _ _ => Job.mem_refused⟩
    · rw [hreport, Report.failures_ofOutcomes]
    · exact (Report.keys_failed_sublist outcomes).trans hsublist
  · obtain ⟨hi, -⟩ := List.getElem?_eq_some_iff.mp hjob
    obtain ⟨task, htask⟩ : ∃ task, tasks[i]? = some task :=
      ⟨_, List.getElem?_eq_getElem (hlength ▸ hi)⟩
    have hsteps : (ready.map Job.steps)[i]? = some job.steps := by simp [hjob]
    have hfrom : task.From shell job.steps :=
      from_along schedule hsteps (by rwa [List.map_map])
    exact ⟨task, htask, isDone_along _ _ _ _ _ (List.mem_of_getElem? htask), hfrom,
      report_of_task hjob htask⟩

end TokenSheets
