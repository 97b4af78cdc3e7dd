import TokenSheets.Proofs.Namespace.Accounting
import TokenSheets.Proofs.Namespace.Directories
import TokenSheets.Proofs.Namespace.Exposed

/-!
# Jobs at once end as jobs alone

The jobs of a run only share the directories in front of their own, and there nothing is ever
removed. So along every schedule each job ends as it does alone, in its directory and in its result,
and all schedules end in the same store.

One thing does show: alone, a job whose name is too long finds its target directory missing, and
fails once it makes directories; among others it may find the target directory there and fail
before. Either way it fails.

* `tracks_along`: along every schedule each task follows the same task alone;
* `get?_runAlong`: what is at a location at the end does not depend on the schedule;
* `jobs_at_once_end_as_alone`: both, and what it means for reports.
-/

namespace TokenSheets

open Store

namespace Job

variable [Name.Transliteration]

/-! ### The last step of a job -/

theorem not_isCleaning_of_mem_buildSteps {platform : Platform} {tree : Tree} {step : Step}
    (h : step ∈ platform.buildSteps tree) : ¬ step.IsCleaning := by
  unfold Platform.buildSteps at h
  split at h
  · obtain rfl := List.mem_singleton.mp h
    rintro ⟨⟩
  · rcases List.mem_cons.mp h with rfl | h
    · rintro ⟨⟩
    · obtain ⟨output, -, rfl⟩ := List.mem_map.mp h
      rintro ⟨⟩

theorem buildSteps_ne_nil (platform : Platform) (tree : Tree) : platform.buildSteps tree ≠ [] := by
  unfold Platform.buildSteps
  split <;> simp

theorem not_isCleaning_of_getLast? {job : Job} (hscript : job.settings.script = none) {last : Step}
    (h : job.steps.getLast? = some last) : ¬ last.IsCleaning := by
  have hne : buildSteps job.platforms job.tokens ≠ [] := by
    rw [platforms, buildSteps, List.flatMap_cons]
    exact List.append_ne_nil_of_left_ne_nil (buildSteps_ne_nil _ _) _
  obtain ⟨final, hfinal⟩ := Option.ne_none_iff_exists'.mp (mt List.getLast?_eq_none_iff.mp hne)
  have hmem : last ∈ buildSteps job.platforms job.tokens := by
    rw [steps, hscript, Option.toList_none, List.map_nil, List.append_nil, List.getLast?_append,
      hfinal, Option.some_or] at h
    exact Option.some.inj h ▸ List.mem_of_getLast? hfinal
  obtain ⟨p, -, hstep⟩ := List.mem_flatMap.mp hmem
  exact not_isCleaning_of_mem_buildSteps hstep

end Job

section Run

variable [Name.Transliteration] {shell : Shell} {config : Config} {store : Store}

/-! ### Every task follows the same task alone -/

/-- **Tasks under way, each followed alone.** What is new in front of their directories is there at
the end of one of them alone. -/
structure Tracks (shell : Shell) (store : Store) (target : Location) (ready : List Job)
    (shared : Store) (tasks : List Task) : Prop where
  length_eq : tasks.length = ready.length
  follows : ∀ (i : Nat) (job : Job) (task : Task), ready[i]? = some job → tasks[i]? = some task →
    ∃ alone own, Follows shell job.buildPath job.buildPath.segments Job.fileNames job.steps store
      shared task alone own
  new : ∀ front, front <+: target → shared.get? front = store.get? front ∨
    ∃ job ∈ ready, (job.alone shell store).1.get? front = some .directory

omit [Name.Transliteration] in
theorem Job.name_ne_of_ne {i j : Nat} {job other : Job}
    (hjob : (Job.dispatched (jobsOf config store))[i]? = some job)
    (hother : (Job.dispatched (jobsOf config store))[j]? = some other) (hij : i ≠ j) :
    job.name ≠ other.name := by
  intro hname
  have hnodup : ((Job.dispatched (jobsOf config store)).map Job.name).Nodup :=
    List.pairwise_map.mpr (Job.pairwise_name_dispatched (nodup_keys_jobsOf config store))
  obtain ⟨hi, -⟩ := List.getElem?_eq_some_iff.mp hjob
  refine hij ((List.getElem?_inj (by simpa using hi) hnodup).mp ?_)
  simp [hjob, hother, hname]

theorem tracks_start (shell : Shell) (tree : store.IsTree) (scripts : config.WithoutScripts) :
    Tracks shell store config.targetDir.segments (Job.dispatched (jobsOf config store)) store
      ((Job.dispatched (jobsOf config store)).map fun job => .ofSteps job.steps) where
  length_eq := List.length_map _
  follows i job task hjob htask := by
    obtain rfl : Task.ofSteps job.steps = task := by simpa [hjob] using htask
    have hmem := (Job.mem_dispatched.mp (List.mem_of_getElem? hjob)).1
    have hscript : job.settings.script = none := by
      rw [(of_mem_jobsOf hmem).2.2, scripts.script_settings]
    refine ⟨store, _, Follows.begin tree (fun step hstep => ?_)
      fun last => Job.not_isCleaning_of_getLast? hscript⟩
    rcases Job.keepsTo_of_mem_steps hstep with hkeeps | ⟨script, hscript', -⟩
    · exact hkeeps
    · simp [hscript] at hscript'
  new _ _ := .inl rfl

/-- **A step of one task** keeps every task followed. -/
theorem Tracks.step (notUp : ".." ∉ config.targetDir.segments) (tree : store.IsTree)
    {shared : Store} {tasks : List Task} {i : Nat} {task : Task}
    (h : Tracks shell store config.targetDir.segments (Job.dispatched (jobsOf config store)) shared
      tasks) (htask : tasks[i]? = some task) :
    Tracks shell store config.targetDir.segments (Job.dispatched (jobsOf config store))
      (task.advance shell shared).1 (tasks.set i (task.advance shell shared).2) := by
  obtain ⟨hi, -⟩ := List.getElem?_eq_some_iff.mp htask
  obtain ⟨job, hjob⟩ : ∃ job, (Job.dispatched (jobsOf config store))[i]? = some job :=
    ⟨_, List.getElem?_eq_getElem (h.length_eq ▸ hi)⟩
  have hmem := List.mem_of_getElem? hjob
  have leads := Job.leadsTo_buildPath notUp hmem
  have leadsIn := Job.leadsTo_file notUp hmem
  obtain ⟨alone, own, hfollows⟩ := h.follows i job task hjob htask
  obtain ⟨alone', own', hfollows', hnew⟩ := hfollows.own_step leads leadsIn tree
  refine ⟨by rw [List.length_set, h.length_eq], fun j other next hother hnext => ?_,
    fun front hfront => ?_⟩
  · rw [List.getElem?_set] at hnext
    -- the task that moves takes its step alone as well, the others do not notice
    by_cases hij : i = j
    · subst hij
      obtain rfl : job = other := Option.some.inj (hjob.symm.trans hother)
      obtain rfl : _ = next := by simpa [hi] using hnext
      exact ⟨alone', own', hfollows'⟩
    · rw [if_neg hij] at hnext
      obtain ⟨alone'', own'', hfollows''⟩ := h.follows j other next hother hnext
      have hmem' := List.mem_of_getElem? hother
      have hname : job.name ≠ other.name := Job.name_ne_of_ne hjob hother hij
      refine ⟨alone'', own'', hfollows''.other_step ?_ ?_ (hfollows.touched leads leadsIn)⟩
      · simp [Job.segments_buildPath hmem, Job.segments_buildPath hmem']
      · simpa [Job.segments_buildPath hmem, Job.segments_buildPath hmem'] using hname
  · have hahead : front <+: job.buildPath.segments := by
      rw [Job.segments_buildPath hmem]
      exact hfront.trans (List.prefix_append _ _)
    have hne : front ≠ job.buildPath.segments := by
      rintro rfl
      simpa [Job.segments_buildPath hmem] using hfront.length_le
    rcases hnew front hahead hne with hsame | hdir
    · rw [hsame]
      exact h.new front hfront
    · exact .inr ⟨job, hmem, hfollows'.directory_at_end leads leadsIn hne hdir⟩

/-- **Along every schedule each task follows the same task alone.** -/
theorem tracks_along (shell : Shell) (notUp : ".." ∉ config.targetDir.segments)
    (scripts : config.WithoutScripts) (tree : store.IsTree) (schedule : Schedule) :
    let ready := Job.dispatched (jobsOf config store)
    let run := along shell schedule store (ready.map fun job => .ofSteps job.steps)
    Tracks shell store config.targetDir.segments ready run.1 run.2 := by
  refine along_induction (fun shared tasks i h => ?_) schedule (tracks_start shell tree scripts)
  exact advanceAt_induction i h fun task htask => h.step notUp tree htask

/-! ### What is at the end -/

theorem Tracks.at_end {target : Location} {ready : List Job} {shared : Store} {tasks : List Task}
    (h : Tracks shell store target ready shared tasks) (done : ∀ task ∈ tasks, task.IsDone)
    {i : Nat} {job : Job} (hjob : ready[i]? = some job) :
    ∃ task, tasks[i]? = some task ∧
      AgreesAt job.buildPath.segments (job.alone shell store).1 shared ∧
      (task.result = (job.alone shell store).2.result ∨
        ∃ fault fault', task.result = .error fault ∧
          (job.alone shell store).2.result = .error fault' ∧
          fault.IsAt job.buildPath Job.fileNames ∧ Exposed job.buildPath.segments store) := by
  obtain ⟨hi, -⟩ := List.getElem?_eq_some_iff.mp hjob
  obtain ⟨task, htask⟩ : ∃ task, tasks[i]? = some task :=
    ⟨_, List.getElem?_eq_getElem (h.length_eq ▸ hi)⟩
  obtain ⟨alone, own, hfollows⟩ := h.follows i job task hjob htask
  obtain ⟨rfl, hresult⟩ := hfollows.at_end (done task (List.mem_of_getElem? htask))
  exact ⟨task, htask, hfollows.agrees, hresult⟩

theorem Tracks.result_at {target : Location} {ready : List Job} {shared : Store}
    {tasks : List Task} (h : Tracks shell store target ready shared tasks)
    (done : ∀ task ∈ tasks, task.IsDone) {i : Nat} (hi : i < tasks.length)
    (hi' : i < ready.length) :
    tasks[i].result = (ready[i].alone shell store).2.result ∨
      ∃ fault fault', tasks[i].result = .error fault ∧
        (ready[i].alone shell store).2.result = .error fault' ∧
        Exposed ready[i].buildPath.segments store := by
  obtain ⟨task, htask, -, hresult⟩ := h.at_end done (List.getElem?_eq_getElem hi')
  obtain rfl : tasks[i] = task := by simpa [hi] using htask
  rcases hresult with hsame | ⟨fault, fault', hfault, hfault', -, hexposed⟩
  · exact .inl hsame
  · exact .inr ⟨fault, fault', hfault, hfault', hexposed⟩

/-- **What is in front of the directories at the end**: what was there before, and the directories
that some job makes alone. -/
theorem Tracks.get?_front {target : Location} {ready : List Job} {shared : Store}
    {tasks : List Task} (h : Tracks shell store target ready shared tasks)
    (done : ∀ task ∈ tasks, task.IsDone)
    (hplaces : ∀ job ∈ ready, target <+: job.buildPath.segments) {front : Location}
    (hfront : front <+: target) :
    (shared.get? front = store.get? front ∧
      ¬ ∃ job ∈ ready, (job.alone shell store).1.get? front = some .directory) ∨
      (shared.get? front = some .directory ∧
        ∃ job ∈ ready, (job.alone shell store).1.get? front = some .directory) := by
  have hthere : ∀ job ∈ ready, (job.alone shell store).1.get? front = some .directory →
      shared.get? front = some .directory := by
    intro job hmem hdir
    obtain ⟨i, hi⟩ := List.getElem?_of_mem hmem
    obtain ⟨-, -, hagrees, -⟩ := h.at_end done hi
    rcases hagrees.above front (hfront.trans (hplaces job hmem)) with hsame | ⟨-, hshared⟩
    · rw [hsame, hdir]
    · exact hshared
  by_cases hsome : ∃ job ∈ ready, (job.alone shell store).1.get? front = some .directory
  · obtain ⟨job, hmem, hdir⟩ := hsome
    exact .inr ⟨hthere job hmem hdir, job, hmem, hdir⟩
  · rcases h.new front hfront with hsame | hnew
    · exact .inl ⟨hsame, hsome⟩
    · exact absurd hnew hsome

section End

variable (shell : Shell) (notUp : ".." ∉ config.targetDir.segments)
  (scripts : config.WithoutScripts) (tree : store.IsTree)

include notUp scripts tree

theorem get?_runAlong_below (schedule : Schedule) {job : Job}
    (hjob : job ∈ Job.dispatched (jobsOf config store)) (rest : Location) :
    (runAlong shell schedule config store).1.get? (job.buildPath.segments ++ rest) =
      (job.alone shell store).1.get? (job.buildPath.segments ++ rest) := by
  obtain ⟨i, hi⟩ := List.getElem?_of_mem hjob
  obtain ⟨-, -, hagrees, -⟩ := (tracks_along shell notUp scripts tree schedule).at_end
    (isDone_along shell schedule store _) hi
  exact hagrees.below rest

theorem get?_runAlong_front (schedule schedule' : Schedule) {front : Location}
    (hfront : front <+: config.targetDir.segments) :
    (runAlong shell schedule config store).1.get? front =
      (runAlong shell schedule' config store).1.get? front := by
  have hplaces : ∀ job ∈ Job.dispatched (jobsOf config store),
      config.targetDir.segments <+: job.buildPath.segments := fun job hmem => by
    rw [Job.segments_buildPath hmem]
    exact List.prefix_append _ _
  have hends : ∀ schedule, _ := fun schedule =>
    (tracks_along shell notUp scripts tree schedule).get?_front
      (isDone_along shell schedule store _) hplaces hfront
  rcases hends schedule with ⟨hsame, hnone⟩ | ⟨hdir, hsome⟩
  · rcases hends schedule' with ⟨hsame', -⟩ | ⟨-, hsome'⟩
    · exact hsame.trans hsame'.symm
    · exact absurd hsome' hnone
  · rcases hends schedule' with ⟨-, hnone'⟩ | ⟨hdir', -⟩
    · exact absurd hsome hnone'
    · exact hdir.trans hdir'.symm

omit tree in
theorem get?_runAlong_elsewhere (schedule : Schedule) {other : Location}
    (notBelow : ∀ job ∈ Job.dispatched (jobsOf config store), ¬ job.buildPath.segments <+: other)
    (notFront : ¬ other <+: config.targetDir.segments) :
    (runAlong shell schedule config store).1.get? other = store.get? other := by
  refine (touchedBy_along notUp scripts shell schedule other).same_elsewhere
    (fun location hmem hahead => ?_) fun location hmem hahead => ?_
  · obtain ⟨job, hjob, rfl⟩ := List.mem_map.mp hmem
    exact notBelow job hjob hahead
  · obtain ⟨job, hjob, rfl⟩ := List.mem_map.mp hmem
    rw [Job.segments_buildPath hjob] at hahead
    rcases List.prefix_concat_iff.mp hahead with hall | htarget
    · exact notBelow job hjob (by rw [Job.segments_buildPath hjob, hall])
    · exact notFront htarget

/-- **What is at a location at the end** does not depend on the schedule. -/
theorem get?_runAlong (schedule schedule' : Schedule) (other : Location) :
    (runAlong shell schedule config store).1.get? other =
      (runAlong shell schedule' config store).1.get? other := by
  by_cases hbelow : ∃ job ∈ Job.dispatched (jobsOf config store), job.buildPath.segments <+: other
  · obtain ⟨job, hjob, rest, rfl⟩ := hbelow
    rw [get?_runAlong_below shell notUp scripts tree schedule hjob,
      get?_runAlong_below shell notUp scripts tree schedule' hjob]
  · have notBelow : ∀ job ∈ Job.dispatched (jobsOf config store),
        ¬ job.buildPath.segments <+: other := fun job hjob hahead => hbelow ⟨job, hjob, hahead⟩
    by_cases hfront : other <+: config.targetDir.segments
    · exact get?_runAlong_front shell notUp scripts tree schedule schedule' hfront
    · rw [get?_runAlong_elsewhere shell notUp scripts schedule notBelow hfront,
        get?_runAlong_elsewhere shell notUp scripts schedule' notBelow hfront]

end End

/-! ### Reports -/

/-- Results that are the same, or are both faults. -/
def SameUpToFault (result result' : Except BuildFault Unit) : Prop :=
  result = result' ∨ ∃ fault fault', result = .error fault ∧ result' = .error fault'

omit [Name.Transliteration] in
/-- **Results that are the same up to faults** make reports with the same keys. -/
theorem Report.congr_of_sameUpToFault {results results' : List (Except BuildFault Unit)}
    (h : List.Forall₂ SameUpToFault results results') : ∀ (keys : List String)
    (refused : List (String × Refusal)),
      (ofOutcomes refused (keys.zip results)).built =
        (ofOutcomes refused (keys.zip results')).built ∧
      Entries.keys (failed (keys.zip results)) = Entries.keys (failed (keys.zip results')) := by
  induction h with
  | nil => exact fun _ _ => ⟨rfl, rfl⟩
  | @cons result result' _ _ hfirst _ ih =>
    intro keys refused
    rcases keys with _ | ⟨key, keys⟩
    · exact ⟨rfl, rfl⟩
    · obtain ⟨hbuilt, hfailed⟩ := ih keys refused
      simp only [ofOutcomes, failed] at hbuilt hfailed ⊢
      rw [List.zip_cons_cons, List.zip_cons_cons, List.filterMap_cons, List.filterMap_cons,
        List.filterMap_cons, List.filterMap_cons]
      obtain rfl | ⟨fault, fault', rfl, rfl⟩ := hfirst
      · rcases result with fault | ⟨⟩ <;> simp [hbuilt, hfailed]
      · simp [hbuilt, hfailed]

/-- **The report of jobs that run alone**, each of them on the same store. -/
def reportAlone (shell : Shell) (store : Store) (jobs : List Job) : Report :=
  .ofOutcomes (Job.refused jobs)
    ((Job.dispatched jobs).map fun job => (job.key, (job.alone shell store).2.result))

/-- **Jobs at once end as jobs alone.** If there are no commands and the target directory does not
lead up, then along every schedule each job leaves in its directory what it leaves there alone, and
comes to the same result. The exception is a job that cannot get to its directory at the start, for
want of a directory in front of it, and has a name on the way that does not fit: it fails both
times, but among others perhaps before it does alone. So the same namespaces are built and fail,
with the same faults apart from this exception; and all schedules end in the same store. -/
theorem jobs_at_once_end_as_alone (shell : Shell) (config : Config) (store : Store)
    (notUp : ".." ∉ config.targetDir.segments) (scripts : config.WithoutScripts)
    (tree : store.IsTree) :
    let jobs := jobsOf config store
    let ready := Job.dispatched jobs
    (∀ schedule,
      let tasks := (along shell schedule store (ready.map fun job => .ofSteps job.steps)).2
      let after := (runAlong shell schedule config store).1
      let report := (runAlong shell schedule config store).2
      (∀ (i : Nat) (job : Job), ready[i]? = some job → ∃ task, tasks[i]? = some task ∧
        (∀ rest, after.get? (job.buildPath.segments ++ rest) =
          (job.alone shell store).1.get? (job.buildPath.segments ++ rest)) ∧
        (task.result = (job.alone shell store).2.result ∨
          ∃ fault fault', task.result = .error fault ∧
            (job.alone shell store).2.result = .error fault' ∧
            fault.IsAt job.buildPath Job.fileNames ∧ Exposed job.buildPath.segments store)) ∧
      report.built = (reportAlone shell store jobs).built ∧
      Entries.keys report.failures = Entries.keys (reportAlone shell store jobs).failures ∧
      ((∀ job ∈ ready, ¬ Exposed job.buildPath.segments store) →
        report = reportAlone shell store jobs)) ∧
    ∀ schedule schedule' other, (runAlong shell schedule config store).1.get? other =
      (runAlong shell schedule' config store).1.get? other := by
  intro jobs ready
  refine ⟨fun schedule => ?_, fun schedule schedule' other =>
    get?_runAlong shell notUp scripts tree schedule schedule' other⟩
  intro tasks after report
  have htracks : Tracks shell store config.targetDir.segments ready after tasks :=
    tracks_along shell notUp scripts tree schedule
  have hdone : ∀ task ∈ tasks, task.IsDone := isDone_along shell schedule store _
  have hreport : report = .ofOutcomes (Job.refused jobs)
      ((ready.map Job.key).zip (tasks.map Task.result)) := rfl
  have halone : reportAlone shell store jobs = .ofOutcomes (Job.refused jobs)
      ((ready.map Job.key).zip (ready.map fun job => (job.alone shell store).2.result)) := by
    rw [List.zip_map', reportAlone]
  have hlength : (tasks.map Task.result).length =
      (ready.map fun job => (job.alone shell store).2.result).length := by
    simp [htracks.length_eq]
  refine ⟨fun i job hjob => ?_, ?_⟩
  · obtain ⟨task, htask, hagrees, hresult⟩ := htracks.at_end hdone hjob
    exact ⟨task, htask, hagrees.below, hresult⟩
  · have hsame : List.Forall₂ SameUpToFault (tasks.map Task.result)
        (ready.map fun job => (job.alone shell store).2.result) := by
      refine List.forall₂_iff_get.mpr ⟨hlength, fun i hi hi' => ?_⟩
      rw [List.length_map] at hi hi'
      rcases htracks.result_at hdone hi hi' with hresult | ⟨fault, fault', hfault, hfault', -⟩
      · exact .inl (by simpa using hresult)
      · exact .inr ⟨fault, fault', by simpa using hfault, by simpa using hfault'⟩
    obtain ⟨hbuilt, hfailed⟩ :=
      Report.congr_of_sameUpToFault hsame (ready.map Job.key) (Job.refused jobs)
    rw [hreport, halone, Report.keys_failures, Report.keys_failures, hfailed]
    refine ⟨hbuilt, rfl, fun hexposed => ?_⟩
    have hresults : tasks.map Task.result =
        ready.map fun job => (job.alone shell store).2.result := by
      refine List.ext_getElem hlength fun i hi hi' => ?_
      rw [List.length_map] at hi hi'
      rcases htracks.result_at hdone hi hi' with hresult | ⟨-, -, -, -, hlong⟩
      · simpa using hresult
      · exact absurd hlong (hexposed _ (List.getElem_mem hi'))
    rw [hresults]

end Run

theorem isTree_document (content : ByteArray) : Store.IsTree
    ⟨[(["tokens"], .directory), (["tokens", "core.json"], .file content)]⟩ := by
  have htokens : (empty.put ([] ++ ["tokens"]) .directory).IsTree :=
    isTree_empty.put rfl (by decide) .directory
  have hdocument : ((empty.put ["tokens"] .directory).put (["tokens"] ++ ["core.json"])
      (.file content)).IsTree := htokens.put rfl (by decide) _
  exact hdocument

section

attribute [local instance] Name.Transliteration.ascii

/-- Two namespaces that take turns are both built, as they are alone. -/
theorem jobs_at_once_end_as_alone_two :
    let document := "\x7b\"a\":\x7b\x7d,\"b\":\x7b\x7d\x7d"
    let store : Store := ⟨[(["tokens"], .directory),
      (["tokens", "core.json"], .file document.toUTF8)]⟩
    let shell : Shell := ⟨fun _ store => (store, .exited 0)⟩
    ".." ∉ ({} : Config).targetDir.segments ∧ ({} : Config).WithoutScripts ∧ store.IsTree ∧
    (runAlong shell [1, 0, 1, 0] {} store).2.built = ["a", "b"] := by
  intro document store shell
  have notUp : ".." ∉ ({} : Config).targetDir.segments := by decide
  have scripts : ({} : Config).WithoutScripts := by simp [Config.WithoutScripts]
  have tree : store.IsTree := isTree_document _
  have halone : (reportAlone shell store (jobsOf {} store)).built = ["a", "b"] := by
    decide +kernel
  obtain ⟨-, hbuilt, -⟩ :=
    (jobs_at_once_end_as_alone shell {} store notUp scripts tree).1 [1, 0, 1, 0]
  exact ⟨notUp, scripts, tree, hbuilt.trans halone⟩

end

section

attribute [local instance] Name.Transliteration.ascii

/-- **A job among others may show in its fault.** The target directory is missing and has a name
that does not fit. Alone the second job fails where it makes its directory; behind the first job,
which made what is in front of the name, it fails at the file that it cleans. -/
theorem jobs_at_once_show_in_a_fault :
    let long := String.ofList (List.replicate 256 'b')
    let config : Config := { targetDir := (Path.mk "css").join long }
    let document := "\x7b\"a\":\x7b\x7d,\"b\":\x7b\x7d\x7d"
    let store : Store := ⟨[(["tokens"], .directory),
      (["tokens", "core.json"], .file document.toUTF8)]⟩
    let shell : Shell := ⟨fun _ store => (store, .exited 0)⟩
    let ready := Job.dispatched (jobsOf config store)
    ".." ∉ config.targetDir.segments ∧ config.WithoutScripts ∧ store.IsTree ∧
    ∃ first second, ready = [first, second] ∧
      (second.alone shell store).2.result = .error (.io second.buildPath .tooLong) ∧
      (along shell [] store (ready.map fun job => .ofSteps job.steps)).2.map Task.result =
        [.error (.io first.buildPath .tooLong),
          .error (.io (second.buildPath.join "variables.css") .tooLong)] ∧
      second.buildPath.join "variables.css" ≠ second.buildPath := by
  intro long config document store shell ready
  have hchars : ∀ c ∈ long.toList, c = 'b' := by
    rw [String.toList_ofList]
    exact fun c => List.eq_of_mem_replicate
  have ordinary : Path.IsOrdinary long :=
    ⟨by decide +kernel, by decide +kernel, by decide +kernel,
      fun h => absurd (hchars _ h) (by decide)⟩
  have hkeys : ready.map Job.key = ["a", "b"] := by decide +kernel
  have hrender : ∀ job ∈ ready, (job.stylesheet.outputs job.tokens).isOk := by decide +kernel
  have htarget : config.targetDir = (Path.mk "css").join long := by dsimp only [config]
  obtain ⟨first, second, hready⟩ : ∃ first second, ready = [first, second] :=
    List.length_eq_two.mp (by simpa using congrArg List.length hkeys)
  have hjob : ∀ job ∈ ready, ∀ name, job.key = name → Namespace.nameOf name = name →
      job.buildPath = ((Path.mk "css").join long).join name ∧ job.settings = {} ∧
        ∃ outputs, job.stylesheet.outputs job.tokens = .ok outputs := by
    rintro job hmem name rfl hname
    obtain ⟨hname', hpath, hsettings⟩ := of_mem_jobsOf (Job.mem_dispatched.mp hmem).1
    rw [hname', hname] at hpath hsettings
    rw [htarget] at hpath
    refine ⟨hpath, hsettings.trans rfl, ?_⟩
    rcases hout : job.stylesheet.outputs job.tokens with error | outputs
    · simpa [hout, Except.isOk, Except.toBool] using hrender job hmem
    · exact ⟨outputs, rfl⟩
  obtain ⟨hfirst, hsecond⟩ : first.key = "a" ∧ second.key = "b" := by simpa [hready] using hkeys
  have missing : store.get? ["css"] = none := by decide
  obtain ⟨halone, halong⟩ : (second.alone shell store).2 = _ ∧ _ :=
    Job.faults_of_two ordinary (by decide +kernel) (fun h => absurd (hchars _ h) (by decide))
      (by decide +kernel) missing (hjob first (by simp [hready]) "a" hfirst (by decide +kernel))
      (hjob second (by simp [hready]) "b" hsecond (by decide +kernel))
  have leads : ((Path.mk "css").join long).LeadsTo ["css", long] :=
    Path.leadsTo_join (by decide) ordinary
  have notUp : ".." ∉ config.targetDir.segments := by
    rw [htarget, leads.segments]
    exact leads.points_notMem
  have hsheet : Path.IsOrdinary "variables.css" :=
    Job.isOrdinary_of_mem_fileNames (by simp [Job.fileNames])
  refine ⟨notUp, by simp [Config.WithoutScripts, config], isTree_document _, first, second, hready,
    by rw [halone]; rfl, by rw [hready, List.map_cons, List.map_cons, List.map_nil, halong]; rfl,
    fun hsame => ?_⟩
  simpa [hsame] using Path.segments_join second.buildPath hsheet

end

end TokenSheets
