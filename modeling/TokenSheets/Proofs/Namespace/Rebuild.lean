import TokenSheets.Proofs.Namespace.Ends
import TokenSheets.Proofs.Store.Reading

/-!
# Building again changes nothing

If a run does not disturb the documents that it reads, the next run has the same jobs, and finds
each of them where it ended. There each job repeats itself, so the store stays as it is.

The report stays the same as well, with one exception. A job whose way is missing and has a name
that does not fit makes what is in front of the name and fails; the next time it fails at its first
file.

* `Path.StaysClear`: a run does not disturb what is read at a path;
* `jobsOf_runAlong`: then the next run has the same jobs;
* `FailsAgain`: a failure and the next one of the same namespace;
* `building_again_changes_nothing`: the store and the report after a second run.
-/

namespace TokenSheets

open Store

/-- **A document that a run does not disturb**: its path comes past no directory of a namespace that
is built, and leads up from no directory that is still missing in front of them. -/
structure Path.StaysClear (path : Path) (config : Config) (store : Store) : Prop where
  outputs : ∀ front, front <+: path.segments → ∀ job ∈ Job.dispatched (jobsOf config store),
    ¬ job.buildPath.segments <+: placeOf front
  up : ∀ front, front ++ [".."] <+: path.segments → placeOf front <+: config.targetDir.segments →
    store.get? (placeOf front) ≠ none

theorem Path.staysClear_of_beside {path : Path} {config : Config} {store : Store}
    (notUp : ".." ∉ path.segments) (beside : ¬ config.targetDir.segments <+: path.segments) :
    path.StaysClear config store where
  outputs front hfront job hjob hplace := by
    rw [placeOf_of_notUp fun hmem => notUp (hfront.subset hmem)] at hplace
    rw [Job.segments_buildPath hjob] at hplace
    exact beside (((List.prefix_append _ _).trans hplace).trans hfront)
  up front hfront := absurd (hfront.subset (by simp)) notUp

section Documents

variable [Name.Transliteration] {config : Config} {store : Store} (shell : Shell)
  (notUp : ".." ∉ config.targetDir.segments) (scripts : config.WithoutScripts)

include notUp scripts

theorem leftAlone_runAlong {path : Path} (clear : path.StaysClear config store)
    (schedule : Schedule) :
    LeftAlone path.segments store (runAlong shell schedule config store).1 := by
  intro front hfront
  have hout : placeOf front ∉
      (Job.dispatched (jobsOf config store)).map fun job => job.buildPath.segments := by
    intro hmem
    obtain ⟨job, hjob, hplace⟩ := List.mem_map.mp hmem
    exact clear.outputs front hfront job hjob (hplace ▸ List.prefix_rfl)
  cases touchedBy_along notUp scripts shell schedule (placeOf front) with
  | same unchanged => exact .inl unchanged
  | file mem _ place =>
    obtain ⟨job, hjob, rfl⟩ := List.mem_map.mp mem
    exact absurd (place ▸ List.prefix_append _ _) (clear.outputs front hfront job hjob)
  | directory mem => exact absurd mem hout
  | above mem place was isDirectory =>
    obtain ⟨job, hjob, rfl⟩ := List.mem_map.mp mem
    refine .inr ⟨was, isDirectory, fun hup => clear.up front hup ?_ was⟩
    rw [Job.segments_buildPath hjob] at place
    refine (List.prefix_concat_iff.mp place).resolve_left fun heq => hout ?_
    rw [heq, ← Job.segments_buildPath hjob]
    exact List.mem_map_of_mem hjob

/-- **The next run has the same jobs.** -/
theorem jobsOf_runAlong (tree : store.IsTree) (source : config.source.StaysClear config store)
    (textSource : config.textSource.StaysClear config store) (schedule : Schedule) :
    jobsOf config (runAlong shell schedule config store).1 = jobsOf config store := by
  have hread : ∀ {path : Path}, path.StaysClear config store →
      readTree (runAlong shell schedule config store).1 path = readTree store path := by
    intro path clear
    rw [readTree, readTree, readText_of_leftAlone tree
      (leftAlone_runAlong shell notUp scripts clear schedule)]
  rw [jobsOf, jobsOf, hread source, hread textSource]

end Documents

/-! ### Reports -/

/-- **A failure and the next one**: they are the same, or the job of the namespace was exposed and
one of its two faults is at its directory or at one of its files. -/
inductive FailsAgain (config : Config) (store : Store) :
    String × NamespaceFault → String × NamespaceFault → Prop
  | same (failure : String × NamespaceFault) : FailsAgain config store failure failure
  | exposed {job : Job} (mem : job ∈ Job.dispatched (jobsOf config store))
    (exposed : Exposed job.buildPath.segments store) {fault fault' : BuildFault}
    (place : fault.IsAt job.buildPath Job.fileNames ∨ fault'.IsAt job.buildPath Job.fileNames) :
    FailsAgain config store (job.key, .build fault) (job.key, .build fault')

section Outcomes

variable [Name.Transliteration]

/-- **What becomes of the dispatched jobs** along a schedule, by key. -/
def outcomesAlong (shell : Shell) (schedule : Schedule) (config : Config) (store : Store) :
    List (String × Except BuildFault Unit) :=
  let ready := Job.dispatched (jobsOf config store)
  (ready.map Job.key).zip
    ((along shell schedule store (ready.map fun job => .ofSteps job.steps)).2.map Task.result)

theorem report_runAlong (shell : Shell) (schedule : Schedule) (config : Config) (store : Store) :
    (runAlong shell schedule config store).2 = .ofOutcomes (Job.refused (jobsOf config store))
      (outcomesAlong shell schedule config store) := rfl

theorem getElem?_outcomesAlong {shell : Shell} {schedule : Schedule} {config : Config}
    {store : Store} {i : Nat} {job : Job} {task : Task}
    (hjob : (Job.dispatched (jobsOf config store))[i]? = some job)
    (htask : (along shell schedule store
      ((Job.dispatched (jobsOf config store)).map fun job => .ofSteps job.steps)).2[i]? =
        some task) :
    (outcomesAlong shell schedule config store)[i]? = some (job.key, task.result) := by
  simp [outcomesAlong, List.getElem?_zip_eq_some, hjob, htask]

theorem length_outcomesAlong (shell : Shell) (schedule : Schedule) (config : Config)
    (store : Store) : (outcomesAlong shell schedule config store).length =
      (Job.dispatched (jobsOf config store)).length := by
  simp [outcomesAlong, length_along]

end Outcomes

theorem Report.eq_of_built_of_failures : ∀ {first second : Report}, first.built = second.built →
    first.failures = second.failures → first = second
  | ⟨_, _⟩, ⟨_, _⟩, rfl, rfl => rfl

/-- **Outcomes of one key** that are the same, or whose failures are related. -/
inductive Report.Related (R : String × NamespaceFault → String × NamespaceFault → Prop) :
    String × Except BuildFault Unit → String × Except BuildFault Unit → Prop
  | same (outcome : String × Except BuildFault Unit) : Related R outcome outcome
  | faults {key : String} {fault fault' : BuildFault}
    (h : R (key, .build fault) (key, .build fault')) :
    Related R (key, .error fault) (key, .error fault')

/-- **Outcomes that are related** make reports that are. -/
theorem Report.related_of_outcomes {R : String × NamespaceFault → String × NamespaceFault → Prop}
    (refl : ∀ failure, R failure failure)
    {outcomes outcomes' : List (String × Except BuildFault Unit)}
    (h : List.Forall₂ (Related R) outcomes outcomes') (refused : List (String × Refusal)) :
    (ofOutcomes refused outcomes').built = (ofOutcomes refused outcomes).built ∧
      List.Forall₂ R (ofOutcomes refused outcomes).failures
        (ofOutcomes refused outcomes').failures := by
  rw [failures_ofOutcomes, failures_ofOutcomes]
  have hrefused : List.Forall₂ R (refused.map fun p => (p.1, .refused p.2))
      (refused.map fun p => (p.1, .refused p.2)) := List.forall₂_same.mpr fun _ _ => refl _
  suffices hall : (ofOutcomes refused outcomes').built = (ofOutcomes refused outcomes).built ∧
      List.Forall₂ R ((failed outcomes).map fun p => (p.1, .build p.2))
        ((failed outcomes').map fun p => (p.1, .build p.2)) from
    ⟨hall.1, List.rel_append hrefused hall.2⟩
  simp only [ofOutcomes, failed]
  induction h with
  | nil => exact ⟨rfl, .nil⟩
  | @cons p _ _ _ hfirst _ ih =>
    cases hfirst with
    | same =>
      rcases p with ⟨key, fault | ⟨⟩⟩
      · exact ⟨ih.1, .cons (refl _) ih.2⟩
      · exact ⟨congrArg (key :: ·) ih.1, ih.2⟩
    | faults hfault => exact ⟨ih.1, .cons hfault ih.2⟩

/-! ### Two runs -/

section Runs

variable [Name.Transliteration] {config : Config} {store : Store} (shell : Shell)
  (notUp : ".." ∉ config.targetDir.segments) (scripts : config.WithoutScripts)
  (tree : store.IsTree) (source : config.source.StaysClear config store)
  (textSource : config.textSource.StaysClear config store)

include notUp scripts tree

theorem repeats_runAlong (schedule : Schedule) {job : Job}
    (hjob : job ∈ Job.dispatched (jobsOf config store)) :
    job.Repeats shell job.buildPath.segments store (runAlong shell schedule config store).1 ∧
      (¬ Exposed job.buildPath.segments store →
        ¬ Exposed job.buildPath.segments (runAlong shell schedule config store).1) := by
  have leads := Job.leadsTo_buildPath notUp hjob
  have hscript := Job.script_of_mem_dispatched scripts hjob
  obtain ⟨i, hi⟩ := List.getElem?_of_mem hjob
  obtain ⟨-, -, hagrees, -⟩ := (tracks_along shell notUp scripts tree schedule).at_end
    (isDone_along shell schedule store _) hi
  exact ⟨Job.repeats leads hscript tree (isTree_runAlong shell notUp scripts tree schedule) hagrees,
    Job.not_exposed_again leads tree hagrees⟩

include source textSource

theorem get?_runAlong_again (schedule schedule' : Schedule) (other : Location) :
    let first := (runAlong shell schedule config store).1
    (runAlong shell schedule' config first).1.get? other = first.get? other := by
  intro first
  have hjobs : jobsOf config first = jobsOf config store :=
    jobsOf_runAlong shell notUp scripts tree source textSource schedule
  have htree : first.IsTree := isTree_runAlong shell notUp scripts tree schedule
  have hsame : ∀ job ∈ Job.dispatched (jobsOf config first), ∀ other,
      (job.alone shell first).1.get? other = first.get? other := fun job hjob =>
    (repeats_runAlong shell notUp scripts tree schedule (hjobs ▸ hjob)).1.unchanged
  by_cases hbelow : ∃ job ∈ Job.dispatched (jobsOf config first),
      job.buildPath.segments <+: other
  · obtain ⟨job, hjob, rest, rfl⟩ := hbelow
    rw [get?_runAlong_below shell notUp scripts htree schedule' hjob, hsame job hjob]
  · have notBelow : ∀ job ∈ Job.dispatched (jobsOf config first),
        ¬ job.buildPath.segments <+: other := fun job hjob hahead => hbelow ⟨job, hjob, hahead⟩
    by_cases hfront : other <+: config.targetDir.segments
    · have hplaces : ∀ job ∈ Job.dispatched (jobsOf config first),
          config.targetDir.segments <+: job.buildPath.segments := fun job hjob => by
        rw [Job.segments_buildPath hjob]
        exact List.prefix_append _ _
      rcases (tracks_along shell notUp scripts htree schedule').get?_front
        (isDone_along shell schedule' first _) hplaces hfront with ⟨hkept, -⟩ | ⟨hdir, job, hjob, h⟩
      · exact hkept
      · rw [hsame job hjob] at h
        exact hdir.trans h.symm
    · exact get?_runAlong_elsewhere shell notUp scripts schedule' notBelow hfront

/-- **Each job comes to the same again**, if it was not exposed, and otherwise to something
similar. -/
theorem result_again (schedule schedule' : Schedule) {i : Nat} {job : Job}
    (hi : (Job.dispatched (jobsOf config store))[i]? = some job) :
    let first := (runAlong shell schedule config store).1
    let tasks := (along shell schedule store
      ((Job.dispatched (jobsOf config store)).map fun job => .ofSteps job.steps)).2
    let tasks' := (along shell schedule' first
      ((Job.dispatched (jobsOf config first)).map fun job => .ofSteps job.steps)).2
    ∃ task task', tasks[i]? = some task ∧ tasks'[i]? = some task' ∧
      job.Similar task.result task'.result ∧
      (¬ Exposed job.buildPath.segments store → task'.result = task.result) := by
  intro first tasks tasks'
  have hjob := List.mem_of_getElem? hi
  have hjobs : jobsOf config first = jobsOf config store :=
    jobsOf_runAlong shell notUp scripts tree source textSource schedule
  have htree : first.IsTree := isTree_runAlong shell notUp scripts tree schedule
  obtain ⟨task, htask, -, hresult⟩ := (tracks_along shell notUp scripts tree schedule).at_end
    (isDone_along shell schedule store _) hi
  obtain ⟨task', htask', -, hresult'⟩ := (tracks_along shell notUp scripts htree schedule').at_end
    (isDone_along shell schedule' first _) (hjobs ▸ hi)
  obtain ⟨hrepeats, hexposed⟩ := repeats_runAlong shell notUp scripts tree schedule hjob
  refine ⟨task, task', htask, htask', .of_alone hresult hresult' ?_, fun hstart => ?_⟩
  · rcases hrepeats.result with hsame | ⟨hstart, cause, hfirst⟩
    · rw [hsame]
      exact .same _
    · obtain ⟨own, hfault⟩ : ∃ fault, (job.alone shell store).2.result = .error fault :=
        Job.alone_fails_of_exposed (Job.leadsTo_buildPath notUp hjob) (Job.leadsTo_file notUp hjob)
          (Job.script_of_mem_dispatched scripts hjob) hstart
      rw [hfault, hfirst]
      exact .faults (.inr (.file (by simp [Job.fileNames]) cause))
  · rcases hresult with hsame | ⟨-, -, -, -, -, h⟩
    · rcases hresult' with hsame' | ⟨-, -, -, -, -, h⟩
      · rw [hsame, hsame', hrepeats.result.resolve_right fun h => hstart h.1]
      · exact absurd h (hexposed hstart)
    · exact absurd h hstart

theorem related_outcomesAlong (schedule schedule' : Schedule) :
    List.Forall₂ (Report.Related (FailsAgain config store))
      (outcomesAlong shell schedule config store)
      (outcomesAlong shell schedule' config (runAlong shell schedule config store).1) := by
  set first := (runAlong shell schedule config store).1
  have hjobs : jobsOf config first = jobsOf config store :=
    jobsOf_runAlong shell notUp scripts tree source textSource schedule
  refine List.forall₂_iff_get.mpr ⟨by rw [length_outcomesAlong, length_outcomesAlong, hjobs],
    fun i hi hi' => ?_⟩
  have hlt : i < (Job.dispatched (jobsOf config store)).length :=
    length_outcomesAlong shell schedule config store ▸ hi
  obtain ⟨job, hjob⟩ : ∃ job, (Job.dispatched (jobsOf config store))[i]? = some job :=
    ⟨_, List.getElem?_eq_getElem hlt⟩
  have hjob' : (Job.dispatched (jobsOf config first))[i]? = some job := by rw [hjobs, hjob]
  obtain ⟨task, task', htask, htask', hsimilar, hsame⟩ :=
    result_again shell notUp scripts tree source textSource schedule schedule' hjob
  have hget := getElem?_outcomesAlong hjob htask
  have hget' := getElem?_outcomesAlong hjob' htask'
  rw [List.getElem?_eq_getElem hi, Option.some.injEq] at hget
  rw [List.getElem?_eq_getElem hi', Option.some.injEq] at hget'
  rw [List.get_eq_getElem, List.get_eq_getElem, hget, hget']
  by_cases hexposed : Exposed job.buildPath.segments store
  · generalize task.result = result at hsimilar
    generalize task'.result = result' at hsimilar
    cases hsimilar with
    | same => exact .same _
    | faults place => exact .faults (.exposed (List.mem_of_getElem? hjob) hexposed place)
  · rw [hsame hexposed]
    exact .same _

end Runs

/-- **Building again changes nothing.** Let a run have no commands and a target directory that does
not lead up, and leave the documents that it reads undisturbed. Then a second run, along whatever
schedule, leaves the store as the first one did and builds the same namespaces; the others fail
again, in the same order and with the same faults, apart from those whose directory could not be got
to for want of a directory in front of it and has a name on the way that does not fit. Without such
a namespace the reports are the same. -/
theorem building_again_changes_nothing [Name.Transliteration]
    (shell : Shell) {config : Config} {store : Store}
    (notUp : ".." ∉ config.targetDir.segments) (scripts : config.WithoutScripts)
    (tree : store.IsTree) (source : config.source.StaysClear config store)
    (textSource : config.textSource.StaysClear config store) (schedule schedule' : Schedule) :
    let first := runAlong shell schedule config store
    let second := runAlong shell schedule' config first.1
    (∀ other, second.1.get? other = first.1.get? other) ∧
    second.2.built = first.2.built ∧
    List.Forall₂ (FailsAgain config store) first.2.failures second.2.failures ∧
    ((∀ job ∈ Job.dispatched (jobsOf config store), ¬ Exposed job.buildPath.segments store) →
      second.2 = first.2) := by
  intro first second
  have hjobs : jobsOf config first.1 = jobsOf config store :=
    jobsOf_runAlong shell notUp scripts tree source textSource schedule
  obtain ⟨hbuilt, hfailures⟩ :=
    Report.related_of_outcomes .same (related_outcomesAlong shell notUp scripts tree source
      textSource schedule schedule') (Job.refused (jobsOf config store))
  have hsecond : second.2 = .ofOutcomes (Job.refused (jobsOf config store))
      (outcomesAlong shell schedule' config first.1) :=
    (report_runAlong shell schedule' config first.1).trans (by rw [hjobs])
  rw [← report_runAlong, ← hsecond] at hbuilt hfailures
  refine ⟨get?_runAlong_again shell notUp scripts tree source textSource schedule schedule',
    hbuilt, hfailures, fun hexposed => ?_⟩
  have hsame : List.Forall₂ (· = ·) first.2.failures second.2.failures :=
    hfailures.imp fun failure failure' h => by
      cases h with
      | same => rfl
      | exposed mem exposed => exact absurd exposed (hexposed _ mem)
  rw [List.forall₂_eq_eq_eq] at hsame
  exact Report.eq_of_built_of_failures hbuilt hsame.symm

section

attribute [local instance] Name.Transliteration.ascii

/-- One namespace finds a directory where its style sheet goes, another one is built beside a
foreign file and over a stale one; building them again changes nothing. -/
theorem building_again_changes_nothing_blocked :
    let document := "\x7b\"a\":\x7b\x7d,\"b\":\x7b\x7d\x7d"
    let store := ((((((Store.ofDocument document).put ["css"] .directory).put ["css", "a"]
      .directory).put ["css", "a", "variables.css"] .directory).put ["css", "b"] .directory).put
      ["css", "b", "variables.css"] (.file "old".toUTF8)).put ["css", "b", "notes"]
        (.file "kept".toUTF8)
    let shell : Shell := ⟨fun _ store => (store, .exited 0)⟩
    let first := runAlong shell [1, 0] {} store
    let second := runAlong shell [0, 1] {} first.1
    (∀ other, second.1.get? other = first.1.get? other) ∧
    second.2 = ⟨["b"], [("a", .build (.io ⟨"css/a/variables.css"⟩ .isDirectory))]⟩ := by
  intro document store shell first second
  have tree : store.IsTree := isTree_of_keys (by decide +kernel)
  have hfirst : first.2 = ⟨["b"], [("a", .build (.io ⟨"css/a/variables.css"⟩ .isDirectory))]⟩ := by
    decide +kernel
  have hnames : (Job.dispatched (jobsOf {} store)).map Job.name = ["a", "b"] := by decide +kernel
  have hclear : ∀ path ∈ [({} : Config).source, ({} : Config).textSource],
      path.StaysClear {} store := by
    intro path hpath
    refine Path.staysClear_of_beside ?_ ?_
    · revert path
      decide
    · revert path
      decide
  obtain ⟨hsame, -, -, hreport⟩ := building_again_changes_nothing shell (by decide)
    (by simp [Config.WithoutScripts]) tree (hclear _ (by simp)) (hclear _ (by simp)) [1, 0] [0, 1]
  refine ⟨hsame, (hreport fun job hjob exposed => ?_).trans hfirst⟩
  obtain ⟨name, hname, hlong⟩ := exposed.long
  have hmem : job.name ∈ ["a", "b"] := hnames ▸ List.mem_map_of_mem hjob
  have hfits : ∀ other ∈ ["css", "a", "b"], Fits other := by decide
  rw [Job.segments_buildPath hjob] at hname
  rcases List.mem_append.mp hname with hname | hname
  · exact hlong (hfits name (List.mem_append_left ["a", "b"] hname))
  · obtain rfl := List.mem_singleton.mp hname
    exact hlong (hfits _ (List.mem_append_right ["css"] hmem))

end

section

attribute [local instance] Name.Transliteration.ascii

/-- **Building again may show.** In a target directory that is missing and has a name that does not
fit, a namespace first fails where its directory is made and then, behind the directories in front,
at the file that it cleans. And a document whose path leads up from the target directory's own
parent cannot be read before that one is made: the second run finds its texts. -/
theorem building_again_may_show :
    let shell : Shell := ⟨fun _ store => (store, .exited 0)⟩
    (let config := Config.inCss
      let directory := config.targetDir.join "b"
      let first := runAlong shell [] config (Store.ofDocument "\x7b\"b\":\x7b\x7d\x7d")
      let second := runAlong shell [] config first.1
      first.2.failures = [("b", .build (.io directory .tooLong))] ∧
      second.2.failures = [("b", .build (.io (directory.join "variables.css") .tooLong))] ∧
      directory.join "variables.css" ≠ directory) ∧
    (let config : Config := { textSource := ⟨"out/../font.json"⟩, targetDir := ⟨"out/css"⟩,
                              namespaces := [("a", { text := true })] }
      let texts := "\x7b\"G\":\x7b\"hi\":\x7b\"$value\":\"Hi\",\"$type\":\"text\"\x7d\x7d\x7d"
      let store := (Store.ofDocument "\x7b\"a\":\x7b\x7d\x7d").put ["font.json"]
        (.file texts.toUTF8)
      let first := runAlong shell [] config store
      let second := runAlong shell [] config first.1
      first.2 = ⟨["a"], []⟩ ∧ second.2 = ⟨["a"], []⟩ ∧
      first.1.get? ["out", "css", "a", "tokens.js"] ≠
        second.1.get? ["out", "css", "a", "tokens.js"]) := by
  intro shell
  refine ⟨?_, by decide +kernel⟩
  intro config directory first second
  set store := Store.ofDocument "\x7b\"b\":\x7b\x7d\x7d"
  have ready : ReadyInCss store ["b"] := by constructor <;> decide +kernel
  have ready' : ReadyInCss (store.put ["css"] .directory) ["b"] := by
    constructor <;> decide +kernel
  have there : (store.put ["css"] .directory).get? ["css"] = some .directory := by
    rw [get?_put_at _ _ (by simp), if_pos rfl]
  have hfirst : first = _ := ready.runAlong_missing shell (by decide)
  have hsecond : second = runAlong shell [] config (store.put ["css"] .directory) := by
    rw [show second = runAlong shell [] config first.1 from rfl, hfirst]
  rw [ready'.runAlong_there shell there] at hsecond
  have hsheet : Path.IsOrdinary "variables.css" :=
    Job.isOrdinary_of_mem_fileNames (by simp [Job.fileNames])
  refine ⟨by rw [hfirst]; rfl, by rw [hsecond]; rfl, fun hsame => ?_⟩
  simpa [hsame] using Path.segments_join directory hsheet

end

end TokenSheets
