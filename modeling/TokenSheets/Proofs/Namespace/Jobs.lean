import Mathlib.Tactic
import TokenSheets.Namespace.Run
import TokenSheets.Proofs.Store.Path
import TokenSheets.Proofs.Token.Group

/-!
# The jobs of a run

A run makes one job of every namespace of its document, and refuses some of them.

* `keys_jobsOf`: the keys of the jobs are those of the namespaces, in their order;
* `nodup_keys_jobsOf`: no two jobs have the same key;
* `Job.mem_dispatched` and `Job.mem_refused`: a job is built if there is no refusal for it;
* `Job.refusal?_eq_some` and `Job.one_lt_length_sharing`: why a job is refused;
* `Job.pairwise_name_dispatched`: jobs that are built have different names.
-/

namespace TokenSheets

/-! ### What is read has every key once -/

theorem distinct_children_readTree (store : Store) (path : Path) :
    Entries.Distinct (readTree store path).children := by
  unfold readTree
  split
  · exact List.nodup_nil
  · split
    · exact Tree.distinct_children_of_read ‹_›
    · exact List.nodup_nil

theorem Tree.keys_namespaces_sublist (tree : Tree) :
    (Entries.keys tree.namespaces).Sublist (Entries.keys tree.children) :=
  List.filter_sublist.map _

theorem keys_jobsOf (config : Config) (store : Store) :
    (jobsOf config store).map Job.key = Entries.keys (readTree store config.source).namespaces := by
  simp [jobsOf, Job.ofDocument, Job.ofNode, Entries.keys]

theorem nodup_keys_jobsOf (config : Config) (store : Store) :
    ((jobsOf config store).map Job.key).Nodup := by
  rw [keys_jobsOf]
  exact (distinct_children_readTree store config.source).sublist (Tree.keys_namespaces_sublist _)

namespace Job

variable {jobs : List Job}

theorem eq_of_key_eq (distinct : (jobs.map Job.key).Nodup) {a b : Job} (ha : a ∈ jobs)
    (hb : b ∈ jobs) (h : a.key = b.key) : a = b :=
  List.inj_on_of_nodup_map distinct ha hb h

/-! ### Refused and dispatched -/

theorem mem_dispatched {job : Job} :
    job ∈ dispatched jobs ↔ job ∈ jobs ∧ refusal? jobs job = none := by
  simp [dispatched]

theorem mem_refused {key : String} {refusal : Refusal} :
    (key, refusal) ∈ refused jobs ↔
      ∃ job ∈ jobs, job.key = key ∧ refusal? jobs job = some refusal := by
  simp only [refused, List.mem_filterMap, Option.map_eq_some_iff, Prod.mk.injEq]
  constructor
  · rintro ⟨job, hjob, _, h, hkey, rfl⟩
    exact ⟨job, hjob, hkey, h⟩
  · rintro ⟨job, hjob, hkey, h⟩
    exact ⟨job, hjob, _, h, hkey, rfl⟩

theorem keys_dispatched_sublist (jobs : List Job) :
    ((dispatched jobs).map Job.key).Sublist (jobs.map Job.key) :=
  List.filter_sublist.map _

theorem length_refused_add_dispatched (jobs : List Job) :
    (refused jobs).length + (dispatched jobs).length = jobs.length := by
  have hsplit : ∀ {some? : Job → Option Refusal} (part : List Job),
      (part.filterMap fun job => (some? job).map (job.key, ·)).length +
        (part.filter fun job => (some? job).isNone).length = part.length := by
    intro some? part
    induction part with
    | nil => rfl
    | cons job rest ih =>
      rcases hjob : some? job with _ | refusal <;> simp [hjob] <;> omega
  exact hsplit jobs

theorem keys_refused_sublist (jobs : List Job) :
    (Entries.keys (refused jobs)).Sublist (jobs.map Job.key) := by
  refine Entries.keys_filterMap_sublist (fun job p h => ?_) jobs
  obtain ⟨_, -, rfl⟩ := Option.map_eq_some_iff.mp h
  rfl

theorem mem_keys_iff (key : String) : key ∈ jobs.map Job.key ↔
    key ∈ Entries.keys (refused jobs) ∨ key ∈ (dispatched jobs).map Job.key := by
  constructor
  · intro h
    obtain ⟨job, hjob, rfl⟩ := List.mem_map.mp h
    rcases hr : refusal? jobs job with _ | refusal
    · exact .inr (List.mem_map_of_mem (mem_dispatched.mpr ⟨hjob, hr⟩))
    · exact .inl (List.mem_map_of_mem (mem_refused.mpr ⟨job, hjob, rfl, hr⟩))
  · rintro (h | h)
    · exact (keys_refused_sublist jobs).subset h
    · exact (keys_dispatched_sublist jobs).subset h

theorem disjoint_refused_dispatched (distinct : (jobs.map Job.key).Nodup) :
    (Entries.keys (refused jobs)).Disjoint ((dispatched jobs).map Job.key) := by
  intro key hr hd
  obtain ⟨⟨_, refusal⟩, hmem, rfl⟩ := List.mem_map.mp hr
  obtain ⟨job, hjob, hkey, hsome⟩ := mem_refused.mp hmem
  obtain ⟨other, hother, hkey'⟩ := List.mem_map.mp hd
  obtain ⟨hother, hnone⟩ := mem_dispatched.mp hother
  obtain rfl := eq_of_key_eq distinct hjob hother (hkey.trans hkey'.symm)
  simp [hsome] at hnone

/-! ### Why a job is refused -/

/-- **The reasons for a refusal**, each with what it says. -/
theorem refusal?_eq_some {job : Job} {refusal : Refusal} :
    refusal? jobs job = some refusal ↔
      (Namespace.isDirectoryName job.name = false ∧ refusal = .invalidName job.name) ∨
      (Namespace.isDirectoryName job.name = true ∧ 1 < (sharing jobs job.name).length ∧
        refusal = .outputConflict job.buildPath (sharing jobs job.name)) := by
  unfold refusal?
  rcases hname : Namespace.isDirectoryName job.name
  · simp [eq_comm]
  · by_cases hlength : (sharing jobs job.name).length > 1
    · have : 1 < (sharing jobs job.name).length := hlength
      simp [this, eq_comm]
    · have : ¬ 1 < (sharing jobs job.name).length := hlength
      simp [this]

theorem mem_sharing {name key : String} :
    key ∈ sharing jobs name ↔ ∃ job ∈ jobs, job.name = name ∧ job.key = key := by
  simp [sharing, and_assoc]

/-- **A name is shared** if and only if a job with another key has it. -/
theorem one_lt_length_sharing (distinct : (jobs.map Job.key).Nodup) {job : Job}
    (hjob : job ∈ jobs) : 1 < (sharing jobs job.name).length ↔
      ∃ other ∈ jobs, other.key ≠ job.key ∧ other.name = job.name := by
  have hnodup : (sharing jobs job.name).Nodup := distinct.sublist (List.filter_sublist.map _)
  have hown : job.key ∈ sharing jobs job.name := mem_sharing.mpr ⟨job, hjob, rfl, rfl⟩
  have herase := List.length_erase_of_mem hown
  constructor
  · intro hlength
    obtain ⟨key, hkey⟩ := List.exists_mem_of_length_pos
      (by omega : 0 < ((sharing jobs job.name).erase job.key).length)
    obtain ⟨hne, hmem⟩ := hnodup.mem_erase_iff.mp hkey
    obtain ⟨other, hother, hname, rfl⟩ := mem_sharing.mp hmem
    exact ⟨other, hother, hne, hname⟩
  · rintro ⟨other, hother, hne, hname⟩
    have hmem : other.key ∈ (sharing jobs job.name).erase job.key :=
      hnodup.mem_erase_iff.mpr ⟨hne, mem_sharing.mpr ⟨other, hother, hname, rfl⟩⟩
    have hpos := List.length_pos_of_mem hmem
    omega

theorem isDirectoryName_of_mem_dispatched {job : Job} (h : job ∈ dispatched jobs) :
    Namespace.isDirectoryName job.name = true := by
  obtain ⟨-, hnone⟩ := mem_dispatched.mp h
  by_contra hname
  rw [Bool.not_eq_true] at hname
  simp [refusal?_eq_some.mpr (.inl ⟨hname, rfl⟩)] at hnone

theorem pairwise_name_dispatched (distinct : (jobs.map Job.key).Nodup) :
    (dispatched jobs).Pairwise fun a b => a.name ≠ b.name := by
  have hkeys : (dispatched jobs).Pairwise fun a b => a.key ≠ b.key :=
    List.pairwise_map.mp (distinct.sublist (keys_dispatched_sublist jobs))
  refine hkeys.imp_of_mem fun {a b} ha hb hkey hname => ?_
  obtain ⟨hb', hnone⟩ := mem_dispatched.mp hb
  have hshared := (one_lt_length_sharing distinct hb').mpr
    ⟨a, (mem_dispatched.mp ha).1, hkey, hname⟩
  have hsome := refusal?_eq_some.mpr
    (.inr ⟨isDirectoryName_of_mem_dispatched hb, hshared, rfl⟩)
  simp [hsome] at hnone

end Job

/-! ### Names and places of jobs -/

theorem Namespace.isDirectoryName_iff {name : String} : isDirectoryName name = true ↔
    name ≠ "" ∧ name ≠ "." ∧ name ≠ ".." ∧ '/' ∉ name.toList ∧ '\\' ∉ name.toList := by
  simp [isDirectoryName, and_assoc]

theorem Namespace.isOrdinary {name : String} (h : isDirectoryName name = true) :
    Path.IsOrdinary name := by
  obtain ⟨hempty, hpoint, hpoints, hslash, -⟩ := isDirectoryName_iff.mp h
  exact ⟨hempty, hpoint, hpoints, hslash⟩

theorem Namespace.nameOf_spec (key : String) : ∃ last : String,
    nameOf key = Text.lowercase last ∧ '/' ∉ last.toList ∧
      (key = last ∨ ∃ front, key = front ++ "/" ++ last) := by
  obtain ⟨hslash, hshape⟩ := Text.lastPiece_eq_iff.mp (rfl : Text.lastPiece '/' key.toList = _)
  refine ⟨String.ofList (Text.lastPiece '/' key.toList), rfl, by simpa using hslash, ?_⟩
  rcases hshape with h | ⟨front, h⟩
  · exact .inl (String.toList_inj.mp (by simpa using h))
  · exact .inr ⟨String.ofList front, String.toList_inj.mp (by simpa using h)⟩

theorem of_mem_jobsOf {config : Config} {store : Store} {job : Job}
    (h : job ∈ jobsOf config store) :
    job.name = Namespace.nameOf job.key ∧ job.buildPath = config.targetDir.join job.name ∧
      job.settings = config.settings job.name := by
  rw [jobsOf, Job.ofDocument] at h
  obtain ⟨p, -, rfl⟩ := List.mem_map.mp h
  simp [Job.ofNode]

theorem sharing_jobsOf (config : Config) (store : Store) (name : String) :
    Job.sharing (jobsOf config store) name =
      (Entries.keys (readTree store config.source).namespaces).filter
        fun key => Namespace.nameOf key = name := by
  rw [← keys_jobsOf, List.filter_map, Job.sharing]
  refine congrArg (List.map Job.key) (List.filter_congr fun job hjob => ?_)
  simp [(of_mem_jobsOf hjob).1]

/-- **What a job is refused for**, told by the keys of the document alone. -/
theorem refusal?_jobsOf {config : Config} {store : Store} {job : Job}
    (hjob : job ∈ jobsOf config store) {refusal : Refusal} :
    Job.refusal? (jobsOf config store) job = some refusal ↔
      (Namespace.isDirectoryName job.name = false ∧ refusal = .invalidName job.name) ∨
      (Namespace.isDirectoryName job.name = true ∧
        (∃ key ∈ Entries.keys (readTree store config.source).namespaces,
          key ≠ job.key ∧ Namespace.nameOf key = job.name) ∧
        refusal = .outputConflict job.buildPath
          ((Entries.keys (readTree store config.source).namespaces).filter
            fun key => Namespace.nameOf key = job.name)) := by
  have hshared : (∃ other ∈ jobsOf config store, other.key ≠ job.key ∧ other.name = job.name) ↔
      ∃ key ∈ Entries.keys (readTree store config.source).namespaces,
        key ≠ job.key ∧ Namespace.nameOf key = job.name := by
    rw [← keys_jobsOf]
    constructor
    · rintro ⟨other, hother, hne, hname⟩
      exact ⟨other.key, List.mem_map_of_mem hother, hne, (of_mem_jobsOf hother).1 ▸ hname⟩
    · rintro ⟨key, hkey, hne, hname⟩
      obtain ⟨other, hother, rfl⟩ := List.mem_map.mp hkey
      exact ⟨other, hother, hne, (of_mem_jobsOf hother).1.trans hname⟩
  rw [Job.refusal?_eq_some, Job.one_lt_length_sharing (nodup_keys_jobsOf config store) hjob,
    hshared, sharing_jobsOf]

end TokenSheets
