import TokenSheets.Proofs.Build.Likeness
import TokenSheets.Proofs.Namespace.Results

/-!
# Namespaces do not notice one another

The job of a namespace is made of its own node, the shared texts and the configuration. So two runs
that have these in common, on stores that look alike at its directory, build it alike, whatever else
their documents hold.

* `Job.ofNode_mem_dispatched`: a namespace whose name is its own is dispatched;
* `Job.alone_of_looksLike`: a job alone in stores that look alike;
* `namespaces_are_isolated`: both, for two runs.
-/

namespace TokenSheets

open Store

namespace Job

/-- **A namespace whose name is its own** is dispatched. -/
theorem ofNode_mem_dispatched {config : Config} {store : Store} {key : String} {node : Node}
    (named : Namespace.isDirectoryName (Namespace.nameOf key) = true)
    (there : (key, node) ∈ (readTree store config.source).namespaces)
    (only : ∀ other ∈ Entries.keys (readTree store config.source).namespaces,
      Namespace.nameOf other = Namespace.nameOf key → other = key) :
    ofNode config (SharedText.merge (readTree store config.textSource)) key node ∈
      dispatched (jobsOf config store) := by
  have hjob : ofNode config (SharedText.merge (readTree store config.textSource)) key node ∈
      jobsOf config store := List.mem_map.mpr ⟨_, there, rfl⟩
  refine mem_dispatched.mpr ⟨hjob, Option.eq_none_iff_forall_ne_some.mpr fun refusal hrefusal => ?_⟩
  rcases (refusal?_jobsOf hjob).mp hrefusal with ⟨hname, -⟩ | ⟨-, ⟨other, hother, hne, hname⟩, -⟩
  · exact absurd hname (by simpa [ofNode] using named)
  · exact hne (only other hother hname)

/-- **A job alone in stores that look alike** at its directory comes to the same, and leaves stores
that look alike. -/
theorem alone_of_looksLike [Name.Transliteration]
    (shell : Shell) {job : Job} {location : Location} {store store' : Store}
    (leads : job.buildPath.LeadsTo location)
    (leadsIn : ∀ file ∈ fileNames, (job.buildPath.join file).LeadsTo (location ++ [file]))
    (hscript : job.settings.script = none) (looks : LooksLike location store store') :
    (job.alone shell store).2.result = (job.alone shell store').2.result ∧
      Twins location store store' (job.alone shell store).1 (job.alone shell store').1 := by
  obtain ⟨hsame, htwins⟩ : SameOutcome location store store'
      (performAll shell store false job.steps) (performAll shell store' false job.steps) :=
    performAll_of_twins shell leads leadsIn (keepsTo_of_script hscript) (.begin looks)
  exact ⟨by rw [result_alone, result_alone, hsame], htwins⟩

end Job

/-- **Namespaces are isolated from each other's content.** Let two runs have the configuration in
common, apart from the main document, and the shared texts; let both main documents have the node of
a namespace in common, whose name is a directory name and in neither of them that of another
namespace; and let the stores look alike at its directory. Then along all schedules both runs leave
the same below the directory, or what was there before; and the namespace is built in both, or fails
in both with the same fault. Only where a directory is missing on the way to its directory and a
name there does not fit may the faults differ: then one of them is at the directory or at a file
of it. -/
theorem namespaces_are_isolated [Name.Transliteration]
    (shell : Shell) (config : Config) (source' : Path)
    {store store' : Store} {key : String} {node : Node}
    (notUp : ".." ∉ config.targetDir.segments) (scripts : config.WithoutScripts)
    (tree : store.IsTree) (tree' : store'.IsTree)
    (named : Namespace.isDirectoryName (Namespace.nameOf key) = true)
    (there : (key, node) ∈ (readTree store config.source).namespaces)
    (there' : (key, node) ∈ (readTree store' source').namespaces)
    (only : ∀ other ∈ Entries.keys (readTree store config.source).namespaces,
      Namespace.nameOf other = Namespace.nameOf key → other = key)
    (only' : ∀ other ∈ Entries.keys (readTree store' source').namespaces,
      Namespace.nameOf other = Namespace.nameOf key → other = key)
    (texts : readTree store config.textSource = readTree store' config.textSource)
    (looks : LooksLike (config.targetDir.segments ++ [Namespace.nameOf key]) store store')
    (schedule schedule' : Schedule) :
    let location := config.targetDir.segments ++ [Namespace.nameOf key]
    let directory := config.targetDir.join (Namespace.nameOf key)
    let run := runAlong shell schedule config store
    let run' := runAlong shell schedule' { config with source := source' } store'
    (∀ rest, run.1.get? (location ++ rest) = run'.1.get? (location ++ rest) ∨
      (run.1.get? (location ++ rest) = store.get? (location ++ rest) ∧
        run'.1.get? (location ++ rest) = store'.get? (location ++ rest))) ∧
    (key ∈ run.2.built ↔ key ∈ run'.2.built) ∧
    (¬ Exposed location store →
      ∀ fault, (key, fault) ∈ run.2.failures ↔ (key, fault) ∈ run'.2.failures) ∧
    (Exposed location store → ∃ fault fault', (key, .build fault) ∈ run.2.failures ∧
      (key, .build fault') ∈ run'.2.failures ∧ (fault = fault' ∨
        fault.IsAt directory Job.fileNames ∨ fault'.IsAt directory Job.fileNames)) := by
  intro location directory run run'
  set config' : Config := { config with source := source' }
  have notUp' : ".." ∉ config'.targetDir.segments := notUp
  have scripts' : config'.WithoutScripts := scripts
  obtain ⟨job, hmem, hmem', hkey, hname⟩ : ∃ job, job ∈ Job.dispatched (jobsOf config store) ∧
      job ∈ Job.dispatched (jobsOf config' store') ∧ job.key = key ∧
      job.name = Namespace.nameOf key := by
    refine ⟨_, Job.ofNode_mem_dispatched named there only, ?_, rfl, rfl⟩
    rw [texts]
    exact Job.ofNode_mem_dispatched named there' only'
  have hplace : job.buildPath.segments = location := by
    rw [Job.segments_buildPath hmem, hname]
  have hpath : job.buildPath = directory := by
    rw [(of_mem_jobsOf (Job.mem_dispatched.mp hmem).1).2.1, hname]
  have leads := Job.leadsTo_buildPath notUp hmem
  have leadsIn := Job.leadsTo_file notUp hmem
  have hscript := Job.script_of_mem_dispatched scripts hmem
  rw [hplace] at leads leadsIn
  obtain ⟨result, hcomes⟩ := Job.comesTo_runAlong shell notUp scripts tree schedule hmem
  obtain ⟨result', hcomes'⟩ := Job.comesTo_runAlong shell notUp' scripts' tree' schedule' hmem'
  have hexposed : Exposed location store ↔ Exposed location store' :=
    looks.exposed_iff leads.points_notMem
  obtain ⟨halone, htwins⟩ := Job.alone_of_looksLike shell leads leadsIn hscript looks
  refine ⟨fun rest => ?_, ?_, fun hreached fault => ?_, fun hlost => ?_⟩
  · rw [← hplace, hcomes.below rest, hcomes'.below rest, hplace]
    exact htwins.below rest
  · rw [← hkey, hcomes.built, hcomes'.built, hcomes.result_eq_ok_iff, hcomes'.result_eq_ok_iff,
      halone]
  · have hresult : result = result' := by
      rw [hcomes.result_eq (hplace ▸ hreached),
        hcomes'.result_eq (hplace ▸ mt hexposed.mpr hreached), halone]
    rw [← hkey]
    rcases fault with refusal | fault
    · exact iff_of_false (hcomes.notRefused refusal) (hcomes'.notRefused refusal)
    · rw [hcomes.failed, hcomes'.failed, hresult]
  · obtain ⟨fault, hfault⟩ : ∃ fault, (job.alone shell store).2.result = .error fault :=
      Job.alone_fails_of_exposed (hplace ▸ leads) (hplace ▸ leadsIn) hscript (hplace ▸ hlost)
    obtain ⟨found, hfound⟩ : ∃ found, result = .error found := by
      rcases hcomes.alone with hsame | ⟨found, -, hfound, -⟩
      · exact ⟨fault, hsame.trans hfault⟩
      · exact ⟨found, hfound⟩
    have hsimilar : job.Similar result result' :=
      .of_alone hcomes.alone hcomes'.alone (halone ▸ .same _)
    subst hfound
    rw [← hpath, ← hkey]
    cases hsimilar with
    | same =>
      exact ⟨found, found, (hcomes.failed found).mpr rfl, (hcomes'.failed found).mpr rfl, .inl rfl⟩
    | @faults _ found' place =>
      exact ⟨found, found', (hcomes.failed found).mpr rfl, (hcomes'.failed found').mpr rfl,
        .inr place⟩

/-! ### Documents of empty groups -/

/-- The group holds nothing and names no type. -/
def Node.isBare : Node → Bool
  | .group none [] => true
  | _ => false

theorem Node.eq_of_isBare {node : Node} (h : node.isBare = true) : node = .group none [] := by
  unfold isBare at h
  split at h
  · rfl
  · simp at h

theorem eq_of_map_isBare : ∀ {nodes : List (String × Node)} {keys : List String},
    nodes.map (fun p => (p.1, p.2.isBare)) = keys.map (·, true) →
      nodes = keys.map (·, .group none [])
  | [], [], _ => rfl
  | [], _ :: _, h => by simp at h
  | _ :: _, [], h => by simp at h
  | (key, node) :: nodes, _ :: keys, h => by
    simp only [List.map_cons, List.cons.injEq, Prod.mk.injEq] at h ⊢
    exact ⟨⟨h.1.1, Node.eq_of_isBare h.1.2⟩, eq_of_map_isBare h.2⟩

theorem Store.looksLike_ofDocument (location : Location) (document document' : String) :
    LooksLike location (ofDocument document) (ofDocument document') := by
  intro other _
  by_cases hroot : other = []
  · subst hroot
    exact .rfl
  · simp only [ofDocument, get?, if_neg hroot, Entries.get?_cons]
    split_ifs
    · exact .rfl
    · exact ⟨by simp, by simp⟩
    · exact .rfl

section

attribute [local instance] Name.Transliteration.ascii

/-- A namespace is built beside one that fails as it is built beside one of another name. -/
theorem namespaces_are_isolated_from_a_failure :
    let store := Store.ofDocument
      "\x7b\"a\":\x7b\x7d,\"b\":\x7b\"x\":\x7b\"value\":\"1.2.3px\"\x7d\x7d\x7d"
    let store' := Store.ofDocument "\x7b\"Mobile/c\":\x7b\x7d,\"a\":\x7b\x7d\x7d"
    let shell : Shell := ⟨fun _ store => (store, .exited 0)⟩
    (runAlong shell [1, 0] {} store).2.built = ["a"] ∧
      "a" ∈ (runAlong shell [] {} store').2.built := by
  intro store store' shell
  have hbuilt : (runAlong shell [1, 0] {} store).2.built = ["a"] := by decide +kernel
  have hfirst : ((readTree store ({} : Config).source).namespaces.take 1).map
      (fun p => (p.1, p.2.isBare)) = ["a"].map (·, true) := by decide +kernel
  have hsecond : (readTree store' ({} : Config).source).namespaces.map
      (fun p => (p.1, p.2.isBare)) = ["Mobile/c", "a"].map (·, true) := by decide +kernel
  have there : ("a", Node.group none []) ∈ (readTree store ({} : Config).source).namespaces := by
    refine List.mem_of_mem_take (?_ : _ ∈ List.take 1 _)
    simp [eq_of_map_isBare hfirst]
  have there' : ("a", Node.group none []) ∈ (readTree store' ({} : Config).source).namespaces := by
    simp [eq_of_map_isBare hsecond]
  have texts : readTree store ({} : Config).textSource = readTree store' ({} : Config).textSource :=
    rfl
  have only : ∀ other ∈ Entries.keys (readTree store ({} : Config).source).namespaces,
      Namespace.nameOf other = Namespace.nameOf "a" → other = "a" := by decide +kernel
  have only' : ∀ other ∈ Entries.keys (readTree store' ({} : Config).source).namespaces,
      Namespace.nameOf other = Namespace.nameOf "a" → other = "a" := by decide +kernel
  obtain ⟨-, hiff, -⟩ := namespaces_are_isolated shell {} ({} : Config).source (by decide)
    (by simp [Config.WithoutScripts]) (Store.isTree_ofDocument _) (Store.isTree_ofDocument _)
    (by decide +kernel)
    there there' only only' texts (Store.looksLike_ofDocument _ _ _) [1, 0] []
  exact ⟨hbuilt, hiff.mp (hbuilt ▸ List.mem_singleton_self _)⟩

end

section

attribute [local instance] Name.Transliteration.ascii

/-- **A namespace may show in the fault of another one.** The target directory is missing and has a
name that does not fit. By itself the namespace fails where its directory is made; behind another
one, which made what is in front of the name, it fails at the file that it cleans. -/
theorem a_namespace_may_show_in_the_fault_of_another :
    let config := Config.inCss
    let store := Store.ofDocument "\x7b\"b\":\x7b\x7d\x7d"
    let store' := Store.ofDocument "\x7b\"a\":\x7b\x7d,\"b\":\x7b\x7d\x7d"
    let shell : Shell := ⟨fun _ store => (store, .exited 0)⟩
    let directory := config.targetDir.join "b"
    (readTree store config.source).namespaces = [("b", .group none [])] ∧
    (readTree store' config.source).namespaces =
      [("a", .group none []), ("b", .group none [])] ∧
    (runAlong shell [] config store).2.failures = [("b", .build (.io directory .tooLong))] ∧
    (runAlong shell [] config store').2.failures =
      [("a", .build (.io (config.targetDir.join "a") .tooLong)),
        ("b", .build (.io (directory.join "variables.css") .tooLong))] ∧
    directory.join "variables.css" ≠ directory := by
  intro config store store' shell directory
  have hnodes : (readTree store config.source).namespaces.map (fun p => (p.1, p.2.isBare)) =
      ["b"].map (·, true) := by decide +kernel
  have hnodes' : (readTree store' config.source).namespaces.map (fun p => (p.1, p.2.isBare)) =
      ["a", "b"].map (·, true) := by decide +kernel
  have ready : ReadyInCss store ["b"] := by constructor <;> decide +kernel
  have ready' : ReadyInCss store' ["a", "b"] := by constructor <;> decide +kernel
  have hrun : (runAlong shell [] config store).2.failures =
      [("b", .build (.io directory .tooLong))] :=
    congrArg (·.2.failures) (ready.runAlong_missing shell (by decide))
  have hrun' : (runAlong shell [] config store').2.failures =
      [("a", .build (.io (config.targetDir.join "a") .tooLong)),
        ("b", .build (.io (directory.join "variables.css") .tooLong))] :=
    congrArg (·.2.failures) (ready'.runAlong_missing shell (by decide))
  have hsheet : Path.IsOrdinary "variables.css" :=
    Job.isOrdinary_of_mem_fileNames (by simp [Job.fileNames])
  refine ⟨eq_of_map_isBare hnodes, eq_of_map_isBare hnodes', hrun, hrun', fun hsame => ?_⟩
  simpa [hsame] using Path.segments_join directory hsheet

end

end TokenSheets
