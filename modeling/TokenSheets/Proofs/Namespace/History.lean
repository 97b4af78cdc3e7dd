import TokenSheets.Proofs.Namespace.Results

/-!
# Runs one after another over one target directory

Between two runs documents and configuration may change in any way; only the directories of the
namespaces are left to the runs. `History` says so. What is in one of these directories was written
by some run, and cleaning removes what the configuration of today would write. So the directory of a
namespace that was built holds its files of today; beside them there can only be the script and its
declarations, from a run that had the texts of the namespace switched on when they now are off.

* `History`: the stores that come up, with the configurations of the runs so far;
* `History.leftOver`: whatever is in the directory of a namespace was written by some run;
* `built_directories_hold_todays_files`: what is in a directory after a run;
* `built_directories_may_hold_more`: what stays of switched-off texts, and of a path that leads up.
-/

namespace TokenSheets

open Store

/-- **A history of runs** over the target directory at a location: at the start nothing is in its
directories, between the runs nothing is changed in them. The configurations of the runs are listed,
the last one first. -/
inductive History [Name.Transliteration]
    (shell : Shell) (target : Location) : List Config → Store → Prop
  | start {store : Store} (tree : store.IsTree)
    (empty : ∀ name file rest, store.get? (target ++ name :: file :: rest) = none) :
    History shell target [] store
  | edited {configs : List Config} {before after : Store}
    (earlier : History shell target configs before) (tree : after.IsTree)
    (kept : ∀ name file rest, after.get? (target ++ name :: file :: rest) =
      before.get? (target ++ name :: file :: rest)) :
    History shell target configs after
  | ran {configs : List Config} {before : Store} (earlier : History shell target configs before)
    {config : Config} (place : config.targetDir.segments = target)
    (scripts : config.WithoutScripts) (schedule : Schedule) :
    History shell target (config :: configs) (runAlong shell schedule config before).1

namespace History

variable [Name.Transliteration]
  {shell : Shell} {target : Location} {configs : List Config} {store : Store}

theorem isTree (notUp : ".." ∉ target) (h : History shell target configs store) :
    store.IsTree := by
  induction h with
  | start tree => exact tree
  | edited _ tree => exact tree
  | ran _ place scripts schedule ih =>
    exact isTree_runAlong shell (place ▸ notUp) scripts ih schedule

/-- **What a run may have left** in the directory of a name: a style sheet, or a file of the texts
if some run had them switched on. -/
structure LeftOver (configs : List Config) (store : Store) (place : Location) (name file : String)
    (rest : Location) : Prop where
  isFile : rest = [] ∧ ∃ content, store.get? (place ++ [file]) = some (.file content)
  known : file ∈ Job.fileNames
  switchedOn : file ≠ "variables.css" → ∃ config ∈ configs, (config.settings name).text = true

omit [Name.Transliteration] in
theorem LeftOver.of_eq {more : List Config} {before after : Store} {place : Location}
    {name file : String} {rest : Location} (h : LeftOver configs before place name file rest)
    (hmore : configs ⊆ more)
    (hsame : after.get? (place ++ file :: rest) = before.get? (place ++ file :: rest)) :
    LeftOver more after place name file rest := by
  obtain ⟨⟨rfl, content, hfile⟩, known, switchedOn⟩ := h
  refine ⟨⟨rfl, content, hsame.trans hfile⟩, known, fun hne => ?_⟩
  obtain ⟨config, hconfig, htext⟩ := switchedOn hne
  exact ⟨config, hmore hconfig, htext⟩

/-- **What a run leaves** in the directory of one of its jobs, or what was there before. -/
theorem LeftOver.of_runAlong {config : Config} {before : Store} (tree : before.IsTree)
    (notUp : ".." ∉ config.targetDir.segments) (scripts : config.WithoutScripts)
    (schedule : Schedule) {job : Job} (hjob : job ∈ Job.dispatched (jobsOf config before))
    {file : String} {rest : Location} :
    let place := config.targetDir.segments ++ [job.name]
    let after := (runAlong shell schedule config before).1
    after.get? (place ++ file :: rest) ≠ none →
      after.get? (place ++ file :: rest) = before.get? (place ++ file :: rest) ∨
        LeftOver (config :: configs) after place job.name file rest := by
  intro place after hsome
  have hplace : job.buildPath.segments = place := Job.segments_buildPath hjob
  have leads := Job.leadsTo_buildPath notUp hjob
  have hbelow := get?_runAlong_below shell notUp scripts tree schedule hjob
  rw [hplace] at leads hbelow
  rcases Job.get?_alone_below shell before leads (Job.script_of_mem_dispatched scripts hjob) file
    rest with hsame | ⟨hmem, rfl, -, his⟩
  · exact .inl ((hbelow (file :: rest)).trans hsame)
  · rw [← hbelow [file]] at his
    refine .inr ⟨⟨rfl, ?_⟩, job.outputNames_subset hmem,
      fun hne => ⟨config, List.mem_cons_self, ?_⟩⟩
    · rcases hget : after.get? (place ++ [file]) with _ | content | _
      · exact absurd hget hsome
      · exact ⟨content, rfl⟩
      · exact absurd hget his
    · rw [← (of_mem_jobsOf (Job.mem_dispatched.mp hjob).1).2.2]
      by_contra htext
      simp [Job.outputNames, htext, hne] at hmem

/-- **Whatever is in the directory of a namespace** was left by some run. -/
theorem leftOver (notUp : ".." ∉ target) (h : History shell target configs store) :
    ∀ name file rest, store.get? (target ++ [name] ++ file :: rest) ≠ none →
      LeftOver configs store (target ++ [name]) name file rest := by
  induction h with
  | start _ empty =>
    intro name file rest hsome
    rw [List.append_assoc] at hsome
    exact absurd (empty name file rest) hsome
  | @edited configs before after _ _ kept ih =>
    intro name file rest hsome
    have hsame : after.get? (target ++ [name] ++ file :: rest) =
        before.get? (target ++ [name] ++ file :: rest) := by
      rw [List.append_assoc]
      exact kept name file rest
    exact (ih name file rest (hsame ▸ hsome)).of_eq (List.Subset.refl configs) hsame
  | @ran configs before earlier config place scripts schedule ih =>
    intro name file rest hsome
    subst place
    -- what was there before the run is left over from an earlier one
    have hold : (runAlong shell schedule config before).1.get?
        (config.targetDir.segments ++ [name] ++ file :: rest) =
          before.get? (config.targetDir.segments ++ [name] ++ file :: rest) →
        LeftOver (config :: configs) (runAlong shell schedule config before).1
          (config.targetDir.segments ++ [name]) name file rest := fun hsame =>
      (ih name file rest (hsame ▸ hsome)).of_eq (List.subset_cons_self config configs) hsame
    by_cases hname : ∃ job ∈ Job.dispatched (jobsOf config before), job.name = name
    · obtain ⟨job, hjob, rfl⟩ := hname
      exact (LeftOver.of_runAlong (earlier.isTree notUp) notUp scripts schedule hjob hsome).elim
        hold id
    · refine hold ?_
      rw [List.append_assoc]
      exact get?_runAlong_of_name_ne notUp scripts shell schedule
        (fun job hjob heq => hname ⟨job, hjob, heq⟩) (file :: rest)

end History

/-- **Directories that are built hold the files of today.** After a run at the end of any history,
the directory of every namespace that was built is there. In it are the files that its settings ask
for, with the contents rendered from the documents as they are, and nothing else but perhaps a
script and its declarations: only if the texts of the namespace are switched off and some earlier
run had them switched on, and as they stood there before the run. -/
theorem built_directories_hold_todays_files [Name.Transliteration]
    {shell : Shell} {target : Location}
    {configs : List Config} {store : Store} (notUp : ".." ∉ target)
    (history : History shell target configs store) {config : Config}
    (place : config.targetDir.segments = target) (scripts : config.WithoutScripts)
    (schedule : Schedule) :
    let run := runAlong shell schedule config store
    ∀ job ∈ Job.dispatched (jobsOf config store), job.key ∈ run.2.built →
      run.1.get? (target ++ [job.name]) = some .directory ∧
      ∃ css, Stylesheet.render job.scale (job.styles.map Flavor.css.resolve) = .ok css ∧
        (∀ p ∈ job.files css,
          run.1.get? (target ++ [job.name, p.1]) = some (.file p.2.toUTF8)) ∧
        ∀ file rest, run.1.get? (target ++ job.name :: file :: rest) ≠ none →
          rest = [] ∧ (file ∈ Entries.keys (job.files css) ∨
            ((file = "tokens.js" ∨ file = "tokens.d.ts") ∧ job.settings.text = false ∧
              (∃ earlier ∈ configs, (earlier.settings job.name).text = true) ∧
              run.1.get? (target ++ [job.name, file]) =
                store.get? (target ++ [job.name, file]))) := by
  intro run job hjob hbuilt
  subst place
  have tree := history.isTree notUp
  have hplace := Job.segments_buildPath hjob
  have leads := Job.leadsTo_buildPath notUp hjob
  have hscript := Job.script_of_mem_dispatched scripts hjob
  obtain ⟨result, hcomes⟩ := Job.comesTo_runAlong shell notUp scripts tree schedule hjob
  obtain ⟨css, hcss, hdir, hfiles⟩ := Job.files_of_alone shell store leads hscript
    (hcomes.result_eq_ok_iff.mp (hcomes.built.mp hbuilt))
  have hbelow := hcomes.below
  have halone := Job.get?_alone_below shell store leads hscript
  rw [hplace] at hbelow hdir hfiles halone
  have hown : ∀ file rest, run.1.get? (config.targetDir.segments ++ job.name :: file :: rest) =
      (job.alone shell store).1.get? (config.targetDir.segments ++ job.name :: file :: rest) :=
    fun file rest => by simpa using hbelow (file :: rest)
  simp only [List.append_assoc, List.singleton_append] at hfiles halone
  refine ⟨?_, css, hcss, fun p hp => (hown p.1 []).trans (hfiles p hp), fun file rest hsome => ?_⟩
  · simpa [hdir] using hbelow []
  · rw [Job.keys_files]
    rcases halone file rest with hsame | ⟨hmem, rfl, -⟩
    · have hwas : store.get? (config.targetDir.segments ++ [job.name] ++ file :: rest) ≠ none := by
        rwa [List.append_assoc, List.singleton_append, ← hsame, ← hown]
      obtain ⟨⟨rfl, -⟩, hknown, hswitched⟩ := history.leftOver notUp job.name file rest hwas
      refine ⟨rfl, or_iff_not_imp_left.mpr fun hmem => ?_⟩
      have hne : file ≠ "variables.css" := fun heq => hmem (by simp [Job.outputNames, heq])
      have htext : job.settings.text = false := by
        by_contra htext
        exact hmem (by simpa [Job.outputNames, Job.fileNames, htext] using hknown)
      refine ⟨by simpa [Job.fileNames, hne] using hknown, htext, hswitched hne, ?_⟩
      exact (hown file []).trans hsame
    · exact ⟨rfl, .inl hmem⟩

section

attribute [local instance] Name.Transliteration.ascii

/-- A namespace that is built without texts and then with them has three files and nothing else. -/
theorem built_directories_hold_todays_files_switched_on :
    let store := Store.ofDocument "\x7b\"a\":\x7b\x7d\x7d"
    let shell : Shell := ⟨fun _ store => (store, .exited 0)⟩
    let config : Config := { namespaces := [("a", { text := true })] }
    let run := runAlong shell [] config (runAlong shell [] {} store).1
    run.2.built = ["a"] ∧ ∀ file rest, run.1.get? ("css" :: "a" :: file :: rest) ≠ none →
      rest = [] ∧ file ∈ Job.fileNames := by
  intro store shell config run
  have hbuilt : run.2.built = ["a"] := by decide +kernel
  have hempty : ∀ name file rest, store.get? (["css"] ++ name :: file :: rest) = none := by
    intro name file rest
    simp [store, Store.ofDocument, get?, Entries.get?]
  have hjobs : (Job.dispatched (jobsOf config (runAlong shell [] {} store).1)).map
      (fun job => (job.key, job.name, job.settings.text)) = [("a", "a", true)] := by decide +kernel
  obtain ⟨job, hready⟩ := List.length_eq_one_iff.mp (by simpa using congrArg List.length hjobs)
  obtain ⟨hkey, hname, htext⟩ : job.key = "a" ∧ job.name = "a" ∧ job.settings.text = true := by
    simpa [hready] using hjobs
  have hjob : job ∈ Job.dispatched (jobsOf config (runAlong shell [] {} store).1) := by
    simp [hready]
  have history : History shell ["css"] [{}] (runAlong shell [] {} store).1 :=
    .ran (.start (Store.isTree_ofDocument _) hempty) (by decide)
      (by simp [Config.WithoutScripts]) []
  obtain ⟨-, css, -, -, hrest⟩ := built_directories_hold_todays_files (by decide) history
    (by decide) (by simp [config, Config.WithoutScripts]) [] job hjob (hkey ▸ hbuilt ▸ by simp)
  refine ⟨hbuilt, fun file rest hsome => ?_⟩
  obtain ⟨rfl, hfile | ⟨-, hoff, -⟩⟩ := hrest file rest (hname ▸ hsome)
  · rw [Job.keys_files] at hfile
    exact ⟨rfl, job.outputNames_subset hfile⟩
  · simp [htext] at hoff

end

section

attribute [local instance] Name.Transliteration.ascii

/-- **Directories that are built may hold more.** A namespace is built with texts and then without
them: the script and its declarations are still there. And the path of a target directory may lead
up from inside the directory of a namespace: what is made on the way stays there. -/
theorem built_directories_may_hold_more :
    let store := Store.ofDocument "\x7b\"a\":\x7b\x7d\x7d"
    let shell : Shell := ⟨fun _ store => (store, .exited 0)⟩
    (∀ name file rest, store.get? ("css" :: name :: file :: rest) = none) ∧
    (let first := runAlong shell [] { namespaces := [("a", { text := true })] } store
      let second := runAlong shell [] {} first.1
      first.2 = ⟨["a"], []⟩ ∧ second.2 = ⟨["a"], []⟩ ∧ (({} : Config).settings "a").text = false ∧
      second.1.get? ["css", "a", "tokens.js"] ≠ none ∧
      second.1.get? ["css", "a", "tokens.d.ts"] ≠ none) ∧
    (let config : Config := { targetDir := ⟨"css/a/sub/../.."⟩ }
      let run := runAlong shell [] config store
      run.2 = ⟨["a"], []⟩ ∧ run.1.directory (config.targetDir.join "a") = .ok ["css", "a"] ∧
      run.1.get? ["css", "a", "sub"] = some .directory) := by
  intro store shell
  refine ⟨fun name file rest => ?_, by decide +kernel, by decide +kernel⟩
  simp [store, Store.ofDocument, get?, Entries.get?]

end

end TokenSheets
