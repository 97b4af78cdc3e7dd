import TokenSheets.Proofs.Build.Alone
import TokenSheets.Proofs.Namespace.Steps

/-!
# Jobs whose directory has a name that does not fit

Such a job cannot be built. If the way to its directory is missing, cleaning finds nothing, and the
job makes the directories in front of the name before it fails; if the way is there, the first file
to clean is refused.

* `Job.alone_of_exposed`: the job fails where it makes its directory;
* `Job.finish_of_refused`: the job fails at its first file.
-/

namespace TokenSheets

open Store

theorem Store.check_of_short {path : Path} (hnull : '\x00' ∉ path.text.toList)
    (hsize : path.text.utf8ByteSize ≤ maxPathLength) (hempty : path.text ≠ "") :
    check path = .ok () := by
  rw [check, if_neg hnull, if_neg (Nat.not_lt.mpr hsize), if_neg hempty]

/-! ### Behind a missing directory, a name that does not fit -/

namespace Store

variable {store : Store} {front long : String}

theorem exposed_of_missing (hfront : front ≠ "..") (fits : Fits front) (notFits : ¬ Fits long)
    (missing : store.get? [front] = none) (rest : Location) :
    Exposed (front :: long :: rest) store := by
  refine ⟨?_, long, by simp, notFits⟩
  rw [walk, enter_eq hfront, if_pos fits, List.nil_append, missing]
  rfl

theorem makeAll_of_missing (hfront : front ≠ "..") (fits : Fits front) (hlong : long ≠ "..")
    (notFits : ¬ Fits long) (missing : store.get? [front] = none) {rest : Location} :
    store.makeAll [] (front :: long :: rest) = (store.put [front] .directory, some .tooLong) := by
  rw [makeAll_cons hfront, if_pos fits, List.nil_append, missing]
  simp only
  rw [makeAll_cons hlong, if_neg notFits]

theorem walk_of_made (hfront : front ≠ "..") (fits : Fits front) (hlong : long ≠ "..")
    (notFits : ¬ Fits long) (rest : Location) :
    (store.put [front] .directory).walk [] (front :: long :: rest) = .error .tooLong := by
  rw [walk, enter_eq hfront, if_pos fits, List.nil_append, get?_put_at _ _ (by simp), if_pos rfl]
  simp only [Except.bind]
  rw [walk, enter_eq hlong, if_neg notFits]
  rfl

end Store

/-! ### Jobs with such a directory -/

namespace Job

variable [Name.Transliteration] {job : Job} {shell : Shell} {store : Store}

/-- **A job that runs alone**: the store and the task at its end. -/
def alone (shell : Shell) (store : Store) (job : Job) : Store × Task :=
  (Task.ofSteps job.steps).finish shell store

/-- **The steps of a job without texts and without a command**, if its style sheet can be
rendered. -/
theorem steps_of_plain (hsettings : job.settings = {}) {outputs : List (Path × String)}
    (hrender : job.stylesheet.outputs job.tokens = .ok outputs) :
    job.steps = .removeFile (job.buildPath.join "variables.css") :: .listDirectory job.buildPath ::
      .removeListed job.buildPath :: .makeDirectories job.buildPath ::
      outputs.map fun output => .writeFile output.1 output.2 := by
  have hplatforms : job.platforms = [("css", job.stylesheet)] := by simp [platforms, hsettings]
  have hbuild : job.stylesheet.buildSteps job.tokens = .makeDirectories job.buildPath ::
      outputs.map fun output => .writeFile output.1 output.2 := by
    rw [Platform.buildSteps, hrender]
    rfl
  rw [steps, hplatforms, hsettings, buildSteps, List.flatMap_singleton, hbuild]
  simp [cleanSteps, Platform.cleanSteps, stylesheet, Platform.pathOf]

omit [Name.Transliteration] in
/-- **The paths of a job** below a directory whose path is short can be looked up. -/
theorem checked_of_short {directory : Path} {name : String} (hname : Path.IsOrdinary name)
    (hpath : job.buildPath = directory.join name) (hnull : '\x00' ∉ directory.text.toList)
    (hnull' : '\x00' ∉ name.toList)
    (hsize : directory.text.utf8ByteSize + name.utf8ByteSize ≤ 4000) :
    check job.buildPath = .ok () ∧ check (job.buildPath.join "variables.css") = .ok () := by
  have hfile : Path.IsOrdinary "variables.css" := isOrdinary_of_mem_fileNames (by simp [fileNames])
  have hfilesize : "variables.css".utf8ByteSize = 13 := by decide
  have hbuild : '\x00' ∉ job.buildPath.text.toList := by
    rw [hpath]
    exact Path.notMem_text_join (by decide) hnull hnull'
  have hlength := Path.utf8ByteSize_join_le directory name
  have hlength' := Path.utf8ByteSize_join_le job.buildPath "variables.css"
  rw [← hpath] at hlength
  refine ⟨check_of_short hbuild ?_ ?_, check_of_short ?_ ?_ ?_⟩
  · rw [maxPathLength]
    omega
  · rw [hpath]
    exact Path.text_join_ne_empty directory hname.ne_empty
  · exact Path.notMem_text_join (by decide) hbuild (by decide)
  · rw [maxPathLength]
    omega
  · exact Path.text_join_ne_empty _ hfile.ne_empty

/-- **A job whose directory is missing and has a name that does not fit** fails once it makes its
directory. -/
theorem alone_of_exposed {location : Location} (leads : job.buildPath.LeadsTo location)
    (leadsIn : (job.buildPath.join "variables.css").LeadsTo (location ++ ["variables.css"]))
    (checked : check job.buildPath = .ok ())
    (checkedIn : check (job.buildPath.join "variables.css") = .ok ())
    (hsettings : job.settings = {}) {outputs : List (Path × String)}
    (hrender : job.stylesheet.outputs job.tokens = .ok outputs)
    (exposed : Exposed location store) {after : Store} {cause : PathFault}
    (hall : store.makeAll [] location = (after, some cause)) :
    job.alone shell store = (after, .failed (.io job.buildPath cause)) := by
  have hremove : store.removeFile (job.buildPath.join "variables.css") = .error .notFound := by
    rw [removeFile_of_leadsTo leadsIn, checkedIn, exposed.missing]
    rfl
  have hlist : store.directory job.buildPath = .error .notFound := by
    rw [directory_of_leadsTo leads, checked, exposed.missing]
    rfl
  have hmake : store.makeDirectories job.buildPath = store.makeAll [] location := by
    rw [makeDirectories_of_leadsTo leads, checked]
  rw [alone, steps_of_plain hsettings hrender]
  simp [Task.ofSteps, Task.finish, performAll, Step.perform, hremove, hlist, hmake, hall,
    tolerant, Task.ofOutcome]

/-- **A job whose directory is refused** fails at its first file. -/
theorem finish_of_refused {location : Location}
    (leadsIn : (job.buildPath.join "variables.css").LeadsTo (location ++ ["variables.css"]))
    (checkedIn : check (job.buildPath.join "variables.css") = .ok ())
    (refused : store.walk [] location = .error .tooLong) :
    (Task.ofSteps job.steps).finish shell store =
      (store, .failed (.io (job.buildPath.join "variables.css") .tooLong)) := by
  have hremove : store.removeFile (job.buildPath.join "variables.css") = .error .tooLong := by
    rw [removeFile_of_leadsTo leadsIn, checkedIn, refused]
    rfl
  obtain ⟨rest, hsteps⟩ : ∃ rest,
      job.steps = .removeFile (job.buildPath.join "variables.css") :: rest := ⟨_, rfl⟩
  rw [hsteps]
  simp [Task.ofSteps, Task.finish, performAll, Step.perform, hremove, tolerant, Task.ofOutcome]

omit [Name.Transliteration] in
/-- A job with a short name below `css` and one more name: where its paths lead, and that they can
be looked up. -/
theorem lookup_of_short {long name : String} (ordinary : Path.IsOrdinary long)
    (hname : Path.IsOrdinary name) (hnull : '\x00' ∉ long.toList) (hnull' : '\x00' ∉ name.toList)
    (hsize : long.utf8ByteSize + name.utf8ByteSize ≤ 3000)
    (hpath : job.buildPath = ((Path.mk "css").join long).join name) :
    job.buildPath.LeadsTo ["css", long, name] ∧
      (job.buildPath.join "variables.css").LeadsTo (["css", long, name] ++ ["variables.css"]) ∧
      check job.buildPath = .ok () ∧ check (job.buildPath.join "variables.css") = .ok () := by
  have leads : ((Path.mk "css").join long).LeadsTo ["css", long] :=
    Path.leadsTo_join (by decide) ordinary
  have hleads : job.buildPath.LeadsTo ["css", long, name] := by
    have h := Path.leadsTo_join (leads.segments ▸ leads.points_notMem) hname
    rwa [leads.segments, ← hpath] at h
  have hleadsIn : (job.buildPath.join "variables.css").LeadsTo
      (["css", long, name] ++ ["variables.css"]) := by
    have h := Path.leadsTo_join (hleads.segments ▸ hleads.points_notMem)
      (isOrdinary_of_mem_fileNames (List.mem_cons_self : "variables.css" ∈ fileNames))
    rwa [hleads.segments] at h
  have hlength := Path.utf8ByteSize_join_le ⟨"css"⟩ long
  have hcss : "css".utf8ByteSize = 3 := by decide
  rw [hcss] at hlength
  exact ⟨hleads, hleadsIn, checked_of_short hname hpath
    (Path.notMem_text_join (by decide) (by decide) hnull) hnull' (by omega)⟩

/-- **Two jobs below a directory that is missing and has a name that does not fit.** The first one
makes what is in front of the name, and the second one is refused where it finds nothing alone. -/
theorem faults_of_two {long : String} (ordinary : Path.IsOrdinary long) (notFits : ¬ Fits long)
    (hnull : '\x00' ∉ long.toList) (hsize : long.utf8ByteSize ≤ 2000)
    (missing : store.get? ["css"] = none) {first second : Job}
    (hfirst : first.buildPath = ((Path.mk "css").join long).join "a" ∧ first.settings = {} ∧
      ∃ outputs, first.stylesheet.outputs first.tokens = .ok outputs)
    (hsecond : second.buildPath = ((Path.mk "css").join long).join "b" ∧ second.settings = {} ∧
      ∃ outputs, second.stylesheet.outputs second.tokens = .ok outputs) :
    (second.alone shell store).2 = .failed (.io second.buildPath .tooLong) ∧
      (along shell [] store [.ofSteps first.steps, .ofSteps second.steps]).2 =
        [.failed (.io first.buildPath .tooLong),
          .failed (.io (second.buildPath.join "variables.css") .tooLong)] := by
  obtain ⟨hpath, hsettings, outputs, hrender⟩ := hfirst
  obtain ⟨hpath', hsettings', outputs', hrender'⟩ := hsecond
  have hsizes : "a".utf8ByteSize = 1 ∧ "b".utf8ByteSize = 1 := by decide
  obtain ⟨hleads, hleadsIn, hcheck, hcheckIn⟩ := lookup_of_short ordinary
    ⟨by decide, by decide, by decide, by decide⟩ hnull (by decide) (by omega) hpath
  obtain ⟨hleads', hleadsIn', hcheck', hcheckIn'⟩ := lookup_of_short ordinary
    ⟨by decide, by decide, by decide, by decide⟩ hnull (by decide) (by omega) hpath'
  have hexposed : ∀ rest, Exposed ("css" :: long :: rest) store :=
    exposed_of_missing (by decide) (by decide) notFits missing
  have hmakes : ∀ rest, store.makeAll [] ("css" :: long :: rest) =
      (store.put ["css"] .directory, some .tooLong) := fun _ =>
    makeAll_of_missing (by decide) (by decide) ordinary.ne_points notFits missing
  have hown : (Task.ofSteps first.steps).finish shell store = _ :=
    alone_of_exposed hleads hleadsIn hcheck hcheckIn hsettings hrender (hexposed ["a"])
      (hmakes ["a"])
  have hother : second.alone shell store = _ :=
    alone_of_exposed hleads' hleadsIn' hcheck' hcheckIn' hsettings' hrender' (hexposed ["b"])
      (hmakes ["b"])
  refine ⟨by rw [hother], ?_⟩
  simp only [along, follow, finishAll, hown]
  rw [finish_of_refused hleadsIn' hcheckIn'
    (walk_of_made (by decide) (by decide) ordinary.ne_points notFits ["b"])]

end Job

end TokenSheets
