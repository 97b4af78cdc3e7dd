import TokenSheets.Namespace.Job
import TokenSheets.Proofs.Build.Writing

/-!
# The steps of a job

Apart from its command, a job keeps to its own directory and to three files in it.

* `Platform.keepsTo_of_mem_cleanSteps`, `Platform.keepsTo_of_mem_buildSteps`: a platform keeps to
  its directory and to the files that it has;
* `Job.fileSteps`: what a job does in front of its command;
* `Job.keepsTo_of_mem_steps`: a job keeps to its directory and to `Job.fileNames`.
-/

namespace TokenSheets

namespace Platform

variable {platform : Platform} {files : List String} {step : Step}

theorem keepsTo_of_mem_cleanSteps (hfiles : ∀ file ∈ platform.files, file.destination ∈ files)
    (h : step ∈ platform.cleanSteps) : step.KeepsTo platform.buildPath files := by
  rw [cleanSteps, List.mem_append] at h
  rcases h with h | h
  · obtain ⟨file, hfile, rfl⟩ := List.mem_map.mp h
    exact .removeFile (hfiles file hfile)
  · rcases List.mem_pair.mp h with rfl | rfl
    · exact .listDirectory
    · exact .removeListed

theorem keepsTo_of_mem_buildSteps [Name.Transliteration]
    (hfiles : ∀ file ∈ platform.files, file.destination ∈ files)
    {tree : Tree} (h : step ∈ platform.buildSteps tree) :
    step.KeepsTo platform.buildPath files := by
  unfold buildSteps at h
  split at h
  · obtain rfl := List.mem_singleton.mp h
    exact .refuse _
  · rename_i outputs houtputs
    rcases List.mem_cons.mp h with rfl | h
    · exact .makeDirectories
    · obtain ⟨output, hmem, rfl⟩ := List.mem_map.mp h
      obtain ⟨file, hfile, hpath⟩ := exists_of_mem_outputs houtputs hmem
      rw [hpath]
      exact .writeFile (hfiles file hfile) _

end Platform

namespace Job

/-- The names of the files that are built for a namespace. -/
def fileNames : List String := ["variables.css", "tokens.js", "tokens.d.ts"]

theorem isOrdinary_of_mem_fileNames {file : String} (h : file ∈ fileNames) :
    Path.IsOrdinary file := by
  simp only [fileNames, List.mem_cons, List.not_mem_nil, or_false] at h
  rcases h with rfl | rfl | rfl
  · exact ⟨by decide, by decide, by decide, by decide⟩
  · exact ⟨by decide, by decide, by decide, by decide⟩
  · exact ⟨by decide, by decide, by decide, by decide⟩

theorem of_mem_platforms {job : Job} {p : String × Platform} (h : p ∈ job.platforms) :
    p.2.buildPath = job.buildPath ∧ ∀ file ∈ p.2.files, file.destination ∈ fileNames := by
  rw [platforms] at h
  rcases List.mem_cons.mp h with rfl | h
  · exact ⟨rfl, by simp [stylesheet, fileNames]⟩
  · split_ifs at h
    · obtain rfl := List.mem_singleton.mp h
      exact ⟨rfl, by simp [script, fileNames]⟩
    · simp at h

/-- **The steps of a job in front of its command.** -/
def fileSteps [Name.Transliteration] (job : Job) : List Step :=
  cleanSteps job.platforms ++ buildSteps job.platforms job.tokens

theorem steps_eq [Name.Transliteration] (job : Job) :
    job.steps = job.fileSteps ++ job.settings.script.toList.map Step.command := rfl

theorem keepsTo_of_mem_fileSteps [Name.Transliteration] {job : Job} {files : List String}
    (hfiles : ∀ p ∈ job.platforms, ∀ file ∈ p.2.files, file.destination ∈ files) {step : Step}
    (h : step ∈ job.fileSteps) : step.KeepsTo job.buildPath files := by
  rw [fileSteps, List.mem_append] at h
  rcases h with h | h
  · obtain ⟨p, hp, hstep⟩ := List.mem_flatMap.mp h
    exact (of_mem_platforms hp).1 ▸ Platform.keepsTo_of_mem_cleanSteps (hfiles p hp) hstep
  · obtain ⟨p, hp, hstep⟩ := List.mem_flatMap.mp h
    exact (of_mem_platforms hp).1 ▸ Platform.keepsTo_of_mem_buildSteps (hfiles p hp) hstep

/-- **A job keeps to its own directory**, apart from the command behind it. -/
theorem keepsTo_of_mem_steps [Name.Transliteration]
    {job : Job} {step : Step} (h : step ∈ job.steps) : step.KeepsTo job.buildPath fileNames ∨
      ∃ script, job.settings.script = some script ∧ step = .command script := by
  rw [steps_eq, List.mem_append] at h
  rcases h with h | h
  · exact .inl (keepsTo_of_mem_fileSteps (fun p hp => (of_mem_platforms hp).2) h)
  · obtain ⟨script, hscript, rfl⟩ := List.mem_map.mp h
    exact .inr ⟨script, by simpa using hscript, rfl⟩

end Job

end TokenSheets
