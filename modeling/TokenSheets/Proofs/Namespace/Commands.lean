import TokenSheets.Proofs.Build.Turns
import TokenSheets.Proofs.Namespace.Accounting
import TokenSheets.Proofs.Namespace.Outputs

/-!
# The commands of a run

A job cleans, builds and then runs its command, and it stops at the first of these steps that fails.
So the command is its last step, and what the report says of the job is what its last turn comes to.

* `Job.Course`, `Job.course_of_goes`: the three ways in which a job goes;
* `Job.Course.eq_of_command`: where the command is in the turns of a job;
* `Job.Course.result_eq_ok_iff`, `Job.Course.result_eq_error_iff`: what the turns say of the result;
* `commands_run_once_behind_all_files`: all jobs of a run.
-/

namespace TokenSheets

/-- The command that a step runs. -/
def Step.script? : Step → Option String
  | .command script => some script
  | _ => none

@[simp] theorem Step.script?_command (script : String) : (command script).script? = some script :=
  rfl

/-- **What a command comes to**, told by how it ended. -/
def Completion.result (script : String) (completion : Completion) : Except BuildFault Unit :=
  match completion.fault? script with
  | none => .ok ()
  | some fault => .error fault

theorem Completion.result_eq_ok {script : String} {completion : Completion} :
    completion.result script = .ok () ↔ completion = .exited 0 := by
  rw [← fault?_eq_none, result]
  rcases completion.fault? script with _ | fault <;> simp

theorem Completion.result_eq_error {script : String} {completion : Completion}
    {fault : BuildFault} :
    completion.result script = .error fault ↔ completion.fault? script = some fault := by
  rw [result]
  rcases completion.fault? script with _ | cause <;> simp

namespace Job

variable [Name.Transliteration]
  {shell : Shell} {job : Job} {own : List Turn} {result : Except BuildFault Unit}

theorem script?_of_mem_fileSteps {step : Step} (h : step ∈ job.fileSteps) :
    step.script? = none := by
  cases keepsTo_of_mem_fileSteps (fun p hp => (of_mem_platforms hp).2) h <;> rfl

/-- **Once all steps in front of the command succeeded**, the style sheet is rendered and every file
of the job was written. -/
theorem exists_write_of_fileSteps (all : own.map Turn.step = job.fileSteps)
    (sound : ∀ turn ∈ own, turn.Succeeds shell) :
    ∃ css, Stylesheet.render job.scale (job.styles.map Flavor.css.resolve) = .ok css ∧
      ∀ p ∈ job.files css, ∃ turn ∈ own, turn.step = .writeFile (job.buildPath.join p.1) p.2 := by
  rcases hrender : Stylesheet.render job.scale (job.styles.map Flavor.css.resolve) with error | css
  · -- giving up would be one of the steps, and it does not succeed
    have hmem : Step.refuse error ∈ own.map Turn.step := by
      rw [all, fileSteps, buildSteps_platforms, hrender]
      simp
    obtain ⟨turn, hturn, hstep⟩ := List.mem_map.mp hmem
    obtain ⟨known, hknown⟩ := sound turn hturn
    rw [Turn.outcome, hstep] at hknown
    cases hknown
  · refine ⟨css, rfl, fun p hp => ?_⟩
    have hwritten : (job.buildPath.join p.1, p.2) ∈ job.steps.filterMap Step.written? := by
      rw [written_steps hrender]
      exact List.mem_map.mpr ⟨p, hp, rfl⟩
    obtain ⟨step, hstep, hwrites⟩ := List.mem_filterMap.mp hwritten
    obtain rfl : step = .writeFile (job.buildPath.join p.1) p.2 := by
      cases step <;> simp [Step.written?] at hwrites
      simp [hwrites]
    rw [steps_eq, List.mem_append, ← all] at hstep
    rcases hstep with hstep | hstep
    · obtain ⟨turn, hturn, heq⟩ := List.mem_map.mp hstep
      exact ⟨turn, hturn, heq⟩
    · simp at hstep

/-! ### How a job goes -/

/-- **How a job goes**: one of the steps in front of the command fails, all of them succeed and
there is no command, or the command is run behind them and decides. -/
inductive Course (shell : Shell) (job : Job) : List Turn → Except BuildFault Unit → Prop
  | stopped {front : List Turn} {turn : Turn} {left : List Step} {fault : BuildFault}
    (split : (front ++ [turn]).map Turn.step ++ left = job.fileSteps)
    (sound : ∀ before ∈ front, before.Succeeds shell) (fails : turn.Fails shell fault) :
    Course shell job (front ++ [turn]) (.error fault)
  | silent {own : List Turn} (noScript : job.settings.script = none)
    (all : own.map Turn.step = job.fileSteps) (sound : ∀ turn ∈ own, turn.Succeeds shell) :
    Course shell job own (.ok ())
  | commanded {front : List Turn} {turn : Turn} {script : String}
    (hasScript : job.settings.script = some script) (all : front.map Turn.step = job.fileSteps)
    (sound : ∀ before ∈ front, before.Succeeds shell) (runs : turn.step = .command script) :
    Course shell job (front ++ [turn]) ((shell.run script turn.store).2.result script)

omit [Name.Transliteration] in
theorem result_command {turn : Turn} {script : String} (runs : turn.step = .command script) :
    (shell.run script turn.store).2.result script = (turn.outcome shell).2.map fun _ => () := by
  rw [Turn.outcome, runs, Step.perform_command, Completion.result]
  rcases (shell.run script turn.store).2.fault? script with _ | fault <;> rfl

/-- **Every job goes in one of these ways.** -/
theorem course_of_goes {after : Task} (goes : Goes shell (.ofSteps job.steps) own after)
    (done : after.IsDone) : job.Course shell own after.result := by
  rcases goes.ends done rfl with ⟨hall, hsound, hresult⟩ |
    ⟨front, turn, left, fault, rfl, hsplit, hsound, hfails, hresult⟩
  · rw [hresult]
    rw [steps_eq] at hall
    rcases hscript : job.settings.script with _ | script
    · rw [hscript] at hall
      exact .silent hscript (by simpa using hall) hsound
    · rw [hscript] at hall
      obtain ⟨front, last, rfl, hfront, hlast⟩ := List.map_eq_append_iff.mp hall
      obtain ⟨turn, rest, rfl, hruns, hrest⟩ := List.map_eq_cons_iff.mp hlast
      obtain rfl : rest = [] := by simpa using hrest
      obtain ⟨known, hknown⟩ := hsound turn (by simp)
      have hok : (shell.run script turn.store).2.result script = .ok () := by
        rw [result_command hruns, hknown]
        rfl
      rw [← hok]
      exact .commanded hscript hfront (fun before hbefore => hsound before (by simp [hbefore]))
        hruns
  · rw [hresult]
    rw [steps_eq] at hsplit
    rcases hscript : job.settings.script with _ | script
    · rw [hscript] at hsplit
      exact .stopped (by simpa using hsplit) hsound hfails
    · rw [hscript] at hsplit
      rcases List.eq_nil_or_concat' left with rfl | ⟨rest, last, rfl⟩
      · -- no step is left, so it is the command that failed
        rw [List.append_nil, List.map_append] at hsplit
        obtain ⟨hfront, hlast⟩ := List.append_inj' hsplit rfl
        have hruns : turn.step = .command script := by simpa using hlast
        have herror : (shell.run script turn.store).2.result script = .error fault := by
          rw [result_command hruns, hfails]
          rfl
        rw [← herror]
        exact .commanded hscript hfront hsound hruns
      · rw [← List.append_assoc] at hsplit
        exact .stopped (List.append_inj' hsplit rfl).1 hsound hfails

namespace Course

/-- **Where the command is**: behind all other steps of the job, which have succeeded. -/
theorem eq_of_command (h : job.Course shell own result) {front behind : List Turn} {turn : Turn}
    {script : String} (hown : own = front ++ turn :: behind) (runs : turn.step = .command script) :
    job.settings.script = some script ∧ behind = [] ∧ front.map Turn.step = job.fileSteps ∧
      (∀ before ∈ front, before.Succeeds shell) ∧
      result = (shell.run script turn.store).2.result script := by
  have hno : ∀ steps : List Step, steps ⊆ job.fileSteps → turn.step ∉ steps :=
    fun steps hsub hmem => by simpa [runs] using script?_of_mem_fileSteps (hsub hmem)
  cases h with
  | stopped split sound fails =>
    refine absurd ?_ (hno _ (fun step hstep => split ▸ List.mem_append_left _ hstep))
    rw [hown]
    exact List.mem_map_of_mem (by simp)
  | silent noScript all sound =>
    refine absurd ?_ (hno _ (fun step hstep => all ▸ hstep))
    rw [hown]
    exact List.mem_map_of_mem (by simp)
  | @commanded front' last script' hasScript all sound runs' =>
    rcases List.eq_nil_or_concat' behind with rfl | ⟨rest, next, rfl⟩
    · obtain ⟨rfl, hlast⟩ := List.append_inj' hown rfl
      obtain rfl : last = turn := List.singleton_inj.mp hlast
      obtain rfl : script' = script := Step.command.inj (runs'.symm.trans runs)
      exact ⟨hasScript, rfl, all, sound, rfl⟩
    · rw [← List.cons_append, ← List.append_assoc] at hown
      obtain ⟨rfl, -⟩ := List.append_inj' hown rfl
      refine absurd ?_ (hno _ (fun step hstep => all ▸ hstep))
      exact List.mem_map_of_mem (by simp)

theorem scripts_prefix (h : job.Course shell own result) :
    own.filterMap (fun turn => turn.step.script?) <+: job.settings.script.toList := by
  have hnone : ∀ turns : List Turn, turns.map Turn.step ⊆ job.fileSteps →
      turns.filterMap (fun turn => turn.step.script?) = [] := fun turns hsub =>
    List.filterMap_eq_nil_iff.mpr fun turn hturn =>
      script?_of_mem_fileSteps (hsub (List.mem_map_of_mem hturn))
  cases h with
  | stopped split sound fails =>
    rw [hnone _ fun step hstep => split ▸ List.mem_append_left _ hstep]
    exact List.nil_prefix
  | silent noScript all sound =>
    rw [hnone _ fun step hstep => all ▸ hstep]
    exact List.nil_prefix
  | commanded hasScript all sound runs =>
    rw [List.filterMap_append, hnone _ fun step hstep => all ▸ hstep, hasScript]
    simp [runs]

/-- **A job is built** if all steps in front of its command succeed, and the command, if there is
one, ends with the exit status zero. -/
theorem result_eq_ok_iff (h : job.Course shell own result) :
    result = .ok () ↔
      (∃ front behind, own = front ++ behind ∧ front.map Turn.step = job.fileSteps ∧
        ∀ before ∈ front, before.Succeeds shell) ∧
      ∀ script, job.settings.script = some script → ∃ turn ∈ own, turn.step = .command script ∧
        (shell.run script turn.store).2 = .exited 0 := by
  constructor
  · intro hok
    cases h with
    | stopped => cases hok
    | silent noScript all sound =>
      exact ⟨⟨own, [], by simp, all, sound⟩, fun script hscript => by simp [noScript] at hscript⟩
    | @commanded front turn script hasScript all sound runs =>
      refine ⟨⟨front, [turn], rfl, all, sound⟩, fun script' hscript => ?_⟩
      obtain rfl : script = script' := Option.some.inj (hasScript.symm.trans hscript)
      exact ⟨turn, by simp, runs, Completion.result_eq_ok.mp hok⟩
  · rintro ⟨⟨front, behind, hown, hall, hsound⟩, hscripts⟩
    cases h with
    | @stopped front' turn left fault split sound fails =>
      -- the turn that fails would be one of those that succeed
      have hlength := congrArg List.length (hall.trans split.symm)
      have hlength' := congrArg List.length hown
      simp only [List.length_map, List.length_append, List.length_singleton] at hlength hlength'
      obtain rfl : behind = [] := List.eq_nil_of_length_eq_zero (by omega)
      rw [List.append_nil] at hown
      obtain ⟨known, hknown⟩ := hsound turn (hown ▸ by simp)
      rw [Turn.Fails, hknown] at fails
      cases fails
    | silent => rfl
    | @commanded front' turn script hasScript all sound runs =>
      obtain ⟨turn', hmem, runs', hzero⟩ := hscripts script hasScript
      obtain ⟨before, after, hsplit⟩ := List.append_of_mem hmem
      obtain ⟨-, -, -, -, hresult⟩ :=
        (Course.commanded hasScript all sound runs).eq_of_command hsplit runs'
      rw [hresult, Completion.result_eq_ok.mpr hzero]

/-- **A job fails with a fault of a command** if its command comes to this fault, and only then. -/
theorem result_eq_error_iff (h : job.Course shell own result) {fault : BuildFault}
    (hfault : fault.IsOfCommand) : result = .error fault ↔ ∃ turn ∈ own, ∃ script,
      turn.step = .command script ∧ (shell.run script turn.store).2.fault? script = some fault := by
  constructor
  · intro hresult
    cases h with
    | @stopped front turn left cause split sound fails =>
      obtain rfl := Except.error.inj hresult
      rcases Step.fault_cases fails with ⟨path, cause, rfl⟩ | ⟨error, -, rfl⟩ |
        ⟨script, runs, hruns⟩
      · cases hfault
      · cases hfault
      · exact ⟨turn, by simp, script, runs, hruns⟩
    | silent => cases hresult
    | @commanded front turn script hasScript all sound runs =>
      exact ⟨turn, by simp, script, runs, Completion.result_eq_error.mp hresult⟩
  · rintro ⟨turn, hmem, script, runs, hruns⟩
    obtain ⟨front, behind, hsplit⟩ := List.append_of_mem hmem
    obtain ⟨-, -, -, -, hresult⟩ := h.eq_of_command hsplit runs
    rw [hresult, Completion.result_eq_error.mpr hruns]

theorem result_eq_error_iff_of_told (h : job.Course shell own result) {fault : BuildFault}
    (hfault : fault.IsOfCommand) {script : String} {Ends : Completion → Prop}
    (told : ∀ script' completion,
      completion.fault? script' = some fault ↔ script' = script ∧ Ends completion) :
    result = .error fault ↔ ∃ turn ∈ own, turn.step = .command script ∧
      Ends (shell.run script turn.store).2 := by
  rw [h.result_eq_error_iff hfault]
  simp only [told]
  refine exists_congr fun turn => and_congr_right fun _ => ⟨?_, fun ⟨hruns, hends⟩ =>
    ⟨script, hruns, rfl, hends⟩⟩
  rintro ⟨script', hruns, rfl, hends⟩
  exact ⟨hruns, hends⟩

end Course

end Job

/-! ### All jobs of a run -/

/-- **Commands are run once, behind all files of their job.** A run is told by its turns, which lead
from the store that it begins with to the one that it ends with. Only jobs that were dispatched take
turns, and steps of their own, and only they are built or fail to be built.

A dispatched job runs no command but its own, and this one at most once; once it is run the job
takes no other turn. In front of it all steps that clean and build have succeeded, so the style
sheet is rendered and all files were written. The job is built if and only if these steps succeed
and the command, if there is one, ends with the exit status zero. If the command ends otherwise or
could not be started, the report says so under the key of this job, and it says so only then. -/
theorem commands_run_once_behind_all_files [Name.Transliteration]
    (shell : Shell) (schedule : Schedule) (config : Config) (store : Store) :
    let jobs := Job.dispatched (jobsOf config store)
    let all := turnsAlong shell schedule store (jobs.map fun job => .ofSteps job.steps)
    let report := (runAlong shell schedule config store).2
    Turn.Lead shell store all (runAlong shell schedule config store).1 ∧
    (∀ turn ∈ all, ∃ job, jobs[turn.task]? = some job ∧ turn.step ∈ job.steps) ∧
    (∀ key, (key ∈ report.built ∨ ∃ fault, (key, .build fault) ∈ report.failures) →
      ∃ job ∈ jobs, job.key = key) ∧
    ∀ (i : Nat) (job : Job), jobs[i]? = some job →
      let own := turnsOf i all
      own.filterMap (fun turn => turn.step.script?) <+: job.settings.script.toList ∧
      (∀ front turn behind script, own = front ++ turn :: behind → turn.step = .command script →
        behind = [] ∧ front.map Turn.step = job.fileSteps ∧
        (∀ before ∈ front, before.Succeeds shell) ∧
        ∃ css, Stylesheet.render job.scale (job.styles.map Flavor.css.resolve) = .ok css ∧
          ∀ p ∈ job.files css, ∃ before ∈ front,
            before.step = .writeFile (job.buildPath.join p.1) p.2) ∧
      (job.key ∈ report.built ↔
        (∃ front behind, own = front ++ behind ∧ front.map Turn.step = job.fileSteps ∧
          ∀ before ∈ front, before.Succeeds shell) ∧
        ∀ script, job.settings.script = some script → ∃ turn ∈ own, turn.step = .command script ∧
          (shell.run script turn.store).2 = .exited 0) ∧
      (∀ script code, (job.key, .build (.commandFailed script code)) ∈ report.failures ↔
        ∃ turn ∈ own, turn.step = .command script ∧
          (shell.run script turn.store).2 = .exited code ∧ code ≠ 0) ∧
      ∀ script cause, (job.key, .build (.commandNotStarted script cause)) ∈ report.failures ↔
        ∃ turn ∈ own, turn.step = .command script ∧
          (shell.run script turn.store).2 = .notStarted cause := by
  intro jobs all report
  have htasks : ∀ {i : Nat} {job : Job}, jobs[i]? = some job →
      (jobs.map fun job => Task.ofSteps job.steps)[i]? = some (.ofSteps job.steps) :=
    fun {i job} hjob => by rw [List.getElem?_map, hjob]; rfl
  refine ⟨lead_turnsAlong shell schedule store _, fun turn hturn => ?_,
    fun key => exists_job_of_report, fun i job hjob => ?_⟩
  · have hlt : turn.task < jobs.length := by simpa using task_lt_of_mem_turns hturn
    have hjob : jobs[turn.task]? = some jobs[turn.task] := List.getElem?_eq_getElem hlt
    obtain ⟨after, -, hgoes⟩ :=
      @goes_turnsAlong shell store _ _ turn.task schedule (htasks hjob)
    exact ⟨_, hjob, hgoes.step_mem turn (List.mem_filter.mpr ⟨hturn, by simp⟩)⟩
  · intro own
    obtain ⟨after, hafter, hgoes⟩ := @goes_turnsAlong shell store _ _ i schedule (htasks hjob)
    have hdone := isDone_along shell schedule store _ after (List.mem_of_getElem? hafter)
    have hcourse : job.Course shell own after.result := Job.course_of_goes hgoes hdone
    obtain ⟨hbuilt, hfailed⟩ := report_of_task hjob hafter
    refine ⟨hcourse.scripts_prefix, fun front turn behind script hown hruns => ?_,
      hbuilt.trans hcourse.result_eq_ok_iff, fun script code => ?_, fun script cause => ?_⟩
    · obtain ⟨-, hbehind, hsteps, hsound, -⟩ := hcourse.eq_of_command hown hruns
      exact ⟨hbehind, hsteps, hsound, Job.exists_write_of_fileSteps hsteps hsound⟩
    · exact (hfailed _).trans (hcourse.result_eq_error_iff_of_told (.failed script code)
        fun _ _ => Completion.fault?_eq_commandFailed)
    · exact (hfailed _).trans (hcourse.result_eq_error_iff_of_told (.notStarted script cause)
        fun _ _ => Completion.fault?_eq_commandNotStarted)

section

attribute [local instance] Name.Transliteration.ascii

/-- The command of one of two namespaces that take turns fails. -/
example :
    let document := "\x7b\"a\":\x7b\x7d,\"b\":\x7b\x7d\x7d"
    let store : Store := ⟨[(["tokens"], .directory),
      (["tokens", "core.json"], .file document.toUTF8)]⟩
    let config : Config := { namespaces := [("a", { script := some "exit 1" })] }
    let shell : Shell := ⟨fun _ store => (store, .exited 1)⟩
    (runAlong shell [1, 0, 1, 0] config store).2 =
      { built := ["b"], failures := [("a", .build (.commandFailed "exit 1" 1))] } := by
  decide +kernel

end

end TokenSheets
