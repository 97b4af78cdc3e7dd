import TokenSheets.Build.Schedule
import TokenSheets.Namespace.Job
import TokenSheets.Token.Document

/-!
# Runs: building all namespaces

A run reads both documents, makes a job of every namespace and builds the jobs at once. A namespace
whose name is no directory, and namespaces that share a name, are refused before anything is built,
since no directory would be theirs alone. A document that cannot be read counts as empty.

* `Job.refusal?`: why a job is not built;
* `Report.ofOutcomes`: what becomes of the namespaces, in the order of the document;
* `runAlong`: a run in which the jobs take turns as a schedule says.
-/

namespace TokenSheets

/-- Why a namespace is not built at all. -/
inductive Refusal where
  | invalidName (name : String)
  /-- Several namespaces would have the same directory. -/
  | outputConflict (directory : Path) (keys : List String)
deriving DecidableEq, Repr

/-- The message of a refusal. -/
def Refusal.message : Refusal → String
  | .invalidName name => "namespace name `" ++ name ++ "` cannot be used as an output directory"
  | .outputConflict directory keys =>
    "output directory " ++ directory.text ++ " is shared by namespaces " ++ ", ".intercalate keys

/-- Why there are no sheets for a namespace. -/
inductive NamespaceFault where
  | refused (refusal : Refusal)
  | build (fault : BuildFault)
deriving DecidableEq, Repr

/-- The message of a fault. -/
def NamespaceFault.message : NamespaceFault → String
  | .refused refusal => refusal.message
  | .build fault => fault.message

/-- What became of the namespaces. -/
structure Report where
  /-- The keys of those that were built. -/
  built : List String
  /-- The others, those that were refused first. -/
  failures : List (String × NamespaceFault)
deriving DecidableEq, Repr

namespace Report

/-- Every namespace was built. -/
def isSuccess (report : Report) : Bool := report.failures.isEmpty

/-- The report of what was refused, and of what the other builds came to. -/
def ofOutcomes (refused : List (String × Refusal))
    (outcomes : List (String × Except BuildFault Unit)) : Report where
  built := outcomes.filterMap fun p => match p.2 with
    | .ok () => some p.1
    | .error _ => none
  failures := refused.map (fun p => (p.1, .refused p.2)) ++
    outcomes.filterMap fun p => match p.2 with
      | .ok () => none
      | .error fault => some (p.1, .build fault)

end Report

namespace Job

/-- The keys of all jobs that have this name. -/
def sharing (jobs : List Job) (name : String) : List String :=
  (jobs.filter fun job => job.name = name).map Job.key

/-- **Why a job is not built**, if it is not; `jobs` are all jobs of the run. -/
def refusal? (jobs : List Job) (job : Job) : Option Refusal :=
  if !Namespace.isDirectoryName job.name then some (.invalidName job.name)
  else
    let keys := sharing jobs job.name
    if keys.length > 1 then some (.outputConflict job.buildPath keys) else none

/-- The jobs that are refused, by key. -/
def refused (jobs : List Job) : List (String × Refusal) :=
  jobs.filterMap fun job => (refusal? jobs job).map (job.key, ·)

/-- The jobs that are built. -/
def dispatched (jobs : List Job) : List Job := jobs.filter fun job => (refusal? jobs job).isNone

end Job

/-- The tree of a document; it is empty if the document cannot be read. -/
def readTree (store : Store) (path : Path) : Tree :=
  match store.readText path with
  | none => {}
  | some text =>
    match Tree.read text with
    | .ok tree => tree
    | .error _ => {}

/-- The jobs of all namespaces. -/
def jobsOf (config : Config) (store : Store) : List Job :=
  Job.ofDocument config (SharedText.merge (readTree store config.textSource))
    (readTree store config.source)

section

variable [Name.Transliteration]

/-- Builds jobs as a schedule has them take turns. -/
def buildJobs (shell : Shell) (schedule : Schedule) (store : Store) (jobs : List Job) :
    Store × Report :=
  let ready := Job.dispatched jobs
  let (store, tasks) := along shell schedule store (ready.map fun job => .ofSteps job.steps)
  (store, .ofOutcomes (Job.refused jobs) ((ready.map Job.key).zip (tasks.map Task.result)))

/-- **A run along a schedule.** -/
def runAlong (shell : Shell) (schedule : Schedule) (config : Config) (store : Store) :
    Store × Report :=
  buildJobs shell schedule store (jobsOf config store)

end

end TokenSheets
