import TokenSheets.Sheet.Stylesheet
import TokenSheets.Store.Basic

/-!
# Steps: what a build does to the store, one change at a time

A build is a list of steps that are known before the first one is done: files are rendered without
looking at the store. A step that fails ends the build. Between two steps other builds may take
theirs, so a listing and the removal that depends on it are two steps; `Memory` carries what the
listing showed.

* `Step.perform`: one step;
* `performAll`: steps one after another;
* `Shell`: the commands that a step may run, as an action on the store.
-/

namespace TokenSheets

/-- How a command ended. -/
inductive Completion where
  | exited (code : Nat)
  /-- The command could not be started; the system says why. -/
  | notStarted (cause : String)
deriving DecidableEq, Repr

/-- What commands do to a store. -/
structure Shell where
  run : String → Store → Store × Completion

/-- One change of the store. -/
inductive Step where
  /-- Removes a file; it may be missing. -/
  | removeFile (path : Path)
  /-- Looks whether a directory is empty; it may be missing. -/
  | listDirectory (path : Path)
  /-- Removes the directory that was listed last, if it was empty. -/
  | removeListed (path : Path)
  | makeDirectories (path : Path)
  | writeFile (path : Path) (text : String)
  /-- Gives up: a file cannot be rendered. -/
  | refuse (error : SheetError)
  /-- Runs a command. -/
  | command (script : String)
deriving DecidableEq, Repr

/-- Why a build failed. -/
inductive BuildFault where
  | sheet (error : SheetError)
  /-- The store refused a change at this path. -/
  | io (path : Path) (cause : PathFault)
  | commandNotStarted (script cause : String)
  | commandFailed (script : String) (code : Nat)
deriving DecidableEq, Repr

/-- The message of a fault. -/
def BuildFault.message : BuildFault → String
  | .sheet error => error.message
  | .io path cause => "i/o error on " ++ path.text ++ ": " ++ cause.message
  | .commandNotStarted script cause =>
    "failed to start post-build command `" ++ script ++ "`: " ++ cause
  | .commandFailed script code =>
    "post-build command `" ++ script ++ "` exited with exit status: " ++ toString code

/-- What a build knows of the directory it listed last: whether it was there and empty. -/
abbrev Memory := Bool

/-- What a step comes to: the store afterwards, and what the build knows or why it failed. -/
abbrev Outcome := Store × Except BuildFault Memory

/-- A change that may find nothing to change. -/
def tolerant (store : Store) (memory : Memory) (path : Path) : Except PathFault Store → Outcome
  | .ok store' => (store', .ok memory)
  | .error .notFound => (store, .ok memory)
  | .error cause => (store, .error (.io path cause))

/-- A change that must succeed. -/
def strict (store : Store) (memory : Memory) (path : Path) : Except PathFault Store → Outcome
  | .ok store' => (store', .ok memory)
  | .error cause => (store, .error (.io path cause))

/-- **One step.** -/
def Step.perform (shell : Shell) (store : Store) (memory : Memory) : Step → Outcome
  | .removeFile path => tolerant store memory path (store.removeFile path)
  | .listDirectory path =>
    match store.directory path with
    | .ok location => (store, .ok (store.isEmptyAt location))
    | .error .notFound => (store, .ok false)
    | .error cause => (store, .error (.io path cause))
  | .removeListed path =>
    if memory then strict store false path (store.removeDirectory path) else (store, .ok false)
  | .makeDirectories path =>
    match store.makeDirectories path with
    | (store', none) => (store', .ok memory)
    | (store', some cause) => (store', .error (.io path cause))
  | .writeFile path text => strict store memory path (store.writeFile path text.toUTF8)
  | .refuse error => (store, .error (.sheet error))
  | .command script =>
    match shell.run script store with
    | (store', .exited 0) => (store', .ok memory)
    | (store', .exited code) => (store', .error (.commandFailed script code))
    | (store', .notStarted cause) => (store', .error (.commandNotStarted script cause))

/-- **Steps one after another**, up to the first one that fails. -/
def performAll (shell : Shell) (store : Store) (memory : Memory) : List Step → Outcome
  | [] => (store, .ok memory)
  | step :: rest =>
    match step.perform shell store memory with
    | (store, .ok memory) => performAll shell store memory rest
    | (store, .error fault) => (store, .error fault)

end TokenSheets
