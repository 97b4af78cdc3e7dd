import TokenSheets.Build.Step
import TokenSheets.ShellScript.Command
import TokenSheets.ShellScript.Program

/-!
# Running scripts

A script runs in the working directory with nothing to read and nowhere to write to. Its status is
that of the command that ran last.

The interpreter is only a part of `sh`: there are no loops, no functions, no patterns and few
programs. It stands for the shell in the executable alone; what is proved of builds holds for every
`Shell`, whatever its commands do.

* `Command.run`: one command;
* `Shell.standard`: scripts as the commands of a build.
-/

namespace TokenSheets.ShellScript

/-- Where a channel leads. -/
inductive Sink where
  | nowhere
  | pipe
  | file (location : Location)
deriving DecidableEq, Repr

/-- Where the channels of a command lead. -/
structure Channels where
  input : ByteArray := .empty
  output : Sink := .nowhere
  errors : Sink := .nowhere

/-- What a script has come to. -/
structure Session where
  store : Store
  directory : Location := []
  environment : Entries String String := []
  status : Nat := 0
  /-- The script has ended. -/
  isOver : Bool := false
  /-- What was written to the pipe. -/
  piped : ByteArray := .empty

namespace Session

/-- The session with the status of the command that just ran. -/
def ending (session : Session) (status : Nat) : Session := { session with status }

/-- The session with the script at its end. -/
def finished (session : Session) (status : Nat) : Session := { session with status, isOver := true }

/-- The value of a variable. -/
def value (session : Session) (name : String) : String :=
  if name = "?" then toString session.status
  else if name = "#" then "0"
  else if name = "0" then "sh"
  else (session.environment.get? name).getD ""

/-- Adds to what a channel has taken. -/
def write (session : Session) (sink : Sink) (content : ByteArray) : Session :=
  match sink with
  | .nowhere => session
  | .pipe => { session with piped := session.piped ++ content }
  | .file location =>
    match session.store.get? location with
    | some (.file before) =>
      { session with store := session.store.put location (.file (before ++ content)) }
    | _ => session

end Session

/-! ### Words -/

/-- The words that a text makes without quotes. -/
def wordsOf (text : String) : List String :=
  ((text.split fun c => isBlank c || c = '\n').toList.map (·.toString)).filter (· ≠ "")

/-- The text of a word as one piece. -/
def textOf (session : Session) (word : Word) : String :=
  String.join (word.map fun part => match part with
    | .bare text => text
    | .quoted text => text
    | .variable name _ => session.value name)

/-- The words that a word makes: one, unless a variable without quotes is in it. -/
def expand (session : Session) (word : Word) : List String :=
  match word with
  | [.variable name false] => wordsOf (session.value name)
  | word => [textOf session word]

/-! ### Channels -/

/-- Opens a file to write to. -/
def openSink (session : Session) (text : String) (isKept : Bool) : Option (Session × Sink) :=
  if text = Program.nullPath then some (session, .nowhere)
  else
    let call : Call := ⟨session.directory, [], .empty⟩
    let path := call.path text
    let before := match session.store.readFile path with
      | .ok content => if isKept then content else .empty
      | .error _ => .empty
    match session.store.writeFile path before, Program.location session.store path with
    | .ok store, .ok location => some ({ session with store }, .file location)
    | _, _ => none

/-- One redirection. -/
def redirect (session : Session) (channels : Channels) (redirection : Redirection) :
    Option (Session × Channels) :=
  let text := textOf session redirection.target
  let set (sink : Sink) : Channels :=
    if redirection.channel = 1 then { channels with output := sink }
    else if redirection.channel = 2 then { channels with errors := sink }
    else channels
  match redirection.direction with
  | .write => (openSink session text false).map fun (session, sink) => (session, set sink)
  | .append => (openSink session text true).map fun (session, sink) => (session, set sink)
  | .read =>
    match Program.contentOf ⟨session.directory, [], .empty⟩ session.store text with
    | .ok content => some (session, { channels with input := content })
    | .error _ => none
  | .copy =>
    if text = "1" then some (session, set channels.output)
    else if text = "2" then some (session, set channels.errors)
    else if text = "-" then some (session, set .nowhere)
    else none

/-- Redirections from left to right. -/
def redirectAll (session : Session) (channels : Channels) :
    List Redirection → Session × Option Channels
  | [] => (session, some channels)
  | redirection :: rest =>
    match redirect session channels redirection with
    | some (session, channels) => redirectAll session channels rest
    | none => (session, none)

/-! ### Commands -/

/-- The status of a command that cannot be run as it is written. -/
def misuse : Nat := 2

/-- The status if no program has the name. -/
def unknownProgram : Nat := 127

/-- The status if the name is the path of something that is no program. -/
def noProgram : Nat := 126

/-- Goes to another directory. -/
def changeDirectory (session : Session) (arguments : List String) : Session :=
  let text := arguments.head?.getD (session.value "HOME")
  let call : Call := ⟨session.directory, [], .empty⟩
  match session.store.directory (call.path text) with
  | .ok directory => { session with directory, status := 0 }
  | .error _ => session.ending misuse

/-- Ends the script with a status, or with the last one. -/
def exit (session : Session) : List String → Session
  | [] => session.finished session.status
  | text :: _ =>
    if text ≠ "" ∧ text.toList.all Char.isDigit then
      session.finished ((text.toNat?.getD 0) % 256)
    else session.finished misuse

/-- Runs a program. -/
def runProgram (channels : Channels) (session : Session) (name : String)
    (arguments : List String) : Session :=
  if name = "cd" then changeDirectory session arguments
  else if name = "exit" then exit session arguments
  else
    match Program.named? name with
    | some program =>
      let ending := program ⟨session.directory, arguments, channels.input⟩ session.store
      ({ session with store := ending.store, status := ending.status }).write channels.output
        ending.output
    | none =>
      let call : Call := ⟨session.directory, [], .empty⟩
      if name.toList.contains '/' ∧ session.store.isThere (call.path name) then
        session.ending noProgram
      else session.ending unknownProgram

/-- Sets variables. -/
def set (session : Session) (settings : List (String × Word)) : Session :=
  settings.foldl (fun session p =>
    { session with environment := session.environment.insert p.1 (textOf session p.2) }) session

/-- What the shell itself knows, as it was before; the store stays as it is now. -/
def Session.restore (before after : Session) : Session :=
  { after with
    directory := before.directory, environment := before.environment, isOver := before.isOver }

namespace Command

/-- **One command.** -/
def run (channels : Channels) (session : Session) : Command → Session
  | .nothing => session.ending 0
  | .simple settings words redirections =>
    let words := words.flatMap (expand session)
    match redirectAll session channels redirections with
    | (session, none) => session.ending misuse
    | (session, some channels) =>
      match words with
      | [] => (set session settings).ending 0
      | name :: arguments => runProgram channels session name arguments
  | .redirected body redirections =>
    match redirectAll session channels redirections with
    | (session, none) => session.ending misuse
    | (session, some channels) => body.run channels session
  | .apart body => session.restore (body.run channels session)
  | .sequence first second =>
    let session := first.run channels session
    if session.isOver then session else second.run channels session
  | .both first second =>
    let session := first.run channels session
    if session.isOver || session.status ≠ 0 then session else second.run channels session
  | .either first second =>
    let session := first.run channels session
    if session.isOver || session.status = 0 then session else second.run channels session
  | .negated body =>
    let session := body.run channels session
    if session.isOver then session
    else session.ending (if session.status = 0 then 1 else 0)
  | .pipe first second =>
    let before := { session with piped := .empty }
    let between := before.restore (first.run { channels with output := .pipe } before)
    let after := second.run { channels with input := between.piped }
      { between with piped := session.piped }
    session.restore after
  | .choice condition first second =>
    let session := condition.run channels session
    if session.isOver then session
    else if session.status = 0 then first.run channels session
    else second.run channels session

end Command

/-- Commands one after another, up to the end of the script. -/
def runAll (session : Session) : List Command → Session
  | [] => session
  | command :: rest =>
    let session := command.run {} session
    if session.isOver then session else runAll session rest

/-- **A script.** If its end cannot be read, it ends there as misuse. -/
def run (script : String) (store : Store) : Store × Nat :=
  let (commands, isWhole) := lines script
  let session := runAll { store } commands
  (session.store, if isWhole || session.isOver then session.status else misuse)

end TokenSheets.ShellScript

namespace TokenSheets

/-- **The commands of a build are scripts.** A null character cannot be handed over. -/
def Shell.standard : Shell where
  run script store :=
    if script.toList.contains '\x00' then (store, .notStarted "nul byte found in provided data")
    else
      let (store, status) := ShellScript.run script store
      (store, .exited status)

end TokenSheets
