import TokenSheets.Store.Basic

/-!
# Programs that a script can call

A program takes its arguments, what it reads and the store, and comes to what it writes and a
status. Paths of arguments start at the directory in which the script stands. Messages of programs
are not written anywhere. Only a few programs are here, with the options that are named below; any
other name is a command that cannot be found.

* `Program.named?`: the program of a name.
-/

namespace TokenSheets.ShellScript

/-- What a program is given. -/
structure Call where
  /-- The directory of the script. -/
  directory : Location
  arguments : List String
  input : ByteArray

/-- What a program comes to. -/
structure Ending where
  store : Store
  output : ByteArray := .empty
  status : Nat := 0

/-- A program. -/
abbrev Program := Call → Store → Ending

namespace Call

/-- The path that an argument means. -/
def path (call : Call) (text : String) : Path :=
  let path : Path := ⟨text⟩
  if path.isAbsolute ∨ text = "" ∨ call.directory = [] then path
  else ⟨"/".intercalate call.directory ++ "/" ++ text⟩

/-- The arguments that are no options, and the letters of those that are. -/
def split (call : Call) : List String × List Char :=
  let isOption (text : String) : Bool := text.toList.head? = some '-' && text ≠ "-"
  (call.arguments.filter (!isOption ·), (call.arguments.filter isOption).flatMap (·.toList.drop 1))

end Call

namespace Program

/-- A change that the store allows or refuses, made for each of several paths. -/
def forEach (change : Store → String → Except PathFault Store) (texts : List String)
    (store : Store) : Ending :=
  texts.foldl (fun ending text =>
    match change ending.store text with
    | .ok store => { ending with store }
    | .error _ => { ending with status := 1 }) { store }

/-- The last name of a path. -/
def baseName (text : String) : String := ((Path.mk text).segments.getLast?).getD ""

/-- Where something of a name goes: into the directory that is meant, or to the path itself. -/
def destination (store : Store) (path : Path) (name : String) : Path :=
  match store.directory path with
  | .ok _ => path.join name
  | .error _ => path

/-- What lies at a location and below it, at another location. -/
def moved (store : Store) (source target : Location) : List (Location × Entry) :=
  store.entries.filterMap fun p =>
    if source.isPrefixOf p.1 then some (target ++ p.1.drop source.length, p.2) else none

/-- The location of a path whose last name need not be there. -/
def location (store : Store) (path : Path) : Except PathFault Location := do
  match ← store.locate path with
  | .here location => return location
  | .child directory name => return directory ++ [name]

/-- Copies a file, or with `deep` a directory with all that is in it. -/
def copy (deep : Bool) (call : Call) (target : String) (store : Store) (text : String) :
    Except PathFault Store := do
  let source := call.path text
  let target := destination store (call.path target) (baseName text)
  match store.directory source with
  | .ok origin =>
    if !deep then throw .isDirectory
    let place ← location store target
    if origin.isPrefixOf place then throw .invalidArgument
    return (moved store origin place).foldl (fun store p => store.put p.1 p.2) store
  | .error _ =>
    let content ← store.readFile source
    let origin ← location store source
    if (location store target).toOption = some origin then throw .invalidArgument
    store.writeFile target content

/-- Moves a file or a directory. -/
def move (call : Call) (target : String) (store : Store) (text : String) :
    Except PathFault Store := do
  let source := call.path text
  let target := destination store (call.path target) (baseName text)
  let origin ← location store source
  let place ← location store target
  if origin.isPrefixOf place then throw .invalidArgument
  match store.get? origin with
  | none => throw .notFound
  | some (.file content) => (store.writeFile target content).map (·.remove origin)
  | some .directory =>
    let entries := moved store origin place
    if (store.get? place).isSome then throw .notEmpty
    let store := entries.foldl (fun store p => store.put p.1 p.2) store
    return ⟨store.entries.filter fun p => !origin.isPrefixOf p.1⟩

/-- Runs a change for all arguments but the last, which is where they go. -/
def towards (change : String → Store → String → Except PathFault Store) (operands : List String)
    (store : Store) : Ending :=
  match operands.getLast?, operands.dropLast with
  | some target, first :: rest => forEach (change target) (first :: rest) store
  | _, _ => { store, status := 1 }

/-- Removes a file, or with `deep` a directory with all that is in it. -/
def remove (deep force : Bool) (call : Call) (store : Store) (text : String) :
    Except PathFault Store :=
  let path := call.path text
  match store.removeFile path, store.directory path with
  | .ok store, _ => .ok store
  | .error .isDirectory, .ok location =>
    if deep ∧ location ≠ [] then
      .ok ⟨store.entries.filter fun p => !location.isPrefixOf p.1⟩
    else .error .isDirectory
  | .error .notFound, _ => if force then .ok store else .error .notFound
  | .error fault, _ => .error fault

/-- Makes a directory, or with `parents` those above it as well. -/
def makeDirectory (parents : Bool) (call : Call) (store : Store) (text : String) :
    Except PathFault Store := do
  let path := call.path text
  if parents then
    match store.makeDirectories path with
    | (store, none) => return store
    | (_, some fault) => throw fault
  else
    match ← store.locate path with
    | .here _ => throw .invalidArgument
    | .child directory name =>
      if (store.get? (directory ++ [name])).isSome then throw .invalidArgument
      return store.put (directory ++ [name]) .directory

/-- Makes a file that is not there. -/
def touch (call : Call) (store : Store) (text : String) : Except PathFault Store :=
  let path := call.path text
  if store.isThere path then .ok store else store.writeFile path .empty

/-- The path that always is there, takes everything and holds nothing. -/
def nullPath : String := "/dev/null"

/-- What a file holds. -/
def contentOf (call : Call) (store : Store) (text : String) : Except PathFault ByteArray :=
  if text = nullPath then .ok .empty else store.readFile (call.path text)

/-- Writes files one after another, or what is read if there are none. -/
def concatenate (call : Call) (store : Store) : Ending :=
  if call.arguments = [] then { store, output := call.input }
  else
    call.arguments.foldl (fun ending text =>
      if text = "-" then { ending with output := ending.output ++ call.input }
      else
        match contentOf call store text with
        | .ok content => { ending with output := ending.output ++ content }
        | .error _ => { ending with status := 1 }) { store }

/-! ### Texts -/

/-- The character behind a backslash. -/
def unescape? (c : Char) : Option Char :=
  ([('a', '\x07'), ('b', '\x08'), ('f', '\x0c'), ('n', '\n'), ('r', '\r'), ('t', '\t'),
    ('v', '\x0b'), ('\\', '\\')].find? (·.1 = c)).map (·.2)

/-- A text with its backslashes resolved; `\c` ends all output. -/
def unescape : List Char → List Char × Bool
  | '\\' :: 'c' :: _ => ([], true)
  | '\\' :: c :: rest =>
    let (front, ends) := unescape rest
    match unescape? c with
    | some c => (c :: front, ends)
    | none => ('\\' :: c :: front, ends)
  | c :: rest =>
    let (front, ends) := unescape rest
    (c :: front, ends)
  | [] => ([], false)

/-- Writes its arguments. -/
def echo (call : Call) (store : Store) : Ending :=
  let (isOpen, arguments) := match call.arguments with
    | "-n" :: rest => (true, rest)
    | arguments => (false, arguments)
  let (text, ends) := unescape (" ".intercalate arguments).toList
  { store, output := (String.ofList (if isOpen || ends then text else text ++ ['\n'])).toUTF8 }

/-- A format with its arguments put in; how many of them it took. -/
def fill : List Char → List String → List Char × Nat
  | '%' :: '%' :: rest, arguments =>
    let (text, taken) := fill rest arguments
    ('%' :: text, taken)
  | '%' :: c :: rest, arguments =>
    if c = 's' ∨ c = 'd' then
      let argument := arguments.head?.getD (if c = 's' then "" else "0")
      let (text, taken) := fill rest (arguments.drop 1)
      (argument.toList ++ text, taken + 1)
    else
      let (text, taken) := fill rest arguments
      ('%' :: c :: text, taken)
  | c :: rest, arguments =>
    let (text, taken) := fill rest arguments
    (c :: text, taken)
  | [], _ => ([], 0)

/-- A format, used again for the arguments that are left; `fuel` bounds their number. -/
def fillAll (format : List Char) : Nat → List String → List Char
  | 0, _ => []
  | fuel + 1, arguments =>
    let (text, taken) := fill format arguments
    if taken = 0 ∨ arguments.length ≤ taken then text
    else text ++ fillAll format fuel (arguments.drop taken)

/-- Writes a format. -/
def printFormatted (call : Call) (store : Store) : Ending :=
  match call.arguments with
  | [] => { store, status := 2 }
  | format :: arguments =>
    let (format, _) := unescape format.toList
    { store, output := (String.ofList (fillAll format (arguments.length + 1) arguments)).toUTF8 }

/-! ### Tests -/

/-- What a test of one argument says. -/
def holds? (call : Call) (store : Store) (test argument : String) : Option Bool :=
  let path := call.path argument
  match test with
  | "-n" => some (argument ≠ "")
  | "-z" => some (argument = "")
  | "-e" => some (store.isThere path)
  | "-f" => some (store.readFile path).isOk
  | "-d" => some (store.directory path).isOk
  | "-s" => some (match store.readFile path with
    | .ok content => content.size ≠ 0
    | .error _ => (store.directory path).isOk)
  | _ => none

/-- What a comparison says. -/
def compares? (left test right : String) : Option Bool :=
  match test with
  | "=" => some (left = right)
  | "!=" => some (left ≠ right)
  | _ => do
    let left ← left.toInt?
    let right ← right.toInt?
    match test with
    | "-eq" => some (left = right)
    | "-ne" => some (left ≠ right)
    | "-lt" => some (left < right)
    | "-le" => some (left ≤ right)
    | "-gt" => some (left > right)
    | "-ge" => some (left ≥ right)
    | _ => none

/-- What a condition says. -/
def condition? (call : Call) (store : Store) : List String → Option Bool
  | [] => some false
  | ["!"] => some true
  | [argument] => some (argument ≠ "")
  | [left, test, right] =>
    match compares? left test right with
    | some answer => some answer
    | none => if left = "!" then (holds? call store test right).map (!·) else none
  | "!" :: rest => (condition? call store rest).map (!·)
  | [test, argument] => holds? call store test argument
  | _ => none

/-- Succeeds if a condition holds. -/
def test (call : Call) (store : Store) : Ending :=
  match condition? call store call.arguments with
  | some true => { store }
  | some false => { store, status := 1 }
  | none => { store, status := 2 }

/-- Succeeds if a condition holds; the last argument closes it. -/
def bracket (call : Call) (store : Store) : Ending :=
  if call.arguments.getLast? = some "]" then
    test { call with arguments := call.arguments.dropLast } store
  else { store, status := 2 }

/-! ### All of them -/

/-- **The program of a name.** -/
def named? (name : String) : Option Program :=
  match name with
  | ":" | "true" | "sleep" => some fun _ store => { store }
  | "false" => some fun _ store => { store, status := 1 }
  | "echo" => some echo
  | "printf" => some printFormatted
  | "cat" => some concatenate
  | "test" => some test
  | "[" => some bracket
  | "touch" => some fun call => forEach (touch call) call.split.1
  | "mkdir" => some fun call =>
    let (operands, options) := call.split
    forEach (makeDirectory (options.contains 'p') call) operands
  | "rmdir" => some fun call =>
    forEach (fun store text => store.removeDirectory (call.path text)) call.split.1
  | "rm" => some fun call =>
    let (operands, options) := call.split
    let deep := options.contains 'r' || options.contains 'R'
    forEach (remove deep (options.contains 'f') call) operands
  | "cp" => some fun call =>
    let (operands, options) := call.split
    let deep := options.any "rRa".toList.contains
    towards (copy deep call) operands
  | "mv" => some fun call => towards (move call) call.split.1
  | _ => none

end Program

end TokenSheets.ShellScript
