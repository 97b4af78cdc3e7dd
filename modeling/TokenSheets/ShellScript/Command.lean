import TokenSheets.ShellScript.Word

/-!
# Commands

A line of a script is a command, as far as `sh` is read here: simple ones, joined by `;`, `&&`,
`||`, `|` and `!`, grouped by braces or parentheses, or chosen by `if`. Lines are read one by one,
so a line that is no command is found only after the lines in front of it have run.

* `Command`: what a line means;
* `lines`: the commands of a script, and whether its end could be read.
-/

namespace TokenSheets.ShellScript

/-- What a redirection does with its channel. -/
inductive Direction where
  | read
  | write
  | append
  /-- The channel becomes another one. -/
  | copy
deriving DecidableEq, Repr

/-- A channel that leads elsewhere. -/
structure Redirection where
  channel : Nat
  direction : Direction
  target : Word
deriving DecidableEq, Repr

/-- A command. -/
inductive Command where
  /-- Settings of variables, then the name of a program and its arguments. -/
  | simple (settings : List (String × Word)) (words : List Word) (redirections : List Redirection)
  /-- A command whose channels lead elsewhere. -/
  | redirected (body : Command) (redirections : List Redirection)
  /-- A command whose changes to the shell itself are forgotten. -/
  | apart (body : Command)
  | sequence (first second : Command)
  /-- The second command runs if the first succeeds. -/
  | both (first second : Command)
  /-- The second command runs if the first fails. -/
  | either (first second : Command)
  | negated (body : Command)
  /-- What the first command writes is what the second reads. -/
  | pipe (first second : Command)
  | choice (condition first second : Command)
  /-- Nothing at all, which succeeds. -/
  | nothing
deriving Repr

/-! ### Reading commands -/

/-- The lexeme is a word that has a meaning of its own where a command begins. -/
def isReserved (text : String) (lexeme : Lexeme) : Bool := lexeme = .word [.bare text]

/-- The words at which a list of commands ends. -/
def closers : List String := ["\x7d", "then", "elif", "else", "fi"]

/-- The lexemes without line ends at their front. -/
def dropLines (lexemes : List Lexeme) : List Lexeme := lexemes.dropWhile (· = .operator "\n")

/-- The direction of an operator. -/
def direction? (text : String) : Option Direction :=
  if text = ">" ∨ text = ">|" then some .write
  else if text = ">>" then some .append
  else if text = "<" then some .read
  else if text = ">&" ∨ text = "<&" then some .copy
  else none

/-- A redirection with its operator. -/
def redirectionOf? (channel : Option Nat) (text : String) (target : Word) : Option Redirection :=
  (direction? text).map fun direction =>
    ⟨channel.getD (if text.toList.head? = some '<' then 0 else 1), direction, target⟩

/-- Redirections behind a command. -/
def redirectionsFrom : List Lexeme → Option (List Redirection × List Lexeme)
  | .redirection channel text :: .word target :: rest => do
    let redirection ← redirectionOf? channel text target
    let (redirections, rest) ← redirectionsFrom rest
    return (redirection :: redirections, rest)
  | .redirection .. :: _ => none
  | rest => some ([], rest)

/-- The setting of a variable that a word is. -/
def setting? (word : Word) : Option (String × Word) :=
  match word with
  | .bare text :: parts =>
    let name := text.toList.takeWhile (· ≠ '=')
    match text.toList.dropWhile (· ≠ '=') with
    | _ :: value =>
      if isName name then
        let front : Word := if value = [] then [] else [.bare (String.ofList value)]
        some (String.ofList name, front ++ parts)
      else none
    | [] => none
  | _ => none

/-- The parts of a simple command up to its end. -/
def simpleFrom (settings : List (String × Word)) (words : List Word)
    (redirections : List Redirection) : List Lexeme → Option (Command × List Lexeme)
  | .word word :: rest =>
    match words, setting? word with
    | [], some setting => simpleFrom (settings ++ [setting]) [] redirections rest
    | words, _ => simpleFrom settings (words ++ [word]) redirections rest
  | .redirection channel text :: .word target :: rest =>
    match redirectionOf? channel text target with
    | some redirection => simpleFrom settings words (redirections ++ [redirection]) rest
    | none => none
  | .redirection .. :: _ => none
  | rest =>
    if settings = [] ∧ words = [] ∧ redirections = [] then none
    else some (.simple settings words redirections, rest)

/-- What must come next. -/
def expect (lexeme : Lexeme) : List Lexeme → Option (List Lexeme)
  | first :: rest => if first = lexeme then some rest else none
  | [] => none

mutual

/-- One command with its redirections. -/
def commandFrom : Nat → List Lexeme → Option (Command × List Lexeme)
  | 0, _ => none
  | fuel + 1, lexemes =>
    match lexemes with
    | [] => none
    | lexeme :: rest =>
      if lexeme = .operator "(" then do
        let (body, rest) ← listFrom fuel (dropLines rest)
        let (redirections, rest) ← redirectionsFrom (← expect (.operator ")") rest)
        return (.redirected (.apart body) redirections, rest)
      else if isReserved "\x7b" lexeme then do
        let (body, rest) ← listFrom fuel (dropLines rest)
        let (redirections, rest) ← redirectionsFrom (← expect (.word [.bare "\x7d"]) rest)
        return (.redirected body redirections, rest)
      else if isReserved "if" lexeme then do
        let (body, rest) ← choiceFrom fuel rest
        let (redirections, rest) ← redirectionsFrom rest
        return (.redirected body redirections, rest)
      else if closers.any (isReserved · lexeme) then none
      else simpleFrom [] [] [] lexemes

/-- What follows `if` or `elif`, up to `fi`. -/
def choiceFrom : Nat → List Lexeme → Option (Command × List Lexeme)
  | 0, _ => none
  | fuel + 1, lexemes => do
    let (condition, rest) ← listFrom fuel (dropLines lexemes)
    let (first, rest) ← listFrom fuel (dropLines (← expect (.word [.bare "then"]) rest))
    match rest with
    | lexeme :: rest =>
      if isReserved "fi" lexeme then return (.choice condition first .nothing, rest)
      else if isReserved "elif" lexeme then
        let (second, rest) ← choiceFrom fuel rest
        return (.choice condition first second, rest)
      else if isReserved "else" lexeme then
        let (second, rest) ← listFrom fuel (dropLines rest)
        return (.choice condition first second, ← expect (.word [.bare "fi"]) rest)
      else none
    | [] => none

/-- Commands joined by pipes, perhaps negated. -/
def pipelineFrom : Nat → List Lexeme → Option (Command × List Lexeme)
  | 0, _ => none
  | fuel + 1, lexemes =>
    match lexemes with
    | .word [.bare "!"] :: rest => do
      let (body, rest) ← pipelineFrom fuel rest
      return (.negated body, rest)
    | _ => do
      let (first, rest) ← commandFrom fuel lexemes
      match rest with
      | .operator "|" :: rest =>
        let (second, rest) ← pipelineFrom fuel (dropLines rest)
        return (.pipe first second, rest)
      | _ => return (first, rest)

/-- Pipelines joined by `&&` and `||`, which bind alike from the left; `before` takes what is read
so far. -/
def conditionalFrom : Nat → (Command → Command) → List Lexeme → Option (Command × List Lexeme)
  | 0, _, _ => none
  | fuel + 1, before, lexemes => do
    let (body, rest) ← pipelineFrom fuel lexemes
    match rest with
    | .operator "&&" :: rest => conditionalFrom fuel (.both (before body)) (dropLines rest)
    | .operator "||" :: rest => conditionalFrom fuel (.either (before body)) (dropLines rest)
    | _ => return (before body, rest)

/-- Commands up to a closing word or the end. -/
def listFrom : Nat → List Lexeme → Option (Command × List Lexeme)
  | 0, _ => none
  | fuel + 1, lexemes => do
    let (first, rest) ← conditionalFrom fuel id lexemes
    match rest with
    | .operator text :: rest =>
      if text = ";" ∨ text = "\n" then
        match dropLines rest with
        | [] => return (first, [])
        | lexeme :: more =>
          if lexeme = .operator ")" ∨ closers.any (isReserved · lexeme) then
            return (first, lexeme :: more)
          else
            let (second, rest) ← listFrom fuel (lexeme :: more)
            return (.sequence first second, rest)
      else return (first, .operator text :: rest)
    | rest => return (first, rest)

/-- Commands up to the end of a line. -/
def lineFrom : Nat → List Lexeme → Option (Command × List Lexeme)
  | 0, _ => none
  | fuel + 1, lexemes => do
    let (first, rest) ← conditionalFrom fuel id lexemes
    match rest with
    | [] => return (first, [])
    | .operator "\n" :: rest => return (first, rest)
    | [.operator ";"] => return (first, [])
    | .operator ";" :: .operator "\n" :: rest => return (first, rest)
    | .operator ";" :: rest =>
      let (second, rest) ← lineFrom fuel rest
      return (.sequence first second, rest)
    | _ => none

end

/-- The lines of a script, and whether its end could be read; `fuel` bounds their number. -/
def linesFrom : Nat → List Lexeme → List Command × Bool
  | 0, _ => ([], false)
  | fuel + 1, lexemes =>
    match dropLines lexemes with
    | [] => ([], true)
    | lexeme :: rest =>
      match lineFrom (8 * (rest.length + 2)) (lexeme :: rest) with
      | some (command, rest) =>
        let (commands, isWhole) := linesFrom fuel rest
        (command :: commands, isWhole)
      | none => ([], false)

/-- **The commands of a script**, line by line, and whether its end could be read. -/
def lines (script : String) : List Command × Bool :=
  let lexemes := lexemes script
  linesFrom (lexemes.length + 1) lexemes

end TokenSheets.ShellScript
