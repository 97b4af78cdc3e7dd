import TokenSheets.Toml.Text

/-!
# Reading TOML

A document is a sequence of lines: headers, pairs of a key and a value, comments and blank lines.
Lists may run over several lines, tables in braces may not. Lists and tables are nested at most
`maxDepth` deep, and a dotted key has fewer than `maxKeys` parts.

* `key?`: a dotted key;
* `value?`: any value;
* `read?`: a whole document.
-/

namespace TokenSheets.Toml

/-- How deep lists and tables in braces may be nested. -/
def maxDepth : Nat := 79

/-- A dotted key has fewer parts. -/
def maxKeys : Nat := 80

/-! ### Blanks and comments -/

/-- The text without blanks of a line at its front. -/
def dropSpaces (cs : List Char) : List Char := cs.dropWhile isSpace

/-- The text without a comment at its front. -/
def dropComment : List Char → List Char
  | '#' :: rest => rest.dropWhile isPrintable
  | cs => cs

/-- What follows the end of a line; nothing does at the end of the text. -/
def endLine? : List Char → Option (List Char)
  | [] => some []
  | '\n' :: rest => some rest
  | '\r' :: '\n' :: rest => some rest
  | _ => none

/-- What follows the rest of a line: blanks, perhaps a comment, and the end. -/
def finishLine? (cs : List Char) : Option (List Char) := endLine? (dropComment (dropSpaces cs))

/-- The text without blanks, comments and line breaks at its front; `fuel` bounds their number. A
comment must end in a line break. -/
def dropFiller : Nat → List Char → Option (List Char)
  | 0, cs => some cs
  | fuel + 1, cs =>
    match dropSpaces cs with
    | '#' :: rest =>
      match rest.dropWhile isPrintable with
      | '\n' :: rest => dropFiller fuel rest
      | '\r' :: '\n' :: rest => dropFiller fuel rest
      | _ => none
    | '\n' :: rest => dropFiller fuel rest
    | '\r' :: '\n' :: rest => dropFiller fuel rest
    | cs => some cs

/-- The text without blanks, comments and line breaks at its front. -/
def skipFiller? (cs : List Char) : Option (List Char) := dropFiller cs.length cs

/-! ### Keys -/

/-- A character of a key without quotes. -/
def isKeyChar (c : Char) : Bool := c.isAlphanum || c = '_' || c = '-'

/-- One part of a key: its name and what follows it. -/
def keyPart? (cs : List Char) : Option (String × List Char) :=
  match cs with
  | '"' :: _ => (line? cs).map fun (name, rest) => (String.ofList name, rest)
  | '\'' :: _ => (line? cs).map fun (name, rest) => (String.ofList name, rest)
  | _ =>
    let name := cs.takeWhile isKeyChar
    if name = [] then none else some (String.ofList name, cs.dropWhile isKeyChar)

/-- The parts of a key with points between them; `fuel` bounds their number. -/
def keyParts? : Nat → List Char → Option (List String × List Char)
  | 0, _ => none
  | fuel + 1, cs => do
    let (name, rest) ← keyPart? (dropSpaces cs)
    match dropSpaces rest with
    | '.' :: rest =>
      let (names, rest) ← keyParts? fuel rest
      return (name :: names, rest)
    | rest => return ([name], rest)

/-- **A dotted key** with the blanks around it. -/
def key? (cs : List Char) : Option (List String × List Char) := keyParts? (maxKeys - 1) cs

/-! ### Values -/

/-- A character that ends a run of characters. -/
def endsRun (c : Char) : Bool :=
  isSpace c || c = '\n' || c = '\r' || c = ',' || c = ']' || c = '\x7d' || c = '#'

/-- A run of characters, and what follows it. A date and a time may have a space between them. -/
def run (cs : List Char) : List Char × List Char :=
  let front := cs.takeWhile (!endsRun ·)
  let rest := cs.dropWhile (!endsRun ·)
  match rest with
  | ' ' :: d :: more =>
    if d.isDigit ∧ date? front = some [] then
      let time := (d :: more).takeWhile (!endsRun ·)
      (front ++ ' ' :: time, (d :: more).dropWhile (!endsRun ·))
    else (front, rest)
  | _ => (front, rest)

mutual

/-- A value: what it is and what follows it. -/
def valueAt (depth : Nat) (cs : List Char) : Option (Toml × List Char) :=
  match cs, depth with
  | '[' :: _, 0 => none
  | '\x7b' :: _, 0 => none
  | '[' :: rest, depth + 1 => do
    let (items, rest) ← items depth rest.length rest
    return (.list items, rest)
  | '\x7b' :: rest, depth + 1 =>
    match dropSpaces rest with
    | '\x7d' :: rest => some (.table [], rest)
    | rest => do
      let (members, rest) ← pairs depth rest.length [] rest
      return (.table (finishMembers members), rest)
  | '"' :: _, _ => (string? cs).map fun (content, rest) => (.text (String.ofList content), rest)
  | '\'' :: _, _ => (string? cs).map fun (content, rest) => (.text (String.ofList content), rest)
  | _, _ =>
    let (front, rest) := run cs
    (scalar? front).map (·, rest)
termination_by (depth, 0)

/-- The items of a list up to its end; `fuel` bounds their number. A comma may stand behind the last
one. -/
def items (depth : Nat) (fuel : Nat) (cs : List Char) : Option (List Toml × List Char) :=
  match fuel with
  | 0 => none
  | fuel + 1 => do
    match ← skipFiller? cs with
    | ']' :: rest => return ([], rest)
    | cs =>
      let (value, rest) ← valueAt depth cs
      match ← skipFiller? rest with
      | ']' :: rest => return ([value], rest)
      | ',' :: rest =>
        let (values, rest) ← items depth fuel rest
        return (value :: values, rest)
      | _ => none
termination_by (depth, fuel + 1)

/-- The pairs of a table in braces up to its end; `fuel` bounds their number. -/
def pairs (depth : Nat) (fuel : Nat) (members : Members) (cs : List Char) :
    Option (Members × List Char) :=
  match fuel with
  | 0 => none
  | fuel + 1 => do
    let (path, rest) ← key? cs
    let rest ← after? '=' rest
    let (value, rest) ← valueAt depth (dropSpaces rest)
    let members ← addDotted path.dropLast (path.getLast?.getD "") value .header members
    match dropSpaces rest with
    | '\x7d' :: rest => return (members, rest)
    | ',' :: rest => pairs depth fuel members rest
    | _ => none
termination_by (depth, fuel + 1)

end

/-- **A value** and what follows it. -/
def value? (cs : List Char) : Option (Toml × List Char) := valueAt maxDepth cs

/-! ### Documents -/

/-- What is read so far: the keys of the last header, and the whole document. -/
structure Progress where
  current : List String := []
  members : Members := []

/-- A line that is a header, and the lines behind it. -/
def headerLine? (progress : Progress) (cs : List Char) : Option (Progress × List Char) :=
  match cs with
  | '[' :: '[' :: rest => do
    let (path, rest) ← key? rest
    let rest ← finishLine? (← after? ']' (← after? ']' rest))
    return (⟨path, ← addHeaderToList path progress.members⟩, rest)
  | '[' :: rest => do
    let (path, rest) ← key? rest
    let rest ← finishLine? (← after? ']' rest)
    return (⟨path, ← addHeader path progress.members⟩, rest)
  | _ => none

/-- A line that is a pair, and the lines behind it. -/
def pairLine? (progress : Progress) (cs : List Char) : Option (Progress × List Char) := do
  let (path, rest) ← key? cs
  let (value, rest) ← value? (dropSpaces (← after? '=' rest))
  let rest ← finishLine? rest
  let members ← addPair progress.current path value progress.members
  return ({ progress with members }, rest)

/-- The lines of a document; `fuel` bounds their number. -/
def lines? : Nat → Progress → List Char → Option Members
  | 0, _, _ => none
  | fuel + 1, progress, cs =>
    match dropSpaces cs with
    | [] => some progress.members
    | '#' :: _ => do lines? fuel progress (← finishLine? cs)
    | '\n' :: rest => lines? fuel progress rest
    | '\r' :: '\n' :: rest => lines? fuel progress rest
    | '[' :: rest => do
      let (progress, rest) ← headerLine? progress ('[' :: rest)
      lines? fuel progress rest
    | cs => do
      let (progress, rest) ← pairLine? progress cs
      lines? fuel progress rest

/-- **Reads a document**, with or without a byte order mark. -/
def read? (text : String) : Option (List (String × Toml)) :=
  let cs := match text.toList with
    | '\uFEFF' :: cs => cs
    | cs => cs
  (lines? (cs.length + 1) {} cs).map finishMembers

end TokenSheets.Toml
