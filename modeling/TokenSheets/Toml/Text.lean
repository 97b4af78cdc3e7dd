import TokenSheets.Toml.Scalar

/-!
# Strings of TOML

Strings in double quotes know escapes, those in single quotes do not. Three quotes open a string of
several lines; a line break right behind them is dropped. A carriage return may only stand in front
of a line feed, and both together count as a line feed.

Each reader takes the text behind the opening quotes, and gives the content and what follows the
closing quotes.
-/

namespace TokenSheets.Toml

/-- Blanks within a line. -/
def isSpace (c : Char) : Bool := c = ' ' || c = '\t'

/-- A character that may stand in a comment or a string: no control character but the tab. -/
def isPrintable (c : Char) : Bool := c = '\t' || (0x20 ≤ c.toNat && c.toNat ≠ 0x7F)

/-- Puts a character in front of the content. -/
def withChar (c : Char) : Option (List Char × List Char) → Option (List Char × List Char) :=
  Option.map fun (content, rest) => (c :: content, rest)

/-- The character of hexadecimal digits, if there is one of that code. -/
def codeChar? (digits : List Char) : Option Char :=
  let code := digits.foldl (fun n d => n * 16 + digitValue d) 0
  if digits.all isHexDigit ∧ (code < 0xD800 ∨ (0xDFFF < code ∧ code < 0x110000)) then
    some (Char.ofNat code)
  else none

/-- The character behind a backslash, apart from those that are given by their code. -/
def unescape? (c : Char) : Option Char :=
  if c = 'b' then some '\x08'
  else if c = 't' then some '\t'
  else if c = 'n' then some '\n'
  else if c = 'f' then some '\x0c'
  else if c = 'r' then some '\r'
  else if c = '"' ∨ c = '\\' then some c
  else none

/-- The text behind the backslash of an escape: its character and what follows it. -/
def escape? : List Char → Option (Char × List Char)
  | 'u' :: rest =>
    if rest.length < 4 then none else (codeChar? (rest.take 4)).map (·, rest.drop 4)
  | 'U' :: rest =>
    if rest.length < 8 then none else (codeChar? (rest.take 8)).map (·, rest.drop 8)
  | c :: rest => (unescape? c).map (·, rest)
  | [] => none

/-- A string of one line in double quotes; `fuel` bounds its length. -/
def basicLine : Nat → List Char → Option (List Char × List Char)
  | 0, _ => none
  | _ + 1, [] => none
  | _ + 1, '"' :: rest => some ([], rest)
  | fuel + 1, '\\' :: rest => do
    let (c, rest) ← escape? rest
    withChar c (basicLine fuel rest)
  | fuel + 1, c :: rest => if isPrintable c then withChar c (basicLine fuel rest) else none

/-- A string of one line in single quotes. -/
def literalLine : List Char → Option (List Char × List Char)
  | [] => none
  | '\'' :: rest => some ([], rest)
  | c :: rest => if isPrintable c then withChar c (literalLine rest) else none

/-- A run of quotes inside a string of several lines. Three or more close it, and at most two more
belong to the content. The content at the end of the string and what follows, or nothing if the
string goes on. -/
def closing? (quote : Char) (cs : List Char) : Option (List Char × List Char) :=
  let run := cs.takeWhile (· = quote)
  if run.length < 3 then none
  else
    let inside := min (run.length - 3) 2
    some (List.replicate inside quote, cs.drop (inside + 3))

/-- The text without blanks and line breaks at its front. -/
def dropBreaks : List Char → List Char
  | '\n' :: rest => dropBreaks rest
  | '\r' :: '\n' :: rest => dropBreaks rest
  | c :: rest => if isSpace c then dropBreaks rest else c :: rest
  | [] => []

/-- The text behind a backslash at the end of a line, from the next character on that is no
blank. -/
def continued? (cs : List Char) : Option (List Char) :=
  match cs.dropWhile isSpace with
  | '\n' :: rest => some (dropBreaks rest)
  | '\r' :: '\n' :: rest => some (dropBreaks rest)
  | _ => none

/-- A string of several lines; `fuel` bounds its length. -/
def lines (quote : Char) (escapes : Bool) : Nat → List Char → Option (List Char × List Char)
  | 0, _ => none
  | _ + 1, [] => none
  | fuel + 1, c :: rest =>
    if c = quote then
      match closing? quote (c :: rest) with
      | some ended => some ended
      | none => withChar c (lines quote escapes fuel rest)
    else if c = '\\' ∧ escapes then
      match continued? rest with
      | some rest => lines quote escapes fuel rest
      | none => do
        let (c, rest) ← escape? rest
        withChar c (lines quote escapes fuel rest)
    else if c = '\n' then withChar c (lines quote escapes fuel rest)
    else if c = '\r' then
      match rest with
      | '\n' :: rest => withChar '\n' (lines quote escapes fuel rest)
      | _ => none
    else if isPrintable c then withChar c (lines quote escapes fuel rest)
    else none

/-- The text without a line break at its front. -/
def dropBreak : List Char → List Char
  | '\n' :: rest => rest
  | '\r' :: '\n' :: rest => rest
  | cs => cs

/-- A string of one line, for keys and values. -/
def line? : List Char → Option (List Char × List Char)
  | '"' :: rest => basicLine (rest.length + 1) rest
  | '\'' :: rest => literalLine rest
  | _ => none

/-- **A string** with its quotes: its content and what follows it. -/
def string? : List Char → Option (List Char × List Char)
  | '"' :: '"' :: '"' :: rest => lines '"' true (rest.length + 1) (dropBreak rest)
  | '\'' :: '\'' :: '\'' :: rest => lines '\'' false (rest.length + 1) (dropBreak rest)
  | cs => line? cs

end TokenSheets.Toml
