/-!
# Words: where a name is divided

An ASCII name is divided at hyphens, underscores and spaces, which are dropped, and between two
characters where a lower-case letter, an upper-case letter and a digit meet in the ways that
`meets` lists. In a run of upper-case letters the last one belongs to the word behind it if a
lower-case letter follows. Words without characters are dropped.
-/

namespace TokenSheets.Name

/-- The character divides words and belongs to none. -/
def isSeparator (c : Char) : Bool := c = '-' || c = '_' || c = ' '

/-- A word ends between `a` and `b`. -/
def meets (a b : Char) : Bool :=
  (a.isLower && b.isUpper) || (a.isUpper && b.isDigit) || (a.isDigit && b.isUpper) ||
    (a.isDigit && b.isLower) || (a.isLower && b.isDigit)

/-- A word ends between `a` and `b`, the last two capitals of a run, before the lower-case `c`. -/
def endsRun (a b c : Char) : Bool := a.isUpper && b.isUpper && c.isLower

/-- A word ends in front of `b`: `a` is the character before it, `next` the text behind it. -/
def dividesBefore (a : Option Char) (b : Char) (next : List Char) : Bool :=
  match a, next with
  | some a, c :: _ => meets a b || endsRun a b c
  | some a, [] => meets a b
  | none, _ => false

/-- The pieces of a text: `before` is the character in front of it, `word` the beginning of the
piece at which it starts, the last character first. -/
def pieces (before : Option Char) (word : List Char) : List Char → List (List Char)
  | [] => [word.reverse]
  | c :: rest =>
    if isSeparator c then word.reverse :: pieces (some c) [] rest
    else if dividesBefore before c rest then word.reverse :: pieces (some c) [c] rest
    else pieces (some c) (c :: word) rest

/-- **The words of a name.** -/
def words (cs : List Char) : List (List Char) := (pieces none [] cs).filter fun word => word ≠ []

end TokenSheets.Name
