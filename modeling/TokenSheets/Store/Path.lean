import TokenSheets.Text.Split

/-!
# Paths

A path is kept as it is written, since messages show it. What it means are its segments: the names
between the slashes, with empty ones and single points left out. They are followed from the working
directory on, which is the root of the file system: a slash in front changes nothing then, and two
points at the root lead nowhere.

* `Path.join`: a path below another one;
* `Path.segments`: the names to follow from the working directory on.
-/

namespace TokenSheets

/-- A path as it is written. -/
structure Path where
  text : String
deriving DecidableEq, Repr, Inhabited

namespace Path

/-- The pieces between slashes, as they are written. -/
def pieces (path : Path) : List String :=
  (Text.splitAt '/' path.text.toList).map String.ofList

/-- **The names to follow.** -/
def segments (path : Path) : List String :=
  path.pieces.filter fun piece => piece ≠ "" ∧ piece ≠ "."

/-- The path begins at the root. -/
def isAbsolute (path : Path) : Bool := path.text.toList.head? = some '/'

/-- **The path of `name` below `directory`.** One slash stands between them; an absolute name stands
alone. -/
def join (directory : Path) (name : String) : Path :=
  if (Path.mk name).isAbsolute ∨ directory.text = "" then ⟨name⟩
  else if directory.text.toList.getLast? = some '/' then ⟨directory.text ++ name⟩
  else ⟨directory.text ++ "/" ++ name⟩

/-- The last piece as it is written; a slash at the end leaves an empty one. -/
def lastPiece (path : Path) : String := (path.pieces.getLast?).getD ""

/-- The path can only mean a directory: it ends in a slash or in a point. -/
def meansDirectory (path : Path) : Bool := path.lastPiece = "" || path.lastPiece = "."

/-- The path ends in a point, apart from slashes behind it. -/
def endsInPoint (path : Path) : Bool :=
  (path.pieces.filter fun piece => piece ≠ "").getLast? = some "."

end Path

end TokenSheets
