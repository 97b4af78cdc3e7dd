import TokenSheets.Text.Lowercase
import TokenSheets.Text.Split

/-!
# Names of namespaces

The key of a namespace may place it below others, as in `Mobile/Button`; its name is the last piece
in lower case. The name becomes a directory, so it must be one ordinary component of a path.
-/

namespace TokenSheets.Namespace

/-- **The name** of the namespace with this key. -/
def nameOf (key : String) : String :=
  Text.lowercase (String.ofList (Text.lastPiece '/' key.toList))

/-- **A name that a directory can have**: not empty, neither a point nor two, without slashes of
either kind. -/
def isDirectoryName (name : String) : Bool :=
  name ≠ "" && name ≠ "." && name ≠ ".." && !name.toList.contains '/' && !name.toList.contains '\\'

end TokenSheets.Namespace
