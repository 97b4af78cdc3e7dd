import TokenSheets.Store.Basic
import TokenSheets.Text.Utf8

/-!
# Listings: what is in a store, in order

Every file with its text and every directory, named by its path from the root; the path of a
directory ends in a slash. Rows are in the order of their paths.
-/

namespace TokenSheets.Store

/-- A row of a listing: a path, and the text of a file. -/
abbrev Row := String × Option String

/-- The row of what is at a location. -/
def row (location : Location) (entry : Entry) : Row :=
  let path := "/".intercalate location
  match entry with
  | .file content => (path, some (Text.ofBytes content))
  | .directory => (path ++ "/", none)

/-- **All rows**, by path. -/
def listing (store : Store) : List Row :=
  (store.entries.map fun p => row p.1 p.2).mergeSort fun a b => a.1 ≤ b.1

end TokenSheets.Store
