import TokenSheets.Entries

/-!
# TOML values and the tables of a document

`Toml` is a finished value. While a document is read its tables are `Item`s, which remember how they
came to be: by a header of their own, on the way to the table of another header, or by a dotted key.
`Origin` decides what may still be added to a table.

* `within`: a change inside a table that keys lead to;
* `addHeader`, `addHeaderToList`, `addPair`: what the lines of a document do.
-/

namespace TokenSheets

/-- A TOML value. -/
inductive Toml where
  | text (s : String)
  | whole (n : Int)
  | float (x : Float)
  | bool (b : Bool)
  /-- A date, a time or both. -/
  | moment
  | list (items : List Toml)
  | table (members : List (String × Toml))
deriving Inhabited

namespace Toml

/-- How a table came to be. -/
inductive Origin where
  /-- By a header of its own, or as the whole document. -/
  | header
  /-- On the way to the table of a header. -/
  | passed
  /-- By a dotted key. -/
  | dotted
deriving DecidableEq, Repr

/-- What a key leads to while a document is read. -/
inductive Item where
  | value (value : Toml)
  | table (origin : Origin) (members : List (String × Item))
  /-- A list of tables, the last one first. -/
  | tables (tables : List (List (String × Item)))
deriving Inhabited

/-- The members of a table while a document is read. -/
abbrev Members := Entries String Item

/-- **A change inside the table that keys lead to.** Tables that are missing are made, with `origin`
as theirs; of a list of tables the last one is meant. A dotted key does not lead into a table that
has a header of its own. `change` is told the origin of the table that it changes. -/
def within (origin : Origin) (change : Origin → Members → Option Members) :
    List String → Origin → Members → Option Members
  | [], here, members => change here members
  | key :: rest, _, members =>
    match members.get? key with
    | none => do
      let inner ← within origin change rest origin []
      return members.insert key (.table origin inner)
    | some (.value _) => none
    | some (.table here inner) =>
      if origin = .dotted ∧ here = .header then none
      else do
        let inner ← within origin change rest here inner
        return members.insert key (.table here inner)
    | some (.tables []) => none
    | some (.tables (last :: before)) => do
      let inner ← within origin change rest .header last
      return members.insert key (.tables (inner :: before))

/-- Opens the table of a header in the table above it. A table that was only passed so far is moved
to the end. -/
def openTable (key : String) (_ : Origin) (members : Members) : Option Members :=
  match members.get? key with
  | none => some (members.insert key (.table .header []))
  | some (.table .passed inner) =>
    some (Entries.insert key (.table .header inner) (members.erase key))
  | some _ => none

/-- Opens one more table of a list in the table above it. -/
def openListed (key : String) (_ : Origin) (members : Members) : Option Members :=
  match members.get? key with
  | none => some (members.insert key (.tables [[]]))
  | some (.tables tables) => some (members.insert key (.tables ([] :: tables)))
  | some _ => none

/-- Adds a value that no key leads to yet. The table must have been made for dotted keys if the key
is dotted, and must not if it is not. -/
def addValue (dotted : Bool) (key : String) (value : Toml) (here : Origin) (members : Members) :
    Option Members :=
  if dotted ≠ (here = .dotted) then none
  else
    match members.get? key with
    | none => some (members.insert key (.value value))
    | some _ => none

/-- Adds a value under a dotted key. -/
def addDotted (path : List String) (key : String) (value : Toml) (here : Origin)
    (members : Members) : Option Members :=
  within .dotted (addValue (path ≠ []) key value) path here members

/-- Changes the table above the last key of a header. -/
def addHeaderWith (change : String → Origin → Members → Option Members) (path : List String)
    (members : Members) : Option Members := do
  let key ← path.getLast?
  within .passed (change key) path.dropLast .header members

/-- **A header** `[path]`. -/
def addHeader (path : List String) (members : Members) : Option Members :=
  addHeaderWith openTable path members

/-- **A header** `[[path]]`. -/
def addHeaderToList (path : List String) (members : Members) : Option Members :=
  addHeaderWith openListed path members

/-- **A pair** in the table of the header `current`. -/
def addPair (current path : List String) (value : Toml) (members : Members) : Option Members := do
  let key ← path.getLast?
  within .passed (addDotted path.dropLast key value) current .header members

mutual

/-- The finished value of an item. -/
def Item.finish : Item → Toml
  | .value value => value
  | .table _ members => .table (finishMembers members)
  | .tables tables => .list (finishTables tables).reverse

/-- The finished members of a table. -/
def finishMembers : List (String × Item) → List (String × Toml)
  | [] => []
  | (key, item) :: rest => (key, item.finish) :: finishMembers rest

/-- The finished tables of a list. -/
def finishTables : List (List (String × Item)) → List Toml
  | [] => []
  | members :: rest => .table (finishMembers members) :: finishTables rest

end

end Toml

end TokenSheets
