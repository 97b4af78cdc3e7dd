import TokenSheets.Entries

/-!
# JSON values

A number is a whole number of 64 bits or a double; the members of an object stand in the order of
the document. Objects that are read have no key twice.
-/

namespace TokenSheets

/-- A JSON value. -/
inductive Json where
  | null
  | bool (b : Bool)
  /-- A number without fraction and exponent that fits 64 bits, signed or unsigned. -/
  | whole (n : Int)
  /-- Any other number. -/
  | double (x : Float)
  | text (s : String)
  | list (items : List Json)
  | object (members : List (String × Json))
deriving Inhabited

namespace Json

/-- The string that a value is, if it is one. -/
def text? : Json → Option String
  | .text s => some s
  | _ => none

@[simp] theorem text?_text (s : String) : (Json.text s).text? = some s := rfl

end Json

/-- Why a text is not the JSON that was asked for. -/
inductive JsonError where
  /-- The text breaks the grammar. -/
  | malformed
  /-- The text ends inside a value. -/
  | truncated
  /-- The text is JSON of another type. -/
  | mismatch
deriving DecidableEq, Repr

end TokenSheets
