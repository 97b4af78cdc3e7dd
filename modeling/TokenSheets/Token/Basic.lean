import TokenSheets.Json.Basic

/-!
# Design tokens

A token carries a value, a type and a description. Each of the three may be spelled with a `$` in
front or without it; a description may also be called a comment. Where both spellings are present
the one with the sigil is read. All other members are kept as they are.

* `Token.value`, `Token.kind`, `Token.description`: what is read;
* `Token.normalized`: both spellings of value and type filled from each other;
* `Token.ofJson`, `Token.toJson`: from and to JSON objects. A `null` in one of the seven fields
  counts as its absence.
-/

namespace TokenSheets

/-- A design token. -/
structure Token where
  /-- `$value` -/
  sigilValue : Option Json := none
  /-- `value` -/
  plainValue : Option Json := none
  /-- `$type` -/
  sigilKind : Option String := none
  /-- `type` -/
  plainKind : Option String := none
  /-- `$description` -/
  sigilDescription : Option String := none
  /-- `description` -/
  plainDescription : Option String := none
  /-- `comment` -/
  comment : Option String := none
  /-- All other members. -/
  extra : Entries String Json := []
deriving Inhabited

namespace Token

/-- A token with a value and a type. -/
def ofValue (value : Json) (kind : String) : Token :=
  { sigilValue := some value, sigilKind := some kind }

/-- The value of a token. -/
def value (token : Token) : Option Json := token.sigilValue.or token.plainValue

/-- The type of a token. -/
def kind (token : Token) : Option String := token.sigilKind.or token.plainKind

/-- The description of a token. -/
def description (token : Token) : Option String :=
  (token.sigilDescription.or token.plainDescription).or token.comment

/-- The token is a text. -/
def isText (token : Token) : Bool := token.kind = some "text"

/-- **Both spellings**: of value and type, whichever is absent is filled from the other. -/
def normalized (token : Token) : Token :=
  { token with
    sigilValue := token.sigilValue.or token.plainValue
    plainValue := token.plainValue.or token.sigilValue
    sigilKind := token.sigilKind.or token.plainKind
    plainKind := token.plainKind.or token.sigilKind }

/-- The token with a type from outside, if it has none of its own. -/
def inherit (token : Token) (kind : Option String) : Token :=
  if token.kind.isNone then { token with sigilKind := kind } else token

@[simp] theorem value_normalized (token : Token) : token.normalized.value = token.value := by
  cases token with
  | mk a b => cases a <;> cases b <;> rfl

@[simp] theorem kind_normalized (token : Token) : token.normalized.kind = token.kind := by
  cases token with
  | mk _ _ a b => cases a <;> cases b <;> rfl

@[simp] theorem description_normalized (token : Token) :
    token.normalized.description = token.description := rfl

theorem normalized_normalized (token : Token) : token.normalized.normalized = token.normalized := by
  cases token with
  | mk a b c d => cases a <;> cases b <;> cases c <;> cases d <;> rfl

@[simp] theorem extra_normalized (token : Token) : token.normalized.extra = token.extra := rfl

@[simp] theorem value_inherit (token : Token) (kind : Option String) :
    (token.inherit kind).value = token.value := by
  unfold inherit
  split <;> rfl

@[simp] theorem description_inherit (token : Token) (kind : Option String) :
    (token.inherit kind).description = token.description := by
  unfold inherit
  split <;> rfl

@[simp] theorem extra_inherit (token : Token) (kind : Option String) :
    (token.inherit kind).extra = token.extra := by
  unfold inherit
  split <;> rfl

theorem kind_inherit (token : Token) (kind : Option String) :
    (token.inherit kind).kind = token.kind.or kind := by
  unfold inherit
  split
  · rename_i h
    simp only [Option.isNone_iff_eq_none] at h
    rw [h]
    have hp : token.plainKind = none := (Option.or_eq_none_iff.1 h).2
    simp [Token.kind, hp]
  · rename_i h
    cases hk : token.kind <;> simp_all

/-! ### JSON -/

/-- The names of the fields of a token, in the order in which they are written. -/
def fieldNames : List String :=
  ["$value", "value", "$type", "type", "$description", "description", "comment"]

/-- An object is a token if it has a value in either spelling, whatever the value is. -/
def isLeaf (members : Entries String Json) : Bool :=
  (members.get? "$value").isSome || (members.get? "value").isSome

/-- A field that holds any value. -/
def valueField (members : Entries String Json) (name : String) : Option Json :=
  match members.get? name with
  | some .null => none
  | found => found

/-- A field that holds a string. -/
def textField (members : Entries String Json) (name : String) : Except JsonError (Option String) :=
  match members.get? name with
  | none => .ok none
  | some .null => .ok none
  | some (.text s) => .ok (some s)
  | some _ => .error .mismatch

/-- The token that the members of an object make. -/
def ofMembers (members : Entries String Json) : Except JsonError Token := do
  return {
    sigilValue := valueField members "$value"
    plainValue := valueField members "value"
    sigilKind := ← textField members "$type"
    plainKind := ← textField members "type"
    sigilDescription := ← textField members "$description"
    plainDescription := ← textField members "description"
    comment := ← textField members "comment"
    extra := members.filter fun p => p.1 ∉ fieldNames }

/-- **The token of a JSON value.** -/
def ofJson : Json → Except JsonError Token
  | .object members => ofMembers members
  | _ => .error .mismatch

/-- The member that a field makes, if it is present. -/
def fieldMember (name : String) (value : Option Json) : List (String × Json) :=
  value.toList.map fun j => (name, j)

/-- The members of a token: the fields that are present, then the others. -/
def toMembers (token : Token) : List (String × Json) :=
  fieldMember "$value" token.sigilValue ++
  fieldMember "value" token.plainValue ++
  fieldMember "$type" (token.sigilKind.map .text) ++
  fieldMember "type" (token.plainKind.map .text) ++
  fieldMember "$description" (token.sigilDescription.map .text) ++
  fieldMember "description" (token.plainDescription.map .text) ++
  fieldMember "comment" (token.comment.map .text) ++
  token.extra

/-- **A token as a JSON object.** -/
def toJson (token : Token) : Json := .object token.toMembers

end Token

end TokenSheets
