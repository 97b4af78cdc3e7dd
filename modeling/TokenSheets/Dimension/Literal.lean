import TokenSheets.Decimal.Reader
import TokenSheets.Dimension.Unit

/-!
# Dimension literals

A literal such as `-1.5rem` is an optional minus sign, a run of digits and points, and a run of
lower-case letters; nothing may be left over. Its shape is judged first, then its unit, and last
whether the run of digits and points is a number.

* `Dimension.cut?`: the shape;
* `Dimension.hasShape`: the shape, with a unit that is known;
* `Dimension.read`: the dimension.
-/

namespace TokenSheets

/-- A length: a magnitude in a unit. -/
structure Dimension where
  magnitude : Float
  unit : LengthUnit

/-- Why a literal is no dimension. -/
inductive DimensionError where
  /-- The literal has another shape, or its digits and points are no number. -/
  | malformed (literal : String)
  /-- The unit is none of the three. -/
  | unsupported (unit : String)
deriving DecidableEq, Repr

/-- The message of an error. -/
def DimensionError.message : DimensionError → String
  | .malformed literal => "malformed dimension literal `" ++ literal ++ "`"
  | .unsupported unit => "unsupported unit `" ++ unit ++ "`, expected px, rem or rpx"

namespace Dimension

/-- A character of the number part. -/
def isNumberChar (c : Char) : Bool := c.isDigit || c = '.'

/-- A character of the unit part. -/
def isUnitChar (c : Char) : Bool := c.isLower

/-- The sign, the number part and the unit part of a literal. -/
structure Parts where
  negative : Bool
  number : List Char
  unit : String

/-- The parts of a literal after its sign. -/
def cutUnsigned? (negative : Bool) (cs : List Char) : Option Parts :=
  let number := cs.takeWhile isNumberChar
  let unit := cs.dropWhile isNumberChar
  if number ≠ [] ∧ unit ≠ [] ∧ unit.all isUnitChar then
    some ⟨negative, number, String.ofList unit⟩
  else none

/-- **The parts of a literal**, if it has the shape of one. -/
def cut? (literal : String) : Option Parts :=
  match literal.toList with
  | '-' :: cs => cutUnsigned? true cs
  | cs => cutUnsigned? false cs

/-- The number that the digits and points write, with its sign. -/
def Parts.magnitude? (parts : Parts) : Option Float :=
  (Decimal.unsigned? parts.number).map fun (n, e) =>
    let x := Decimal.nearest n e
    if parts.negative then -x else x

/-- The text has the shape of a literal and a unit that is known. Whether its digits and points are
a number is not asked. -/
def hasShape (text : String) : Bool :=
  match cut? text with
  | some parts => (LengthUnit.ofName? parts.unit).isSome
  | none => false

/-- **Reads a literal.** -/
def read (literal : String) : Except DimensionError Dimension :=
  match cut? literal with
  | none => .error (.malformed literal)
  | some parts =>
    match LengthUnit.ofName? parts.unit with
    | none => .error (.unsupported parts.unit)
    | some unit =>
      match parts.magnitude? with
      | none => .error (.malformed literal)
      | some magnitude => .ok ⟨magnitude, unit⟩

end Dimension

end TokenSheets
