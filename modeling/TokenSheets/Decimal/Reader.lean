/-!
# Decimal literals: from digits to the nearest double

A literal is an optional sign, then digits with at most one point and at least one digit, then an
optional exponent. `read?` takes these and, in any case, the words `inf`, `infinity` and `nan`, and
gives the double nearest to the number that is written. `unsigned?` reads the part without exponent.
-/

namespace TokenSheets.Decimal

/-- The number that a list of decimal digits writes. -/
def ofDigits (digits : List Char) : Nat := Nat.ofDigitChars 10 digits 0

/-- The double nearest to `digits * 10 ^ exponent`. Far outside the range of doubles the power is
not formed: the result is infinite or zero there. -/
def nearest (digits : Nat) (exponent : Int) : Float :=
  let magnitude := exponent + (Nat.toDigits 10 digits).length
  if digits = 0 ∨ magnitude < -400 then 0.0
  else if magnitude > 400 then 1.0 / 0.0
  else Float.ofScientific digits (exponent < 0) exponent.natAbs

/-- Digits with at most one point and at least one digit, read as a number of units of the last
place and the exponent of that place. -/
def unsigned? (cs : List Char) : Option (Nat × Int) :=
  let whole := cs.takeWhile Char.isDigit
  match cs.dropWhile Char.isDigit with
  | [] => if whole = [] then none else some (ofDigits whole, 0)
  | '.' :: fraction =>
    if fraction.all Char.isDigit ∧ ¬(whole = [] ∧ fraction = []) then
      some (ofDigits (whole ++ fraction), -(fraction.length : Int))
    else none
  | _ => none

/-- The exponent behind the letter: an optional sign and at least one digit. -/
def exponent? : List Char → Option Int
  | '-' :: ds => if ds ≠ [] ∧ ds.all Char.isDigit then some (-(ofDigits ds : Int)) else none
  | '+' :: ds => if ds ≠ [] ∧ ds.all Char.isDigit then some (ofDigits ds) else none
  | ds => if ds ≠ [] ∧ ds.all Char.isDigit then some (ofDigits ds) else none

/-- The letter that opens an exponent. -/
def isExponentMark (c : Char) : Bool := c = 'e' || c = 'E'

/-- A literal without its sign. -/
def magnitude? (cs : List Char) : Option Float :=
  let word := cs.map Char.toLower
  if word = ['i', 'n', 'f'] ∨ word = ['i', 'n', 'f', 'i', 'n', 'i', 't', 'y'] then some (1.0 / 0.0)
  else if word = ['n', 'a', 'n'] then some (0.0 / 0.0)
  else
    match cs.dropWhile (!isExponentMark ·) with
    | [] => (unsigned? cs).map fun (n, e) => nearest n e
    | _ :: after =>
      match unsigned? (cs.takeWhile (!isExponentMark ·)), exponent? after with
      | some (n, e), some shift => some (nearest n (e + shift))
      | _, _ => none

/-- **Reads a literal** as the nearest double. -/
def read? : List Char → Option Float
  | '-' :: cs => (magnitude? cs).map (-·)
  | '+' :: cs => magnitude? cs
  | cs => magnitude? cs

end TokenSheets.Decimal
