import TokenSheets.Decimal.Shortest

/-!
# Layouts: how a shortest decimal is written

A `Layout` holds the decisions of a number format: which numbers are written positionally, whether a
whole number shows a fraction, and which of two equally near decimals is taken. `Layout.magnitude`
writes the digits of a positive number, `Layout.write` a double with its sign.
-/

namespace TokenSheets.Decimal

/-- The decisions of a number format. -/
structure Layout where
  /-- Exponents of the leading digit that are written positionally. -/
  positional : Int → Bool
  /-- A whole number ends in `.0`. -/
  wholeFraction : Bool
  tie : Tie
  infinity : String
  notANumber : String

/-- Digits in front of the point, padded with zeros, and digits behind it. -/
def positionalChars (wholeFraction : Bool) (digits : List Char) (e : Int) : List Char :=
  if e < 0 then
    '0' :: '.' :: (List.replicate (-e - 1).toNat '0' ++ digits)
  else
    let whole := e.toNat + 1
    if digits.length ≤ whole then
      digits ++ List.replicate (whole - digits.length) '0' ++
        (if wholeFraction then ['.', '0'] else [])
    else digits.take whole ++ '.' :: digits.drop whole

/-- One digit in front of the point, and a signed exponent of the least length. -/
def scientificChars (digits : List Char) (e : Int) : List Char :=
  let point := match digits with
    | [] => []
    | [d] => [d]
    | d :: rest => d :: '.' :: rest
  point ++ 'e' :: (if e < 0 then '-' else '+') :: Nat.toDigits 10 e.natAbs

/-- Writes `x`, which is not negative. -/
def Layout.magnitude (layout : Layout) (x : Binary) : List Char :=
  if x.m = 0 then '0' :: (if layout.wholeFraction then ['.', '0'] else [])
  else
    let d := shortest layout.tie x
    let digits := Nat.toDigits 10 d.digits
    let e := d.exponent + digits.length - 1
    if layout.positional e then positionalChars layout.wholeFraction digits e
    else scientificChars digits e

/-- Writes a double. Zero keeps its sign; a number that is none has none. -/
def Layout.write (layout : Layout) (x : Float) : List Char :=
  let d := Double.classify x
  let sign := if d.negative then ['-'] else []
  match d.magnitude with
  | .nan => layout.notANumber.toList
  | .infinite => sign ++ layout.infinity.toList
  | .finite value => sign ++ layout.magnitude value

/-- **Plain decimals**: never an exponent, no fraction on whole numbers, a tie goes up. -/
def plain : Layout where
  positional _ := true
  wholeFraction := false
  tie := .upward
  infinity := "inf"
  notANumber := "NaN"

/-- A double as a plain decimal. -/
def plainText (x : Float) : String := String.ofList (plain.write x)

end TokenSheets.Decimal
