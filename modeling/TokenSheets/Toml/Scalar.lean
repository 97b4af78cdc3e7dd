import TokenSheets.Decimal.Reader
import TokenSheets.Toml.Basic

/-!
# Numbers, dates and truth values of TOML

A value that is no string, list or table is a run of characters without blanks. It is read as a
whole: a date or time, a float, an integer, or one of a few words.

* `integer?`: decimal, hexadecimal, octal or binary, in 64 bits with a sign;
* `float?`: with a fraction or an exponent, or `inf` or `nan`;
* `isMoment`: a date, a time or both, each within its bounds;
* `scalar?`: any of them.
-/

namespace TokenSheets.Toml

-- powers of natural numbers, also where another instance is in scope
attribute [local instance (2000)] instPowNat

/-! ### Digits with underscores between them -/

/-- Digits without the underscores between them. An underscore must stand between two digits. -/
def ungroup? (isDigit : Char → Bool) : List Char → Option (List Char)
  | [] => none
  | [d] => if isDigit d then some [d] else none
  | d :: '_' :: rest => if isDigit d then (ungroup? isDigit rest).map (d :: ·) else none
  | d :: rest => if isDigit d then (ungroup? isDigit rest).map (d :: ·) else none

/-- A sign and what follows it. -/
def splitSign : List Char → Bool × List Char
  | '-' :: cs => (true, cs)
  | '+' :: cs => (false, cs)
  | cs => (false, cs)

/-- Decimal digits without a zero in front. -/
def decimal? (cs : List Char) : Option (List Char) := do
  let digits ← ungroup? Char.isDigit cs
  if digits.head? = some '0' ∧ digits.length > 1 then none else some digits

/-! ### Integers -/

/-- The value of a digit up to fifteen. -/
def digitValue (c : Char) : Nat :=
  if c.isDigit then c.toNat - '0'.toNat
  else if c.isLower then c.toNat - 'a'.toNat + 10
  else c.toNat - 'A'.toNat + 10

/-- A hexadecimal digit of either case. -/
def isHexDigit (c : Char) : Bool :=
  c.isDigit || ('a' ≤ c && c ≤ 'f') || ('A' ≤ c && c ≤ 'F')

/-- Digits in a base other than ten. -/
def based? (base : Nat) (cs : List Char) : Option Int := do
  let digits ← ungroup? (fun c => isHexDigit c && digitValue c < base) cs
  let n := digits.foldl (fun n d => n * base + digitValue d) 0
  if n < 2 ^ (63 : Nat) then some n else none

/-- **An integer** of 64 bits. Only a decimal one may have a sign. -/
def integer? : List Char → Option Int
  | '0' :: 'x' :: cs => based? 16 cs
  | '0' :: 'o' :: cs => based? 8 cs
  | '0' :: 'b' :: cs => based? 2 cs
  | cs => do
    let (negative, cs) := splitSign cs
    let n := Decimal.ofDigits (← decimal? cs)
    if negative then (if n ≤ 2 ^ (63 : Nat) then some (-n) else none)
    else if n < 2 ^ (63 : Nat) then some n else none

/-! ### Floats -/

/-- The letters that part an exponent from the rest. -/
def splitExponent (cs : List Char) : List Char × Option (List Char) :=
  match cs.dropWhile (!Decimal.isExponentMark ·) with
  | [] => (cs, none)
  | _ :: exponent => (cs.takeWhile (!Decimal.isExponentMark ·), some exponent)

/-- A float without its sign, cleared of underscores: digits, then a fraction, an exponent or
both. -/
def floatChars? (cs : List Char) : Option (List Char) := do
  let (front, exponent) := splitExponent cs
  let whole ← decimal? (front.takeWhile (· ≠ '.'))
  let fraction ← match front.dropWhile (· ≠ '.') with
    | [] => some []
    | _ :: digits => (ungroup? Char.isDigit digits).map ('.' :: ·)
  let power ← match exponent with
    | none => some []
    | some cs =>
      let (negative, digits) := splitSign cs
      (ungroup? Char.isDigit digits).map fun digits =>
        'e' :: (if negative then '-' else '+') :: digits
  if fraction = [] ∧ power = [] then none else some (whole ++ fraction ++ power)

/-- **A float.** One beyond the greatest double is refused, unless it is negative. -/
def float? (cs : List Char) : Option Float :=
  let (negative, cs) := splitSign cs
  let signed (x : Float) : Float := if negative then -x else x
  if cs = ['i', 'n', 'f'] then some (signed (1.0 / 0.0))
  else if cs = ['n', 'a', 'n'] then some (signed (0.0 / 0.0))
  else do
    let x ← Decimal.read? (← floatChars? cs)
    if x.isInf && !negative then none else some (signed x)

/-! ### Dates and times -/

/-- A number of exactly as many digits. -/
def fixed? (width : Nat) (cs : List Char) : Option (Nat × List Char) :=
  let digits := cs.take width
  if digits.length = width ∧ digits.all Char.isDigit then
    some (Decimal.ofDigits digits, cs.drop width)
  else none

/-- What follows a character that must come. -/
def after? (c : Char) : List Char → Option (List Char)
  | d :: rest => if d = c then some rest else none
  | [] => none

/-- How many days a month has. -/
def daysIn (year month : Nat) : Nat :=
  if month = 2 then
    if year % 4 = 0 ∧ (year % 100 ≠ 0 ∨ year % 400 = 0) then 29 else 28
  else if month ∈ [4, 6, 9, 11] then 30
  else 31

/-- A date, and what follows it. -/
def date? (cs : List Char) : Option (List Char) := do
  let (year, cs) ← fixed? 4 cs
  let (month, cs) ← fixed? 2 (← after? '-' cs)
  let (day, cs) ← fixed? 2 (← after? '-' cs)
  if 1 ≤ month ∧ month ≤ 12 ∧ 1 ≤ day ∧ day ≤ daysIn year month then some cs else none

/-- A time of day, and what follows it. -/
def time? (cs : List Char) : Option (List Char) := do
  let (hour, cs) ← fixed? 2 cs
  let (minute, cs) ← fixed? 2 (← after? ':' cs)
  let (second, cs) ← fixed? 2 (← after? ':' cs)
  if hour ≤ 23 ∧ minute ≤ 59 ∧ second ≤ 60 then
    match cs with
    | '.' :: d :: rest => if d.isDigit then some (rest.dropWhile Char.isDigit) else none
    | ['.'] => none
    | _ => some cs
  else none

/-- The text is a distance from universal time, or nothing. -/
def isOffset (cs : List Char) : Bool :=
  match cs with
  | [] => true
  | ['Z'] => true
  | ['z'] => true
  | c :: rest =>
    (c = '+' || c = '-') &&
      match (do
        let (hour, rest) ← fixed? 2 rest
        let (minute, rest) ← fixed? 2 (← after? ':' rest)
        if hour ≤ 23 ∧ minute ≤ 59 then some rest else none) with
      | some [] => true
      | _ => false

/-- **A date, a time or both.** -/
def isMoment (cs : List Char) : Bool :=
  match date? cs with
  | some [] => true
  | some (c :: rest) =>
    (c = 'T' || c = 't' || c = ' ') &&
      match time? rest with
      | some rest => isOffset rest
      | none => false
  | none => time? cs = some []

/-! ### Any of them -/

/-- **The value of a run of characters.** -/
def scalar? (cs : List Char) : Option Toml :=
  if cs = ['t', 'r', 'u', 'e'] then some (.bool true)
  else if cs = ['f', 'a', 'l', 's', 'e'] then some (.bool false)
  else if isMoment cs then some .moment
  else
    match float? cs with
    | some x => some (.float x)
    | none => (integer? cs).map .whole

end TokenSheets.Toml
