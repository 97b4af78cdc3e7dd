/-!
# Binary fractions: what a double stands for

A finite double stands for `± m * 2 ^ q` with `m < 2 ^ 53`. `Double.classify` reads sign, mantissa
and exponent off the bits, `Binary.toFloat` writes a fraction that some double represents exactly,
and `Binary.rem` is the exact remainder of two fractions, which again is representable.
-/

namespace TokenSheets.Decimal

-- powers of natural numbers, also where another instance is in scope
attribute [local instance (2000)] instPowNat

/-- The non-negative number `m * 2 ^ q`. -/
structure Binary where
  m : Nat
  q : Int
deriving DecidableEq, Repr

/-- What the magnitude of a double is. -/
inductive Magnitude where
  | nan
  | infinite
  | finite (value : Binary)
deriving DecidableEq, Repr

/-- A double taken apart. -/
structure Double where
  negative : Bool
  magnitude : Magnitude
deriving DecidableEq, Repr

/-- Sign and magnitude of a double, from its 64 bits: one for the sign, eleven for the exponent and
fifty-two for the fraction. -/
def Double.classify (x : Float) : Double :=
  let bits : Nat := x.toBits.toNat
  let exponent : Nat := bits / 2 ^ (52 : Nat) % 2 ^ (11 : Nat)
  let fraction : Nat := bits % 2 ^ (52 : Nat)
  { negative := bits / 2 ^ (63 : Nat) = 1
    magnitude :=
      if exponent = 2047 then (if fraction = 0 then .infinite else .nan)
      else if exponent = 0 then .finite ⟨fraction, -1074⟩
      else .finite ⟨2 ^ (52 : Nat) + fraction, (exponent : Int) - 1075⟩ }

namespace Binary

/-- The neighbour below is only half as far away as the neighbour above: the mantissa is the least
one of its exponent, and the exponent is not the least. -/
def narrowBelow (x : Binary) : Bool := x.m = 2 ^ (52 : Nat) ∧ x.q > -1074

/-- The double of this value, where one represents it exactly. -/
def toFloat (x : Binary) : Float :=
  if x.m = 0 then 0.0
  else
    let q := max (x.q + x.m.log2 - 52) (-1074)
    let m := if q ≥ x.q then x.m / 2 ^ (q - x.q).toNat else x.m * 2 ^ (x.q - q).toNat
    let bits :=
      if m < 2 ^ (52 : Nat) then m
      else (q + 1075).toNat * 2 ^ (52 : Nat) + (m - 2 ^ (52 : Nat))
    Float.ofBits (UInt64.ofNat bits)

/-- The remainder of `x` by `y`, exactly: both are brought to one exponent. -/
def rem (x y : Binary) : Binary :=
  let q := min x.q y.q
  ⟨(x.m * 2 ^ (x.q - q).toNat) % (y.m * 2 ^ (y.q - q).toNat), q⟩

end Binary

/-- The remainder of a division that truncates, with the sign of `x`. It is exact; there is none
for an infinite `x` or a zero `y`. -/
def remainder (x y : Float) : Float :=
  let dx := Double.classify x
  let dy := Double.classify y
  match dx.magnitude, dy.magnitude with
  | .finite a, .finite b =>
    if b.m = 0 then 0.0 / 0.0
    else
      let r := (a.rem b).toFloat
      if dx.negative then -r else r
  | .finite _, .infinite => x
  | _, _ => 0.0 / 0.0

end TokenSheets.Decimal
