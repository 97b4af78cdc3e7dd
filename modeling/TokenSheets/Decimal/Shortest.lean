import TokenSheets.Decimal.Binary

/-!
# Shortest decimals: the fewest digits that read back

The reals that round to the double `m * 2 ^ q` form an interval: from halfway to the neighbour below
to halfway to the neighbour above, with the ends exactly when `m` is even. `shortest` looks for a
decimal in it, on grids of 1, 2, … digits. On each grid only the two neighbours of the value can be
nearest, so they are tried: the first grid with a hit wins, of two hits the nearer one, and of two
equally near ones the one that `Tie` names. Everything is arithmetic of natural numbers.

* `Binary.Represents`: the decimal lies in the interval.
* `shortest`: the decimal that is written.
-/

namespace TokenSheets.Decimal

-- powers of natural numbers, also where another instance is in scope
attribute [local instance (2000)] instPowNat

/-- The number `digits * 10 ^ exponent`. -/
structure Scientific where
  digits : Nat
  exponent : Int
deriving DecidableEq, Repr

/-- Which of two equally near decimals is written. -/
inductive Tie where
  | toEven
  | upward
deriving DecidableEq, Repr

/-- The order of `a * 10 ^ i` and `n * 2 ^ j`. -/
def compareScaled (a : Nat) (i : Int) (n : Nat) (j : Int) : Ordering :=
  compare (a * 10 ^ i.toNat * 2 ^ (-j).toNat) (n * 2 ^ j.toNat * 10 ^ (-i).toNat)

/-- The decimal lies among the reals that round to `x`. The ends of the interval are counted in
quarters of the last place of `x`. -/
def Binary.Represents (x : Binary) (d : Scientific) : Prop :=
  let lower := if x.narrowBelow then 4 * x.m - 1 else 4 * x.m - 2
  let upper := 4 * x.m + 2
  let low := compareScaled d.digits d.exponent lower (x.q - 2)
  let high := compareScaled d.digits d.exponent upper (x.q - 2)
  (low = .gt ∨ (x.m % 2 = 0 ∧ low = .eq)) ∧ (high = .lt ∨ (x.m % 2 = 0 ∧ high = .eq))

instance (x : Binary) (d : Scientific) : Decidable (x.Represents d) := by
  unfold Binary.Represents; infer_instance

/-- The integer part of `x / 10 ^ k`. -/
def Binary.onGrid (x : Binary) (k : Int) : Nat :=
  (x.m * 2 ^ x.q.toNat * 10 ^ (-k).toNat) / (2 ^ (-x.q).toNat * 10 ^ k.toNat)

/-- How many digits a natural number has; zero has one. -/
def digitCount (n : Nat) : Nat := (Nat.toDigits 10 n).length

/-- The exponent of the leading digit of `x`. No positive double is below `10 ^ (-330)`. -/
def Binary.leadingExponent (x : Binary) : Int := (digitCount (x.onGrid (-330)) : Int) - 331

/-- The nearer of the neighbours `d` and `d + 1` of `x` on the grid `10 ^ k`. -/
def Binary.nearer (x : Binary) (tie : Tie) (d : Nat) (k : Int) : Nat :=
  match compareScaled (2 * d + 1) k (2 * x.m) x.q with
  | .lt => d + 1
  | .gt => d
  | .eq =>
    match tie with
    | .upward => d + 1
    | .toEven => if d % 2 = 0 then d else d + 1

/-- The decimal on the grid `10 ^ k` that rounds to `x` and is nearest to it, if one does. -/
def Binary.hit? (x : Binary) (tie : Tie) (k : Int) : Option Scientific :=
  let d := x.onGrid k
  if x.Represents ⟨d, k⟩ then
    if x.Represents ⟨d + 1, k⟩ then some ⟨x.nearer tie d k, k⟩ else some ⟨d, k⟩
  else if x.Represents ⟨d + 1, k⟩ then some ⟨d + 1, k⟩ else none

/-- Moves trailing zeros of the digits into the exponent; `fuel` bounds how many. -/
def Scientific.strip : Nat → Scientific → Scientific
  | 0, d => d
  | fuel + 1, d =>
    if d.digits % 10 = 0 then Scientific.strip fuel ⟨d.digits / 10, d.exponent + 1⟩ else d

/-- The exact value of `x` as a decimal. -/
def Binary.exact (x : Binary) : Scientific :=
  ⟨x.m * 2 ^ x.q.toNat * 5 ^ (-x.q).toNat, -((-x.q).toNat : Int)⟩

/-- **The fewest digits that read back**, for a positive `x`; of those the nearest. -/
def shortest (tie : Tie) (x : Binary) : Scientific :=
  let e := x.leadingExponent
  let found := (List.range 17).findSome? fun n : Nat => x.hit? tie (e - n)
  let d := found.getD x.exact
  d.strip (digitCount d.digits)

end TokenSheets.Decimal
