import Mathlib.Tactic
import TokenSheets.Decimal.Shortest

/-!
# The numbers that round to a double

A double stands for all numbers between its two neighbours' halfway points; an end belongs to it if
its mantissa is even. No number rounds to two doubles, and the decimal that is written for a double
rounds to it.

* `Binary.Rounds`: the interval of a double;
* `Binary.represents_iff`: the search for a short decimal looks into this interval;
* `Binary.eq_of_rounds`: the intervals of two doubles are disjoint;
* `rounds_shortest`: the decimal that is written.
-/

namespace TokenSheets.Decimal

/-- The number that a binary fraction stands for. -/
def Binary.value (x : Binary) : ℚ := x.m * 2 ^ x.q

/-- The number that a decimal stands for. -/
def Scientific.value (d : Scientific) : ℚ := d.digits * 10 ^ d.exponent

/-- **The mantissa and exponent of a double**: at most 53 bits, and all of them unless the exponent
is the least. -/
structure Binary.IsDouble (x : Binary) : Prop where
  lt : x.m < 2 ^ 53
  le : -1074 ≤ x.q
  normal : 2 ^ 52 ≤ x.m ∨ x.q = -1074

namespace Binary

/-- Halfway to the neighbour below. -/
def lower (x : Binary) : ℚ := (x.m - if x.narrowBelow then 1 / 4 else 1 / 2) * 2 ^ x.q

/-- Halfway to the neighbour above. -/
def upper (x : Binary) : ℚ := (x.m + 1 / 2) * 2 ^ x.q

/-- **The number rounds to the double**: it is between both ends, or at an end if the mantissa is
even. -/
def Rounds (x : Binary) (r : ℚ) : Prop :=
  (x.lower < r ∨ x.m % 2 = 0 ∧ x.lower = r) ∧ (r < x.upper ∨ x.m % 2 = 0 ∧ r = x.upper)

variable {x y : Binary} {r : ℚ}

theorem Rounds.le_upper (h : x.Rounds r) : r ≤ x.upper := h.2.elim le_of_lt fun h => h.2.le

theorem Rounds.lower_le (h : x.Rounds r) : x.lower ≤ r := h.1.elim le_of_lt fun h => h.2.le

theorem narrowBelow_iff : x.narrowBelow = true ↔ x.m = 2 ^ 52 ∧ x.q > -1074 := by
  simp [narrowBelow]

theorem value_nonneg (x : Binary) : 0 ≤ x.value := by
  unfold value
  positivity

theorem value_pos_iff : 0 < x.value ↔ 0 < x.m := by
  rw [value, mul_pos_iff_of_pos_right (by positivity), Nat.cast_pos]

theorem value_of_zero (hm : x.m = 0) : x.value = 0 := by
  rw [value, hm, Nat.cast_zero, zero_mul]

theorem lower_pos (hm : x.m ≠ 0) : 0 < x.lower := by
  have hone : (1 : ℚ) ≤ x.m := by exact_mod_cast Nat.pos_of_ne_zero hm
  unfold lower
  refine mul_pos ?_ (by positivity)
  split_ifs <;> linarith

theorem rounds_value (x : Binary) : x.Rounds x.value := by
  have hpos : (0 : ℚ) < 2 ^ x.q := by positivity
  refine ⟨.inl ?_, .inl ?_⟩
  · unfold lower value
    gcongr
    split_ifs <;> linarith
  · unfold upper value
    gcongr
    linarith

/-- The least interval of an exponent begins at the middle of the gap in front of it. -/
theorem IsDouble.le_lower (hx : x.IsDouble) (hq : -1074 < x.q) :
    (2 ^ 52 - 1 / 4) * 2 ^ x.q ≤ x.lower := by
  have hnormal : 2 ^ 52 ≤ x.m := hx.normal.resolve_right hq.ne'
  have hle : (2 ^ 52 : ℚ) ≤ x.m := by exact_mod_cast hnormal
  unfold lower
  refine mul_le_mul_of_nonneg_right ?_ (by positivity)
  split_ifs with hnarrow
  · linarith
  · have hne : x.m ≠ 2 ^ 52 := fun heq => hnarrow (narrowBelow_iff.mpr ⟨heq, hq⟩)
    have hlt : (2 ^ 52 + 1 : ℚ) ≤ x.m := by exact_mod_cast (by omega : 2 ^ 52 + 1 ≤ x.m)
    linarith

/-- A number in front of the end of the greatest double rounds to none that is greater. -/
theorem IsDouble.le_of_rounds (hx : x.IsDouble) (hr : x.Rounds r)
    (h : r < (2 ^ 53 - 1 / 2) * 2 ^ (971 : ℤ)) : x.q ≤ 971 := by
  by_contra hq
  have hpow : (2 : ℚ) ^ ((971 : ℤ) + 1) ≤ 2 ^ x.q :=
    zpow_le_zpow_right₀ (by norm_num) (by omega)
  have hlower : (2 ^ 52 - 1 / 4) * (2 : ℚ) ^ ((971 : ℤ) + 1) ≤ x.lower :=
    le_trans (by gcongr) (hx.le_lower (by omega))
  rw [zpow_add_one₀ (by norm_num)] at hlower
  have := hr.lower_le
  generalize (2 : ℚ) ^ (971 : ℤ) = p at *
  linarith

theorem IsDouble.le_of_one_le (hx : x.IsDouble) (hr : x.Rounds r) (h : 1 ≤ r) : 2 ^ 52 ≤ x.m := by
  refine hx.normal.resolve_right fun hq => ?_
  have hupper := h.trans hr.le_upper
  rw [upper, hq] at hupper
  have hm : (x.m : ℚ) + 1 / 2 ≤ 2 ^ 54 := by
    have : (x.m : ℚ) < 2 ^ 53 := by exact_mod_cast hx.lt
    linarith
  have hle : ((x.m : ℚ) + 1 / 2) * 2 ^ (-1074 : ℤ) ≤ 2 ^ 54 * 2 ^ (-1074 : ℤ) := by gcongr
  rw [← zpow_natCast, ← zpow_add₀ (by norm_num)] at hle
  have hlt : (2 : ℚ) ^ (((54 : ℕ) : ℤ) + -1074) < 2 ^ (0 : ℤ) :=
    zpow_lt_zpow_right₀ (by norm_num) (by norm_num)
  rw [zpow_zero] at hlt
  exact absurd (hupper.trans hle) (not_le.mpr hlt)

/-- Rounding to a full mantissa adds less than one part in `2 ^ 53 - 1`. -/
theorem value_le_of_rounds (hm : 2 ^ 52 ≤ x.m) (hr : x.Rounds r) :
    x.value * (2 ^ 53 - 1) ≤ r * 2 ^ 53 := by
  have hfull : (2 ^ 52 : ℚ) ≤ x.m := by exact_mod_cast hm
  have hpos : (0 : ℚ) < 2 ^ x.q := by positivity
  have hhalf : ((x.m : ℚ) - 1 / 2) * 2 ^ x.q ≤ x.lower := by
    unfold lower
    gcongr
    split_ifs <;> norm_num
  have hlower := hhalf.trans hr.lower_le
  calc x.value * (2 ^ 53 - 1) = ((x.m : ℚ) * (2 ^ 53 - 1)) * 2 ^ x.q := by rw [value]; ring
    _ ≤ (((x.m : ℚ) - 1 / 2) * 2 ^ 53) * 2 ^ x.q :=
        mul_le_mul_of_nonneg_right (by linarith) hpos.le
    _ = (((x.m : ℚ) - 1 / 2) * 2 ^ x.q) * 2 ^ 53 := by ring
    _ ≤ r * 2 ^ 53 := by gcongr

/-! ### No number rounds to two doubles -/

/-- **The end of one interval is in front of the next**, and where they touch, one of the mantissas
is odd. -/
theorem upper_le_lower (hx : x.IsDouble) (hy : y.IsDouble)
    (h : x.q < y.q ∨ x.q = y.q ∧ x.m < y.m) :
    x.upper ≤ y.lower ∧ (x.upper = y.lower → x.m % 2 = 1 ∨ y.m % 2 = 1) := by
  rcases h with hq | ⟨hq, hm⟩
  · -- the mantissa of `x` is at most `2 ^ 53 - 1`, that of `y` at least `2 ^ 52`
    have hxm : (x.m : ℚ) ≤ 2 ^ 53 - 1 := by
      have := hx.lt
      have hle : x.m + 1 ≤ 2 ^ 53 := by omega
      have hcast : ((x.m + 1 : ℕ) : ℚ) ≤ (2 ^ 53 : ℕ) := by exact_mod_cast hle
      push_cast at hcast
      linarith
    have hpow : (2 : ℚ) ^ (x.q + 1) ≤ 2 ^ y.q := zpow_le_zpow_right₀ (by norm_num) (by omega)
    have hsucc : (2 : ℚ) ^ (x.q + 1) = 2 ^ x.q * 2 := zpow_add_one₀ (by norm_num) _
    have hpos : (0 : ℚ) < 2 ^ x.q := by positivity
    have hupper : x.upper ≤ (2 ^ 52 - 1 / 4) * 2 ^ (x.q + 1) := by
      unfold upper
      rw [hsucc]
      nlinarith
    have hbetween : (2 ^ 52 - 1 / 4) * (2 : ℚ) ^ (x.q + 1) ≤ (2 ^ 52 - 1 / 4) * 2 ^ y.q := by
      gcongr
    have hlower := hy.le_lower (by have := hx.le; omega)
    refine ⟨by linarith, fun heq => .inl ?_⟩
    -- they touch only if the mantissa of `x` is the greatest one
    have htouch : x.upper = (2 ^ 52 - 1 / 4) * 2 ^ (x.q + 1) := by linarith
    have hmax : (x.m : ℚ) = 2 ^ 53 - 1 := by
      unfold upper at htouch
      rw [hsucc] at htouch
      have hcancel := mul_right_cancel₀ hpos.ne' (htouch.trans (by ring :
        (2 ^ 52 - 1 / 4) * ((2 : ℚ) ^ x.q * 2) = ((2 ^ 52 - 1 / 4) * 2) * 2 ^ x.q))
      linarith
    have hnat : x.m = 2 ^ 53 - 1 := by
      have : ((x.m + 1 : ℕ) : ℚ) = (2 ^ 53 : ℕ) := by push_cast; linarith
      have := Nat.cast_injective this
      omega
    omega
  · have hpos : (0 : ℚ) < 2 ^ y.q := by positivity
    have hle : (x.m : ℚ) + 1 ≤ y.m := by exact_mod_cast hm
    have hhalf : (if y.narrowBelow then (1 : ℚ) / 4 else 1 / 2) ≤ 1 / 2 := by
      split_ifs <;> norm_num
    refine ⟨?_, fun heq => ?_⟩
    · unfold upper lower
      rw [hq]
      gcongr
      linarith
    · unfold upper lower at heq
      rw [hq] at heq
      have hcancel := mul_right_cancel₀ hpos.ne' heq
      have hnext : (y.m : ℚ) = x.m + 1 := by linarith
      have hnat : y.m = x.m + 1 := by exact_mod_cast hnext
      omega

/-- **No number rounds to two doubles.** -/
theorem eq_of_rounds (hx : x.IsDouble) (hy : y.IsDouble) (hxr : x.Rounds r) (hyr : y.Rounds r) :
    x = y := by
  have apart : ∀ {x y : Binary}, x.IsDouble → y.IsDouble → x.Rounds r → y.Rounds r →
      ¬ (x.q < y.q ∨ x.q = y.q ∧ x.m < y.m) := by
    intro x y hx hy hxr hyr h
    obtain ⟨hle, htouch⟩ := upper_le_lower hx hy h
    have heq : x.upper = y.lower := le_antisymm hle (hyr.lower_le.trans hxr.le_upper)
    have hxeven : x.m % 2 = 0 := by
      rcases hxr.2 with hlt | ⟨heven, -⟩
      · have := hyr.lower_le
        linarith
      · exact heven
    have hyeven : y.m % 2 = 0 := by
      rcases hyr.1 with hlt | ⟨heven, -⟩
      · have := hxr.le_upper
        linarith
      · exact heven
    have := htouch heq
    omega
  have hxy := apart hx hy hxr hyr
  have hyx := apart hy hx hyr hxr
  rcases x with ⟨m, q⟩
  rcases y with ⟨m', q'⟩
  simp only [Binary.mk.injEq] at *
  omega

end Binary

/-! ### The decimal that is written -/

theorem compareScaled_eq (a n : Nat) (i j : Int) :
    compareScaled a i n j = compare ((a : ℚ) * 10 ^ i) (n * 2 ^ j) := by
  have split : ∀ (b : ℚ) (k : Int), b ≠ 0 → b ^ k * b ^ (-k).toNat = b ^ k.toNat := by
    intro b k hb
    rw [← zpow_natCast, ← zpow_natCast, ← zpow_add₀ hb]
    congr 1
    omega
  have hscale : (0 : ℚ) < 10 ^ (-i).toNat * 2 ^ (-j).toNat := by positivity
  have hleft : ((a * 10 ^ i.toNat * 2 ^ (-j).toNat : ℕ) : ℚ) =
      (a * 10 ^ i) * (10 ^ (-i).toNat * 2 ^ (-j).toNat) := by
    push_cast
    rw [← split 10 i (by norm_num)]
    ring
  have hright : ((n * 2 ^ j.toNat * 10 ^ (-i).toNat : ℕ) : ℚ) =
      (n * 2 ^ j) * (10 ^ (-i).toNat * 2 ^ (-j).toNat) := by
    push_cast
    rw [← split 2 j (by norm_num)]
    ring
  have hcast : ∀ a b : ℕ, compare a b = compare (a : ℚ) b := by
    intro a b
    rcases lt_trichotomy a b with h | h | h
    · rw [compare_lt_iff_lt.mpr h, compare_lt_iff_lt.mpr (by exact_mod_cast h)]
    · rw [compare_eq_iff_eq.mpr h, compare_eq_iff_eq.mpr (by exact_mod_cast h)]
    · rw [compare_gt_iff_gt.mpr h, compare_gt_iff_gt.mpr (by exact_mod_cast h)]
  rw [compareScaled, hcast, hleft, hright]
  rcases lt_trichotomy ((a : ℚ) * 10 ^ i) (n * 2 ^ j) with h | h | h
  · rw [compare_lt_iff_lt.mpr h, compare_lt_iff_lt.mpr (by gcongr)]
  · rw [compare_eq_iff_eq.mpr h, compare_eq_iff_eq.mpr (by rw [h])]
  · rw [compare_gt_iff_gt.mpr h, compare_gt_iff_gt.mpr (by gcongr)]

/-- **The search looks into the interval.** -/
theorem Binary.represents_iff {x : Binary} (hm : x.m ≠ 0) (d : Scientific) :
    x.Represents d ↔ x.Rounds d.value := by
  have hquarter : (2 : ℚ) ^ x.q = 2 ^ (x.q - 2) * 4 := by
    rw [zpow_sub₀ (by norm_num)]
    norm_num
  have hlower : (((if x.narrowBelow then 4 * x.m - 1 else 4 * x.m - 2 : ℕ) : ℕ) : ℚ) *
      2 ^ (x.q - 2) = x.lower := by
    unfold lower
    rw [hquarter]
    split_ifs
    · rw [Nat.cast_sub (by omega)]
      push_cast
      ring
    · rw [Nat.cast_sub (by omega)]
      push_cast
      ring
  have hupper : ((4 * x.m + 2 : ℕ) : ℚ) * 2 ^ (x.q - 2) = x.upper := by
    unfold upper
    rw [hquarter]
    push_cast
    ring
  unfold Represents Rounds
  dsimp only
  rw [compareScaled_eq, compareScaled_eq, hlower, hupper, compare_gt_iff_gt, compare_lt_iff_lt,
    compare_eq_iff_eq, compare_eq_iff_eq, Scientific.value, eq_comm (a := x.lower)]

theorem Scientific.value_strip (fuel : Nat) (d : Scientific) : (d.strip fuel).value = d.value := by
  induction fuel generalizing d with
  | zero => rfl
  | succ fuel ih =>
    rw [strip]
    split_ifs with h
    · rw [ih, value, value]
      have hdigits : (d.digits : ℚ) = (d.digits / 10 : ℕ) * 10 := by
        exact_mod_cast (Nat.div_mul_cancel (Nat.dvd_of_mod_eq_zero h)).symm
      rw [hdigits, zpow_add_one₀ (by norm_num)]
      push_cast
      ring
    · rfl

theorem Binary.value_exact (x : Binary) : x.exact.value = x.value := by
  have hneg : (10 : ℚ) ^ (-((-x.q).toNat : Int)) = (10 ^ (-x.q).toNat)⁻¹ := by
    rw [zpow_neg, zpow_natCast]
  have hq : (2 : ℚ) ^ x.q = 2 ^ x.q.toNat * (2 ^ (-x.q).toNat)⁻¹ := by
    rw [← zpow_natCast, ← zpow_natCast, ← zpow_neg, ← zpow_add₀ (by norm_num)]
    congr 1
    omega
  have hten : (10 : ℚ) ^ (-x.q).toNat = 2 ^ (-x.q).toNat * 5 ^ (-x.q).toNat := by
    rw [← mul_pow]
    norm_num
  rw [Scientific.value, Binary.exact, Binary.value, hneg, hten, hq]
  push_cast
  field_simp

/-- A decimal that the search finds is in the interval. -/
theorem Binary.represents_of_hit? {x : Binary} {tie : Tie} {k : Int} {d : Scientific}
    (h : x.hit? tie k = some d) : x.Represents d := by
  unfold hit? at h
  dsimp only at h
  split_ifs at h with hlow hhigh hhigh
  · cases h
    -- the nearer one of two neighbours is one of the two
    have hnearer : x.nearer tie (x.onGrid k) k = x.onGrid k ∨
        x.nearer tie (x.onGrid k) k = x.onGrid k + 1 := by
      unfold nearer
      split
      · exact .inr rfl
      · exact .inl rfl
      · split
        · exact .inr rfl
        · split_ifs
          · exact .inl rfl
          · exact .inr rfl
    rcases hnearer with heq | heq <;> rw [heq] <;> assumption
  · cases h
    exact hlow
  · cases h
    exact hhigh

/-- **The decimal that is written rounds to the double.** -/
theorem rounds_shortest {x : Binary} (hm : x.m ≠ 0) (tie : Tie) :
    x.Rounds (shortest tie x).value := by
  unfold shortest
  dsimp only
  rw [Scientific.value_strip]
  rcases hfound : (List.range 17).findSome? fun n : Nat => x.hit? tie (x.leadingExponent - n) with
    _ | d
  · rw [Option.getD_none, x.value_exact]
    exact x.rounds_value
  · obtain ⟨n, -, hhit⟩ := List.exists_of_findSome?_eq_some hfound
    exact (Binary.represents_iff hm d).mp (Binary.represents_of_hit? hhit)

end TokenSheets.Decimal
