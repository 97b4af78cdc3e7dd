import TokenSheets.Decimal.Reader
import TokenSheets.Proofs.Decimal.Doubles

/-!
# How large doubles become

Rounding at most doubles a number. So a bound on a double, times or divided by another one, gives a
bound on the rounded result as long as no exponent is too great, and a chain of operations is
followed one by one. Results that are no number at all do not come about from numbers either, except
from infinite ones.

* `NotNan`, `NotNan.mul`, `NotNan.div`: products and quotients stay numbers;
* `AtMost`, `AtMost.mul`, `AtMost.div`: products and quotients stay finite;
* `notNan_nearest`, `atMost_nearest`: the same for what is read from digits.
-/

namespace TokenSheets.Decimal

open Float.Model Float.Model.UnpackedFloat

variable {x y : Float} {a b c : Binary} {sign : Sign} {r s : ℚ} {n : ℕ} {e : ℤ}

/-! ### Signs and infinite doubles -/

theorem magnitude_pack_infinity (sign : Sign) :
    (Double.classify (.ofModel (Float.Model.pack (.infinity sign)))).magnitude = .infinite := by
  cases sign <;> rfl

theorem unpack_of_infinite (h : (Double.classify x).magnitude = .infinite) :
    x.toModel.unpack = .infinity (Double.classify x).sign := by
  rw [unpack_toModel, h]

theorem magnitude_neg (x : Float) :
    (Double.classify (-x)).magnitude = (Double.classify x).magnitude := by
  have hneg : -x = .ofModel (Float.Model.pack x.toModel.unpack.neg) := rfl
  rcases h : (Double.classify x).magnitude with _ | _ | a
  · have hunpack : x.toModel.unpack = .notANumber := by rw [unpack_toModel, h]
    rw [hneg, hunpack]
    rfl
  · rw [hneg, unpack_of_infinite h]
    exact magnitude_pack_infinity _
  · have hunpack : x.toModel.unpack.neg = unpacked (-(Double.classify x).sign) a := by
      rw [unpack_of_finite h, unpacked, unpacked]
      split_ifs <;> rfl
    obtain ⟨hdouble, hq⟩ := isDouble_of_classify h
    rw [hneg, hunpack, classify_pack _ hdouble hq]

theorem stands_of_pos (hpos : x > 0.0) (hfinite : x.isFinite = true) :
    ∃ a, Stands x a ∧ 0 < a.m := by
  obtain ⟨a, ha⟩ := isFinite_iff.mp hfinite
  have hzero : (0.0 : Float).toModel.unpack = .zero .positive := rfl
  have hlt : (0.0 : Float).toModel.unpack.lt x.toModel.unpack = true := of_decide_eq_true hpos
  rw [hzero] at hlt
  rw [unpack_of_finite ha, unpacked] at hlt
  split_ifs at hlt with hm
  · rcases (Double.classify x).sign with _ | _ <;> cases hlt
  · refine ⟨a, ?_, Nat.pos_of_ne_zero hm⟩
    rcases hnegative : (Double.classify x).negative with _ | _
    · rw [Stands, ← hnegative, ← ha]
    · rw [Double.sign, hnegative] at hlt
      cases hlt

/-! ### Numbers, finite or not -/

/-- **The double is a number**, or infinite. -/
def NotNan (x : Float) : Prop := (Double.classify x).magnitude ≠ .nan

instance : DecidablePred NotNan := fun _ => instDecidableNot

theorem notNan_of_pos (hpos : x > 0.0) : NotNan x := by
  intro hnan
  have hlt : (0.0 : Float).toModel.unpack.lt x.toModel.unpack = true := of_decide_eq_true hpos
  rw [unpack_toModel x, hnan] at hlt
  cases hlt

theorem IsRounded.notNan (h : IsRounded sign x r) : NotNan x := by
  obtain ⟨c, -, -, hclass⟩ := h
  rw [NotNan, hclass]
  dsimp only
  split_ifs <;> simp

theorem NotNan.neg (h : NotNan x) : NotNan (-x) := by
  rw [NotNan, magnitude_neg]
  exact h

theorem NotNan.mul (hx : NotNan x) (hy : Stands y b) (hb : 0 < b.m) : NotNan (x * y) := by
  have hmul : x * y = .ofModel (Float.Model.pack (UnpackedFloat.mul .binary64 x.toModel.unpack
      y.toModel.unpack)) := rfl
  rcases h : (Double.classify x).magnitude with _ | _ | a
  · exact absurd h hx
  · rw [unpack_of_infinite h, unpack_of_finite hy.magnitude, unpacked, dif_neg hb.ne'] at hmul
    rw [NotNan, hmul]
    exact (magnitude_pack_infinity _).trans_ne (by simp)
  · exact (isRounded_mul h hy.magnitude).notNan

theorem NotNan.div (hx : NotNan x) (hy : Stands y b) (hb : 0 < b.m) : NotNan (x / y) := by
  have hdiv : x / y = .ofModel (Float.Model.pack (UnpackedFloat.div .binary64 x.toModel.unpack
      y.toModel.unpack)) := rfl
  rcases h : (Double.classify x).magnitude with _ | _ | a
  · exact absurd h hx
  · rw [unpack_of_infinite h, unpack_of_finite hy.magnitude, unpacked, dif_neg hb.ne'] at hdiv
    rw [NotNan, hdiv]
    exact (magnitude_pack_infinity _).trans_ne (by simp)
  · exact (isRounded_div h hy.magnitude hb).notNan

/-! ### Finite doubles with a bound -/

theorem Binary.value_le_two_mul (hr : c.Rounds r) (h : 0 ≤ r) : c.value ≤ 2 * r := by
  rcases Nat.eq_zero_or_pos c.m with hm | hm
  · rw [value_of_zero hm]
    linarith
  · have hone : (1 : ℚ) ≤ c.m := by exact_mod_cast hm
    have hpos : (0 : ℚ) < 2 ^ c.q := by positivity
    have hhalf : (c.m : ℚ) / 2 * 2 ^ c.q ≤ c.lower := by
      unfold lower
      gcongr
      split_ifs <;> linarith
    calc c.value = 2 * ((c.m : ℚ) / 2 * 2 ^ c.q) := by rw [value]; ring
      _ ≤ 2 * r := by linarith [hr.lower_le]

/-- **The double is finite** and, apart from its sign, at most this number. -/
def AtMost (x : Float) (r : ℚ) : Prop :=
  ∃ a, (Double.classify x).magnitude = .finite a ∧ a.value ≤ r

theorem AtMost.isFinite (h : AtMost x r) : x.isFinite = true := by
  obtain ⟨a, ha, -⟩ := h
  exact isFinite_iff.mpr ⟨a, ha⟩

theorem AtMost.mono (h : AtMost x r) (hle : r ≤ s) : AtMost x s := by
  obtain ⟨a, ha, hr⟩ := h
  exact ⟨a, ha, hr.trans hle⟩

theorem AtMost.neg (h : AtMost x r) : AtMost (-x) r := by
  obtain ⟨a, ha, hr⟩ := h
  exact ⟨a, (magnitude_neg x).trans ha, hr⟩

/-- **A number that is far enough from the end of the range** is rounded to a finite double. -/
theorem IsRounded.atMost (h : IsRounded sign x r) (hr : 0 ≤ r) (hle : r ≤ 2 ^ 1023) :
    AtMost x (2 * r) := by
  obtain ⟨c, hc, hrounds, hclass⟩ := h
  have hend : (2 : ℚ) ^ 1023 < (2 ^ 53 - 1 / 2) * 2 ^ (971 : ℤ) := by
    rw [show (2 : ℚ) ^ 1023 = 2 ^ 52 * 2 ^ (971 : ℤ) by
      rw [show (971 : ℤ) = (971 : ℕ) from rfl, zpow_natCast, ← pow_add]]
    gcongr
    norm_num
  have hq : c.q ≤ 971 := hc.le_of_rounds hrounds (hle.trans_lt hend)
  refine ⟨c, ?_, Binary.value_le_two_mul hrounds hr⟩
  rw [hclass]
  exact if_pos hq

theorem AtMost.mul (hx : AtMost x r) (hy : (Double.classify y).magnitude = .finite b)
    (hle : r * b.value ≤ 2 ^ 1023) : AtMost (x * y) (2 * (r * b.value)) := by
  obtain ⟨a, ha, har⟩ := hx
  have hproduct : a.value * b.value ≤ r * b.value :=
    mul_le_mul_of_nonneg_right har b.value_nonneg
  exact ((isRounded_mul ha hy).atMost (mul_nonneg a.value_nonneg b.value_nonneg)
    (hproduct.trans hle)).mono (by linarith)

theorem AtMost.div (hx : AtMost x r) (hy : (Double.classify y).magnitude = .finite b)
    (hb : 0 < b.m) (hle : r / b.value ≤ 2 ^ 1023) : AtMost (x / y) (2 * (r / b.value)) := by
  obtain ⟨a, ha, har⟩ := hx
  have hquotient : a.value / b.value ≤ r / b.value :=
    div_le_div_of_nonneg_right har b.value_nonneg
  exact ((isRounded_div ha hy hb).atMost (div_nonneg a.value_nonneg b.value_nonneg)
    (hquotient.trans hle)).mono (by linarith)

/-! ### Doubles that are read -/

theorem ten_pow_le_of_pos (hn : 0 < n) : 10 ^ ((Nat.toDigits 10 n).length - 1) ≤ n := by
  rcases Nat.eq_zero_or_pos ((Nat.toDigits 10 n).length - 1) with hone | hmore
  · rw [hone]
    exact hn
  · by_contra hlt
    have hle := (Nat.length_toDigits_le_iff (b := 10) (by norm_num) hmore).mpr (not_le.mp hlt)
    omega

/-- What the reader makes of digits: zero where the number is far too small, an infinite double
where it is far too great, and otherwise the rounded number. -/
theorem nearest_cases (he : e ≤ 0) :
    nearest n e = 0.0 ∨ (nearest n e = 1.0 / 0.0 ∧ (2 : ℚ) ^ 1023 < n * 10 ^ e) ∨
      IsRounded .positive (nearest n e) (n * 10 ^ e) := by
  unfold nearest
  dsimp only
  split_ifs with hsmall hgreat
  · exact .inl rfl
  · have hn : 0 < n := by omega
    refine .inr (.inl ⟨rfl, ?_⟩)
    have hlength := Nat.length_toDigits_pos (b := 10) (n := n)
    have hdigits : ((10 ^ ((Nat.toDigits 10 n).length - 1) : ℕ) : ℚ) ≤ n := by
      exact_mod_cast ten_pow_le_of_pos hn
    calc (2 : ℚ) ^ 1023 < 2 ^ 1200 := pow_lt_pow_right₀ (by norm_num) (by norm_num)
      _ = (2 ^ 3) ^ 400 := by rw [← pow_mul]
      _ ≤ 10 ^ 400 := pow_le_pow_left₀ (by norm_num) (by norm_num) 400
      _ = 10 ^ (400 : ℤ) := by rw [← zpow_natCast]; rfl
      _ ≤ 10 ^ ((((Nat.toDigits 10 n).length - 1 : ℕ) : ℤ) + e) :=
        zpow_le_zpow_right₀ (by norm_num) (by omega)
      _ = ((10 ^ ((Nat.toDigits 10 n).length - 1) : ℕ) : ℚ) * 10 ^ e := by
        rw [zpow_add₀ (by norm_num), zpow_natCast]
        push_cast
        rfl
      _ ≤ n * 10 ^ e := by gcongr
  · have hn : 0 < n := by omega
    right
    right
    rcases he.lt_or_eq with hneg | rfl
    · have hlog : (Nat.toDigits 10 n).length - 1 ≤ n.log2 := by
        rw [Nat.le_log2 hn.ne']
        exact (Nat.pow_le_pow_left (by norm_num) _).trans (ten_pow_le_of_pos hn)
      have hlength := Nat.length_toDigits_pos (b := 10) (n := n)
      have hrounded := isRounded_ofScientific_neg (n := n) (k := e.natAbs) hn (by omega) (by omega)
      have hvalue : (n : ℚ) * 10 ^ e = n / 10 ^ e.natAbs := by
        rw [show e = -(e.natAbs : ℤ) by omega, zpow_neg, zpow_natCast, Int.natAbs_neg,
          Int.natAbs_natCast, div_eq_mul_inv]
      rw [hvalue, decide_eq_true hneg]
      exact hrounded
    · have hrounded := isRounded_ofScientific (k := 0) hn (by omega)
      rw [pow_zero] at hrounded
      rw [zpow_zero]
      exact hrounded

theorem notNan_nearest (he : e ≤ 0) : NotNan (nearest n e) := by
  rcases nearest_cases (n := n) he with hzero | ⟨hinfinite, -⟩ | hrounded
  · rw [hzero]
    decide +kernel
  · rw [hinfinite]
    decide +kernel
  · exact hrounded.notNan

theorem atMost_nearest (he : e ≤ 0) (hle : (n : ℚ) * 10 ^ e ≤ 2 ^ 1023) :
    AtMost (nearest n e) (2 * (n * 10 ^ e)) := by
  have hnonneg : (0 : ℚ) ≤ n * 10 ^ e := mul_nonneg n.cast_nonneg (zpow_nonneg (by norm_num) e)
  rcases nearest_cases (n := n) he with hzero | ⟨-, hgreat⟩ | hrounded
  · rw [hzero]
    have hdouble := mul_nonneg (zero_le_two : (0 : ℚ) ≤ 2) hnonneg
    exact ⟨⟨0, -1074⟩, rfl, (Binary.value_of_zero rfl).trans_le hdouble⟩
  · exact absurd hle (not_le.mpr hgreat)
  · exact hrounded.atMost hnonneg hle

end TokenSheets.Decimal
