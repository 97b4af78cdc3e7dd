import Mathlib
import TokenSheets.Proofs.Decimal.Interval

/-!
# Results of arithmetic are rounded

Products and quotients of doubles are formed exactly, as a mantissa with two bits that say what was
cut off, and then rounded to 53 bits. The bits always tell where the exact result is, so the double
that comes out is the one that the exact result rounds to.

* `Near`: what a mantissa and its two bits say of a number;
* `exists_roundWithAccuracy`: the rounded result.
-/

namespace TokenSheets.Decimal

open Float.Model Float.Model.UnpackedFloat

/-! ### A mantissa and what was cut off -/

/-- **The mantissa and its bits say where the number is**: at the mantissa, in front of the middle
to the next one, in the middle, or behind it. -/
def Near (em : ExtendedMantissa) (r : ℚ) : Prop :=
  match em.roundBit, em.stickyBit with
  | false, false => r = em.mantissa
  | false, true => em.mantissa < r ∧ r < em.mantissa + 1 / 2
  | true, false => r = em.mantissa + 1 / 2
  | true, true => em.mantissa + 1 / 2 < r ∧ r < em.mantissa + 1

variable {em : ExtendedMantissa} {r : ℚ}

theorem Near.le (h : Near em r) : em.mantissa ≤ r := by
  unfold Near at h
  split at h <;> linarith

theorem Near.lt (h : Near em r) : r < em.mantissa + 1 := by
  unfold Near at h
  split at h <;> linarith

theorem Near.shiftRightOne (h : Near em r) : Near em.shiftRightOne (r / 2) := by
  obtain ⟨m, round, sticky⟩ := em
  have hm : (m : ℚ) = 2 * (m / 2 : ℕ) + (m % 2 : ℕ) := by exact_mod_cast (Nat.div_add_mod m 2).symm
  rcases Nat.mod_two_eq_zero_or_one m with hmod | hmod <;> rw [hmod] at hm <;>
    rcases round <;> rcases sticky <;>
    simp only [Near, ExtendedMantissa.shiftRightOne, hmod, Bool.or_true, Bool.or_false,
      bne_self_eq_false, Nat.cast_zero, Nat.cast_one, show (1 != 0) = true from rfl] at h hm ⊢ <;>
    first
    | constructor <;> linarith
    | linarith

theorem Near.shiftRight (h : Near em r) (n : ℕ) : Near (em >>> n) (r / 2 ^ n) := by
  induction n with
  | zero =>
    rw [pow_zero, div_one]
    exact h
  | succ n ih =>
    rw [pow_succ, ← div_div]
    exact ih.shiftRightOne

/-- **Rounding goes to the nearest mantissa**, from the middle to the even one. -/
theorem Near.roundedMantissa (h : Near em r) :
    ((em.roundedMantissa : ℚ) - 1 / 2 < r ∨
        em.roundedMantissa % 2 = 0 ∧ (em.roundedMantissa : ℚ) - 1 / 2 = r) ∧
      (r < em.roundedMantissa + 1 / 2 ∨
        em.roundedMantissa % 2 = 0 ∧ r = em.roundedMantissa + 1 / 2) := by
  obtain ⟨m, round, sticky⟩ := em
  rcases round <;> rcases sticky <;>
    simp only [Near, ExtendedMantissa.roundedMantissa, ExtendedMantissa.accuracy,
      Accuracy.roundToNearestEven] at h ⊢
  · exact ⟨.inl (by linarith), .inl (by linarith)⟩
  · exact ⟨.inl (by linarith), .inl (by linarith)⟩
  · -- the middle: an even mantissa stays, an odd one grows
    rcases Nat.mod_two_eq_zero_or_one m with hmod | hmod <;> rw [hmod]
    · exact ⟨.inl (by push_cast; linarith), .inr ⟨by omega, by push_cast; linarith⟩⟩
    · exact ⟨.inr ⟨by omega, by push_cast; linarith⟩, .inl (by push_cast; linarith)⟩
  · exact ⟨.inl (by push_cast; linarith), .inl (by push_cast; linarith)⟩

theorem Near.mantissa_le_roundedMantissa (em : ExtendedMantissa) :
    em.mantissa ≤ em.roundedMantissa ∧ em.roundedMantissa ≤ em.mantissa + 1 := by
  obtain ⟨m, round, sticky⟩ := em
  rcases round <;> rcases sticky <;>
    simp only [ExtendedMantissa.roundedMantissa, ExtendedMantissa.accuracy,
      Accuracy.roundToNearestEven] <;> omega

theorem near_exact (m : ℕ) : Near (.ofMantissaAndAccuracy m .exact) m := rfl

theorem near_fraction {a b : ℕ} (hb : 0 < b) :
    Near (.ofMantissaAndAccuracy (a / b) (accuracyOfFraction (a % b) b)) (a / b) := by
  have hbq : (0 : ℚ) < b := by exact_mod_cast hb
  have ha : (a : ℚ) / b = (a / b : ℕ) + (a % b : ℕ) / b := by
    rw [div_eq_iff hbq.ne', add_mul, div_mul_cancel₀ _ hbq.ne']
    exact_mod_cast (Nat.div_add_mod' a b).symm
  have hlt : ((a % b : ℕ) : ℚ) / b < 1 := by
    rw [div_lt_one hbq]
    exact_mod_cast Nat.mod_lt a hb
  unfold accuracyOfFraction
  split_ifs with hzero
  · rw [ha, hzero]
    simp [Near, ExtendedMantissa.ofMantissaAndAccuracy]
  · have hpos : 0 < ((a % b : ℕ) : ℚ) / b := by
      have : (0 : ℚ) < (a % b : ℕ) := by exact_mod_cast Nat.pos_of_ne_zero hzero
      positivity
    have hhalf : ∀ o : Ordering, compare (2 * (a % b)) b = o →
        compare (((a % b : ℕ) : ℚ) / b) (1 / 2) = o := by
      rintro (_ | _ | _) ho
      · rw [compare_lt_iff_lt] at ho ⊢
        rw [div_lt_div_iff₀ hbq (by norm_num)]
        have : ((2 * (a % b) : ℕ) : ℚ) < b := by exact_mod_cast ho
        push_cast at this ⊢
        linarith
      · rw [compare_eq_iff_eq] at ho ⊢
        rw [div_eq_div_iff hbq.ne' (by norm_num)]
        have : ((2 * (a % b) : ℕ) : ℚ) = b := by exact_mod_cast ho
        push_cast at this ⊢
        linarith
      · rw [compare_gt_iff_gt] at ho ⊢
        rw [div_lt_div_iff₀ (by norm_num) hbq]
        have : (b : ℚ) < ((2 * (a % b) : ℕ) : ℚ) := by exact_mod_cast ho
        push_cast at this ⊢
        linarith
    rcases ho : compare (2 * (a % b)) b with _ | _ | _ <;>
      have hcompare := hhalf _ ho <;>
      simp only [Near, ExtendedMantissa.ofMantissaAndAccuracy]
    · have := compare_lt_iff_lt.mp hcompare
      constructor <;> linarith
    · have := compare_eq_iff_eq.mp hcompare
      linarith
    · have := compare_gt_iff_gt.mp hcompare
      constructor <;> linarith

/-! ### The rounded result -/

theorem targetExponent_eq (m : ℕ) (e : ℤ) :
    Format.binary64.targetExponent (totalExponent m e) = max (m.log2 + 1 + e - 53) (-1074) := by
  simp only [Format.targetExponent, totalExponent, Format.mantissaBits, Format.minExponent]
  norm_num

theorem shiftToTargetExponent_of_lt {m : ℕ} {e : ℤ} (hm : m < 2 ^ 53) (he : -1074 ≤ e) :
    shiftToTargetExponent .binary64 m e .exact = (⟨m, false, false⟩, e) := by
  have hlog : m.log2 ≤ 52 := by
    rcases Nat.eq_zero_or_pos m with rfl | hpos
    · simp
    · have := (Nat.log2_lt hpos.ne').mpr hm
      omega
  have hshift : (Format.binary64.targetExponent (totalExponent m e) - e).toNat = 0 := by
    rw [targetExponent_eq]
    omega
  simp only [shiftToTargetExponent, shiftToExponent, hshift]
  exact Prod.ext rfl (by simp)

theorem shiftToTargetExponent_carry {e : ℤ} (he : -1074 ≤ e) :
    shiftToTargetExponent .binary64 (2 ^ 53) e .exact = (⟨2 ^ 52, false, false⟩, e + 1) := by
  have hshift : (Format.binary64.targetExponent (totalExponent (2 ^ 53) e) - e).toNat = 1 := by
    rw [targetExponent_eq, Nat.log2_two_pow]
    omega
  simp only [shiftToTargetExponent, shiftToExponent, hshift]
  exact Prod.ext rfl (by simp)

/-- The double of a sign, a mantissa and an exponent. -/
def unpacked (sign : Sign) (x : Binary) : Float.Model.UnpackedFloat :=
  if h : x.m = 0 then .zero sign else .finite sign x.m x.q (Nat.pos_of_ne_zero h)

theorem near_shifted {m : ℕ} {e : ℤ} {accuracy : Accuracy} {r : ℚ}
    (h : Near (.ofMantissaAndAccuracy m accuracy) (r / 2 ^ e)) (hbits : 2 ^ 52 ≤ m ∨ e ≤ -1074) :
    ∃ em t, shiftToTargetExponent .binary64 m e accuracy = (em, t) ∧ Near em (r / 2 ^ t) ∧
      em.mantissa < 2 ^ 53 ∧ -1074 ≤ t ∧ (2 ^ 52 ≤ em.mantissa ∨ t = -1074) := by
  set t := max ((m.log2 : ℤ) + 1 + e - 53) (-1074) with ht
  have het : e ≤ t := by
    rcases hbits with hbits | hbits
    · have := (Nat.le_log2 (by omega)).mpr hbits
      omega
    · omega
  obtain ⟨k, hk⟩ : ∃ k : ℕ, t = e + k := ⟨(t - e).toNat, by omega⟩
  have hnear : Near (ExtendedMantissa.ofMantissaAndAccuracy m accuracy >>> k) (r / 2 ^ t) := by
    rw [hk, zpow_add₀ (by norm_num), zpow_natCast, ← div_div]
    exact h.shiftRight k
  have hmantissa : (ExtendedMantissa.ofMantissaAndAccuracy m accuracy).mantissa = m := by
    rcases accuracy with _ | (_ | _ | _) <;> rfl
  have hscale : r / 2 ^ e = r / 2 ^ t * 2 ^ k := by
    rw [hk, zpow_add₀ (by norm_num), zpow_natCast, ← div_div, div_mul_cancel₀ _ (by positivity)]
  have hlow := h.le
  have hhigh := h.lt
  rw [hmantissa, hscale] at hlow hhigh
  refine ⟨_, t, ?_, hnear, ?_, le_max_right _ _, ?_⟩
  · rw [shiftToTargetExponent, targetExponent_eq, ← ht]
    simp only [shiftToExponent, show (t - e).toNat = k by omega, ← hk]
  · -- the number in front of the shift is below `2 ^ (m.log2 + 1)`
    have hm : ((m + 1 : ℕ) : ℚ) ≤ 2 ^ 53 * 2 ^ k := by
      have hlt : m < 2 ^ (m.log2 + 1) := Nat.lt_log2_self
      have hpow : 2 ^ (m.log2 + 1) ≤ 2 ^ (53 + k) := Nat.pow_le_pow_right (by decide) (by omega)
      rw [← pow_add]
      exact_mod_cast (by omega : m + 1 ≤ 2 ^ (53 + k))
    have hlt : r / 2 ^ t < 2 ^ 53 := by
      push_cast at hm
      exact lt_of_mul_lt_mul_right (hhigh.trans_le hm) (by positivity)
    have := hnear.le.trans_lt hlt
    exact_mod_cast this
  · by_cases hmin : t = -1074
    · exact .inr hmin
    · left
      have hkm : m.log2 = 52 + k := by omega
      have hm : (2 : ℚ) ^ 52 * 2 ^ k ≤ m := by
        rw [← pow_add, ← hkm]
        exact_mod_cast Nat.log2_self_le (by
          rintro rfl
          rw [Nat.log2_zero] at hkm
          omega)
      have hle : 2 ^ 52 ≤ r / 2 ^ t := le_of_mul_le_mul_right (hm.trans hlow) (by positivity)
      have hlt := hle.trans_lt hnear.lt
      have hnat : 2 ^ 52 < (ExtendedMantissa.ofMantissaAndAccuracy m accuracy >>> k).mantissa + 1 :=
        by exact_mod_cast hlt
      omega

section Rounded

variable {em : ExtendedMantissa} {t : ℤ} {q : ℚ}

/-- A mantissa that rounding leaves below 54 bits is that of a double. -/
theorem Near.rounds (hnear : Near em q) (hsmall : em.roundedMantissa < 2 ^ 53) (ht : -1074 ≤ t)
    (hnormal : 2 ^ 52 ≤ em.mantissa ∨ t = -1074) :
    (⟨em.roundedMantissa, t⟩ : Binary).IsDouble ∧
      (⟨em.roundedMantissa, t⟩ : Binary).Rounds (q * 2 ^ t) := by
  obtain ⟨hge, -⟩ := Near.mantissa_le_roundedMantissa em
  obtain ⟨hlow, hhigh⟩ := hnear.roundedMantissa
  have hlower := hnear.le
  have hpos : (0 : ℚ) < 2 ^ t := by positivity
  generalize em.roundedMantissa = rounded at *
  refine ⟨⟨hsmall, ht, hnormal.imp_left fun h => h.trans hge⟩, ?_, ?_⟩
  · by_cases hnarrow : (⟨rounded, t⟩ : Binary).narrowBelow
    · -- behind the least mantissa nothing is cut off downwards
      obtain ⟨hmin, hexp⟩ := Binary.narrowBelow_iff.mp hnarrow
      left
      simp only [Binary.lower, hnarrow, if_true]
      gcongr
      have hfull : 2 ^ 52 ≤ em.mantissa := hnormal.resolve_right (by
        simp only at hexp
        omega)
      have hcast : (2 ^ 52 : ℚ) ≤ em.mantissa := by exact_mod_cast hfull
      have hrounded : (rounded : ℚ) = 2 ^ 52 := by exact_mod_cast hmin
      linarith
    · simp only [Binary.lower, hnarrow, if_false, Bool.false_eq_true]
      refine hlow.imp (fun h => ?_) fun h => ⟨h.1, by rw [h.2]⟩
      gcongr
  · simp only [Binary.upper]
    refine hhigh.imp (fun h => ?_) fun h => ⟨h.1, by rw [h.2]⟩
    gcongr

/-- A mantissa that rounding fills up is that of the next power of two. -/
theorem Near.rounds_carry (hnear : Near em q) (hlt : em.mantissa < 2 ^ 53)
    (hfull : em.roundedMantissa = 2 ^ 53) (ht : -1074 ≤ t) :
    (⟨2 ^ 52, t + 1⟩ : Binary).IsDouble ∧ (⟨2 ^ 52, t + 1⟩ : Binary).Rounds (q * 2 ^ t) := by
  obtain ⟨hlow, -⟩ := hnear.roundedMantissa
  have hupper := hnear.lt
  have hpos : (0 : ℚ) < 2 ^ t := by positivity
  have hsucc : (2 : ℚ) ^ (t + 1) = 2 ^ t * 2 := zpow_add_one₀ (by norm_num) _
  have hq : q < 2 ^ 53 := by
    have : ((em.mantissa + 1 : ℕ) : ℚ) ≤ (2 ^ 53 : ℕ) := by exact_mod_cast hlt
    push_cast at this
    linarith
  have hnext : -1074 ≤ t + 1 := by omega
  rw [hfull] at hlow
  refine ⟨⟨by norm_num, hnext, .inl le_rfl⟩, ?_, .inl ?_⟩
  · have hnarrow : (⟨2 ^ 52, t + 1⟩ : Binary).narrowBelow = true :=
      Binary.narrowBelow_iff.mpr ⟨rfl, by show t + 1 > -1074; omega⟩
    simp only [Binary.lower, hnarrow, if_true]
    rw [hsucc]
    push_cast at hlow ⊢
    have hends : ((4503599627370496 : ℚ) - 1 / 4) * (2 ^ t * 2) =
        (9007199254740992 - 1 / 2) * 2 ^ t := by ring
    rw [hends]
    refine hlow.imp (fun h => ?_) fun h => ⟨by norm_num, by rw [h.2]⟩
    gcongr
  · simp only [Binary.upper]
    rw [hsucc]
    push_cast
    have hends : ((4503599627370496 : ℚ) + 1 / 2) * (2 ^ t * 2) =
        (9007199254740992 + 1) * 2 ^ t := by ring
    rw [hends]
    gcongr
    linarith

end Rounded

/-- **The rounded result** is the double that the exact result rounds to. -/
theorem exists_roundWithAccuracy (sign : Sign) {m : ℕ} {e : ℤ} {accuracy : Accuracy} {r : ℚ}
    (h : Near (.ofMantissaAndAccuracy m accuracy) (r / 2 ^ e)) (hbits : 2 ^ 52 ≤ m ∨ e ≤ -1074) :
    ∃ x : Binary, x.IsDouble ∧ x.Rounds r ∧
      roundWithAccuracy .binary64 sign m e accuracy = unpacked sign x := by
  obtain ⟨em, t, hshift, hnear, hlt, ht, hnormal⟩ := near_shifted h hbits
  obtain ⟨-, hle⟩ := Near.mantissa_le_roundedMantissa em
  have hpos : (0 : ℚ) < 2 ^ t := by positivity
  have hr : r / 2 ^ t * 2 ^ t = r := div_mul_cancel₀ r hpos.ne'
  unfold roundWithAccuracy
  rw [hshift]
  dsimp only
  by_cases hsmall : em.roundedMantissa < 2 ^ 53
  · obtain ⟨hdouble, hrounds⟩ := hnear.rounds hsmall ht hnormal
    refine ⟨_, hdouble, hr ▸ hrounds, ?_⟩
    rw [shiftToTargetExponent_of_lt hsmall ht]
    rfl
  · -- rounding filled the mantissa up to the next power of two
    have hfull : em.roundedMantissa = 2 ^ 53 := by omega
    obtain ⟨hdouble, hrounds⟩ := hnear.rounds_carry hlt hfull ht
    refine ⟨_, hdouble, hr ▸ hrounds, ?_⟩
    rw [hfull, shiftToTargetExponent_carry ht]
    rfl

end TokenSheets.Decimal
