import TokenSheets.Decimal.Binary
import TokenSheets.Proofs.Decimal.Rounding

/-!
# Doubles and their arithmetic

A double is kept as 64 bits: its sign, its exponent and the last 52 bits of its mantissa. Arithmetic
takes both operands apart, works with their mantissas and packs the result. `Double.classify` reads
the same bits, so it says what each operation gives.

* `unpack_toModel`, `classify_pack`: taking apart and packing;
* `eq_of_classify`: finite doubles with the same parts are the same;
* `IsRounded`: the double that a number is rounded to, or an infinite one;
* `isRounded_mul`, `isRounded_div`: products and quotients are rounded;
* `Stands`: a double stands for a finite number that is not negative;
* `isRounded_ofScientific`: so are whole numbers times powers of ten.
-/

namespace TokenSheets.Decimal

open Float.Model Float.Model.UnpackedFloat

/-- The sign of a double. -/
def Double.sign (d : Double) : Sign := if d.negative then .negative else .positive

/-! ### The three fields of the bits -/

theorem toNat_unpackExponent (b : BitVec 64) :
    (@unpackExponent .binary64 b).toNat = b.toNat / 2 ^ 52 % 2 ^ 11 := by
  simp [unpackExponent, Nat.shiftRight_eq_div_pow]

theorem toNat_unpackMantissa (b : BitVec 64) :
    (@unpackMantissa .binary64 b).toNat = b.toNat % 2 ^ 52 := by
  simp [unpackMantissa]

theorem toNat_unpackSign (b : BitVec 64) :
    (@unpackSign .binary64 b).toNat = b.toNat / 2 ^ 63 % 2 := by
  simp [unpackSign, Nat.shiftRight_eq_div_pow]

theorem toNat_packComponents (sign : Sign) (exponent : BitVec 11) (mantissa : BitVec 52) :
    (packComponents Format.binary64 sign exponent mantissa).toNat =
      (sign.toBitVec.toNat * 2 ^ 11 + exponent.toNat) * 2 ^ 52 + mantissa.toNat := by
  have happend : ∀ {m n : ℕ} (x : BitVec m) (y : BitVec n),
      (x ++ y).toNat = x.toNat * 2 ^ n + y.toNat := by
    intro m n x y
    rw [BitVec.toNat_append, ← Nat.shiftLeft_add_eq_or_of_lt y.isLt, Nat.shiftLeft_eq]
  unfold packComponents
  rw [happend, happend]

/-! ### Taking a double apart -/

theorem classify_eq (x : Float) :
    Double.classify x =
      { negative := x.toModel.toBits.toBitVec.toNat / 2 ^ 63 = 1
        magnitude :=
          if x.toModel.toBits.toBitVec.toNat / 2 ^ 52 % 2 ^ 11 = 2047 then
            (if x.toModel.toBits.toBitVec.toNat % 2 ^ 52 = 0 then .infinite else .nan)
          else if x.toModel.toBits.toBitVec.toNat / 2 ^ 52 % 2 ^ 11 = 0 then
            .finite ⟨x.toModel.toBits.toBitVec.toNat % 2 ^ 52, -1074⟩
          else .finite ⟨2 ^ 52 + x.toModel.toBits.toBitVec.toNat % 2 ^ 52,
            ((x.toModel.toBits.toBitVec.toNat / 2 ^ 52 % 2 ^ 11 : ℕ) : ℤ) - 1075⟩ } := rfl

/-- **What arithmetic sees of a double** is what its class says. -/
theorem unpack_toModel (x : Float) :
    x.toModel.unpack =
      match (Double.classify x).magnitude with
      | .nan => .notANumber
      | .infinite => .infinity (Double.classify x).sign
      | .finite a => unpacked (Double.classify x).sign a := by
  have hlt : x.toModel.toBits.toBitVec.toNat < 2 ^ 64 := x.toModel.toBits.toBitVec.isLt
  have hexponent := toNat_unpackExponent x.toModel.toBits.toBitVec
  have hmantissa := toNat_unpackMantissa x.toModel.toBits.toBitVec
  have hsign : Sign.ofBitVec (@unpackSign .binary64 x.toModel.toBits.toBitVec) =
      (Double.classify x).sign := by
    have hbit := toNat_unpackSign x.toModel.toBits.toBitVec
    rw [Double.sign, classify_eq]
    unfold Sign.ofBitVec
    simp only [← BitVec.toNat_inj, hbit, decide_eq_true_eq]
    have : (0#1).toNat = 0 := rfl
    split_ifs <;> first | rfl | omega
  rw [Float.Model.unpack, UnpackedFloat.unpack, hsign]
  simp only [← BitVec.toNat_inj, hexponent, hmantissa]
  rw [classify_eq]
  have hones : (-1#11).toNat = 2047 := rfl
  have hzero : (0#11).toNat = 0 := rfl
  have hzero' : (0#52).toNat = 0 := rfl
  simp only [hones, hzero, hzero']
  split_ifs with hspecial hfraction hsubnormal hnull <;> dsimp only
  · rw [unpacked, dif_pos hnull]
  · rw [unpacked, dif_neg hnull]
    congr 1
    rw [hsubnormal]
    rfl
  · have happend : (1#1 ++ @unpackMantissa .binary64 x.toModel.toBits.toBitVec).toNat =
        2 ^ 52 + x.toModel.toBits.toBitVec.toNat % 2 ^ 52 := by
      rw [BitVec.toNat_append, ← Nat.shiftLeft_add_eq_or_of_lt (BitVec.isLt _), hmantissa]
      rfl
    rw [unpacked, dif_neg (by show ¬ 2 ^ 52 + _ = 0; omega)]
    congr 1

theorem isDouble_of_classify {x : Float} {a : Binary}
    (h : (Double.classify x).magnitude = .finite a) : a.IsDouble ∧ a.q ≤ 971 := by
  have hlt : x.toModel.toBits.toBitVec.toNat < 2 ^ 64 := x.toModel.toBits.toBitVec.isLt
  rw [classify_eq] at h
  dsimp only at h
  split_ifs at h with hspecial hfraction hsubnormal
  · cases h
    exact ⟨⟨by show _ % _ < _; omega, le_rfl, .inr rfl⟩, by norm_num⟩
  · cases h
    refine ⟨⟨?_, ?_, .inl ?_⟩, ?_⟩ <;> dsimp only <;> omega

theorem isFinite_iff {x : Float} :
    x.isFinite = true ↔ ∃ a, (Double.classify x).magnitude = .finite a := by
  have hfinite : x.isFinite = x.toModel.unpack.isFinite := rfl
  rw [hfinite, unpack_toModel]
  rcases (Double.classify x).magnitude with _ | _ | a
  · simp [UnpackedFloat.isFinite]
  · simp [UnpackedFloat.isFinite]
  · simp only [unpacked]
    split_ifs <;> simp [UnpackedFloat.isFinite]

/-- **Finite doubles with the same parts** are the same. -/
theorem eq_of_classify {x y : Float} {a : Binary} (hx : (Double.classify x).magnitude = .finite a)
    (h : Double.classify x = Double.classify y) : x = y := by
  have hxlt : x.toModel.toBits.toBitVec.toNat < 2 ^ 64 := x.toModel.toBits.toBitVec.isLt
  have hylt : y.toModel.toBits.toBitVec.toNat < 2 ^ 64 := y.toModel.toBits.toBitVec.isLt
  have hy : (Double.classify y).magnitude = .finite a := h ▸ hx
  have hsign : (x.toModel.toBits.toBitVec.toNat / 2 ^ 63 = 1) =
      (y.toModel.toBits.toBitVec.toNat / 2 ^ 63 = 1) := by
    have hnegative := congrArg Double.negative h
    rwa [classify_eq, classify_eq, decide_eq_decide, ← propext_iff] at hnegative
  rw [classify_eq] at hx hy
  have hbits : x.toModel.toBits.toBitVec.toNat = y.toModel.toBits.toBitVec.toNat := by
    generalize x.toModel.toBits.toBitVec.toNat = b at *
    generalize y.toModel.toBits.toBitVec.toNat = c at *
    dsimp only at hx hy
    split_ifs at hx hy <;> cases hx <;>
      simp only [Magnitude.finite.injEq, Binary.mk.injEq] at hy <;>
      rw [propext_iff] at hsign <;> omega
  obtain ⟨⟨b, hb⟩⟩ := x
  obtain ⟨⟨c, hc⟩⟩ := y
  obtain rfl : b = c := UInt64.toBitVec_inj.mp (BitVec.eq_of_toNat_eq hbits)
  rfl

/-! ### Packing -/

/-- **A double that is packed** has the parts that it was packed from. -/
theorem classify_pack (sign : Sign) {a : Binary} (ha : a.IsDouble) (hq : a.q ≤ 971) :
    Double.classify (.ofModel (Float.Model.pack (unpacked sign a))) =
      ⟨sign.toBitVec.toNat = 1, .finite a⟩ := by
  have hsign : sign.toBitVec.toNat < 2 := sign.toBitVec.isLt
  have hlt := ha.lt
  have hle := ha.le
  have hbits : (Float.Model.pack (unpacked sign a)).toBits.toBitVec.toNat =
      (sign.toBitVec.toNat * 2 ^ 11 + if a.m < 2 ^ 52 then 0 else (a.q + 1075).toNat) * 2 ^ 52 +
        a.m % 2 ^ 52 := by
    show (UnpackedFloat.pack Format.binary64 (unpacked sign a)).toNat = _
    unfold unpacked
    split_ifs with hzero hsmall hsmall
    · rw [hzero]
      exact toNat_packComponents sign 0 0
    · omega
    · -- too small for a leading bit, so the exponent is the least
      have hlog : ¬ a.m.log2 + 1 = Format.binary64.mantissaBits := by
        have := (Nat.log2_lt hzero).mpr hsmall
        show ¬ _ = 53
        omega
      have hq : a.q = -1074 := ha.normal.resolve_left (by omega)
      rw [UnpackedFloat.pack]
      dsimp only
      rw [if_neg (by rw [hq]; decide), if_neg hlog, toNat_packComponents]
      simp
    · have hlog : a.m.log2 + 1 = Format.binary64.mantissaBits := by
        have hlow := (Nat.le_log2 hzero).mpr (by omega : 2 ^ 52 ≤ a.m)
        have hhigh := (Nat.log2_lt hzero).mpr hlt
        show _ = 53
        omega
      have hbiased : (a.q + Format.binary64.exponentBias +
          Format.binary64.mantissaBitsWithoutImplicit).toNat = (a.q + 1075).toNat := by
        show (a.q + (1023 : ℕ) + (52 : ℕ)).toNat = _
        omega
      rw [UnpackedFloat.pack]
      dsimp only
      rw [hbiased, if_neg (by show ¬ 2 ^ 11 ≤ _; omega), if_pos hlog, toNat_packComponents,
        BitVec.toNat_ofNat, BitVec.toNat_ofNat, Nat.mod_eq_of_lt (by omega : _ < 2 ^ 11)]
  have hq' : a.m < 2 ^ 52 → a.q = -1074 := fun h => ha.normal.resolve_left (by omega)
  obtain ⟨m, q⟩ := a
  dsimp only at hbits hlt hle hq hq'
  rw [classify_eq]
  dsimp only
  rw [hbits]
  congr 1
  · rw [decide_eq_decide]
    split_ifs <;> omega
  · split_ifs <;> first
      | omega
      | simp only [Magnitude.finite.injEq, Binary.mk.injEq]
        omega

theorem classify_pack_of_lt (sign : Sign) {a : Binary} (ha : a.IsDouble) (hq : 971 < a.q) :
    Double.classify (.ofModel (Float.Model.pack (unpacked sign a))) =
      ⟨sign.toBitVec.toNat = 1, .infinite⟩ := by
  have hfull : 2 ^ 52 ≤ a.m := ha.normal.resolve_right (by omega)
  have hinfinite : Float.Model.pack (unpacked sign a) = Float.Model.pack (.infinity sign) := by
    have hexponent : 2 ^ Format.binary64.exponentBits ≤ (a.q + Format.binary64.exponentBias +
        Format.binary64.mantissaBitsWithoutImplicit).toNat + 1 := by
      show 2 ^ 11 ≤ (a.q + (1023 : ℕ) + (52 : ℕ)).toNat + 1
      omega
    rw [unpacked, dif_neg (by omega)]
    unfold Float.Model.pack
    congr 1
    refine congrArg UInt64.ofBitVec ?_
    rw [UnpackedFloat.pack]
    exact if_pos hexponent
  rw [hinfinite]
  cases sign <;> rfl

/-! ### Arithmetic -/

/-- **The double that a number is rounded to**, with a sign; it is infinite where the number would
need too great an exponent. -/
def IsRounded (sign : Sign) (x : Float) (r : ℚ) : Prop :=
  ∃ c : Binary, c.IsDouble ∧ c.Rounds r ∧
    Double.classify x = ⟨sign.toBitVec.toNat = 1, if c.q ≤ 971 then .finite c else .infinite⟩

variable {x y : Float} {a b c : Binary} {r : ℚ}

theorem isRounded_pack {sign : Sign} (hc : c.IsDouble) (hr : c.Rounds r)
    (h : x = .ofModel (Float.Model.pack (unpacked sign c))) : IsRounded sign x r := by
  refine ⟨c, hc, hr, ?_⟩
  rw [h]
  split_ifs with hq
  · exact classify_pack sign hc hq
  · exact classify_pack_of_lt sign hc (by omega)

theorem isRounded_zero {sign : Sign} (hr : r = 0)
    (h : x = .ofModel (Float.Model.pack (.zero sign))) : IsRounded sign x r := by
  have hrounds := Binary.rounds_value ⟨0, -1074⟩
  rw [Binary.value_of_zero rfl, ← hr] at hrounds
  exact isRounded_pack ⟨by norm_num, le_rfl, .inr rfl⟩ hrounds h

theorem unpack_of_finite (h : (Double.classify x).magnitude = .finite a) :
    x.toModel.unpack = unpacked (Double.classify x).sign a := by
  rw [unpack_toModel, h]

theorem isRounded_mul (hx : (Double.classify x).magnitude = .finite a)
    (hy : (Double.classify y).magnitude = .finite b) :
    IsRounded ((Double.classify x).sign * (Double.classify y).sign) (x * y)
      (a.value * b.value) := by
  have hmul : x * y = .ofModel (Float.Model.pack (UnpackedFloat.mul .binary64 x.toModel.unpack
      y.toModel.unpack)) := rfl
  rw [unpack_of_finite hx, unpack_of_finite hy] at hmul
  generalize (Double.classify x).sign = s at *
  generalize (Double.classify y).sign = t at *
  have ha := (isDouble_of_classify hx).1
  have hb := (isDouble_of_classify hy).1
  by_cases ham : a.m = 0
  · refine isRounded_zero (by rw [Binary.value_of_zero ham, zero_mul]) ?_
    rw [hmul, unpacked, unpacked, dif_pos ham]
    split_ifs <;> rfl
  by_cases hbm : b.m = 0
  · refine isRounded_zero (by rw [Binary.value_of_zero hbm, mul_zero]) ?_
    rw [hmul, unpacked, unpacked, dif_neg ham, dif_pos hbm]
    rfl
  have hnear : Near (.ofMantissaAndAccuracy (a.m * b.m) .exact)
      (a.value * b.value / 2 ^ (a.q + b.q)) := by
    have hvalue : a.value * b.value / 2 ^ (a.q + b.q) = (a.m * b.m : ℕ) := by
      rw [div_eq_iff (by positivity), zpow_add₀ (by norm_num), Binary.value, Binary.value]
      push_cast
      ring
    rw [hvalue]
    exact near_exact _
  -- one full mantissa is enough, and without one the exponents are least
  have hbits : 2 ^ 52 ≤ a.m * b.m ∨ a.q + b.q ≤ -1074 := by
    rcases ha.normal with hfull | hleast
    · exact .inl (hfull.trans (Nat.le_mul_of_pos_right _ (Nat.pos_of_ne_zero hbm)))
    · rcases hb.normal with hfull | hleast'
      · exact .inl (hfull.trans (Nat.le_mul_of_pos_left _ (Nat.pos_of_ne_zero ham)))
      · exact .inr (by omega)
  obtain ⟨c, hc, hrounds, hround⟩ := exists_roundWithAccuracy (s * t) hnear hbits
  refine isRounded_pack hc hrounds ?_
  rw [hmul, unpacked, unpacked, dif_neg ham, dif_neg hbm]
  exact congrArg (Float.ofModel <| Float.Model.pack ·) hround

theorem near_divCore (ha : 0 < a.m) (hb : 0 < b.m) :
    ∃ m e accuracy, divCore .binary64 a.m a.q b.m b.q = (m, e, accuracy) ∧
      Near (.ofMantissaAndAccuracy m accuracy) (a.value / b.value / 2 ^ e) ∧
      (2 ^ 52 ≤ m ∨ e ≤ -1074) := by
  obtain ⟨t, ht⟩ : ∃ t, t = min (a.q - b.q) (Format.binary64.targetExponent
    (totalExponent a.m a.q - totalExponent b.m b.q)) := ⟨_, rfl⟩
  obtain ⟨k, hk⟩ : ∃ k : ℕ, a.q - b.q = t + k :=
    ⟨(a.q - b.q - t).toNat, by have := min_le_left (a.q - b.q) (Format.binary64.targetExponent
      (totalExponent a.m a.q - totalExponent b.m b.q)); omega⟩
  refine ⟨a.m * 2 ^ k / b.m, t, accuracyOfFraction (a.m * 2 ^ k % b.m) b.m, ?_, ?_, ?_⟩
  · rw [divCore, ← ht]
    simp only [show (a.q - b.q - t).toNat = k by omega, Nat.shiftLeft_eq]
  · have hbq : (b.m : ℚ) ≠ 0 := by exact_mod_cast hb.ne'
    have hvalue : a.value / b.value / 2 ^ t = (a.m * 2 ^ k : ℕ) / b.m := by
      rw [Binary.value, Binary.value, show a.q = t + k + b.q by omega, zpow_add₀ (by norm_num),
        zpow_add₀ (by norm_num), zpow_natCast]
      push_cast
      field_simp
    rw [hvalue]
    exact near_fraction hb
  · by_cases hmin : t ≤ -1074
    · exact .inr hmin
    · left
      -- the shift makes the dividend longer than the divisor by 53 bits
      have hshift : 53 + b.m.log2 ≤ a.m.log2 + k := by
        have hle := min_le_right (a.q - b.q) (Format.binary64.targetExponent
          (totalExponent a.m a.q - totalExponent b.m b.q))
        rw [← ht] at hle
        simp only [Format.targetExponent, totalExponent, Format.mantissaBits,
          Format.minExponent] at hle
        norm_num at hle
        omega
      rw [Nat.le_div_iff_mul_le hb]
      calc 2 ^ 52 * b.m ≤ 2 ^ 52 * 2 ^ (b.m.log2 + 1) :=
            Nat.mul_le_mul_left _ Nat.lt_log2_self.le
        _ = 2 ^ (53 + b.m.log2) := by rw [← pow_add]; congr 1; omega
        _ ≤ 2 ^ (a.m.log2 + k) := Nat.pow_le_pow_right (by decide) hshift
        _ = 2 ^ a.m.log2 * 2 ^ k := pow_add ..
        _ ≤ a.m * 2 ^ k := Nat.mul_le_mul_right _ (Nat.log2_self_le ha.ne')

theorem isRounded_div (hx : (Double.classify x).magnitude = .finite a)
    (hy : (Double.classify y).magnitude = .finite b) (hb : 0 < b.m) :
    IsRounded ((Double.classify x).sign / (Double.classify y).sign) (x / y)
      (a.value / b.value) := by
  have hdiv : x / y = .ofModel (Float.Model.pack (UnpackedFloat.div .binary64 x.toModel.unpack
      y.toModel.unpack)) := rfl
  rw [unpack_of_finite hx, unpack_of_finite hy] at hdiv
  generalize (Double.classify x).sign = s at *
  generalize (Double.classify y).sign = t at *
  rcases Nat.eq_zero_or_pos a.m with ham | ham
  · refine isRounded_zero (by rw [Binary.value_of_zero ham, zero_div]) ?_
    rw [hdiv, unpacked, unpacked, dif_pos ham, dif_neg hb.ne']
    rfl
  · obtain ⟨m, e, accuracy, hcore, hnear, hbits⟩ := near_divCore ham hb
    obtain ⟨c, hc, hrounds, hround⟩ := exists_roundWithAccuracy (s / t) hnear hbits
    refine isRounded_pack hc hrounds ?_
    rw [hdiv, unpacked, unpacked, dif_neg ham.ne', dif_neg hb.ne', UnpackedFloat.div, hcore]
    exact congrArg (Float.ofModel <| Float.Model.pack ·) hround

/-! ### Doubles that are not negative -/

/-- The double is positive or zero, and has these parts. -/
def Stands (x : Float) (a : Binary) : Prop := Double.classify x = ⟨false, .finite a⟩

theorem Stands.magnitude (h : Stands x a) : (Double.classify x).magnitude = .finite a :=
  congrArg Double.magnitude h

theorem Stands.sign (h : Stands x a) : (Double.classify x).sign = .positive := by
  rw [Double.sign, congrArg Double.negative h]
  rfl

theorem Stands.isDouble (h : Stands x a) : a.IsDouble := (isDouble_of_classify h.magnitude).1

theorem Stands.isInf (h : Stands x a) : x.isInf = false := by
  show x.toModel.unpack.isInf = false
  rw [unpack_of_finite h.magnitude, unpacked]
  split_ifs <;> rfl

theorem stands_pack (ha : a.IsDouble) (hq : a.q ≤ 971) :
    Stands (.ofModel (Float.Model.pack (unpacked .positive a))) a :=
  classify_pack .positive ha hq

theorem IsRounded.stands (h : IsRounded .positive x r) :
    ∃ c : Binary, c.IsDouble ∧ c.Rounds r ∧ (c.q ≤ 971 → Stands x c) := by
  obtain ⟨c, hc, hrounds, hclass⟩ := h
  refine ⟨c, hc, hrounds, fun hq => ?_⟩
  rw [if_pos hq] at hclass
  exact hclass

theorem Stands.mul (hx : Stands x a) (hy : Stands y b) :
    ∃ c : Binary, c.IsDouble ∧ c.Rounds (a.value * b.value) ∧ (c.q ≤ 971 → Stands (x * y) c) := by
  have hproduct := isRounded_mul hx.magnitude hy.magnitude
  rw [hx.sign, hy.sign] at hproduct
  exact hproduct.stands

theorem Stands.div (hx : Stands x a) (hy : Stands y b) (hb : 0 < b.m) :
    ∃ c : Binary, c.IsDouble ∧ c.Rounds (a.value / b.value) ∧ (c.q ≤ 971 → Stands (x / y) c) := by
  have hquotient := isRounded_div hx.magnitude hy.magnitude hb
  rw [hx.sign, hy.sign] at hquotient
  exact hquotient.stands

theorem Stands.neg (hx : Stands x a) : Double.classify (-x) = ⟨true, .finite a⟩ := by
  have hunpack : x.toModel.unpack.neg = unpacked .negative a := by
    rw [unpack_of_finite hx.magnitude, hx.sign, unpacked, unpacked]
    split_ifs <;> rfl
  have hneg : -x = .ofModel (Float.Model.pack (unpacked .negative a)) := by
    rw [← hunpack]
    rfl
  rw [hneg]
  exact classify_pack .negative hx.isDouble (isDouble_of_classify hx.magnitude).2

/-! ### Whole numbers and powers of ten -/

theorem exists_isDouble (n : ℕ) (hn : 0 < n) (hlt : n < 2 ^ 53) :
    ∃ c : Binary, c.IsDouble ∧ c.value = n := by
  have hlog : n.log2 ≤ 52 := by
    have := (Nat.log2_lt hn.ne').mpr hlt
    omega
  have hhigh : n * 2 ^ (52 - n.log2) < 2 ^ 53 := by
    calc n * 2 ^ (52 - n.log2) < 2 ^ (n.log2 + 1) * 2 ^ (52 - n.log2) :=
          Nat.mul_lt_mul_of_pos_right Nat.lt_log2_self (by positivity)
      _ = 2 ^ 53 := by rw [← pow_add]; congr 1; omega
  have hlow : 2 ^ 52 ≤ n * 2 ^ (52 - n.log2) := by
    calc 2 ^ 52 = 2 ^ n.log2 * 2 ^ (52 - n.log2) := by rw [← pow_add]; congr 1; omega
      _ ≤ n * 2 ^ (52 - n.log2) := Nat.mul_le_mul_right _ (Nat.log2_self_le hn.ne')
  refine ⟨⟨n * 2 ^ (52 - n.log2), n.log2 - 52⟩, ⟨hhigh, by dsimp only; omega, .inl hlow⟩, ?_⟩
  rw [Binary.value, show ((n.log2 : ℤ) - 52) = -((52 - n.log2 : ℕ) : ℤ) by omega, zpow_neg,
    zpow_natCast]
  push_cast
  field_simp

theorem value_of_rounds {n : ℕ} (hn : 0 < n) (hlt : n < 2 ^ 53) {c : Binary} (hc : c.IsDouble)
    (h : c.Rounds n) : c.value = n := by
  obtain ⟨d, hd, hvalue⟩ := exists_isDouble n hn hlt
  rw [Binary.eq_of_rounds hc hd h (hvalue ▸ d.rounds_value), hvalue]

theorem exists_stands_toFloat {n : ℕ} (hn : 0 < n) (hlt : n < 2 ^ 53) :
    ∃ c : Binary, Stands n.toUInt64.toFloat c ∧ c.value = n := by
  have hlog : n.log2 ≤ 52 := by
    have := (Nat.log2_lt hn.ne').mpr hlt
    omega
  have hshift : (0 - Format.binary64.targetExponent (totalExponent n 0)).toNat = 52 - n.log2 := by
    rw [targetExponent_eq]
    omega
  have hbits : 2 ^ 52 ≤ n * 2 ^ (52 - n.log2) := by
    calc 2 ^ 52 = 2 ^ n.log2 * 2 ^ (52 - n.log2) := by rw [← pow_add]; congr 1; omega
      _ ≤ n * 2 ^ (52 - n.log2) := Nat.mul_le_mul_right _ (Nat.log2_self_le hn.ne')
  have hnear : Near (.ofMantissaAndAccuracy (n * 2 ^ (52 - n.log2)) .exact)
      ((n : ℚ) / 2 ^ ((0 : ℤ) - (52 - n.log2 : ℕ))) := by
    have hvalue : (n : ℚ) / 2 ^ ((0 : ℤ) - (52 - n.log2 : ℕ)) = (n * 2 ^ (52 - n.log2) : ℕ) := by
      rw [zero_sub, zpow_neg, zpow_natCast, div_inv_eq_mul]
      push_cast
      rfl
    rw [hvalue]
    exact near_exact _
  obtain ⟨c, hc, hrounds, hround⟩ := exists_roundWithAccuracy .positive hnear (.inl hbits)
  have hvalue := value_of_rounds hn hlt hc hrounds
  have hq : c.q ≤ 971 := hc.le_of_rounds hrounds (by
    have : (n : ℚ) < 2 ^ 53 := by exact_mod_cast hlt
    have hone : (1 : ℚ) ≤ 2 ^ (970 : ℤ) := one_le_zpow₀ (by norm_num) (by norm_num)
    rw [show (971 : ℤ) = 970 + 1 by norm_num, zpow_add_one₀ (by norm_num)]
    generalize (2 : ℚ) ^ (970 : ℤ) = p at *
    nlinarith)
  have hof : UnpackedFloat.ofNat .binary64 n = unpacked .positive c := by
    rw [UnpackedFloat.ofNat, UnpackedFloat.ofInt, UnpackedFloat.normalize,
      Int.compare_eq_gt.mpr (by omega)]
    simp only [UnpackedFloat.round, decreaseExponent, Int.toNat_natCast, hshift, Nat.shiftLeft_eq]
    exact hround
  have hfloat : n.toUInt64.toFloat = .ofModel (Float.Model.pack (unpacked .positive c)) := by
    rw [← hof]
    have hsmall : n.toUInt64.toNat = n := by
      rw [Nat.toUInt64, UInt64.toNat_ofNat']
      exact Nat.mod_eq_of_lt (by omega)
    show Float.ofModel (Float.Model.pack (UnpackedFloat.ofNat .binary64 n.toUInt64.toNat)) = _
    rw [hsmall]
  exact ⟨c, hfloat ▸ stands_pack hc hq, hvalue⟩

theorem Binary.value_eq_of_mul_eq {n : ℕ} (h : a.m * 2 ^ a.q.toNat = n * 2 ^ (-a.q).toNat) :
    a.value = n := by
  have hq : (2 : ℚ) ^ a.q = 2 ^ a.q.toNat * (2 ^ (-a.q).toNat)⁻¹ := by
    rw [← zpow_natCast, ← zpow_natCast, ← zpow_neg, ← zpow_add₀ (by norm_num)]
    congr 1
    omega
  have hcast : (a.m : ℚ) * 2 ^ a.q.toNat = n * 2 ^ (-a.q).toNat := by exact_mod_cast h
  rw [value, hq, ← mul_assoc, hcast]
  field_simp

/-- The double stands for ten to this power. -/
def isPowerOfTen (x : Float) (k : ℕ) : Bool :=
  match Double.classify x with
  | ⟨false, .finite c⟩ => c.m * 2 ^ c.q.toNat = 10 ^ k * 2 ^ (-c.q).toNat
  | _ => false

theorem exists_stands_power (k : Fin Float.exactlyRepresentablePowersOfTen.size) :
    ∃ c : Binary, Stands Float.exactlyRepresentablePowersOfTen[k] c ∧ c.value = 10 ^ k.val := by
  have hall : ∀ k : Fin Float.exactlyRepresentablePowersOfTen.size,
      isPowerOfTen Float.exactlyRepresentablePowersOfTen[k] k = true := by decide +kernel
  have hk := hall k
  unfold isPowerOfTen at hk
  split at hk
  · rename_i c hclass
    refine ⟨c, hclass, ?_⟩
    have hvalue := Binary.value_eq_of_mul_eq (of_decide_eq_true hk)
    rw [hvalue]
    push_cast
    rfl
  · cases hk

theorem isRounded_ofScientific {n k : ℕ} (hn : 0 < n) (hk : k ≤ 2048) :
    IsRounded .positive (Float.ofScientific n false k) (n * 10 ^ k) := by
  by_cases hsmall : n < 2 ^ 53 ∧ k ≤ 22
  · -- both factors are exact
    have hsize : k < Float.exactlyRepresentablePowersOfTen.size := by
      show k < 23
      omega
    obtain ⟨a, ha, hvalue⟩ := exists_stands_toFloat hn hsmall.1
    obtain ⟨b, hb, hpower⟩ := exists_stands_power ⟨k, hsize⟩
    have hproduct := isRounded_mul ha.magnitude hb.magnitude
    rw [ha.sign, hb.sign, hvalue, hpower] at hproduct
    rw [Float.ofScientific, dif_pos hsmall]
    exact hproduct
  · have hnear : Near (.ofMantissaAndAccuracy (n * 2 ^ 53 * 10 ^ k) .exact)
        ((n : ℚ) * 10 ^ k / 2 ^ (-53 : ℤ)) := by
      have hvalue : (n : ℚ) * 10 ^ k / 2 ^ (-53 : ℤ) = (n * 2 ^ 53 * 10 ^ k : ℕ) := by
        rw [zpow_neg, div_inv_eq_mul]
        push_cast
        ring
      rw [hvalue]
      exact near_exact _
    have hbits : 2 ^ 52 ≤ n * 2 ^ 53 * 10 ^ k := by
      have hpower : 0 < 10 ^ k := by positivity
      calc 2 ^ 52 ≤ n * 2 ^ 53 := by omega
        _ ≤ n * 2 ^ 53 * 10 ^ k := Nat.le_mul_of_pos_right _ hpower
    obtain ⟨c, hc, hrounds, hround⟩ :=
      exists_roundWithAccuracy (.positive * .positive) hnear (.inl hbits)
    have hof : UnpackedFloat.ofScientific .binary64 n k = unpacked .positive c := by
      rw [UnpackedFloat.ofScientific, dif_neg hn.ne', if_neg (by simp; omega),
        if_neg (by simp; omega), if_pos (by omega)]
      rw [UnpackedFloat.mul]
      simp only [Nat.shiftLeft_eq]
      exact hround
    have hfloat : Float.ofScientific n false k =
        .ofModel (Float.Model.pack (unpacked .positive c)) := by
      rw [Float.ofScientific, dif_neg hsmall, ← hof]
      rfl
    exact isRounded_pack hc hrounds hfloat

/-- **A whole number divided by a power of ten is rounded**, as long as the power is not far greater
than the number. -/
theorem isRounded_ofScientific_neg {n k : ℕ} (hn : 0 < n) (hpos : 0 < k) (hk : k ≤ 2048 + n.log2) :
    IsRounded .positive (Float.ofScientific n true k) (n / 10 ^ k) := by
  by_cases hsmall : n < 2 ^ 53 ∧ k ≤ 22
  · have hsize : k < Float.exactlyRepresentablePowersOfTen.size := by
      show k < 23
      omega
    obtain ⟨a, ha, hvalue⟩ := exists_stands_toFloat hn hsmall.1
    obtain ⟨b, hb, hpower⟩ := exists_stands_power ⟨k, hsize⟩
    have hbm : 0 < b.m := Binary.value_pos_iff.mp (hpower ▸ by positivity)
    have hquotient := isRounded_div ha.magnitude hb.magnitude hbm
    rw [ha.sign, hb.sign, hvalue, hpower] at hquotient
    rw [Float.ofScientific, dif_pos hsmall]
    exact hquotient
  · have hpower : 0 < 10 ^ k := by positivity
    obtain ⟨m, e, accuracy, hcore, hnear, hbits⟩ :=
      near_divCore (a := ⟨n, 0⟩) (b := ⟨10 ^ k, 0⟩) hn hpower
    have hvalue : (⟨n, 0⟩ : Binary).value / (⟨10 ^ k, 0⟩ : Binary).value = n / 10 ^ k := by
      simp [Binary.value]
    rw [hvalue] at hnear
    obtain ⟨c, hc, hrounds, hround⟩ :=
      exists_roundWithAccuracy (.positive / .positive) hnear hbits
    have hof : UnpackedFloat.ofScientific .binary64 n (.negOfNat k) = unpacked .positive c := by
      have hneg : Int.negOfNat k = -(k : ℤ) := Int.negOfNat_eq
      rw [UnpackedFloat.ofScientific, dif_neg hn.ne', hneg,
        if_neg (by show ¬ -(k : ℤ) > 2 ^ 11; omega),
        if_neg (by show ¬ -(k : ℤ) < -(2 ^ 11 + (n.log2 : ℤ)); omega), if_neg (by omega)]
      simp only [neg_neg, Int.toNat_natCast]
      rw [UnpackedFloat.div, hcore]
      exact hround
    have hfloat : Float.ofScientific n true k =
        .ofModel (Float.Model.pack (unpacked .positive c)) := by
      rw [Float.ofScientific, dif_neg hsmall, ← hof]
      rfl
    exact isRounded_pack hc hrounds hfloat

end TokenSheets.Decimal
