import TokenSheets.Proofs.Decimal.Numeral
import TokenSheets.Proofs.Decimal.Range
import TokenSheets.Proofs.Dimension.Verdict

/-!
# Lengths that are measured and written again

A dimension is converted by measuring it: its magnitude goes through pixels, in doubles. A finite
measure is written as digits with at most one point, so the text is a literal again; a measure that
is not finite is written as a word, and the text is none.

* `isNumber_magnitude`, `plainText_of_not_isFinite`: digits and words;
* `Scale.measure`: the length that is written;
* `notNan_measure`, `isFinite_measure`: measures that are numbers, and those that are finite;
* `shown_express`: what a conversion writes.
-/

namespace TokenSheets

/-! ### Plain decimals -/

namespace Decimal

theorem positionalChars_eq {digits : List Char} (hdigits : ∀ c ∈ digits, c.isDigit = true)
    (hne : digits ≠ []) (e : Int) :
    ∃ whole fraction, whole ≠ [] ∧ (∀ c ∈ whole, c.isDigit = true) ∧
      (∀ c ∈ fraction, c.isDigit = true) ∧ (positionalChars false digits e = whole ∨
        positionalChars false digits e = whole ++ '.' :: fraction) := by
  have hpos := List.length_pos_iff.mpr hne
  have hzero : ∀ c ∈ ['0'], c.isDigit = true := List.all_eq_true.mp (by decide)
  unfold positionalChars
  simp only [Bool.false_eq_true, if_false, List.append_nil]
  split_ifs with hneg hlong
  · exact ⟨['0'], List.replicate (-e - 1).toNat '0' ++ digits, by simp, hzero,
      List.forall_mem_append.mpr ⟨isDigit_of_mem_replicate, hdigits⟩, .inr rfl⟩
  · exact ⟨digits ++ List.replicate (e.toNat + 1 - digits.length) '0', [], by simp [hne],
      List.forall_mem_append.mpr ⟨hdigits, isDigit_of_mem_replicate⟩, by simp, .inl rfl⟩
  · exact ⟨digits.take (e.toNat + 1), digits.drop (e.toNat + 1), by simp [hne],
      fun c hc => hdigits c (List.mem_of_mem_take hc),
      fun c hc => hdigits c (List.mem_of_mem_drop hc), .inr rfl⟩

/-- **A plain decimal is a number**: at least one digit, at most one point. -/
theorem isNumber_magnitude (a : Binary) :
    IsNumber (plain.magnitude a) ∧ ∀ c ∈ plain.magnitude a, c.isDigit = true ∨ c = '.' := by
  obtain ⟨whole, fraction, hne, hwhole, hfraction, hchars⟩ : ∃ whole fraction, whole ≠ [] ∧
      (∀ c ∈ whole, c.isDigit = true) ∧ (∀ c ∈ fraction, c.isDigit = true) ∧
      (plain.magnitude a = whole ∨ plain.magnitude a = whole ++ '.' :: fraction) := by
    simp only [Layout.magnitude, plain, Bool.false_eq_true, if_false, if_true]
    split_ifs with hzero
    · exact ⟨['0'], [], by simp, List.all_eq_true.mp (by decide), by simp, .inl rfl⟩
    · exact positionalChars_eq (isDigit_toDigits _) Nat.toDigits_ne_nil _
  have hnone : ∀ digits : List Char, (∀ c ∈ digits, c.isDigit = true) → digits.count '.' = 0 :=
    fun digits hdigits => List.count_eq_zero.mpr fun hmem => absurd (hdigits _ hmem) (by decide)
  obtain ⟨d, hd⟩ := List.exists_mem_of_ne_nil whole hne
  rcases hchars with hchars | hchars <;> rw [hchars]
  · have hcount : whole.count '.' ≤ 1 := by rw [hnone whole hwhole]; omega
    exact ⟨⟨⟨d, hd, hwhole d hd⟩, hcount⟩, fun c hc => .inl (hwhole c hc)⟩
  · have hcount : (whole ++ '.' :: fraction).count '.' ≤ 1 := by
      simp [hnone whole hwhole, hnone fraction hfraction]
    refine ⟨⟨⟨d, by simp [hd], hwhole d hd⟩, hcount⟩, fun c hc => ?_⟩
    rcases List.mem_append.mp hc with hc | hc
    · exact .inl (hwhole c hc)
    · rcases List.mem_cons.mp hc with rfl | hc
      · exact .inr rfl
      · exact .inl (hfraction c hc)

theorem place_nonpos {cs : List Char} {digits : ℕ} {place : ℤ}
    (h : unsigned? cs = some (digits, place)) : place ≤ 0 := by
  unfold unsigned? at h
  dsimp only at h
  split at h
  · split_ifs at h
    cases h
    exact le_rfl
  · split_ifs at h
    cases h
    omega
  · cases h

theorem unsigned?_powerOfTen (k : ℕ) :
    unsigned? ('1' :: List.replicate k '0') = some (10 ^ k, 0) := by
  have hdigits : ∀ c ∈ '1' :: List.replicate k '0', c.isDigit = true :=
    List.forall_mem_cons.mpr ⟨rfl, isDigit_of_mem_replicate⟩
  have hvalue : ofDigits ('1' :: List.replicate k '0') = 10 ^ k := by
    rw [← List.singleton_append, ofDigits_append, ofDigits_zeros, List.length_replicate,
      show ofDigits ['1'] = 1 from rfl]
    omega
  have hstop : Text.Stops Char.isDigit [] := Text.stops_nil
  have hwhole := Text.takeWhile_run hdigits hstop
  have hbehind := Text.dropWhile_run hdigits hstop
  rw [List.append_nil] at hwhole hbehind
  unfold unsigned?
  rw [hwhole, hbehind]
  simp [hvalue]

theorem plainText_of_not_isFinite {x : Float} (h : ¬ x.isFinite = true) :
    plainText x = "inf" ∨ plainText x = "-inf" ∨ (plainText x = "NaN" ∧ ¬ NotNan x) := by
  rcases hmagnitude : (Double.classify x).magnitude with _ | _ | a
  · refine .inr (.inr ⟨?_, fun hnumber => hnumber hmagnitude⟩)
    simp only [plainText, Layout.write, hmagnitude]
    rfl
  · rcases hnegative : (Double.classify x).negative with _ | _
    · left
      simp only [plainText, Layout.write, hmagnitude, hnegative]
      rfl
    · refine .inr (.inl ?_)
      simp only [plainText, Layout.write, hmagnitude, hnegative]
      rfl
  · exact absurd (isFinite_iff.mpr ⟨a, hmagnitude⟩) h

end Decimal

/-! ### Literals and words -/

namespace Dimension

/-- **A literal in a unit**, with a number. -/
def IsLiteral (text : String) (unit : LengthUnit) : Prop :=
  ∃ number, Spells text number unit ∧ Decimal.IsNumber number

/-- **The number that a literal writes**, apart from its sign. -/
def Writes (text : String) (r : ℚ) : Prop :=
  ∃ number unit digits place, Spells text number unit ∧
    Decimal.unsigned? number = some (digits, place) ∧ r = digits * 10 ^ place

variable {text : String} {unit : LengthUnit} {x : Float}

theorem IsLiteral.exists_read (h : IsLiteral text unit) : ∃ dimension, read text = .ok dimension :=
  let ⟨number, hspells, hnumber⟩ := h
  exists_read_eq_ok.mpr ⟨number, unit, hspells, hnumber⟩

theorem IsLiteral.exists_convert (h : IsLiteral text unit) (scale : Scale) (target : LengthUnit) :
    ∃ value, scale.convert text target = .ok value :=
  Scale.exists_convert_eq_ok.mpr h.exists_read

theorem isLiteral_plainText (h : x.isFinite = true) (unit : LengthUnit) :
    IsLiteral (Decimal.plainText x ++ unit.name) unit := by
  obtain ⟨a, ha⟩ := Decimal.isFinite_iff.mp h
  obtain ⟨hnumber, hchars⟩ := Decimal.isNumber_magnitude a
  refine ⟨Decimal.plain.magnitude a, ⟨?_, hchars, ?_⟩, hnumber⟩
  · obtain ⟨⟨c, hc, -⟩, -⟩ := hnumber
    exact List.ne_nil_of_mem hc
  · have htext : (Decimal.plainText x ++ unit.name).toList =
        (if (Decimal.Double.classify x).negative then ['-'] else []) ++
          Decimal.plain.magnitude a ++ unit.name.toList := by
      simp [Decimal.plainText, Decimal.Layout.write, ha]
    rw [htext]
    split_ifs
    · exact .inr rfl
    · exact .inl rfl

theorem isLiteral_zero (unit : LengthUnit) : IsLiteral ("0" ++ unit.name) unit :=
  ⟨['0'], ⟨by simp, by simp, .inl (by simp)⟩, ⟨'0', by simp, by decide⟩, by decide⟩

theorem read_word {word : String} (h : word ∈ ["inf", "-inf", "NaN"]) (unit : LengthUnit) :
    read (word ++ unit.name) = .error (.malformed (word ++ unit.name)) := by
  simp only [List.mem_cons, List.not_mem_nil, or_false] at h
  rcases h with rfl | rfl | rfl <;> cases unit <;> rfl

theorem magnitude_of_read {dimension : Dimension} {number : List Char} {digits : ℕ} {place : ℤ}
    (hread : read text = .ok dimension) (hspells : Spells text number unit)
    (hnumber : Decimal.unsigned? number = some (digits, place)) :
    dimension.magnitude = Decimal.nearest digits place ∨
      dimension.magnitude = -Decimal.nearest digits place := by
  obtain ⟨negative, hcut⟩ := isCut_iff.mp (spells_iff.mp hspells)
  simp only [read, hcut, LengthUnit.ofName?_name, Parts.magnitude?, hnumber, Option.map_some,
    Except.ok.injEq] at hread
  rw [← hread]
  cases negative
  · exact .inl rfl
  · exact .inr rfl

theorem notNan_of_read {dimension : Dimension} (hread : read text = .ok dimension) :
    Decimal.NotNan dimension.magnitude := by
  obtain ⟨number, unit, hspells, hnumber⟩ := exists_read_eq_ok.mp ⟨_, hread⟩
  obtain ⟨⟨digits, place⟩, hdigits⟩ := Option.isSome_iff_exists.mp
    ((Decimal.isSome_unsigned?_iff fun c hc => isNumberChar_iff.mpr (hspells.chars c hc)).mpr
      hnumber)
  have hplace := Decimal.place_nonpos hdigits
  rcases magnitude_of_read hread hspells hdigits with heq | heq <;> rw [heq]
  · exact Decimal.notNan_nearest hplace
  · exact (Decimal.notNan_nearest hplace).neg

theorem read_powerOfTen (k : ℕ) (unit : LengthUnit) :
    read (String.ofList ('1' :: (List.replicate k '0' ++ unit.name.toList))) =
      .ok ⟨Decimal.nearest (10 ^ k) 0, unit⟩ := by
  have hcut : cut? (String.ofList ('1' :: (List.replicate k '0' ++ unit.name.toList))) =
      some ⟨false, '1' :: List.replicate k '0', unit.name⟩ := by
    rw [cut?, String.toList_ofList]
    refine cutUnsigned?_eq_some.mpr ⟨rfl, rfl, ⟨by simp, ?_⟩, name_ne_nil unit,
      fun c hc => isUnitChar_of_mem_name hc⟩
    refine List.forall_mem_cons.mpr ⟨rfl, fun c hc => ?_⟩
    rw [List.eq_of_mem_replicate hc]
    rfl
  simp only [read, hcut, LengthUnit.ofName?_name, Parts.magnitude?, Decimal.unsigned?_powerOfTen,
    Option.map_some, Bool.false_eq_true, if_false]

end Dimension

/-! ### Measures -/

namespace Scale

open Decimal (AtMost NotNan Stands)

/-- **A dimension measured** in another unit, by way of pixels. -/
def measure (scale : Scale) (dimension : Dimension) (target : LengthUnit) : Float :=
  scale.fromPixels (scale.toPixels dimension.magnitude dimension.unit) target

/-- Both lengths are finite. -/
def IsFinite (scale : Scale) : Prop :=
  scale.baseFontSize.isFinite = true ∧ scale.baseScreenWidth.isFinite = true

/-- **Both lengths are within a bound**: at most the bound, and at least one over it. -/
structure Within (scale : Scale) (bound : ℚ) : Prop where
  one_le : 1 ≤ bound
  fontSize : ∃ a, Stands scale.baseFontSize a ∧ 1 / bound ≤ a.value ∧ a.value ≤ bound
  screenWidth : ∃ a, Stands scale.baseScreenWidth a ∧ 1 / bound ≤ a.value ∧ a.value ≤ bound

variable {scale : Scale} {bound r : ℚ} {x : Float} {dimension : Dimension} {unit : LengthUnit}

theorem isPositive_iff : scale.isPositive = true ↔
    scale.baseFontSize > 0.0 ∧ scale.baseScreenWidth > 0.0 := by
  rw [isPositive, Bool.and_eq_true, decide_eq_true_iff, decide_eq_true_iff]

theorem IsFinite.exists_stands (h : scale.IsFinite) (hpos : scale.isPositive = true) :
    ∃ a b, Stands scale.baseFontSize a ∧ 0 < a.m ∧ Stands scale.baseScreenWidth b ∧ 0 < b.m := by
  obtain ⟨hfont, hwidth⟩ := isPositive_iff.mp hpos
  obtain ⟨a, ha, ham⟩ := Decimal.stands_of_pos hfont h.1
  obtain ⟨b, hb, hbm⟩ := Decimal.stands_of_pos hwidth h.2
  exact ⟨a, b, ha, ham, hb, hbm⟩

theorem stands_gridWidth : Stands gridWidth ⟨6597069766656000, -43⟩ := by
  rw [Stands]
  decide +kernel

theorem value_gridWidth : (⟨6597069766656000, -43⟩ : Decimal.Binary).value = 750 := by
  rw [Decimal.Binary.value]
  norm_num

/-- **A measure is a number**, or infinite, if the lengths of the scale are finite. -/
theorem notNan_measure (hpos : scale.isPositive = true) (hfinite : scale.IsFinite)
    (h : NotNan dimension.magnitude) (target : LengthUnit) :
    NotNan (scale.measure dimension target) := by
  obtain ⟨a, b, ha, ham, hb, hbm⟩ := hfinite.exists_stands hpos
  have hpixels : NotNan (scale.toPixels dimension.magnitude dimension.unit) := by
    rcases dimension.unit with _ | _ | _
    · exact h
    · exact h.mul ha ham
    · exact (h.mul hb hbm).div stands_gridWidth (by norm_num)
  rcases target with _ | _ | _
  · exact hpixels
  · exact hpixels.div ha ham
  · exact (hpixels.mul stands_gridWidth (by norm_num)).div hb hbm

theorem exists_within (hpos : scale.isPositive = true) (hfinite : scale.IsFinite) :
    ∃ bound, scale.Within bound := by
  obtain ⟨a, b, ha, ham, hb, hbm⟩ := hfinite.exists_stands hpos
  have hav : 0 < a.value := Decimal.Binary.value_pos_iff.mpr ham
  have hbv : 0 < b.value := Decimal.Binary.value_pos_iff.mpr hbm
  have hinverse : ∀ {v k : ℚ}, 0 < v → 1 / v ≤ k → 1 / k ≤ v := fun hv hk =>
    (one_div_le hv ((one_div_pos.mpr hv).trans_le hk)).mp hk
  refine ⟨1 + a.value + b.value + 1 / a.value + 1 / b.value, ?_, ⟨a, ha, hinverse hav ?_, ?_⟩,
    ⟨b, hb, hinverse hbv ?_, ?_⟩⟩ <;>
    linarith [one_div_pos.mpr hav, one_div_pos.mpr hbv]

theorem le_end_of_le {s t : ℚ} (hle : 750 * t ≤ 2 ^ 1019) (hs : s ≤ 12000 * t) : s ≤ 2 ^ 1023 :=
  calc s ≤ 12000 * t := hs
    _ = 16 * (750 * t) := by ring
    _ ≤ 16 * 2 ^ 1019 := mul_le_mul_of_nonneg_left hle (by norm_num)
    _ = 2 ^ 1023 := by rw [show (16 : ℚ) = 2 ^ 4 by norm_num, ← pow_add]

section Within

variable (h : scale.Within bound) (hr : 0 ≤ r) (hle : 750 * (bound ^ 2 * r) ≤ 2 ^ 1019)
include h hr hle

omit hle in
theorem Within.mul_le : r ≤ bound * r ∧ bound * r ≤ bound ^ 2 * r := by
  have hone := h.one_le
  constructor <;> nlinarith [mul_nonneg (sub_nonneg.mpr hone) hr]

theorem Within.atMost_toPixels (hx : AtMost x (2 * r)) (unit : LengthUnit) :
    AtMost (scale.toPixels x unit) (8 * (bound * r)) := by
  obtain ⟨hmul, hmul'⟩ := h.mul_le hr
  obtain ⟨a, ha, -, hab⟩ := h.fontSize
  obtain ⟨b, hb, -, hbb⟩ := h.screenWidth
  have hra : r * a.value ≤ bound * r := by rw [mul_comm]; gcongr
  have hrb : r * b.value ≤ bound * r := by rw [mul_comm]; gcongr
  rcases unit with _ | _ | _
  · exact hx.mono (by linarith)
  · exact (hx.mul ha.magnitude (le_end_of_le hle (by linarith))).mono (by linarith)
  · have hproduct := hx.mul hb.magnitude (le_end_of_le hle (by linarith))
    have hquotient := hproduct.div stands_gridWidth.magnitude (by norm_num)
      (le_end_of_le hle (by rw [value_gridWidth]; linarith))
    rw [value_gridWidth] at hquotient
    exact hquotient.mono (by linarith)

theorem Within.isFinite_fromPixels (hx : AtMost x (8 * (bound * r))) (target : LengthUnit) :
    (scale.fromPixels x target).isFinite = true := by
  obtain ⟨hmul, hmul'⟩ := h.mul_le hr
  obtain ⟨a, ha, haa, -⟩ := h.fontSize
  obtain ⟨b, hb, hbb, -⟩ := h.screenWidth
  have hbound : 0 < bound := one_pos.trans_le h.one_le
  -- dividing by a length multiplies by the bound at most
  have hdiv : ∀ {c : Decimal.Binary} {s : ℚ}, 1 / bound ≤ c.value → 0 ≤ s →
      s / c.value ≤ s * bound := fun {c s} hc hs => by
    have hpos : 0 < c.value := (one_div_pos.mpr hbound).trans_le hc
    rw [div_le_iff₀ hpos, mul_assoc]
    exact le_mul_of_one_le_right hs (by rwa [div_le_iff₀' hbound] at hc)
  have hmantissa : ∀ {c : Decimal.Binary}, 1 / bound ≤ c.value → 0 < c.m := fun hc =>
    Decimal.Binary.value_pos_iff.mp ((one_div_pos.mpr hbound).trans_le hc)
  have hnonneg : 0 ≤ bound * r := mul_nonneg hbound.le hr
  have hsquare : bound * r * bound = bound ^ 2 * r := by ring
  rcases target with _ | _ | _
  · exact hx.isFinite
  · have hquotient := hdiv haa (by linarith : 0 ≤ 8 * (bound * r))
    exact (hx.div ha.magnitude (hmantissa haa) (le_end_of_le hle (by linarith))).isFinite
  · have hproduct := hx.mul stands_gridWidth.magnitude
      (le_end_of_le hle (by rw [value_gridWidth]; linarith))
    rw [value_gridWidth] at hproduct
    have hquotient := hdiv hbb (by linarith : 0 ≤ 2 * (8 * (bound * r) * 750))
    exact (hproduct.div hb.magnitude (hmantissa hbb) (le_end_of_le hle (by linarith))).isFinite

end Within

/-- **A measure is finite** where the number that is written, times both lengths, stays in range. -/
theorem isFinite_measure {text : String} (h : scale.Within bound)
    (hread : Dimension.read text = .ok dimension) (hwrites : Dimension.Writes text r)
    (hle : 750 * (bound ^ 2 * r) ≤ 2 ^ 1019) (target : LengthUnit) :
    (scale.measure dimension target).isFinite = true := by
  obtain ⟨number, unit, digits, place, hspells, hdigits, rfl⟩ := hwrites
  have hr : (0 : ℚ) ≤ digits * 10 ^ place :=
    mul_nonneg digits.cast_nonneg (zpow_nonneg (by norm_num) place)
  obtain ⟨hmul, hmul'⟩ := h.mul_le hr
  have hnearest := Decimal.atMost_nearest (Decimal.place_nonpos hdigits)
    (le_end_of_le hle (by linarith))
  have hmagnitude : AtMost dimension.magnitude (2 * (digits * 10 ^ place)) := by
    rcases Dimension.magnitude_of_read hread hspells hdigits with heq | heq <;> rw [heq]
    · exact hnearest
    · exact hnearest.neg
  exact h.isFinite_fromPixels hr hle (h.atMost_toPixels hr hle hmagnitude dimension.unit) target

/-! ### What is shown -/

/-- **What is shown** for a dimension in another unit: a literal of that unit, which can be
converted again, if the measure is finite; otherwise a word with the unit, which cannot. -/
structure Shown (scale : Scale) (dimension : Dimension) (target : LengthUnit) (value : String) :
    Prop where
  literal : (dimension.magnitude == 0.0) = true ∨ (scale.measure dimension target).isFinite = true →
    Dimension.IsLiteral value target ∧
      ∀ (other : Scale) (unit : LengthUnit), ∃ again, other.convert value unit = .ok again
  word : ¬ ((dimension.magnitude == 0.0) = true ∨
      (scale.measure dimension target).isFinite = true) →
    (value = "inf" ++ target.name ∨ value = "-inf" ++ target.name ∨
      value = "NaN" ++ target.name ∧ ¬ scale.IsFinite) ∧
      ∀ (other : Scale) (unit : LengthUnit), other.convert value unit = .error (.malformed value)

theorem express_of_ne_zero (h : ¬ (dimension.magnitude == 0.0) = true) (target : LengthUnit) :
    scale.express dimension target =
      Decimal.plainText (scale.measure dimension target) ++ target.name := by
  rw [express, if_neg h]
  rfl

/-- **What the conversion writes** is what is shown. -/
theorem shown_express {text : String} (hpos : scale.isPositive = true)
    (hread : Dimension.read text = .ok dimension) (target : LengthUnit) :
    scale.Shown dimension target (scale.express dimension target) := by
  refine ⟨fun h => ?_, fun h => ?_⟩
  · have hliteral : Dimension.IsLiteral (scale.express dimension target) target := by
      by_cases hzero : (dimension.magnitude == 0.0) = true
      · rw [express, if_pos hzero]
        exact Dimension.isLiteral_zero target
      · rw [express_of_ne_zero hzero]
        exact Dimension.isLiteral_plainText (h.resolve_left hzero) target
    exact ⟨hliteral, fun other unit => hliteral.exists_convert other unit⟩
  · obtain ⟨hzero, hinfinite⟩ := not_or.mp h
    rw [express_of_ne_zero hzero]
    have hword := Decimal.plainText_of_not_isFinite hinfinite
    have hmem : Decimal.plainText (scale.measure dimension target) ∈ ["inf", "-inf", "NaN"] := by
      rcases hword with heq | heq | ⟨heq, -⟩ <;> simp [heq]
    refine ⟨?_, fun other unit => convert_eq_error.mpr (Dimension.read_word hmem target)⟩
    rcases hword with heq | heq | ⟨heq, hnan⟩ <;> rw [heq]
    · exact .inl rfl
    · exact .inr (.inl rfl)
    · exact .inr (.inr ⟨rfl, fun hfinite =>
        hnan (notNan_measure hpos hfinite (Dimension.notNan_of_read hread) target)⟩)

end Scale

end TokenSheets
