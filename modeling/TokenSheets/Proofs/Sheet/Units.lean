import TokenSheets.Config.Basic
import TokenSheets.Proofs.Dimension.Measure
import TokenSheets.Proofs.Sheet.Stylesheet

/-!
# What the rulesets of the units declare

A ruleset of a unit declares literals of that unit as long as the lengths are finite. A length may
leave the range of doubles on its way through pixels, also where neither the literal nor the result
would; then a word stands in its place.

* `unit_rulesets_declare_literals_of_finite_lengths`: which values are literals;
* `a_literal_may_be_declared_infinite`: a length that leaves the range.
-/

namespace TokenSheets

open Stylesheet

theorem within_default : ({} : Scale).Within 375 := by
  have hfont : Decimal.Stands ({} : Scale).baseFontSize ⟨2 ^ 52, -48⟩ := by
    rw [Decimal.Stands]
    decide +kernel
  have hwidth : Decimal.Stands ({} : Scale).baseScreenWidth ⟨6597069766656000, -44⟩ := by
    rw [Decimal.Stands]
    decide +kernel
  refine ⟨by norm_num, ⟨_, hfont, ?_, ?_⟩, ⟨_, hwidth, ?_, ?_⟩⟩ <;>
    norm_num [Decimal.Binary.value]

theorem not_isBroken_of_declares {scale : Scale} {unit : LengthUnit} {entry : ResolvedToken}
    {declared : String × String} (h : Declares scale unit entry declared) :
    ¬ IsBroken entry.value := by
  rintro ⟨text, htext, hbroken⟩
  obtain ⟨-, text', htext', hconvert⟩ := h
  obtain rfl : text = text' := by simpa [htext] using htext'
  have hshape := Dimension.hasShape_iff_sound_or_broken.mpr (.inr hbroken)
  rcases Scale.convert_of_hasShape hshape with ⟨hsound, -⟩ | ⟨-, hrefused⟩
  · exact hsound hbroken
  · simp [hrefused scale unit] at hconvert

/-- **The rulesets of the units declare literals of finite lengths.** A sheet that is written under
a scale that can be built with declares, in every unit, all dimensions of the dictionary. A declared
value is a literal of its unit, and can be converted again to any unit, if the dimension is zero or
its measure is finite. If not, the value is one of three words with the unit, which nothing
converts, and the word for no number appears only if a length of the scale is infinite. Measures are
finite as long as the number that is written, times what both lengths make of it, is in range. -/
theorem unit_rulesets_declare_literals_of_finite_lengths {config : Config}
    (valid : config.validate = .ok ()) {dictionary : Dictionary} {sheet : String}
    (written : render config.scale dictionary = .ok sheet) :
    Shows config.scale dictionary sheet ∧
    (∀ unit entry declared, Declares config.scale unit entry declared →
      ∃ text dimension, entry.value = .text text ∧ Dimension.read text = .ok dimension ∧
        config.scale.Shown dimension unit declared.2) ∧
    (config.scale.IsFinite → ∃ bound, config.scale.Within bound) ∧
    ∀ bound, config.scale.Within bound → ∀ unit entry declared,
      Declares config.scale unit entry declared → ∀ text number, entry.value = .text text →
      Dimension.Writes text number → 750 * (bound ^ 2 * number) ≤ 2 ^ 1019 →
      Dimension.IsLiteral declared.2 unit := by
  have hpos : config.scale.isPositive = true := by
    by_contra hnot
    rw [Config.validate, if_neg hnot] at valid
    cases valid
  have hshown : ∀ unit entry declared, Declares config.scale unit entry declared →
      ∃ text dimension, entry.value = .text text ∧ Dimension.read text = .ok dimension ∧
        config.scale.Shown dimension unit declared.2 := by
    rintro unit entry ⟨name, value⟩ ⟨-, text, htext, hconvert⟩
    obtain ⟨dimension, hread⟩ := Scale.exists_convert_eq_ok.mp ⟨value, hconvert⟩
    rw [Scale.convert, hread] at hconvert
    obtain rfl : config.scale.express dimension unit = value := Except.ok.inj hconvert
    exact ⟨text, dimension, htext, hread, Scale.shown_express hpos hread unit⟩
  refine ⟨shows_of_render written, hshown, Scale.exists_within hpos, ?_⟩
  intro bound hwithin unit entry declared hdeclares text number htext hwrites hle
  obtain ⟨text', dimension, htext', hread, hvalue⟩ := hshown unit entry declared hdeclares
  obtain rfl : text = text' := by simpa [htext] using htext'
  exact (hvalue.literal (.inr (Scale.isFinite_measure hwithin hread hwrites hle unit))).1

/-- Under the default scale, three pixels are a literal in root font sizes. -/
theorem unit_rulesets_declare_literals_of_finite_lengths_pixels :
    let entry : ResolvedToken := ⟨"gap", ["gap"], .text "3px", {}⟩
    ∃ sheet, render {} [entry] = .ok sheet ∧ Shows {} [entry] sheet ∧
      Declares {} .rem entry ("gap", "0.1875rem") ∧ Dimension.IsLiteral "0.1875rem" .rem := by
  intro entry
  have hdeclares : Declares {} .rem entry ("gap", "0.1875rem") :=
    ⟨rfl, "3px", rfl, by decide +kernel⟩
  obtain ⟨sheet, written, -⟩ : ∃ sheet, render {} [entry] = .ok sheet ∧ Shows {} [entry] sheet :=
    exists_render (List.forall_mem_singleton.mpr (not_isBroken_of_declares hdeclares))
  have valid : ({} : Config).validate = .ok () := if_pos (by decide +kernel)
  have hwrites : Dimension.Writes "3px" 3 :=
    ⟨['3'], .px, 3, 0, ⟨by simp, by simp, .inl (by decide)⟩, by decide, by norm_num⟩
  have hle : (750 : ℚ) * (375 ^ 2 * 3) ≤ 2 ^ 1019 :=
    le_trans (by norm_num : _ ≤ (2 : ℚ) ^ 100) (pow_le_pow_right₀ (by norm_num) (by norm_num))
  obtain ⟨hshows, -, -, hliteral⟩ :=
    unit_rulesets_declare_literals_of_finite_lengths valid written
  exact ⟨sheet, written, hshows, hdeclares, hliteral 375 within_default .rem entry _ hdeclares
    "3px" 3 rfl hwrites hle⟩

/-- **A literal may be declared infinite**: one and 308 zeros, in responsive pixels, is multiplied
by the width of the screen, and no unit declares a literal. -/
theorem a_literal_may_be_declared_infinite :
    let literal := String.ofList ('1' :: (List.replicate 308 '0' ++ LengthUnit.rpx.name.toList))
    let entry : ResolvedToken := ⟨"a", ["a"], .text literal, {}⟩
    ({} : Config).validate = .ok () ∧ (∃ sheet, render {} [entry] = .ok sheet) ∧
      ∀ unit, Declares {} unit entry ("a", "inf" ++ unit.name) ∧
        Dimension.hasShape ("inf" ++ unit.name) = false := by
  intro literal entry
  have hexpress : ∀ unit : LengthUnit,
      Scale.express {} ⟨Decimal.nearest (10 ^ 308) 0, .rpx⟩ unit = "inf" ++ unit.name := by
    rintro (_ | _ | _) <;> decide +kernel
  have hconvert : ∀ unit : LengthUnit,
      Scale.convert {} literal unit = .ok ("inf" ++ unit.name) := fun unit => by
    rw [Scale.convert, Dimension.read_powerOfTen, ← hexpress unit]
    rfl
  have hdeclares : ∀ unit, Declares {} unit entry ("a", "inf" ++ unit.name) :=
    fun unit => ⟨rfl, literal, rfl, hconvert unit⟩
  obtain ⟨sheet, written, -⟩ : ∃ sheet, render {} [entry] = .ok sheet ∧ Shows {} [entry] sheet :=
    exists_render (List.forall_mem_singleton.mpr (not_isBroken_of_declares (hdeclares .px)))
  refine ⟨if_pos (by decide +kernel), ⟨sheet, written⟩, fun unit => ⟨hdeclares unit, ?_⟩⟩
  cases unit <;> decide

end TokenSheets
