import TokenSheets.Proofs.Dimension.Literal
import TokenSheets.Sheet.Stylesheet

/-!
# What becomes of a text that is read as a dimension

A text is looked at three times: for its parts, for its unit and for its number. `Dimension.Judged`
says what each look may come to. The scale and the unit to convert to have no part in it.

* `judged_read`: every text is judged;
* `exists_read_eq_ok`, `read_eq_unsupported`, `read_eq_malformed`: the texts of each verdict;
* `converting_judges_every_text`: which texts are converted, and why the others are not.
-/

namespace TokenSheets

namespace Dimension

variable {text unit : String}

/-- **Letters that name no unit.** -/
def IsUnknown (unit : String) : Prop := ∀ known : LengthUnit, unit ≠ known.name

theorem isUnknown_iff : IsUnknown unit ↔ LengthUnit.ofName? unit = none := by
  rw [Option.eq_none_iff_forall_ne_some]
  exact forall_congr' fun known => not_congr LengthUnit.ofName?_eq_some_iff.symm

/-- **What becomes of a text.** -/
inductive Judged (text : String) : Except DimensionError Dimension → Prop
  | dimension {number : List Char} {unit : LengthUnit} (spells : Spells text number unit)
    (isNumber : Decimal.IsNumber number) (magnitude : Float) :
    Judged text (.ok ⟨magnitude, unit⟩)
  /-- The unit is looked at before the number. -/
  | unsupported {number : List Char} {unit : String} (cut : IsCut text number unit)
    (unknown : IsUnknown unit) : Judged text (.error (.unsupported unit))
  | broken (broken : Broken text) : Judged text (.error (.malformed text))
  | shapeless (shapeless : ∀ number unit, ¬ IsCut text number unit) :
    Judged text (.error (.malformed text))

theorem judged_read (text : String) : Judged text (read text) := by
  rcases hcut : cut? text with _ | ⟨negative, number, unit⟩
  · have hnone : ∀ number unit, ¬ IsCut text number unit := by
      intro number unit h
      obtain ⟨negative, hsome⟩ := isCut_iff.mp h
      simp [hcut] at hsome
    rw [read, hcut]
    exact .shapeless hnone
  · have hparts : IsCut text number unit := isCut_iff.mpr ⟨negative, hcut⟩
    rcases hunit : LengthUnit.ofName? unit with _ | known
    · have hread : read text = .error (.unsupported unit) := by simp only [read, hcut, hunit]
      rw [hread]
      exact .unsupported hparts (isUnknown_iff.mpr hunit)
    · obtain rfl := LengthUnit.ofName?_eq_some_iff.mp hunit
      have hspells : Spells text number known := spells_iff.mpr hparts
      rcases read_of_spells hspells with ⟨hnumber, magnitude, hread⟩ | ⟨hnumber, hread⟩
      · rw [hread]
        exact .dimension hspells hnumber magnitude
      · rw [hread]
        exact .broken ⟨number, known, hspells, hnumber⟩

/-! ### The texts of each verdict -/

/-- **A literal with a number.** -/
def IsSound (text : String) : Prop :=
  ∃ number unit, Spells text number unit ∧ Decimal.IsNumber number

/-- **A text in a unit that is unknown**, whatever its number part. -/
def IsForeign (text unit : String) : Prop := ∃ number, IsCut text number unit ∧ IsUnknown unit

theorem exists_read_eq_ok : (∃ dimension, read text = .ok dimension) ↔ IsSound text := by
  constructor
  · rintro ⟨dimension, hread⟩
    have hjudged := judged_read text
    rw [hread] at hjudged
    cases hjudged with
    | dimension spells isNumber => exact ⟨_, _, spells, isNumber⟩
  · rintro ⟨number, unit, hspells, hnumber⟩
    rcases read_of_spells hspells with ⟨-, magnitude, hread⟩ | ⟨hbroken, -⟩
    · exact ⟨_, hread⟩
    · exact absurd hnumber hbroken

theorem read_eq_unsupported :
    read text = .error (.unsupported unit) ↔ IsForeign text unit := by
  constructor
  · intro hread
    have hjudged := judged_read text
    rw [hread] at hjudged
    cases hjudged with
    | unsupported cut unknown => exact ⟨_, cut, unknown⟩
  · rintro ⟨number, hcut, hunknown⟩
    obtain ⟨negative, hparts⟩ := isCut_iff.mp hcut
    simp only [read, hparts, isUnknown_iff.mp hunknown]

/-- **All other texts are malformed**, and named in full. -/
theorem read_eq_malformed {literal : String} :
    read text = .error (.malformed literal) ↔
      literal = text ∧ ¬ IsSound text ∧ ∀ unit, ¬ IsForeign text unit := by
  constructor
  · intro hread
    refine ⟨?_, fun hsound => ?_, fun unit hforeign => ?_⟩
    · have hjudged := judged_read text
      rw [hread] at hjudged
      cases hjudged <;> rfl
    · obtain ⟨dimension, hok⟩ := exists_read_eq_ok.mpr hsound
      simp [hread] at hok
    · simp [read_eq_unsupported.mpr hforeign] at hread
  · rintro ⟨rfl, hnotSound, hnotForeign⟩
    have hjudged := judged_read literal
    generalize hread : read literal = verdict at hjudged ⊢
    cases hjudged with
    | dimension spells isNumber => exact absurd ⟨_, _, spells, isNumber⟩ hnotSound
    | unsupported cut unknown => exact absurd ⟨_, cut, unknown⟩ (hnotForeign _)
    | broken | shapeless => rfl

theorem hasShape_iff_sound_or_broken : hasShape text = true ↔ IsSound text ∨ Broken text := by
  rw [hasShape_iff]
  constructor
  · rintro ⟨number, unit, hspells⟩
    by_cases hnumber : Decimal.IsNumber number
    · exact .inl ⟨number, unit, hspells, hnumber⟩
    · exact .inr ⟨number, unit, hspells, hnumber⟩
  · rintro (⟨number, unit, hspells, -⟩ | ⟨number, unit, hspells, -⟩) <;>
      exact ⟨number, unit, hspells⟩

end Dimension

namespace Scale

variable {scale : Scale} {text : String} {target : LengthUnit}

theorem exists_convert_eq_ok :
    (∃ value, scale.convert text target = .ok value) ↔
      ∃ dimension, Dimension.read text = .ok dimension := by
  rw [convert]
  rcases Dimension.read text with error | dimension <;> simp [Except.map]

theorem convert_eq_error {error : DimensionError} :
    scale.convert text target = .error error ↔ Dimension.read text = .error error := by
  rw [convert]
  rcases Dimension.read text with error' | dimension <;> simp [Except.map]

end Scale

/-- **Converting judges every text**, in the same way whatever the scale and the target. It succeeds
for a literal with a number. A text in an unknown unit is refused for its unit, also if its number
part is no number. Every other text is malformed. The shape of a dimension is that of the texts that
are converted, and of those that have a known unit and no number. -/
theorem converting_judges_every_text (scale : Scale) (text : String) (target : LengthUnit) :
    ((∃ value, scale.convert text target = .ok value) ↔ Dimension.IsSound text) ∧
    (∀ unit, scale.convert text target = .error (.unsupported unit) ↔
      Dimension.IsForeign text unit) ∧
    (∀ literal, scale.convert text target = .error (.malformed literal) ↔
      literal = text ∧ ¬ Dimension.IsSound text ∧ ∀ unit, ¬ Dimension.IsForeign text unit) ∧
    (Stylesheet.isDimension (.text text) = true ↔
      (∃ value, scale.convert text target = .ok value) ∨ Dimension.Broken text) := by
  refine ⟨Scale.exists_convert_eq_ok.trans Dimension.exists_read_eq_ok,
    fun unit => Scale.convert_eq_error.trans Dimension.read_eq_unsupported,
    fun literal => Scale.convert_eq_error.trans Dimension.read_eq_malformed, ?_⟩
  rw [Scale.exists_convert_eq_ok, Dimension.exists_read_eq_ok]
  exact Dimension.hasShape_iff_sound_or_broken

/-- The unit is looked at before the number, and there are no exponents. -/
example : Dimension.read "1.2.3em" = .error (.unsupported "em") ∧
    Dimension.read "1.2.3px" = .error (.malformed "1.2.3px") ∧
    Dimension.read "1e3px" = .error (.malformed "1e3px") := ⟨rfl, rfl, rfl⟩

end TokenSheets
