import Mathlib.Data.List.Count
import TokenSheets.Dimension.Scale
import TokenSheets.Proofs.Text.Runs

/-!
# The form of dimension literals

`Dimension.Spells` says what a literal is without reading it: an optional minus sign, digits and
points, the name of a unit; `Dimension.IsCut` says the same with any letters for a unit. The reader
finds these parts and no others, so a text that has the form is refused for its number alone, and
`IsNumber` says when.

* `Decimal.isSome_unsigned?_iff`: digits and points are a number;
* `isCut_iff`: the parts that the reader finds are the only ones;
* `hasShape_iff`: the shape is the form;
* `read_of_spells`: what the reader makes of a literal.
-/

namespace TokenSheets

/-- **Digits and points are a number**: at least one digit and at most one point. -/
def Decimal.IsNumber (cs : List Char) : Prop := (∃ c ∈ cs, c.isDigit = true) ∧ cs.count '.' ≤ 1

/-- A list of digits and points is a number exactly if it can be read as one. -/
theorem Decimal.isSome_unsigned?_iff {cs : List Char}
    (h : ∀ c ∈ cs, Dimension.isNumberChar c = true) : (unsigned? cs).isSome ↔ IsNumber cs := by
  have hcount : ∀ ds : List Char, (∀ d ∈ ds, d.isDigit = true) → ds.count '.' = 0 :=
    fun ds hds => List.count_eq_zero.mpr fun hmem => absurd (hds _ hmem) (by decide)
  have hwhole : ∀ c ∈ cs.takeWhile Char.isDigit, c.isDigit = true :=
    fun _ => List.mem_takeWhile_imp
  have hparts := List.takeWhile_append_dropWhile (p := Char.isDigit) (l := cs)
  have hstop := Text.stops_dropWhile Char.isDigit cs
  unfold unsigned? IsNumber
  generalize cs.takeWhile Char.isDigit = whole at *
  generalize cs.dropWhile Char.isDigit = behind at *
  subst hparts
  rcases behind with _ | ⟨c, fraction⟩
  · -- no point at all
    rcases whole with _ | ⟨d, ds⟩
    · simp
    · simp [hcount _ hwhole, hwhole d]
  · obtain rfl : c = '.' := by
      have hc := h c (by simp)
      simpa [Dimension.isNumberChar, Text.stops_cons.mp hstop] using hc
    have hfraction : fraction.count '.' = 0 ↔ ∀ d ∈ fraction, d.isDigit = true := by
      refine ⟨fun hnone d hd => ?_, hcount fraction⟩
      have hne : d ≠ '.' := fun heq => List.count_eq_zero.mp hnone (heq ▸ hd)
      simpa [Dimension.isNumberChar, hne] using h d (by simp [hd])
    have hpoints : (whole ++ '.' :: fraction).count '.' ≤ 1 ↔
        ∀ d ∈ fraction, d.isDigit = true := by
      simp [hcount whole hwhole, ← hfraction]
    have hdigit : (∀ d ∈ fraction, d.isDigit = true) →
        ((∃ d ∈ whole ++ '.' :: fraction, d.isDigit = true) ↔ ¬(whole = [] ∧ fraction = [])) := by
      intro hall
      rcases whole with _ | ⟨d, ds⟩
      · rcases fraction with _ | ⟨d, ds⟩
        · simp
        · simp [hall d]
      · simp [hwhole d]
    rw [hpoints]
    by_cases hall : ∀ d ∈ fraction, d.isDigit = true
    · simp only [List.all_eq_true, hdigit hall]
      split <;> simp_all
    · simp [hall]

namespace Dimension

/-- **A literal**: an optional minus sign, digits and points, and the name of a unit. -/
structure Spells (text : String) (number : List Char) (unit : LengthUnit) : Prop where
  ne_nil : number ≠ []
  chars : ∀ c ∈ number, c.isDigit = true ∨ c = '.'
  text_eq : text.toList = number ++ unit.name.toList ∨
    text.toList = '-' :: (number ++ unit.name.toList)

/-- **A literal whose number is none.** -/
def Broken (text : String) : Prop :=
  ∃ number unit, Spells text number unit ∧ ¬ Decimal.IsNumber number

theorem isNumberChar_iff {c : Char} : isNumberChar c = true ↔ c.isDigit = true ∨ c = '.' := by
  simp [isNumberChar]

theorem isNumberChar_of_isUnitChar {c : Char} (h : isUnitChar c = true) :
    isNumberChar c = false := by
  simp only [isNumberChar, isUnitChar, Bool.or_eq_false_iff, decide_eq_false_iff_not] at *
  refine ⟨?_, ?_⟩
  · delta Char.isLower at h
    delta Char.isDigit
    grind
  · rintro rfl
    exact absurd h (by decide)

theorem isUnitChar_of_mem_name {unit : LengthUnit} {c : Char} (h : c ∈ unit.name.toList) :
    isUnitChar c = true := by
  cases unit <;> simp [LengthUnit.name] at h <;> rcases h with rfl | rfl | rfl <;> decide

theorem name_ne_nil (unit : LengthUnit) : unit.name.toList ≠ [] := by cases unit <;> decide

theorem stops_of_isUnitChar {cs : List Char} (h : ∀ c ∈ cs, isUnitChar c = true) :
    Text.Stops isNumberChar cs :=
  fun c hc => isNumberChar_of_isUnitChar (h c (List.mem_of_head? hc))

theorem cutUnsigned?_eq_some {negative : Bool} {cs : List Char} {parts : Parts} :
    cutUnsigned? negative cs = some parts ↔
      parts.negative = negative ∧ cs = parts.number ++ parts.unit.toList ∧
        (parts.number ≠ [] ∧ ∀ c ∈ parts.number, isNumberChar c = true) ∧
        parts.unit.toList ≠ [] ∧ ∀ c ∈ parts.unit.toList, isUnitChar c = true := by
  unfold cutUnsigned?
  constructor
  · intro h
    obtain ⟨⟨hnumber, hunit, hall⟩, rfl⟩ : (cs.takeWhile isNumberChar ≠ [] ∧
        cs.dropWhile isNumberChar ≠ [] ∧ (cs.dropWhile isNumberChar).all isUnitChar = true) ∧
        (⟨negative, cs.takeWhile isNumberChar, String.ofList (cs.dropWhile isNumberChar)⟩ : Parts) =
          parts := by simpa using h
    refine ⟨rfl, by simp, ⟨hnumber, fun _ => List.mem_takeWhile_imp⟩, by simpa using hunit, ?_⟩
    simpa using hall
  · rintro ⟨rfl, rfl, ⟨hne, hnumber⟩, hne', hunit⟩
    have hstop := stops_of_isUnitChar hunit
    rw [Text.takeWhile_run hnumber hstop, Text.dropWhile_run hnumber hstop]
    simpa [hne, hne'] using hunit

/-! ### Texts that fall into parts -/

/-- **A text falls into parts** as a literal does, in whatever unit: an optional minus sign, digits
and points, and lower-case letters. -/
structure IsCut (text : String) (number : List Char) (unit : String) : Prop where
  number_ne_nil : number ≠ []
  chars : ∀ c ∈ number, c.isDigit = true ∨ c = '.'
  unit_ne_empty : unit ≠ ""
  letters : ∀ c ∈ unit.toList, c.isLower = true
  text_eq : text.toList = number ++ unit.toList ∨ text.toList = '-' :: (number ++ unit.toList)

theorem IsCut.cutUnsigned? {text : String} {number : List Char} {unit : String}
    (h : IsCut text number unit) (negative : Bool) :
    cutUnsigned? negative (number ++ unit.toList) = some ⟨negative, number, unit⟩ :=
  cutUnsigned?_eq_some.mpr ⟨rfl, rfl,
    ⟨h.number_ne_nil, fun c hc => isNumberChar_iff.mpr (h.chars c hc)⟩,
    by simpa using h.unit_ne_empty, h.letters⟩

/-- **The parts of a text** are the only ones that it falls into. -/
theorem isCut_iff {text : String} {number : List Char} {unit : String} :
    IsCut text number unit ↔ ∃ negative, cut? text = some ⟨negative, number, unit⟩ := by
  constructor
  · intro h
    rcases h.text_eq with htext | htext
    · refine ⟨false, ?_⟩
      rw [cut?, htext]
      split
      · -- a digit or a point is no minus sign
        rename_i cs hcs
        obtain ⟨c, rest, hnumber⟩ := List.exists_cons_of_ne_nil h.number_ne_nil
        obtain rfl : c = '-' := by simpa [hnumber] using (List.cons.inj (hnumber ▸ hcs)).1
        exact absurd (h.chars '-' (by simp [hnumber])) (by decide)
      · exact h.cutUnsigned? false
    · exact ⟨true, by rw [cut?, htext]; exact h.cutUnsigned? true⟩
  · rintro ⟨negative, hcut⟩
    have key : ∀ cs, Dimension.cutUnsigned? negative cs = some ⟨negative, number, unit⟩ →
        (text.toList = cs ∨ text.toList = '-' :: cs) → IsCut text number unit := by
      intro cs hcs htext
      obtain ⟨-, rfl, ⟨hne, hchars⟩, hunit, hletters⟩ := cutUnsigned?_eq_some.mp hcs
      exact ⟨hne, fun c hc => isNumberChar_iff.mp (hchars c hc), by simpa using hunit, hletters,
        htext⟩
    unfold cut? at hcut
    split at hcut
    · obtain ⟨rfl, -⟩ := cutUnsigned?_eq_some.mp hcut
      exact key _ hcut (.inr ‹_›)
    · obtain ⟨rfl, -⟩ := cutUnsigned?_eq_some.mp hcut
      exact key _ hcut (.inl rfl)

theorem spells_iff {text : String} {number : List Char} {unit : LengthUnit} :
    Spells text number unit ↔ IsCut text number unit.name := by
  have hname : unit.name ≠ "" := by simpa using name_ne_nil unit
  exact ⟨fun h => ⟨h.ne_nil, h.chars, hname, fun _ => isUnitChar_of_mem_name, h.text_eq⟩,
    fun h => ⟨h.number_ne_nil, h.chars, h.text_eq⟩⟩

/-- **The shape of a literal** is its form. -/
theorem hasShape_iff {text : String} :
    hasShape text = true ↔ ∃ number unit, Spells text number unit := by
  unfold hasShape
  constructor
  · intro h
    rcases hcut : cut? text with _ | parts
    · simp [hcut] at h
    · simp only [hcut] at h
      obtain ⟨unit, hunit⟩ := Option.isSome_iff_exists.mp h
      have hname := LengthUnit.ofName?_eq_some_iff.mp hunit
      exact ⟨parts.number, unit, spells_iff.mpr (isCut_iff.mpr ⟨parts.negative, hname ▸ hcut⟩)⟩
  · rintro ⟨number, unit, h⟩
    obtain ⟨negative, hcut⟩ := isCut_iff.mp (spells_iff.mp h)
    simp [hcut, LengthUnit.ofName?_name]

/-- **A literal is read** if its number is one, and otherwise refused as malformed. -/
theorem read_of_spells {text : String} {number : List Char} {unit : LengthUnit}
    (h : Spells text number unit) :
    (Decimal.IsNumber number ∧ ∃ magnitude, read text = .ok ⟨magnitude, unit⟩) ∨
      (¬ Decimal.IsNumber number ∧ read text = .error (.malformed text)) := by
  obtain ⟨negative, hcut⟩ := isCut_iff.mp (spells_iff.mp h)
  have hiff := Decimal.isSome_unsigned?_iff fun c hc => isNumberChar_iff.mpr (h.chars c hc)
  simp only [read, hcut, LengthUnit.ofName?_name, Parts.magnitude?]
  rw [← hiff]
  rcases Decimal.unsigned? number with _ | ⟨n, e⟩ <;> simp

end Dimension

/-- **Whatever the scale**, a text of this form is converted into every unit, or into none. -/
theorem Scale.convert_of_hasShape {text : String} (h : Dimension.hasShape text = true) :
    (¬ Dimension.Broken text ∧ ∀ scale unit, ∃ value, Scale.convert scale text unit = .ok value) ∨
      (Dimension.Broken text ∧
        ∀ scale unit, Scale.convert scale text unit = .error (.malformed text)) := by
  obtain ⟨number, unit, hspells⟩ := Dimension.hasShape_iff.mp h
  rcases Dimension.read_of_spells hspells with ⟨hnumber, magnitude, hread⟩ | ⟨hnumber, hread⟩
  · refine .inl ⟨?_, fun scale target => ⟨_, by rw [convert, hread]; rfl⟩⟩
    rintro ⟨number', unit', hspells', hbroken⟩
    rcases Dimension.read_of_spells hspells' with ⟨hnumber', -⟩ | ⟨-, hread'⟩
    · exact hbroken hnumber'
    · simp [hread] at hread'
  · exact .inr ⟨⟨number, unit, hspells, hnumber⟩, fun scale target => by rw [convert, hread]; rfl⟩

end TokenSheets
