import TokenSheets.Decimal.Reader
import TokenSheets.Json.Printer
import TokenSheets.Proofs.Decimal.Interval
import TokenSheets.Proofs.Text.Runs

/-!
# Numbers as they are written in documents

A double in a document is a numeral: digits, digits behind a point, and perhaps a power of ten. The
layouts differ in where the point stands and how zeros fill up, but the number that is written is
always the shortest decimal of the double.

* `Numeral`: the parts, and the decimal that they write;
* `exists_numeral`: the numeral of a double rounds to this double.
-/

namespace TokenSheets.Decimal

/-- **A number as it is written**: digits, digits behind a point, and a power of ten. -/
structure Numeral where
  whole : List Char
  fraction : List Char
  shift : Option Int

namespace Numeral

/-- The digits behind their point. -/
def fractionChars : List Char → List Char
  | [] => []
  | d :: ds => '.' :: d :: ds

/-- The power of ten, with its sign. -/
def shiftChars : Option Int → List Char
  | none => []
  | some e => 'e' :: (if e < 0 then '-' else '+') :: Nat.toDigits 10 e.natAbs

/-- The characters of a numeral. -/
def chars (n : Numeral) : List Char := n.whole ++ (fractionChars n.fraction ++ shiftChars n.shift)

/-- The decimal that a numeral writes. -/
def decimal (n : Numeral) : Scientific :=
  ⟨ofDigits (n.whole ++ n.fraction), n.shift.getD 0 - n.fraction.length⟩

/-- **The form of numbers in documents**: at most 16 digits in front of the point, no zero in front
of another digit, and a fraction or a power of ten. -/
structure IsProper (n : Numeral) : Prop where
  whole : ∀ c ∈ n.whole, c.isDigit = true
  fraction : ∀ c ∈ n.fraction, c.isDigit = true
  ne_nil : n.whole ≠ []
  short : n.whole.length ≤ 16
  leading : n.whole.head? = some '0' → n.whole.length ≤ 1
  marked : n.fraction ≠ [] ∨ n.shift ≠ none

end Numeral

/-! ### Digits -/

theorem isDigit_toDigits (n : ℕ) : ∀ c ∈ Nat.toDigits 10 n, c.isDigit = true :=
  fun _ hc => Nat.isDigit_of_mem_toDigits (by decide) (by decide) hc

theorem ofDigits_toDigits (n : ℕ) : ofDigits (Nat.toDigits 10 n) = n :=
  Nat.ofDigitChars_ten_toDigits

theorem ofDigits_append (a b : List Char) :
    ofDigits (a ++ b) = 10 ^ b.length * ofDigits a + ofDigits b := by
  rw [ofDigits, Nat.ofDigitChars_append, Nat.ofDigitChars_eq_ofDigitChars_zero]
  rfl

theorem ofDigits_zeros (n : ℕ) : ofDigits (List.replicate n '0') = 0 := by
  rw [ofDigits, Nat.ofDigitChars_replicate_zero, Nat.mul_zero]

theorem head?_toDigits {n : ℕ} (hn : n ≠ 0) : (Nat.toDigits 10 n).head? ≠ some '0' := by
  induction n using Nat.strongRecOn with
  | ind n ih =>
    rw [Nat.toDigits_eq_if (by decide)]
    split_ifs with hlt
    · have hall : ∀ d < 10, d ≠ 0 → [Nat.digitChar d].head? ≠ some '0' := by decide
      exact hall n hlt hn
    · rw [List.head?_append_of_ne_nil _ Nat.toDigits_ne_nil]
      exact ih (n / 10) (by omega) (by omega)

/-! ### Numerals by their characters -/

namespace Numeral

theorem stops_shiftChars (shift : Option Int) : Text.Stops Char.isDigit (shiftChars shift) := by
  rcases shift with _ | e
  · exact Text.stops_nil
  · exact Text.stops_cons.mpr (by decide)

theorem stops_fractionChars (fraction : List Char) (shift : Option Int) :
    Text.Stops Char.isDigit (fractionChars fraction ++ shiftChars shift) := by
  rcases fraction with _ | ⟨d, ds⟩
  · exact stops_shiftChars shift
  · exact Text.stops_cons.mpr (by decide)

theorem digits_inj {a b rest rest' : List Char} (ha : ∀ c ∈ a, c.isDigit = true)
    (hb : ∀ c ∈ b, c.isDigit = true) (hrest : Text.Stops Char.isDigit rest)
    (hrest' : Text.Stops Char.isDigit rest') (h : a ++ rest = b ++ rest') :
    a = b ∧ rest = rest' := by
  have htake := congrArg (List.takeWhile Char.isDigit) h
  have hdrop := congrArg (List.dropWhile Char.isDigit) h
  rw [Text.takeWhile_run ha hrest, Text.takeWhile_run hb hrest'] at htake
  rw [Text.dropWhile_run ha hrest, Text.dropWhile_run hb hrest'] at hdrop
  exact ⟨htake, hdrop⟩

theorem shiftChars_inj {a b : Option Int} (h : shiftChars a = shiftChars b) : a = b := by
  rcases a with _ | a <;> rcases b with _ | b
  · rfl
  · cases h
  · cases h
  · rw [shiftChars, shiftChars, List.cons.injEq, List.cons.injEq] at h
    obtain ⟨-, hsign, hdigits⟩ := h
    have habs := congrArg ofDigits hdigits
    rw [ofDigits_toDigits, ofDigits_toDigits] at habs
    split_ifs at hsign
    · congr 1
      omega
    · exact absurd hsign (by decide)
    · exact absurd hsign (by decide)
    · congr 1
      omega

/-- **The characters of a numeral** tell all its parts. -/
theorem chars_inj {n m : Numeral} (hn : n.IsProper) (hm : m.IsProper) (h : n.chars = m.chars) :
    n = m := by
  obtain ⟨hwhole, hbehind⟩ := digits_inj hn.whole hm.whole (stops_fractionChars _ _)
    (stops_fractionChars _ _) h
  have hfraction := hn.fraction
  have hfraction' := hm.fraction
  obtain ⟨whole, fraction, shift⟩ := n
  obtain ⟨whole', fraction', shift'⟩ := m
  dsimp only at *
  subst hwhole
  rcases fraction with _ | ⟨d, ds⟩ <;> rcases fraction' with _ | ⟨d', ds'⟩
  · rw [shiftChars_inj hbehind]
  · rcases shift <;> simp [fractionChars, shiftChars] at hbehind
  · rcases shift' <;> simp [fractionChars, shiftChars] at hbehind
  · obtain ⟨hdigits, hshift⟩ := digits_inj hfraction hfraction' (stops_shiftChars _)
      (stops_shiftChars _) (List.cons.inj hbehind).2
    rw [hdigits, shiftChars_inj hshift]

end Numeral

/-! ### The numeral of a decimal -/

section Layouts

variable {d : Scientific} {e : Int}

/-- The numeral of positional digits: a zero in front of the point, zeros that fill up to it, or the
point inside the digits. -/
def positional (digits : List Char) (e : Int) : Numeral :=
  if e < 0 then ⟨['0'], List.replicate (-e - 1).toNat '0' ++ digits, none⟩
  else if digits.length ≤ e.toNat + 1 then
    ⟨digits ++ List.replicate (e.toNat + 1 - digits.length) '0', ['0'], none⟩
  else ⟨digits.take (e.toNat + 1), digits.drop (e.toNat + 1), none⟩

theorem isDigit_of_mem_replicate {k : ℕ} : ∀ c ∈ List.replicate k '0', c.isDigit = true :=
  fun c hc => by
    rw [List.eq_of_mem_replicate hc]
    rfl

theorem isProper_positional {digits : List Char} (hdigits : ∀ c ∈ digits, c.isDigit = true)
    (hne : digits ≠ []) (hhead : digits.head? ≠ some '0') (hle : e ≤ 15) :
    (positional digits e).IsProper := by
  have hpos := List.length_pos_iff.mpr hne
  have hzero : ∀ c ∈ ['0'], c.isDigit = true := List.all_eq_true.mp (by decide)
  unfold positional
  split_ifs with hneg hlong
  · exact ⟨hzero, List.forall_mem_append.mpr ⟨isDigit_of_mem_replicate, hdigits⟩, by simp, by simp,
      by simp, by simp [hne]⟩
  · refine ⟨List.forall_mem_append.mpr ⟨hdigits, isDigit_of_mem_replicate⟩, hzero, by simp [hne],
      ?_, fun h => ?_, by simp⟩
    · simp
      omega
    · rw [List.head?_append_of_ne_nil _ hne] at h
      exact absurd h hhead
  · refine ⟨fun c hc => hdigits c (List.mem_of_mem_take hc),
      fun c hc => hdigits c (List.mem_of_mem_drop hc), by simp [hne], ?_, fun h => ?_, ?_⟩
    · simp
      omega
    · rw [List.head?_take, if_neg (by omega)] at h
      exact absurd h hhead
    · simp
      omega

theorem value_positional {digits : List Char} (hvalue : ofDigits digits = d.digits)
    (he : e = d.exponent + digits.length - 1) : (positional digits e).decimal.value = d.value := by
  have hzero : ofDigits ['0'] = 0 := rfl
  unfold positional
  split_ifs with hneg hlong
  · simp only [Numeral.decimal, Scientific.value, ofDigits_append, ofDigits_zeros, hvalue, hzero,
      mul_zero, zero_add, Option.getD_none, List.length_append, List.length_replicate]
    congr 2
    push_cast
    omega
  · have hexp : d.exponent = (e.toNat + 1 - digits.length : ℕ) := by omega
    simp only [Numeral.decimal, Scientific.value, ofDigits_append, ofDigits_zeros, hvalue, hzero,
      Option.getD_none, List.length_replicate, List.length_singleton, hexp, zpow_natCast]
    push_cast
    rw [zpow_neg_one]
    field_simp
    ring
  · simp only [Numeral.decimal, Scientific.value, List.take_append_drop, hvalue, Option.getD_none,
      List.length_drop]
    congr 2
    omega

theorem chars_positional {digits : List Char} (hne : digits ≠ []) :
    positionalChars true digits e = (positional digits e).chars := by
  unfold positionalChars positional
  simp only [if_true]
  split_ifs with hneg hlong
  · rcases hfraction : List.replicate (-e - 1).toNat '0' ++ digits with _ | ⟨c, cs⟩
    · simp [hne] at hfraction
    · simp [Numeral.chars, Numeral.fractionChars, Numeral.shiftChars]
  · simp [Numeral.chars, Numeral.fractionChars, Numeral.shiftChars]
  · rcases hfraction : digits.drop (e.toNat + 1) with _ | ⟨c, cs⟩
    · simp at hfraction
      omega
    · simp [Numeral.chars, Numeral.fractionChars, Numeral.shiftChars]

theorem exists_numeral_positional (hd : d.digits ≠ 0)
    (he : e = d.exponent + (Nat.toDigits 10 d.digits).length - 1) (hle : e ≤ 15) :
    ∃ n : Numeral, n.IsProper ∧ n.decimal.value = d.value ∧
      positionalChars true (Nat.toDigits 10 d.digits) e = n.chars :=
  ⟨positional (Nat.toDigits 10 d.digits) e,
    isProper_positional (isDigit_toDigits d.digits) Nat.toDigits_ne_nil (head?_toDigits hd) hle,
    value_positional (ofDigits_toDigits d.digits) he, chars_positional Nat.toDigits_ne_nil⟩

theorem exists_numeral_scientific
    (he : e = d.exponent + (Nat.toDigits 10 d.digits).length - 1) :
    ∃ n : Numeral, n.IsProper ∧ n.decimal.value = d.value ∧
      scientificChars (Nat.toDigits 10 d.digits) e = n.chars := by
  have hdigits := isDigit_toDigits d.digits
  have hvalue := ofDigits_toDigits d.digits
  have hne : Nat.toDigits 10 d.digits ≠ [] := Nat.toDigits_ne_nil
  generalize Nat.toDigits 10 d.digits = digits at *
  rcases digits with _ | ⟨c, cs⟩
  · exact absurd rfl hne
  · refine ⟨⟨[c], cs, some e⟩, ⟨?_, ?_, ?_, ?_, ?_, ?_⟩, ?_, ?_⟩
    · simpa using hdigits c (by simp)
    · exact fun c' hc => hdigits c' (by simp [hc])
    · simp
    · simp
    · simp
    · simp
    · simp only [Numeral.decimal, Scientific.value, List.singleton_append, hvalue, Option.getD_some]
      congr 2
      rw [he, List.length_cons]
      push_cast
      ring
    · rcases cs with _ | ⟨c', cs⟩ <;> rfl

end Layouts

/-! ### The numeral of a double -/

theorem Scientific.digits_ne_zero_of_value {d : Scientific} (h : d.value ≠ 0) : d.digits ≠ 0 := by
  intro hzero
  rw [value, hzero] at h
  simp at h

/-- **The numeral of a double** writes a number that rounds to this double. -/
theorem exists_numeral (x : Binary) :
    ∃ n : Numeral, n.IsProper ∧ x.Rounds n.decimal.value ∧
      Json.documentLayout.magnitude x = n.chars := by
  unfold Layout.magnitude
  by_cases hm : x.m = 0
  · rw [if_pos hm]
    have hdigit : ∀ c ∈ ['0'], c.isDigit = true := List.all_eq_true.mp (by decide)
    refine ⟨⟨['0'], ['0'], none⟩, ⟨hdigit, hdigit, by simp, by simp, by simp, by simp⟩, ?_, rfl⟩
    have hzero : (Numeral.decimal ⟨['0'], ['0'], none⟩).value = x.value := by
      have hdigits : ofDigits ['0', '0'] = 0 := rfl
      simp [Numeral.decimal, Scientific.value, Binary.value, hm, hdigits]
    rw [hzero]
    exact x.rounds_value
  · rw [if_neg hm]
    have hrounds := rounds_shortest hm .toEven
    have hpositive : 0 < (shortest .toEven x).value := (x.lower_pos hm).trans_le hrounds.lower_le
    have hd := Scientific.digits_ne_zero_of_value hpositive.ne'
    dsimp only
    split_ifs with hpositional
    · have hle : (shortest .toEven x).exponent +
          (Nat.toDigits 10 (shortest .toEven x).digits).length - 1 ≤ 15 := by
        simp only [Json.documentLayout, Bool.and_eq_true, decide_eq_true_eq] at hpositional
        exact hpositional.2
      obtain ⟨n, hn, hvalue, hchars⟩ := exists_numeral_positional hd rfl hle
      exact ⟨n, hn, hvalue ▸ hrounds, hchars⟩
    · obtain ⟨n, hn, hvalue, hchars⟩ := exists_numeral_scientific (d := shortest .toEven x) rfl
      exact ⟨n, hn, hvalue ▸ hrounds, hchars⟩

end TokenSheets.Decimal
