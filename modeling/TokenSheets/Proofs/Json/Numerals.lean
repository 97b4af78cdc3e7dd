import TokenSheets.Json.Lexeme
import TokenSheets.Proofs.Decimal.Numeral
import TokenSheets.Proofs.Text.Runs

/-!
# Digits are read

The reader gathers the digits of a number into 64 bits and keeps the power of ten. A whole number of
64 bits is read back; a numeral with a fraction or a power of ten is read as a double, whatever
stands behind it that does not go on with a number.

* `gather_spec`: what is gathered, and what is left over;
* `number_signChars`: the reader on a numeral behind its sign;
* `number_wholeChars`: the reader on a whole number.
-/

namespace TokenSheets.Json

open Decimal

/-! ### The reader on a numeral -/

/-- **The text does not go on with a number.** -/
def Ends (rest : List Char) : Prop :=
  Text.Stops (fun c => c.isDigit || c = '.' || isExponentMark c) rest

theorem Ends.digits {rest : List Char} (h : Ends rest) : Text.Stops Char.isDigit rest :=
  fun c hc => by
    have hstop := h c hc
    simp only [Bool.or_eq_false_iff] at hstop
    exact hstop.1.1

theorem Ends.of_ne {c : Char} (h : (c.isDigit || c = '.' || isExponentMark c) = false)
    (rest : List Char) : Ends (c :: rest) := Text.stops_cons.mpr h

theorem stops_digits_of_ne {c : Char} (hc : c.isDigit = false) (rest : List Char) :
    Text.Stops Char.isDigit (c :: rest) := Text.stops_cons.mpr hc

/-- What is left of the digits, and what they were worth. -/
theorem gather_spec (ds : List Char) (s : ℕ) :
    s * 10 ^ ds.length + ofDigits ds =
        (gather s ds).1 * 10 ^ (gather s ds).2.length + ofDigits (gather s ds).2 ∧
      (gather s ds).2.length ≤ ds.length ∧
      (s * 10 ^ ds.length + ofDigits ds < 2 ^ 64 → (gather s ds).2 = []) := by
  induction ds generalizing s with
  | nil => simp [gather, ofDigits]
  | cons d ds ih =>
    have hcons : ofDigits (d :: ds) = (d.toNat - '0'.toNat) * 10 ^ ds.length + ofDigits ds := by
      rw [← List.singleton_append, ofDigits_append]
      simp [ofDigits, Nat.ofDigitChars_cons, mul_comm]
    have hsum : s * 10 ^ (d :: ds).length + ofDigits (d :: ds) =
        (s * 10 + (d.toNat - '0'.toNat)) * 10 ^ ds.length + ofDigits ds := by
      rw [hcons, List.length_cons, pow_succ]
      ring
    obtain ⟨hvalue, hlength, hall⟩ := ih (s * 10 + (d.toNat - '0'.toNat))
    rw [gather]
    split_ifs with hfits
    · rw [hsum]
      exact ⟨hvalue, hlength.trans (Nat.le_succ _), hall⟩
    · refine ⟨rfl, le_rfl, fun hlt => ?_⟩
      -- one more digit alone does not fit
      have hle : s * 10 + (d.toNat - '0'.toNat) ≤
          (s * 10 + (d.toNat - '0'.toNat)) * 10 ^ ds.length :=
        Nat.le_mul_of_pos_right _ (by positivity)
      rw [hsum] at hlt
      exact absurd (by omega) hfits

theorem gather_of_lt {ds : List Char} {s : ℕ} (h : s * 10 ^ ds.length + ofDigits ds < 2 ^ 64) :
    gather s ds = (s * 10 ^ ds.length + ofDigits ds, []) := by
  obtain ⟨hvalue, -, hall⟩ := gather_spec ds s
  have hnil := hall h
  rw [hnil] at hvalue
  refine Prod.ext ?_ hnil
  simpa [ofDigits] using hvalue.symm

theorem ofDigits_lt {ds : List Char} (hds : ∀ d ∈ ds, d.isDigit = true) :
    ofDigits ds < 10 ^ ds.length := by
  induction ds with
  | nil => simp [ofDigits]
  | cons d ds ih =>
    have hd : d.toNat - '0'.toNat ≤ 9 := by
      have hdigit := hds d (by simp)
      simp only [Char.isDigit, Bool.and_eq_true, decide_eq_true_eq] at hdigit
      have hle : d.toNat ≤ '9'.toNat := hdigit.2
      have : '9'.toNat = 57 := rfl
      have : '0'.toNat = 48 := rfl
      omega
    have hrest := ih fun d' hd' => hds d' (by simp [hd'])
    rw [← List.singleton_append, ofDigits_append, List.singleton_append, List.length_cons, pow_succ]
    have hone : ofDigits [d] = d.toNat - '0'.toNat := by simp [ofDigits, Nat.ofDigitChars_cons]
    rw [hone]
    nlinarith

/-- The digits that the reader gathers of a numeral. -/
def gathered (n : Numeral) : ℕ × List Char := gather (ofDigits n.whole) n.fraction

/-- The power of ten that the reader scales them by. -/
def scale (n : Numeral) : Int := n.shift.getD 0 - (n.fraction.length - (gathered n).2.length)

theorem withExponent_of_ends (plain : Except JsonError Json)
    (scaledBy : Int → Except JsonError Json) {rest : List Char} (h : Ends rest) :
    withExponent plain scaledBy rest = plain.map fun j => (j, rest) := by
  rcases rest with _ | ⟨c, rest⟩
  · rcases plain <;> rfl
  · have hstop := h c rfl
    simp only [Bool.or_eq_false_iff] at hstop
    rw [withExponent, if_neg (by simp [hstop.2])]
    rcases plain <;> rfl

theorem exponentPart_sign {digits rest : List Char} (hdigits : ∀ d ∈ digits, d.isDigit = true)
    (hne : digits ≠ []) (h : Ends rest) :
    exponentPart ('-' :: (digits ++ rest)) = .ok (-(ofDigits digits : Int), rest) ∧
      exponentPart ('+' :: (digits ++ rest)) = .ok ((ofDigits digits : Int), rest) := by
  have htake := Text.takeWhile_run hdigits h.digits
  have hdrop := Text.dropWhile_run hdigits h.digits
  rcases digits with _ | ⟨d, ds⟩
  · exact absurd rfl hne
  · have hd := hdigits d (by simp)
    rw [List.cons_append] at *
    refine ⟨?_, ?_⟩
    · rw [exponentPart]
      simp only [hd, htake, hdrop, if_true]
    · rw [exponentPart]
      simp only [hd, htake, hdrop, if_true]
      rfl

theorem withExponent_shiftChars (plain : Except JsonError Json)
    (scaledBy : Int → Except JsonError Json) (e : Int) {rest : List Char} (h : Ends rest) :
    withExponent plain scaledBy (Numeral.shiftChars (some e) ++ rest) =
      (scaledBy e).map fun j => (j, rest) := by
  obtain ⟨hminus, hplus⟩ :=
    exponentPart_sign (isDigit_toDigits e.natAbs) Nat.toDigits_ne_nil h
  rw [ofDigits_toDigits] at hminus hplus
  have hpart : exponentPart ((if e < 0 then '-' else '+') :: (Nat.toDigits 10 e.natAbs ++ rest)) =
      .ok (e, rest) := by
    split_ifs with hneg
    · rw [hminus, show -(e.natAbs : Int) = e by omega]
    · rw [hplus, show (e.natAbs : Int) = e by omega]
  rw [Numeral.shiftChars, List.cons_append, withExponent, if_pos (by decide), List.cons_append,
    hpart]
  show (do return (← scaledBy e, rest)) = _
  rcases scaledBy e <;> rfl

theorem Ends.behind_whole {rest : List Char} (h : Ends rest) (fraction : List Char)
    (shift : Option Int) : Text.Stops Char.isDigit
      (Numeral.fractionChars fraction ++ Numeral.shiftChars shift ++ rest) := by
  rcases fraction with _ | ⟨d, ds⟩
  · rcases shift with _ | e
    · exact h.digits
    · exact stops_digits_of_ne (by decide) _
  · exact stops_digits_of_ne (by decide) _

theorem fractionPart_numeral {n : Numeral} (hn : n.IsProper) (hne : n.fraction ≠ [])
    (negative : Bool) {rest : List Char} (h : Ends rest) :
    fractionPart negative (ofDigits n.whole) 0
        (n.fraction ++ (Numeral.shiftChars n.shift ++ rest)) =
      (signed negative (gathered n).1 (scale n)).map fun j => (j, rest) := by
  have hstop := h.behind_whole [] n.shift
  rw [Numeral.fractionChars, List.nil_append] at hstop
  have hgathered : gather (ofDigits n.whole) n.fraction = gathered n := rfl
  rw [fractionPart]
  simp only [Text.takeWhile_run hn.fraction hstop, Text.dropWhile_run hn.fraction hstop, if_neg hne,
    hgathered, Nat.cast_zero, zero_sub]
  rcases hshift : n.shift with _ | e
  · rw [Numeral.shiftChars, List.nil_append, withExponent_of_ends _ _ h, scale, hshift,
      Option.getD_none, zero_sub]
  · rw [withExponent_shiftChars _ _ _ h, scale, hshift, Option.getD_some, neg_add_eq_sub]

/-- **The reader on a numeral**: a significand and a power of ten. -/
theorem magnitude_numeral {n : Numeral} (hn : n.IsProper) (negative : Bool) {rest : List Char}
    (h : Ends rest) :
    magnitude negative (n.chars ++ rest) =
      (signed negative (gathered n).1 (scale n)).map fun j => (j, rest) := by
  have hwhole : gather 0 n.whole = (ofDigits n.whole, []) := by
    have hlt := ofDigits_lt hn.whole
    have hpow : 10 ^ n.whole.length ≤ 10 ^ 16 := Nat.pow_le_pow_right (by decide) hn.short
    rw [gather_of_lt (by omega)]
    simp
  have hleading : ¬ (n.whole.head? = some '0' ∧ n.whole.length > 1) := fun hzero => by
    have := hn.leading hzero.1
    omega
  have hstop := h.behind_whole n.fraction n.shift
  have hchars : n.chars ++ rest = n.whole ++
      (Numeral.fractionChars n.fraction ++ Numeral.shiftChars n.shift ++ rest) := by
    simp [Numeral.chars]
  rw [hchars, magnitude]
  simp only [Text.takeWhile_run hn.whole hstop, Text.dropWhile_run hn.whole hstop, hwhole,
    if_neg hn.ne_nil, if_neg hleading]
  rcases hfraction : n.fraction with _ | ⟨d, ds⟩
  · -- no fraction, so there is a power of ten
    obtain ⟨e, he⟩ := Option.ne_none_iff_exists'.mp (hn.marked.resolve_left (by simp [hfraction]))
    have hscale : scale n = e := by simp [scale, gathered, hfraction, he, gather]
    have hgathered : (gathered n).1 = ofDigits n.whole := by simp [gathered, hfraction, gather]
    have hexponent := withExponent_shiftChars (wholeNumber negative (ofDigits n.whole) [])
      (fun shift => signed negative (ofDigits n.whole) ((([] : List Char).length : Int) + shift))
      e h
    rw [he, hscale, hgathered]
    simp only [List.length_nil, Nat.cast_zero, zero_add] at hexponent ⊢
    exact hexponent
  · have hpoint := fractionPart_numeral hn (by simp [hfraction]) negative h
    rw [hfraction] at hpoint
    rw [← hpoint, List.append_assoc]
    rfl

/-- The sign in front of a number. -/
def signChars (negative : Bool) : List Char := if negative then ['-'] else []

theorem number_signChars (negative : Bool) {n : Numeral} (hn : n.IsProper) {rest : List Char}
    (h : Ends rest) :
    number (signChars negative ++ n.chars ++ rest) =
      (signed negative (gathered n).1 (scale n)).map fun j => (j, rest) := by
  rcases negative
  · rw [signChars, ← magnitude_numeral hn false h]
    obtain ⟨d, ds, hwhole⟩ := List.exists_cons_of_ne_nil hn.ne_nil
    have hd := hn.whole d (by simp [hwhole])
    have hminus : d ≠ '-' := by
      rintro rfl
      exact absurd hd (by decide)
    simp only [Numeral.chars, hwhole, Bool.false_eq_true, if_false, List.nil_append,
      List.cons_append]
    rw [number.eq_def]
    split
    · rename_i heq
      exact absurd (List.cons.inj heq).1 hminus
    · rfl
  · rw [← magnitude_numeral hn true h]
    rfl

theorem signChars_append_inj {a b : Bool} {n m : Numeral} (hn : n.IsProper) (hm : m.IsProper)
    (h : signChars a ++ n.chars = signChars b ++ m.chars) : a = b ∧ n = m := by
  have hdigit : ∀ {n : Numeral}, n.IsProper → ∀ rest, n.chars ≠ '-' :: rest := by
    intro n hn rest heq
    obtain ⟨d, ds, hwhole⟩ := List.exists_cons_of_ne_nil hn.ne_nil
    have hd := hn.whole d (by simp [hwhole])
    rw [Numeral.chars, hwhole, List.cons_append] at heq
    rw [(List.cons.inj heq).1] at hd
    exact absurd hd (by decide)
  rcases a <;> rcases b
  · exact ⟨rfl, Numeral.chars_inj hn hm h⟩
  · exact absurd h (hdigit hn _)
  · exact absurd h.symm (hdigit hm _)
  · exact ⟨rfl, Numeral.chars_inj hn hm (List.cons.inj h).2⟩

/-! ### What was gathered -/

theorem gathered_le (n : Numeral) : (gathered n).1 * (10 : ℚ) ^ scale n ≤ n.decimal.value := by
  obtain ⟨hvalue, -, -⟩ := gather_spec n.fraction (ofDigits n.whole)
  have hle : (gathered n).1 * 10 ^ (gathered n).2.length ≤ ofDigits (n.whole ++ n.fraction) := by
    rw [ofDigits_append, mul_comm (10 ^ _), hvalue]
    exact Nat.le_add_right _ _
  have hcast : ((gathered n).1 : ℚ) * 10 ^ (gathered n).2.length ≤
      (ofDigits (n.whole ++ n.fraction) : ℕ) := by exact_mod_cast hle
  have hscale : scale n = (gathered n).2.length + (n.shift.getD 0 - n.fraction.length) := by
    rw [scale]
    ring
  rw [hscale, zpow_add₀ (by norm_num), zpow_natCast, ← mul_assoc]
  exact mul_le_mul_of_nonneg_right hcast (by positivity)

theorem gathered_of_lt {n : Numeral} (h : n.decimal.digits < 2 ^ 64) :
    (gathered n).1 = n.decimal.digits ∧ scale n = n.decimal.exponent := by
  have hdigits : ofDigits n.whole * 10 ^ n.fraction.length + ofDigits n.fraction =
      n.decimal.digits := by
    rw [Numeral.decimal, ofDigits_append, mul_comm]
  have hall := gather_of_lt (hdigits ▸ h)
  rw [scale, gathered, hall, hdigits]
  exact ⟨rfl, by simp [Numeral.decimal]⟩

theorem gather_lt (ds : List Char) {s : ℕ} (hs : s < 2 ^ 64) : (gather s ds).1 < 2 ^ 64 := by
  induction ds generalizing s with
  | nil => exact hs
  | cons d ds ih =>
    rw [gather]
    split_ifs with hfits
    · exact ih hfits
    · exact hs

/-! ### Whole numbers -/

theorem magnitude_toDigits (negative : Bool) {n : ℕ} (hn : n < 2 ^ 64) {rest : List Char}
    (h : Ends rest) :
    magnitude negative (Nat.toDigits 10 n ++ rest) =
      (wholeNumber negative n []).map fun j => (j, rest) := by
  have hdigits := isDigit_toDigits n
  have hgather : gather 0 (Nat.toDigits 10 n) = (n, []) := by
    rw [gather_of_lt (by rw [zero_mul, zero_add, ofDigits_toDigits]; exact hn), zero_mul, zero_add,
      ofDigits_toDigits]
  have hleading : ¬ ((Nat.toDigits 10 n).head? = some '0' ∧ (Nat.toDigits 10 n).length > 1) := by
    rcases Nat.eq_zero_or_pos n with rfl | hpos
    · decide
    · exact fun hzero => head?_toDigits hpos.ne' hzero.1
  rw [magnitude]
  simp only [Text.takeWhile_run hdigits h.digits, Text.dropWhile_run hdigits h.digits, hgather,
    if_neg Nat.toDigits_ne_nil, if_neg hleading]
  rcases rest with _ | ⟨c, rest⟩
  · exact withExponent_of_ends _ _ h
  · split
    · rename_i after heq
      have hpoint := h '.' (by rw [(List.cons.inj heq).1]; rfl)
      simp at hpoint
    · exact withExponent_of_ends _ _ h

theorem number_wholeChars {n : Int} (low : -2 ^ 63 ≤ n) (high : n < 2 ^ 64) {rest : List Char}
    (h : Ends rest) : number (wholeChars n ++ rest) = .ok (.whole n, rest) := by
  unfold wholeChars
  split_ifs with hneg
  · show magnitude true (Nat.toDigits 10 n.natAbs ++ rest) = _
    rw [magnitude_toDigits true (by omega) h, wholeNumber, if_neg (by simp), if_neg (by simp),
      if_pos (by constructor <;> omega), show (-(n.natAbs : Int)) = n by omega]
    rfl
  · obtain ⟨d, ds, hds⟩ :=
      List.exists_cons_of_ne_nil (Nat.toDigits_ne_nil (b := 10) (n := n.natAbs))
    have hd := isDigit_toDigits n.natAbs d (by simp [hds])
    have hmagnitude := magnitude_toDigits false (n := n.natAbs) (by omega) h
    rw [hds] at hmagnitude ⊢
    rw [number.eq_def]
    split
    · rename_i heq
      rw [(List.cons.inj heq).1] at hd
      exact absurd hd (by decide)
    · rw [hmagnitude, wholeNumber, if_neg (by simp), if_pos (by simp),
        show ((n.natAbs : ℕ) : Int) = n by omega]
      rfl

theorem exists_cons_wholeChars (n : Int) :
    ∃ c cs, wholeChars n = c :: cs ∧ (c = '-' ∨ c.isDigit = true) := by
  unfold wholeChars
  obtain ⟨d, ds, hds⟩ := List.exists_cons_of_ne_nil (Nat.toDigits_ne_nil (b := 10) (n := n.natAbs))
  split_ifs
  · exact ⟨_, _, rfl, .inl rfl⟩
  · exact ⟨d, ds, hds, .inr (isDigit_toDigits n.natAbs d (by simp [hds]))⟩

end TokenSheets.Json
