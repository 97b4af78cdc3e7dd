import Mathlib.Tactic
import TokenSheets.Json.Printer
import TokenSheets.Json.Lexeme
import TokenSheets.Sheet.Script

/-!
# Strings are read back

Two writers put a string between quotes. JSON escapes what it must; declarations escape everything
but printable ASCII, and a character beyond the first 65536 becomes a pair of units. Both go
character by character, so that a string is read back if each of its characters is.

* `IsEscape`: what is written for a character is read as this character;
* `isEscape_escapeChar`, `isEscape_declarations`: the two writers;
* `IsEscape.stringBody_flatMap`: a whole string up to its closing quote.
-/

namespace TokenSheets.Json

/-- **What is written for a character** is read as this character, whatever stands behind it, and
has no control character in it. -/
structure IsEscape (escape : Char → List Char) : Prop where
  reads : ∀ c rest, stringBody (escape c ++ rest) = withChar c (stringBody rest)
  printable : ∀ c, ∀ d ∈ escape c, 0x20 ≤ d.toNat

/-- **A string is read back** up to its closing quote. -/
theorem IsEscape.stringBody_flatMap {escape : Char → List Char} (h : IsEscape escape)
    (cs rest : List Char) : stringBody (cs.flatMap escape ++ '"' :: rest) = .ok (cs, rest) := by
  induction cs with
  | nil => simp [stringBody]
  | cons c cs ih =>
    rw [List.flatMap_cons, List.append_assoc, h.reads, ih]
    rfl

/-- **Strings that are written alike** up to the closing quote are the same. -/
theorem IsEscape.inj {escape : Char → List Char} (h : IsEscape escape)
    {cs ds rest rest' : List Char}
    (heq : cs.flatMap escape ++ '"' :: rest = ds.flatMap escape ++ '"' :: rest') :
    cs = ds ∧ rest = rest' := by
  have hread := h.stringBody_flatMap cs rest
  rw [heq, h.stringBody_flatMap] at hread
  simpa [eq_comm] using hread

/-! ### Characters in the reader -/

theorem stringBody_plain {c : Char} (hquote : c ≠ '"') (hslash : c ≠ '\\') (h : 0x20 ≤ c.toNat)
    (rest : List Char) : stringBody (c :: rest) = withChar c (stringBody rest) := by
  rw [stringBody.eq_def]
  split <;> simp_all

theorem stringBody_escaped {c d : Char} (hu : c ≠ 'u') (h : unescape? c = some d)
    (rest : List Char) : stringBody ('\\' :: c :: rest) = withChar d (stringBody rest) := by
  rw [stringBody.eq_def]
  split <;> grind

theorem hexValue?_hexDigit (n : Nat) : hexValue? (hexDigit n) = some (n % 16) := by
  have hall : ∀ d < 16, hexValue? (Nat.digitChar d) = some d := by decide
  exact hall (n % 16) (Nat.mod_lt n (by decide))

theorem unit?_hexDigit {n : Nat} (h : n < 0x10000) :
    unit? (hexDigit (n / 0x1000)) (hexDigit (n / 0x100)) (hexDigit (n / 0x10)) (hexDigit n) =
      some n := by
  simp only [unit?, hexValue?_hexDigit, Option.pure_def, Option.bind_eq_bind, Option.bind_some,
    Option.some.injEq]
  omega

theorem single_of_not_half {n : Nat} (h : n < 0xD800 ∨ 0xDFFF < n) :
    isTrailing n = false ∧ isLeading n = false := by
  simp only [isTrailing, isLeading, Bool.and_eq_false_iff, decide_eq_false_iff_not]
  omega

theorem halves_of_pair {m n : Nat} (hleading : 0xD800 ≤ m ∧ m ≤ 0xDBFF)
    (htrailing : 0xDC00 ≤ n ∧ n ≤ 0xDFFF) :
    isTrailing m = false ∧ isLeading m = true ∧ isTrailing n = true := by
  simp only [isTrailing, isLeading, Bool.and_eq_false_iff, Bool.and_eq_true,
    decide_eq_false_iff_not, decide_eq_true_eq]
  omega

theorem pairChar_halves {c : Char} (h : 0x10000 ≤ c.toNat) :
    pairChar (0xD800 + (c.toNat - 0x10000) / 0x400) (0xDC00 + (c.toNat - 0x10000) % 0x400) = c := by
  rw [pairChar, show (0xD800 + (c.toNat - 0x10000) / 0x400 - 0xD800) * 0x400 +
    (0xDC00 + (c.toNat - 0x10000) % 0x400 - 0xDC00) + 0x10000 = c.toNat by omega,
    Char.ofNat_toNat]

theorem stringBody_unit {a b c d : Char} {n : Nat} (hunit : unit? a b c d = some n)
    (h : n < 0xD800 ∨ 0xDFFF < n) (rest : List Char) :
    stringBody ('\\' :: 'u' :: a :: b :: c :: d :: rest) =
      withChar (Char.ofNat n) (stringBody rest) := by
  obtain ⟨htrailing, hleading⟩ := single_of_not_half h
  rw [stringBody.eq_def]
  simp [hunit, htrailing, hleading]

theorem stringBody_pair {a b c d a' b' c' d' : Char} {m n : Nat} (hm : unit? a b c d = some m)
    (hn : unit? a' b' c' d' = some n) (hleading : 0xD800 ≤ m ∧ m ≤ 0xDBFF)
    (htrailing : 0xDC00 ≤ n ∧ n ≤ 0xDFFF) (rest : List Char) :
    stringBody ('\\' :: 'u' :: a :: b :: c :: d :: '\\' :: 'u' :: a' :: b' :: c' :: d' :: rest) =
      withChar (pairChar m n) (stringBody rest) := by
  obtain ⟨h, h', h''⟩ := halves_of_pair hleading htrailing
  rw [stringBody.eq_def]
  simp [hm, hn, h, h', h'']

/-! ### The writer of JSON -/

theorem le_toNat_of_all {cs : List Char} (h : (cs.all fun c => decide (0x20 ≤ c.toNat)) = true) :
    ∀ c ∈ cs, 0x20 ≤ c.toNat :=
  fun c hc => of_decide_eq_true (List.all_eq_true.mp h c hc)

theorem le_toNat_hexDigit (n : Nat) : 0x20 ≤ (hexDigit n).toNat := by
  have hall : ∀ d < 16, 0x20 ≤ (Nat.digitChar d).toNat := by decide
  exact hall (n % 16) (Nat.mod_lt n (by decide))

theorem isEscape_escapeChar : IsEscape escapeChar where
  reads c rest := by
    unfold escapeChar
    split_ifs with hquote hslash hb hf hn hr ht hcontrol
    iterate 7
      subst c
      exact stringBody_escaped (by decide) (by decide) rest
    · have hunit : unit? '0' '0' (hexDigit (c.toNat / 16)) (hexDigit c.toNat) = some c.toNat := by
        have h := unit?_hexDigit (n := c.toNat) (by omega)
        rwa [show c.toNat / 0x1000 = 0 by omega, show c.toNat / 0x100 = 0 by omega] at h
      have h := stringBody_unit hunit (by omega) rest
      rwa [Char.ofNat_toNat] at h
    · exact stringBody_plain hquote hslash (by omega) rest
  printable c d hd := by
    unfold escapeChar at hd
    split_ifs at hd with hquote hslash hb hf hn hr ht hcontrol
    iterate 7 exact le_toNat_of_all (by decide) d hd
    · have hdigit := le_toNat_hexDigit
      simp only [List.mem_cons, List.not_mem_nil, or_false] at hd
      rcases hd with rfl | rfl | rfl | rfl | rfl | rfl
      iterate 4 decide
      iterate 2 exact hdigit _
    · rw [List.mem_singleton.mp hd]
      omega

/-! ### The writer of declarations -/

open Declarations in
theorem stringBody_units (c : Char) (rest : List Char) :
    stringBody ((units c).flatMap escapeUnit ++ rest) = withChar c (stringBody rest) := by
  have hvalid : c.toNat < 0xD800 ∨ 0xDFFF < c.toNat ∧ c.toNat < 0x110000 := c.valid
  unfold units
  dsimp only
  split_ifs with hsmall
  · have h := stringBody_unit (unit?_hexDigit hsmall) (by omega) rest
    rwa [Char.ofNat_toNat] at h
  · have h := stringBody_pair
      (unit?_hexDigit (n := 0xD800 + (c.toNat - 0x10000) / 0x400) (by omega))
      (unit?_hexDigit (n := 0xDC00 + (c.toNat - 0x10000) % 0x400) (by omega)) (by omega) (by omega)
      rest
    rwa [pairChar_halves (by omega)] at h

theorem isEscape_declarations : IsEscape Declarations.escapeChar where
  reads c rest := by
    unfold Declarations.escapeChar
    split_ifs with hquote hslash hascii
    · subst c
      exact stringBody_escaped (by decide) (by decide) rest
    · subst c
      exact stringBody_escaped (by decide) (by decide) rest
    · exact stringBody_plain hquote hslash hascii.1 rest
    · exact stringBody_units c rest
  printable c d hd := by
    unfold Declarations.escapeChar at hd
    split_ifs at hd with hquote hslash hascii
    · exact le_toNat_of_all (by decide) d hd
    · exact le_toNat_of_all (by decide) d hd
    · rw [List.mem_singleton.mp hd]
      exact hascii.1
    · obtain ⟨unit, -, hunit⟩ := List.mem_flatMap.mp hd
      have hdigit := le_toNat_hexDigit
      simp only [Declarations.escapeUnit, List.mem_cons, List.not_mem_nil, or_false] at hunit
      rcases hunit with rfl | rfl | rfl | rfl | rfl | rfl
      iterate 2 decide
      iterate 4 exact hdigit _

end TokenSheets.Json
