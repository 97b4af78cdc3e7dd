import TokenSheets.Proofs.Sheet.Declarations

/-!
# Literals of a script

A script is made of 16-bit units, and so are its strings. Between double quotes a backslash begins
an escape: a single letter, a unit of two or four hexadecimal digits, a character by its number
between braces, or the end of a line, which is dropped. Escapes with other digits are refused, as
they are in every module, and a line feed or carriage return must not stand in a string by itself.

* `stringUnits`: a string of a script after its opening quote;
* `readLiteral?`: the text of a literal;
* `IsEnclosed`: text that no quote ends early and that ends in no backslash;
* `escaped_strings_are_literals`: the ASCII literal of a string, to a script and to JSON.
-/

namespace TokenSheets.Script

open Json (hexValue? isLeading isTrailing)
open Sheet (endsLine)

/-! ### Strings of a script -/

/-- The units of a character by its number. -/
def unitsOf (code : Nat) : List Nat :=
  if code < 0x10000 then [code]
  else [0xD800 + (code - 0x10000) / 0x400, 0xDC00 + (code - 0x10000) % 0x400]

/-- **The text of units**, unless one of them is half of a pair without its other half. -/
def ofUnits? : List Nat → Option (List Char)
  | [] => some []
  | unit :: rest =>
    if isTrailing unit then none
    else if isLeading unit then
      match rest with
      | [] => none
      | unit' :: rest' =>
        if isTrailing unit' then (ofUnits? rest').map (Json.pairChar unit unit' :: ·) else none
    else (ofUnits? rest).map (Char.ofNat unit :: ·)

/-- The number that hexadecimal digits write; there must be one of them at least. -/
def hexNumber? (digits : List Char) : Option Nat :=
  if digits = [] then none
  else digits.foldlM (fun n c => (hexValue? c).map (n * 16 + ·)) 0

/-- The number of a character behind its opening brace. -/
def braced? (cs : List Char) : Option (List Nat × List Char) :=
  match cs.dropWhile (· ≠ '\x7d') with
  | [] => none
  | _ :: rest => do
    let code ← hexNumber? (cs.takeWhile (· ≠ '\x7d'))
    if code ≤ 0x10FFFF then some (unitsOf code, rest) else none

/-- The letters that stand for a control character. -/
def control? (c : Char) : Option Nat :=
  if c = 'b' then some 0x08
  else if c = 't' then some 0x09
  else if c = 'n' then some 0x0A
  else if c = 'v' then some 0x0B
  else if c = 'f' then some 0x0C
  else if c = 'r' then some 0x0D
  else none

/-- The character `c` behind a backslash, with the text that follows it: the units that both stand
for, and the text behind them. -/
def escaped? (c : Char) (cs : List Char) : Option (List Nat × List Char) :=
  if c = 'u' then
    match cs with
    | '\x7b' :: rest => braced? rest
    | a :: b :: c :: d :: rest => (Json.unit? a b c d).map fun unit => ([unit], rest)
    | _ => none
  else if c = 'x' then
    match cs with
    | a :: b :: rest => (hexNumber? [a, b]).map fun unit => ([unit], rest)
    | _ => none
  else if c.isDigit then
    if c = '0' ∧ ¬ cs.head?.any Char.isDigit then some ([0], cs) else none
  else if endsLine c then
    match c, cs with
    | '\r', '\n' :: rest => some ([], rest)
    | _, _ => some ([], cs)
  else
    match control? c with
    | some unit => some ([unit], cs)
    | none => some (unitsOf c.toNat, cs)

theorem length_braced? {cs rest : List Char} {units : List Nat}
    (h : braced? cs = some (units, rest)) : rest.length ≤ cs.length := by
  have hdrop := (List.dropWhile_sublist (l := cs) (· ≠ '\x7d')).length_le
  unfold braced? at h
  split at h
  · simp at h
  · rename_i brace behind heq
    simp only [Option.bind_eq_bind, Option.bind_eq_some_iff] at h
    obtain ⟨code, -, hcode⟩ := h
    split_ifs at hcode
    obtain ⟨-, rfl⟩ := Prod.mk.inj (Option.some.inj hcode)
    rw [heq, List.length_cons] at hdrop
    omega

theorem length_escaped? {c : Char} {cs rest : List Char} {units : List Nat}
    (h : escaped? c cs = some (units, rest)) : rest.length ≤ cs.length := by
  have hsingle : ∀ {unit? : Option Nat} {behind : List Char},
      (unit?.map fun unit => ([unit], behind)) = some (units, rest) → rest = behind := fun h => by
    obtain ⟨unit, -, heq⟩ := Option.map_eq_some_iff.mp h
    exact (Prod.mk.inj heq).2.symm
  unfold escaped? at h
  split_ifs at h with hu hx hdigit hzero hend
  · split at h
    · exact (length_braced? h).trans (by simp)
    · simp only [hsingle h, List.length_cons]
      omega
    · simp at h
  · split at h
    · simp only [hsingle h, List.length_cons]
      omega
    · simp at h
  · grind
  · grind
  · grind

/-- Puts units in front of what was read. -/
def withUnits (units : List Nat) (read : Option (List Nat × List Char)) :
    Option (List Nat × List Char) :=
  read.map fun (more, rest) => (units ++ more, rest)

/-- **A string after its opening quote**: its units and the text behind the closing quote. -/
def stringUnits : List Char → Option (List Nat × List Char)
  | [] => none
  | '"' :: rest => some ([], rest)
  | ['\\'] => none
  | '\\' :: c :: rest =>
    match _h : escaped? c rest with
    | none => none
    | some (units, behind) => withUnits units (stringUnits behind)
  | c :: rest =>
    if c = '\n' ∨ c = '\r' then none else withUnits (unitsOf c.toNat) (stringUnits rest)
termination_by cs => cs.length
decreasing_by
  · have := length_escaped? ‹_›
    simp
    omega
  · simp

/-- **The text of a literal** that is written between double quotes. -/
def readLiteral? (literal : String) : Option String :=
  match literal.toList with
  | '"' :: cs =>
    match stringUnits cs with
    | some (units, []) => (ofUnits? units).map String.ofList
    | _ => none
  | _ => none

/-- **Text that stays between its quotes**: none of its quotes is without a backslash, and no
backslash is left at its end. -/
inductive IsEnclosed : List Char → Prop
  | nil : IsEnclosed []
  | plain {c : Char} {cs : List Char} (hquote : c ≠ '"') (hslash : c ≠ '\\') (h : IsEnclosed cs) :
    IsEnclosed (c :: cs)
  | escaped (c : Char) {cs : List Char} (h : IsEnclosed cs) : IsEnclosed ('\\' :: c :: cs)

theorem IsEnclosed.append {cs ds : List Char} (hcs : IsEnclosed cs) (hds : IsEnclosed ds) :
    IsEnclosed (cs ++ ds) := by
  induction hcs with
  | nil => exact hds
  | plain hquote hslash _ ih => exact .plain hquote hslash ih
  | escaped c _ ih => exact .escaped c ih

theorem IsEnclosed.flatMap {α : Type} {write : α → List Char} (h : ∀ a, IsEnclosed (write a))
    (as : List α) : IsEnclosed (as.flatMap write) := by
  induction as with
  | nil => exact .nil
  | cons a as ih => exact (h a).append ih

/-! ### Steps of the reader -/

theorem stringUnits_plain {c : Char} (hquote : c ≠ '"') (hslash : c ≠ '\\') (h : ' ' ≤ c)
    (rest : List Char) :
    stringUnits (c :: rest) = withUnits (unitsOf c.toNat) (stringUnits rest) := by
  have hend : ¬ (c = '\n' ∨ c = '\r') := by
    rintro (rfl | rfl) <;> exact absurd h (by decide)
  rw [stringUnits.eq_def]
  split <;> simp_all

theorem stringUnits_escaped {c : Char} {cs rest : List Char} {units : List Nat}
    (h : escaped? c cs = some (units, rest)) :
    stringUnits ('\\' :: c :: cs) = withUnits units (stringUnits rest) := by
  rw [stringUnits]
  split <;> simp_all

theorem stringUnits_unit {a b c d : Char} {unit : Nat} (ha : a ≠ '\x7b')
    (hunit : Json.unit? a b c d = some unit) (rest : List Char) :
    stringUnits ('\\' :: 'u' :: a :: b :: c :: d :: rest) =
      withUnits [unit] (stringUnits rest) := by
  refine stringUnits_escaped ?_
  simp [escaped?, hunit]

end TokenSheets.Script

namespace TokenSheets.Declarations

open Script (IsEnclosed ofUnits? readLiteral? stringUnits unitsOf withUnits)

/-! ### Literals are read back -/

theorem hexDigit_mem (n : Nat) : Json.hexDigit n ∈ "0123456789abcdef".toList := by
  have hall : ∀ d < 16, Nat.digitChar d ∈ "0123456789abcdef".toList := by decide
  exact hall (n % 16) (Nat.mod_lt n (by decide))

theorem stringUnits_escapeUnit {unit : Nat} (h : unit < 0x10000) (rest : List Char) :
    stringUnits (escapeUnit unit ++ rest) = withUnits [unit] (stringUnits rest) := by
  have hbrace : Json.hexDigit (unit / 0x1000) ≠ '\x7b' := fun heq =>
    absurd (heq ▸ hexDigit_mem (unit / 0x1000)) (by decide)
  exact Script.stringUnits_unit hbrace (Json.unit?_hexDigit h) rest

/-- **What is written for a character** is read as its units, whatever stands behind it. -/
theorem stringUnits_escapeChar (c : Char) (rest : List Char) :
    stringUnits (escapeChar c ++ rest) = withUnits (units c) (stringUnits rest) := by
  have hbound : c.toNat < 0x110000 := by
    have hvalid : c.toNat < 0xD800 ∨ 0xDFFF < c.toNat ∧ c.toNat < 0x110000 := c.valid
    omega
  unfold escapeChar
  split_ifs with hquote hslash hascii
  · subst c
    exact Script.stringUnits_escaped (by rfl)
  · subst c
    exact Script.stringUnits_escaped (by rfl)
  · exact Script.stringUnits_plain hquote hslash hascii.1 rest
  · unfold units
    dsimp only
    split_ifs with hsmall
    · simpa using stringUnits_escapeUnit hsmall rest
    · rw [List.flatMap_cons, List.flatMap_singleton, List.append_assoc,
        stringUnits_escapeUnit (by omega), stringUnits_escapeUnit (by omega)]
      simp [withUnits, Option.map_map, Function.comp_def]

theorem stringUnits_flatMap (cs rest : List Char) :
    stringUnits (cs.flatMap escapeChar ++ '"' :: rest) = some (cs.flatMap units, rest) := by
  induction cs with
  | nil => simp [stringUnits]
  | cons c cs ih =>
    rw [List.flatMap_cons, List.append_assoc, stringUnits_escapeChar, ih]
    rfl

theorem ofUnits?_units_append (c : Char) (more : List Nat) :
    ofUnits? (units c ++ more) = (ofUnits? more).map (c :: ·) := by
  have hvalid : c.toNat < 0xD800 ∨ 0xDFFF < c.toNat ∧ c.toNat < 0x110000 := c.valid
  unfold units
  dsimp only
  split_ifs with hsmall
  · obtain ⟨htrailing, hleading⟩ := Json.single_of_not_half (n := c.toNat) (by omega)
    rw [List.singleton_append, Script.ofUnits?.eq_def]
    simp [htrailing, hleading]
  · obtain ⟨hfirst, hleading, htrailing⟩ := Json.halves_of_pair
      (m := 0xD800 + (c.toNat - 0x10000) / 0x400) (n := 0xDC00 + (c.toNat - 0x10000) % 0x400)
      (by omega) (by omega)
    rw [List.cons_append, List.singleton_append, Script.ofUnits?.eq_def]
    simp [hfirst, hleading, htrailing, Json.pairChar_halves (c := c) (by omega)]

theorem ofUnits?_flatMap_units (cs : List Char) : ofUnits? (cs.flatMap units) = some cs := by
  induction cs with
  | nil => rfl
  | cons c cs ih =>
    rw [List.flatMap_cons, ofUnits?_units_append, ih]
    rfl

theorem readLiteral?_escape (s : String) : readLiteral? (escape s) = some s := by
  have hunits := stringUnits_flatMap s.toList []
  rw [readLiteral?, escape, String.toList_ofList, escapeChars]
  simp [hunits, ofUnits?_flatMap_units]

theorem read_escape (s : String) : Json.read (escape s) = .ok (.text s) := by
  have hread := read_literal (.text s)
  rwa [literal, Json.text?, Json.readBack] at hread

/-! ### What a literal is made of -/

theorem isEnclosed_escapeUnit (unit : Nat) : IsEnclosed (escapeUnit unit) := by
  have hdigit : ∀ n, Json.hexDigit n ≠ '"' ∧ Json.hexDigit n ≠ '\\' := fun n =>
    ⟨fun heq => absurd (heq ▸ hexDigit_mem n) (by decide),
      fun heq => absurd (heq ▸ hexDigit_mem n) (by decide)⟩
  refine .escaped 'u' ?_
  iterate 4 refine .plain (hdigit _).1 (hdigit _).2 ?_
  exact .nil

theorem isEnclosed_escapeChar (c : Char) : IsEnclosed (escapeChar c) := by
  unfold escapeChar
  split_ifs with hquote hslash hascii
  · exact .escaped '"' .nil
  · exact .escaped '\\' .nil
  · exact .plain hquote hslash .nil
  · exact .flatMap isEnclosed_escapeUnit _

theorem ascii_of_mem_escapeUnit {unit : Nat} {c : Char} (h : c ∈ escapeUnit unit) :
    ' ' ≤ c ∧ c ≤ '~' := by
  have hall : ∀ d < 16, ' ' ≤ Nat.digitChar d ∧ Nat.digitChar d ≤ '~' := by decide
  have hdigit : ∀ n, ' ' ≤ Json.hexDigit n ∧ Json.hexDigit n ≤ '~' :=
    fun n => hall (n % 16) (Nat.mod_lt n (by decide))
  simp only [escapeUnit, List.mem_cons, List.not_mem_nil, or_false] at h
  rcases h with rfl | rfl | rfl | rfl | rfl | rfl
  iterate 2 decide
  iterate 4 exact hdigit _

theorem ascii_of_mem_escapeChar {c d : Char} (h : d ∈ escapeChar c) : ' ' ≤ d ∧ d ≤ '~' := by
  unfold escapeChar at h
  split_ifs at h with hquote hslash hascii
  · rcases List.mem_pair.mp h with rfl | rfl <;> decide
  · rcases List.mem_pair.mp h with rfl | rfl <;> decide
  · rwa [List.mem_singleton.mp h]
  · obtain ⟨unit, -, hunit⟩ := List.mem_flatMap.mp h
    exact ascii_of_mem_escapeUnit hunit

theorem ascii_of_mem_escape {s : String} {c : Char} (h : c ∈ (escape s).toList) :
    ' ' ≤ c ∧ c ≤ '~' := by
  rw [escape, String.toList_ofList, escapeChars] at h
  simp only [List.mem_cons, List.mem_append, List.mem_flatMap, List.not_mem_nil, or_false] at h
  rcases h with rfl | ⟨d, -, hd⟩ | rfl
  · decide
  · exact ascii_of_mem_escapeChar hd
  · decide

theorem endsLine_of_ascii {c : Char} (h : ' ' ≤ c ∧ c ≤ '~') : Sheet.endsLine c = false := by
  by_contra hend
  simp only [Sheet.endsLine, Bool.not_eq_false, Bool.or_eq_true, decide_eq_true_eq] at hend
  rcases hend with ((rfl | rfl) | rfl) | rfl <;> exact absurd h (by decide)

/-! ### The theorem -/

/-- **The ASCII literal of a string is read as the string**, by JSON as well as by a script. It is
made of printable ASCII and has no line break of any kind; its two quotes enclose what stands
between them, where every other quote is behind a backslash and no backslash is left over. So
different strings have different literals. -/
theorem escaped_strings_are_literals (s : String) :
    (∀ c ∈ (escape s).toList, (' ' ≤ c ∧ c ≤ '~') ∧ Sheet.endsLine c = false) ∧
    (∃ body, (escape s).toList = '"' :: (body ++ ['"']) ∧ IsEnclosed body) ∧
    Json.read (escape s) = .ok (.text s) ∧
    readLiteral? (escape s) = some s ∧
    ∀ t, escape t = escape s → t = s := by
  refine ⟨fun c hc => ?_, ?_, read_escape s, readLiteral?_escape s, fun t ht => ?_⟩
  · have hascii := ascii_of_mem_escape hc
    exact ⟨hascii, endsLine_of_ascii hascii⟩
  · exact ⟨s.toList.flatMap escapeChar, String.toList_ofList, .flatMap isEnclosed_escapeChar _⟩
  · have hread := readLiteral?_escape t
    rw [ht, readLiteral?_escape] at hread
    exact (Option.some.inj hread).symm

-- A script reads escapes that are never written here, and refuses half of a pair.

example : readLiteral? "\"\\x41\\t\\u0042\\\n\\0\\q\"" = some "A\tB\x00q" := by cbv

example : readLiteral? "\"\\ud83d\"" = none := by cbv

end TokenSheets.Declarations
