import Mathlib
import TokenSheets.Proofs.Name.Composition

/-!
# Signs in names

A comma, a plus sign, a point, parentheses and a slash are replaced in every key. The key is turned
into ASCII only after that, and nothing is replaced in the texts that come from the table. So these
signs are in a name exactly where the text of a character beyond ASCII has them, and keys of ASCII
characters give names without them. A space is in no name at all, wherever it comes from.

* `mem_words_flatten`: words lose separators and nothing else;
* `Style.mem_join`: a sign is in a name if it is in one of the words;
* `mem_transliterate`, `mem_simplify`: which signs a key brings in;
* `replaced_signs_come_from_transliterated_characters`: the signs of a name.
-/

namespace TokenSheets

namespace Name

/-- The signs that are replaced in keys. -/
def replacedSigns : List Char := [',', '+', '.', '(', ')', '/']

/-! ### Signs in words -/

theorem flatten_pieces : ∀ (before : Option Char) (word cs : List Char),
    (pieces before word cs).flatten = word.reverse ++ cs.filter fun c => !isSeparator c
  | _, word, [] => by simp [pieces]
  | before, word, c :: rest => by
    rw [pieces]
    split_ifs with hsep
    · rw [List.flatten_cons, flatten_pieces, List.filter_cons_of_neg (by simp [hsep])]
      rfl
    all_goals
      rw [List.filter_cons_of_pos (by simp [hsep])]
      simp [flatten_pieces]

/-- **Words lose separators** and nothing else. -/
theorem mem_words_flatten {c : Char} {cs : List Char} :
    c ∈ (words cs).flatten ↔ c ∈ cs ∧ isSeparator c = false := by
  rw [words, List.flatten_filter_ne_nil, flatten_pieces, List.reverse_nil, List.nil_append,
    List.mem_filter, Bool.not_eq_true']

section Caseless

variable {c : Char} (caseless : c.isAlpha = false)

include caseless

theorem toLower_eq_iff {d : Char} : d.toLower = c ↔ d = c := by
  have hlower : ∀ {d : Char}, d.isAlpha = false → d.toLower = d := fun {d} hd =>
    Char.toLower_eq_of_not_isUpper (by simp_all [Char.isAlpha])
  constructor
  · rintro rfl
    rw [Char.isAlpha_toLower_eq_isAlpha] at caseless
    exact (hlower caseless).symm
  · rintro rfl
    exact hlower caseless

theorem toUpper_eq_iff {d : Char} : d.toUpper = c ↔ d = c := by
  have hupper : ∀ {d : Char}, d.isAlpha = false → d.toUpper = d := fun {d} hd =>
    Char.toUpper_eq_of_not_isLower (by simp_all [Char.isAlpha])
  constructor
  · rintro rfl
    rw [Char.isAlpha_toUpper_eq_isAlpha] at caseless
    exact (hupper caseless).symm
  · rintro rfl
    exact hupper caseless

theorem mem_lowered {word : List Char} : c ∈ lowered word ↔ c ∈ word := by
  simp [lowered, toLower_eq_iff caseless]

theorem mem_capitalized {word : List Char} : c ∈ capitalized word ↔ c ∈ word := by
  cases word with
  | nil => rfl
  | cons d rest =>
    rw [capitalized, List.mem_cons, List.mem_cons, mem_lowered caseless, eq_comm,
      toUpper_eq_iff caseless, eq_comm]

/-- **A sign is in a name** if it is in one of the words. -/
theorem Style.mem_join (notHyphen : c ≠ '-') {style : Style} {ws : List (List Char)} :
    c ∈ style.join ws ↔ c ∈ ws.flatten := by
  cases style with
  | kebab =>
    rw [join]
    induction ws with
    | nil => rfl
    | cons word ws ih =>
      rcases ws with _ | ⟨next, ws⟩
      · simp [mem_lowered caseless]
      · rw [List.map_cons, List.map_cons, List.intercalate_cons_cons, ← List.map_cons,
          List.append_assoc, List.mem_append, List.mem_append, ih, mem_lowered caseless]
        simp [notHyphen]
  | pascal =>
    rw [join]
    simp only [List.mem_flatten, List.mem_map]
    constructor
    · rintro ⟨_, ⟨word, hword, rfl⟩, hc⟩
      exact ⟨word, hword, (mem_capitalized caseless).mp hc⟩
    · rintro ⟨word, hword, hc⟩
      exact ⟨_, ⟨word, hword, rfl⟩, (mem_capitalized caseless).mpr hc⟩

/-- The signs of a name are those of its keys in ASCII, without separators. -/
theorem Style.mem_name (notHyphen : c ≠ '-') {style : Style} {table : Table} {path : List String} :
    c ∈ (style.name table path).toList ↔
      isSeparator c = false ∧ ∃ key ∈ path, c ∈ simplify table key := by
  rw [name, String.toList_ofList, mem_join caseless notHyphen, pathWords_eq_flatMap,
    List.mem_flatten]
  simp only [List.mem_flatMap]
  constructor
  · rintro ⟨word, ⟨key, hkey, hword⟩, hc⟩
    obtain ⟨hmem, hsep⟩ := mem_words_flatten.mp (List.mem_flatten.mpr ⟨word, hword, hc⟩)
    exact ⟨hsep, key, hkey, hmem⟩
  · rintro ⟨hsep, key, hkey, hmem⟩
    obtain ⟨word, hword, hc⟩ := List.mem_flatten.mp (mem_words_flatten.mpr ⟨hmem, hsep⟩)
    exact ⟨word, ⟨key, hkey, hword⟩, hc⟩

end Caseless

/-! ### Signs in ASCII texts -/

theorem mem_spell {c : Char} (notSpace : c ≠ ' ') {text : Option (List Char)}
    {next : Option (Option (List Char))} :
    c ∈ spell text next ↔ c ∈ text.getD placeholder := by
  rcases text with _ | text
  · rfl
  · rw [spell, Option.getD_some]
    split_ifs with hdrop
    · have hlast : text.getLast? = some ' ' := by
        simp only [dropsSpace, Bool.and_eq_true, decide_eq_true_eq] at hdrop
        exact hdrop.1.2
      obtain ⟨front, rfl⟩ := List.getLast?_eq_some_iff.mp hlast
      simp [notSpace]
    · rfl

theorem mem_spellAll {c : Char} (notSpace : c ≠ ' ') {texts : List (Option (List Char))} :
    c ∈ spellAll texts ↔ ∃ text ∈ texts, c ∈ text.getD placeholder := by
  induction texts with
  | nil => simp [spellAll]
  | cons text texts ih =>
    rw [spellAll, List.mem_append, mem_spell notSpace, ih, List.exists_mem_cons_iff]

/-- **The signs of a text in ASCII**, for a sign that the text itself does not have: they are in the
texts of its characters beyond ASCII, or in the placeholder. -/
theorem mem_transliterate {c : Char} (notSpace : c ≠ ' ') {table : Table} {cs : List Char}
    (notThere : c ∉ cs) :
    c ∈ transliterate table cs ↔
      ∃ d ∈ cs, isPlain d = false ∧ c ∈ ((table d.toNat).map String.toList).getD placeholder := by
  have hfront : c ∉ cs.takeWhile isPlain := fun h => notThere (List.takeWhile_subset _ h)
  rw [transliterate, List.mem_append, or_iff_right hfront, mem_spellAll notSpace]
  constructor
  · rintro ⟨_, htext, hc⟩
    obtain ⟨d, hd, rfl⟩ := List.mem_map.mp htext
    have hmem : d ∈ cs := List.dropWhile_subset _ hd
    rw [asciiText?] at hc
    split_ifs at hc with hcontrol hplain
    · simp at hc
    · -- a character of ASCII is its own text
      obtain rfl : c = d := by simpa using hc
      exact absurd hmem notThere
    · exact ⟨d, hmem, by simpa [isPlain] using hplain, hc⟩
  · rintro ⟨d, hd, hplain, hc⟩
    have hbehind : d ∈ cs.dropWhile isPlain := by
      rw [← List.takeWhile_append_dropWhile (p := isPlain) (l := cs), List.mem_append] at hd
      refine hd.resolve_left fun htake => ?_
      rw [List.mem_takeWhile_imp htake] at hplain
      cases hplain
    have hlarge : 0x7F ≤ d.toNat := by simpa [isPlain] using hplain
    refine ⟨_, List.mem_map.mpr ⟨d, hbehind, rfl⟩, ?_⟩
    rwa [asciiText?, if_neg (by omega), if_neg (by omega)]

/-! ### Signs in keys -/

theorem simplifyChar_of_isPlain {c : Char} (h : isPlain c = false) : simplifyChar c = c := by
  have hne : ∀ d : Char, isPlain d = true → c ≠ d := fun d hd heq => by
    rw [heq, hd] at h
    cases h
  rw [simplifyChar, if_neg (hne _ rfl), if_neg (hne _ rfl), if_neg (hne _ rfl), if_neg]
  simp [hne '(' rfl, hne ')' rfl, hne '/' rfl]

theorem isPlain_simplifyChar (c : Char) : isPlain (simplifyChar c) = isPlain c := by
  unfold simplifyChar
  split_ifs with h1 h2 h3 h4
  · subst h1; rfl
  · subst h2; rfl
  · subst h3; rfl
  · rcases h4 with rfl | rfl | rfl <;> rfl
  · rfl

theorem simplifyChar_notMem (c : Char) : simplifyChar c ∉ replacedSigns := by
  unfold simplifyChar
  split_ifs with h1 h2 h3 h4
  · decide
  · decide
  · decide
  · decide
  · simp_all [replacedSigns]

/-- **The signs of a key in ASCII** that are replaced in it: those in the texts of its characters
beyond ASCII. -/
theorem mem_simplify {sign : Char} (hsign : sign ∈ replacedSigns) {table : Table} {key : String} :
    sign ∈ simplify table key ↔
      ∃ c ∈ key.toList, 0x7F ≤ c.toNat ∧ ∃ text, table c.toNat = some text ∧
        sign ∈ text.toList := by
  have notSpace : sign ≠ ' ' := fun h => absurd (h ▸ hsign) (by decide)
  have notThere : sign ∉ key.toList.map simplifyChar := fun h => by
    obtain ⟨c, -, rfl⟩ := List.mem_map.mp h
    exact simplifyChar_notMem c hsign
  have notPlaceholder : sign ∉ placeholder := fun h => by
    revert hsign
    simp only [placeholder, List.mem_cons, List.not_mem_nil, or_false] at h
    rcases h with rfl | rfl | rfl <;> decide
  have htext : ∀ found : Option String, sign ∈ (found.map String.toList).getD placeholder ↔
      ∃ text, found = some text ∧ sign ∈ text.toList := fun found => by
    rcases found with _ | text
    · simp [notPlaceholder]
    · simp
  have hlarge : ∀ c : Char, isPlain c = false ↔ 0x7F ≤ c.toNat := fun c => by simp [isPlain]
  rw [simplify, mem_transliterate notSpace notThere]
  constructor
  · rintro ⟨_, hmem, hplain, hc⟩
    obtain ⟨c, hkey, rfl⟩ := List.mem_map.mp hmem
    rw [isPlain_simplifyChar] at hplain
    rw [simplifyChar_of_isPlain hplain] at hc
    exact ⟨c, hkey, (hlarge c).mp hplain, (htext _).mp hc⟩
  · rintro ⟨c, hkey, hc, hsome⟩
    have hplain := (hlarge c).mpr hc
    exact ⟨c, List.mem_map.mpr ⟨c, hkey, simplifyChar_of_isPlain hplain⟩, hplain,
      (htext _).mpr hsome⟩

end Name

open Name

/-- **Replaced signs in a name** come from characters beyond ASCII: a sign that is replaced in keys
is in the name of a path, in either kind of sheet, if and only if the transliteration of such a
character has it. There is no space in a name. -/
theorem replaced_signs_come_from_transliterated_characters (flavor : Flavor) (table : Table)
    (path : List String) :
    ' ' ∉ (flavor.nameStyle.name table path).toList ∧
    ∀ sign ∈ replacedSigns,
      (sign ∈ (flavor.nameStyle.name table path).toList ↔
        ∃ key ∈ path, ∃ c ∈ key.toList, 0x7F ≤ c.toNat ∧
          ∃ text, table c.toNat = some text ∧ sign ∈ text.toList) := by
  constructor
  · rw [Style.mem_name (by decide) (by decide)]
    exact fun h => absurd h.1 (by decide)
  · intro sign hsign
    have hkinds : ∀ c ∈ replacedSigns, c.isAlpha = false ∧ c ≠ '-' ∧ isSeparator c = false := by
      simp [replacedSigns, isSeparator, Char.isAlpha, Char.isUpper, Char.isLower]
    obtain ⟨caseless, notHyphen, notSeparator⟩ := hkinds sign hsign
    rw [Style.mem_name caseless notHyphen, and_iff_right notSeparator]
    refine exists_congr fun key => and_congr_right fun _ => mem_simplify hsign

/-- A table in which the sign for one half has a text, and no other character. -/
abbrev Name.Transliteration.half : Transliteration where
  table code := if code = 0xBD then some "1/2" else none

section

attribute [local instance] Transliteration.half

/-- A name has the slash of the sign for one half, and none from a key of ASCII characters. -/
theorem replaced_signs_come_from_transliterated_characters_half :
    '/' ∈ (Flavor.js.name ["a/b", "\u00bd+"]).toList ∧
    '/' ∉ (Flavor.css.name ["a/b", "(1.5+2)"]).toList := by
  have hslash : '/' ∈ replacedSigns := by simp [replacedSigns]
  have hhalf := (replaced_signs_come_from_transliterated_characters .js Transliteration.table
    ["a/b", "\u00bd+"]).2 '/' hslash
  have hplain := (replaced_signs_come_from_transliterated_characters .css Transliteration.table
    ["a/b", "(1.5+2)"]).2 '/' hslash
  have hascii : ∀ key ∈ ["a/b", "(1.5+2)"], ∀ c ∈ key.toList, c.toNat < 0x7F := by
    simp
  refine ⟨hhalf.mpr ⟨"\u00bd+", by simp, '\u00bd', by decide, by decide, "1/2", rfl, by decide⟩,
    fun h => ?_⟩
  obtain ⟨key, hkey, c, hc, hlarge, -⟩ := hplain.mp h
  exact absurd (hascii key hkey c hc) (not_lt.mpr hlarge)

/-- **A sign that is replaced reaches a name**: the sign for one half is spelled with a slash, which
is replaced where it stands in a key itself. -/
theorem a_replaced_sign_reaches_a_name :
    Flavor.css.name ["\u00bd"] = "1/2" ∧ Flavor.js.name ["\u00bd"] = "1/2" ∧
    Flavor.css.name ["1/2"] = "1-2" ∧ Flavor.js.name ["1/2"] = "12" := by
  decide +kernel

end

end TokenSheets
