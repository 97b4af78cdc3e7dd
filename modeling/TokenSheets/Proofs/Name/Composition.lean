import Mathlib.Tactic
import TokenSheets.Sheet.Dictionary

/-!
# Names compose along paths

A name is made from the words of a whole path, and where words end depends on up to three
neighbouring characters. Between two keys stands a space: it ends a word by itself, it is of no case
and no digit, so no rule sees across it. The words of a path are the words of its keys, and the name
of a path is put together from the names of its parts.

* `pieces_append_space`, `words_append_space`: words on both sides of a space;
* `pathWords_eq_flatMap`: the words of a path, key by key;
* `Style.glue`, `Style.name_append`: the name of a path from the names of its parts;
* `names_compose_along_paths`: the same for both kinds of sheets and for the tokens of a group.
-/

namespace TokenSheets

namespace Name

/-! ### Words on both sides of a space -/

theorem space_caseless : ' '.isLower = false ∧ ' '.isUpper = false ∧ ' '.isDigit = false := by
  decide

theorem dividesBefore_space (c : Char) (next : List Char) :
    dividesBefore (some ' ') c next = dividesBefore none c next := by
  have hmeets : meets ' ' c = false := by simp [meets, space_caseless]
  have hends : ∀ d, endsRun ' ' c d = false := fun d => by simp [endsRun, space_caseless]
  rcases next with _ | ⟨d, next⟩ <;> simp [dividesBefore, hmeets, hends]

theorem pieces_space (word cs : List Char) :
    pieces (some ' ') word cs = pieces none word cs := by
  rcases cs with _ | ⟨c, rest⟩
  · rfl
  · rw [pieces, pieces, dividesBefore_space]

/-- **A space is like the end of a text**: whether a word ends in front of `b` does not depend on
what is behind the space. -/
theorem dividesBefore_append_space (a : Option Char) (b : Char) (rest behind : List Char) :
    dividesBefore a b (rest ++ ' ' :: behind) = dividesBefore a b rest := by
  rcases a with _ | a
  · rfl
  · rcases rest with _ | ⟨c, rest⟩
    · have hends : endsRun a b ' ' = false := by simp [endsRun, space_caseless]
      simp [dividesBefore, hends]
    · rfl

/-- **Pieces on both sides of a space** stand side by side. The induction is on the text in front of
it; the piece at which the text behind it starts is a new one. -/
theorem pieces_append_space (behind : List Char) : ∀ (before : Option Char) (word cs : List Char),
    pieces before word (cs ++ ' ' :: behind) = pieces before word cs ++ pieces none [] behind
  | before, word, [] => by
    have hspace : isSeparator ' ' = true := rfl
    rw [List.nil_append, pieces, pieces, if_pos hspace, pieces_space, List.singleton_append]
  | before, word, c :: rest => by
    rw [List.cons_append, pieces, pieces, dividesBefore_append_space]
    split_ifs
    · rw [pieces_append_space behind, List.cons_append]
    · rw [pieces_append_space behind, List.cons_append]
    · rw [pieces_append_space behind]

/-- **Words on both sides of a space** stand side by side. -/
theorem words_append_space (cs behind : List Char) :
    words (cs ++ ' ' :: behind) = words cs ++ words behind := by
  rw [words, pieces_append_space, List.filter_append]
  rfl

theorem ne_nil_of_mem_words {word cs : List Char} (h : word ∈ words cs) : word ≠ [] := by
  simpa using (List.mem_filter.mp h).2

theorem words_intercalate (texts : List (List Char)) :
    words ([' '].intercalate texts) = texts.flatMap words := by
  induction texts with
  | nil => rfl
  | cons text texts ih =>
    rcases texts with _ | ⟨next, texts⟩
    · simp
    · rw [List.intercalate_cons_cons, List.append_assoc, List.singleton_append, words_append_space,
        ih]
      rfl

/-- **The words of a path** are the words of its keys, one key after another. -/
theorem pathWords_eq_flatMap (table : Table) (path : List String) :
    pathWords table path = path.flatMap fun key => words (simplify table key) := by
  rw [pathWords, words_intercalate, List.flatMap_map]

theorem pathWords_append (table : Table) (p q : List String) :
    pathWords table (p ++ q) = pathWords table p ++ pathWords table q := by
  simp only [pathWords_eq_flatMap, List.flatMap_append]

theorem ne_nil_of_mem_pathWords {table : Table} {path : List String} {word : List Char}
    (h : word ∈ pathWords table path) : word ≠ [] :=
  ne_nil_of_mem_words h

/-! ### Names that are put together -/

/-- **Two names in one**: a hyphen stands between them where words are parted by hyphens, unless one
of them is empty. -/
def Style.glue : Style → String → String → String
  | .kebab, first, second =>
    if first = "" then second
    else if second = "" then first
    else first ++ "-" ++ second
  | .pascal, first, second => first ++ second

theorem intercalate_append {sep : List Char} {as bs : List (List Char)} (has : as ≠ [])
    (hbs : bs ≠ []) :
    sep.intercalate (as ++ bs) = sep.intercalate as ++ sep ++ sep.intercalate bs := by
  induction as with
  | nil => exact absurd rfl has
  | cons a as ih =>
    rcases as with _ | ⟨a', as⟩
    · rw [List.singleton_append, List.intercalate_cons_of_ne_nil hbs, List.intercalate_singleton]
    · rw [List.cons_append, List.intercalate_cons_of_ne_nil (by simp), ih (by simp),
        List.intercalate_cons_cons]
      simp only [List.append_assoc]

theorem Style.join_eq_nil {style : Style} {ws : List (List Char)} (h : ∀ word ∈ ws, word ≠ []) :
    style.join ws = [] ↔ ws = [] := by
  refine ⟨fun hjoin => ?_, fun hws => by subst hws; cases style <;> rfl⟩
  rcases ws with _ | ⟨word, ws⟩
  · rfl
  · obtain ⟨c, word, rfl⟩ := List.exists_cons_of_ne_nil (h _ List.mem_cons_self)
    cases style with
    | kebab => rcases ws with _ | ⟨next, ws⟩ <;> simp [join, lowered] at hjoin
    | pascal => simp [join, capitalized] at hjoin

theorem Style.name_eq_empty {style : Style} {table : Table} {path : List String} :
    style.name table path = "" ↔ pathWords table path = [] := by
  rw [name, ← String.toList_inj, String.toList_ofList, String.toList_empty]
  exact join_eq_nil fun _ => ne_nil_of_mem_pathWords

/-- **The name of a path** is put together from the names of its parts. -/
theorem Style.name_append (style : Style) (table : Table) (p q : List String) :
    style.name table (p ++ q) = style.glue (style.name table p) (style.name table q) := by
  cases style with
  | kebab =>
    rw [glue]
    split_ifs with hp hq
    · rw [name, pathWords_append, name_eq_empty.mp hp, List.nil_append, name]
    · rw [name, pathWords_append, name_eq_empty.mp hq, List.append_nil, name]
    · rw [name_eq_empty] at hp hq
      have hyphen : "-".toList = ['-'] := by decide
      rw [← String.toList_inj]
      simp only [name, join, pathWords_append, List.map_append, String.toList_append,
        String.toList_ofList, hyphen]
      exact intercalate_append (by simpa using hp) (by simpa using hq)
  | pascal =>
    rw [glue, name, name, name, pathWords_append, join, List.map_append, List.flatten_append,
      String.ofList_append]
    rfl

end Name

open Name

/-- **Names compose along paths**, whatever the transliteration. A style sheet has the names of both
parts with a hyphen between them, or the one that is not empty; a script has them side by side. The
words of a path are those of its keys, each by itself. So the name of a token that stands in a group
is the name of the group with the name that the token has inside. -/
theorem names_compose_along_paths [Name.Transliteration] (table : Table) (p q : List String) :
    let css := Flavor.css.nameStyle.name table
    let js := Flavor.js.nameStyle.name table
    (css (p ++ q) =
      if css p = "" then css q else if css q = "" then css p else css p ++ "-" ++ css q) ∧
    js (p ++ q) = js p ++ js q ∧
    pathWords table p = p.flatMap (fun key => pathWords table [key]) ∧
    ∀ (flavor : Flavor) (placed : Placed),
      (flavor.resolve (p ++ placed.1, placed.2)).name =
        flavor.nameStyle.glue (flavor.name p) (flavor.resolve placed).name := by
  intro css js
  refine ⟨Style.name_append .kebab table p q, Style.name_append .pascal table p q, ?_,
    fun flavor placed => Style.name_append flavor.nameStyle _ p placed.1⟩
  simp only [pathWords_eq_flatMap, List.flatMap_cons, List.flatMap_nil, List.append_nil]

end TokenSheets
