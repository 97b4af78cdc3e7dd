import TokenSheets.Proofs.Json.Printed

/-!
# Lexemes of values

The text of a value is cut into the lexemes of this value, and what stands behind it is left over,
so that a text can also be read out of a line.

* `Lexes`: the lexemes at the front of a text;
* `tokens`: the lexemes of a value, each double as it is read;
* `lexes_chars`: they are those of its text.
-/

namespace TokenSheets.Json

/-! ### Lexemes up to some place -/

/-- **The text begins with these lexemes**, and the rest stands behind them. -/
inductive Lexes : List Char → List Lexeme → List Char → Prop
  | nil (rest : List Char) : Lexes rest [] rest
  | cons {c : Char} {cs middle rest : List Char} {lexeme : Lexeme} {ls : List Lexeme}
    (hblank : isBlank c = false) (hend : c ≠ ';') (hlexeme : lexemeAt c cs = (lexeme, middle))
    (behind : Lexes middle ls rest) : Lexes (c :: cs) (lexeme :: ls) rest

theorem Lexes.append {cs middle rest : List Char} {ls ms : List Lexeme} (h : Lexes cs ls middle)
    (h' : Lexes middle ms rest) : Lexes cs (ls ++ ms) rest := by
  induction h with
  | nil => exact h'
  | cons hblank hend hlexeme _ ih => exact .cons hblank hend hlexeme (ih h')

theorem Lexes.single {c : Char} {cs rest : List Char} {lexeme : Lexeme}
    (hblank : isBlank c = false) (hend : c ≠ ';') (hlexeme : lexemeAt c cs = (lexeme, rest)) :
    Lexes (c :: cs) [lexeme] rest := .cons hblank hend hlexeme (.nil rest)

theorem lexemes_of_lexes {cs rest : List Char} {ls : List Lexeme} (h : Lexes cs ls rest) :
    lexemes cs = ls ++ lexemes rest := by
  induction h with
  | nil => rfl
  | cons hblank _ hlexeme _ ih =>
    rw [lexemes, hblank, hlexeme, if_neg (by simp), ih, List.cons_append]

/-! ### The lexemes of a value -/

mutual

/-- **The lexemes of a value**, each double as it is read. -/
def tokens : Json → List Lexeme
  | .null => [.literal (.ok .null)]
  | .bool b => [.literal (.ok (.bool b))]
  | .whole n => [.literal (.ok (.whole n))]
  | .double x => [.literal (.ok (.double (reread x)))]
  | .text s => [.string (.ok s)]
  | .list items => .openList :: (itemTokens items ++ [.closeList])
  | .object members => .openObject :: (memberTokens members ++ [.closeObject])

/-- The lexemes of items, with commas between them. -/
def itemTokens : List Json → List Lexeme
  | [] => []
  | [j] => tokens j
  | j :: rest => tokens j ++ .comma :: itemTokens rest

/-- The lexemes of members, with commas between them. -/
def memberTokens : List (String × Json) → List Lexeme
  | [] => []
  | [(k, j)] => .string (.ok k) :: .colon :: tokens j
  | (k, j) :: rest => .string (.ok k) :: .colon :: (tokens j ++ .comma :: memberTokens rest)

end

/-- A string up to its closing quote, however it is escaped. -/
theorem lexes_string {escape : Char → List Char} (h : IsEscape escape) (s : String)
    (rest : List Char) :
    Lexes ('"' :: (s.toList.flatMap escape ++ '"' :: rest)) [.string (.ok s)] rest := by
  refine .single (by decide) (by decide) ?_
  show ended .string ((stringBody (s.toList.flatMap escape ++ '"' :: rest)).map _) = _
  rw [h.stringBody_flatMap]
  simp [Except.map, ended]

theorem lexes_key (key : String) {cs rest : List Char} {ls : List Lexeme} (h : Lexes cs ls rest) :
    Lexes ('"' :: (key.toList.flatMap escapeChar ++ '"' :: ':' :: cs))
      (.string (.ok key) :: .colon :: ls) rest :=
  (lexes_string isEscape_escapeChar key _).append (.cons (by decide) (by decide) rfl h)

theorem lexes_number {text rest : List Char} {j : Json}
    (hhead : ∃ c cs, text = c :: cs ∧ (c = '-' ∨ c.isDigit = true))
    (h : number (text ++ rest) = .ok (j, rest)) : Lexes (text ++ rest) [.literal (.ok j)] rest := by
  obtain ⟨c, cs, rfl, hc⟩ := hhead
  have hne : ∀ d : Char, d ≠ '-' → d.isDigit = false → c ≠ d := by
    rintro d hminus hdigit rfl
    rcases hc with rfl | hc
    · exact hminus rfl
    · rw [hdigit] at hc
      cases hc
  rw [List.cons_append] at *
  refine .single ?_ (hne _ (by decide) (by decide)) ?_
  · simp [isBlank, hne ' ' (by decide) (by decide), hne '\n' (by decide) (by decide),
      hne '\r' (by decide) (by decide), hne '\t' (by decide) (by decide)]
  · unfold lexemeAt
    iterate 10 rw [if_neg (hne _ (by decide) (by decide))]
    rw [if_pos hc, h]
    rfl

theorem itemTokens_eq (items : List Json) :
    itemTokens items = [Lexeme.comma].intercalate (items.map tokens) := by
  induction items with
  | nil => rfl
  | cons j items ih =>
    rcases items with _ | ⟨k, items⟩
    · rw [itemTokens, List.map_singleton, List.intercalate_singleton]
    · rw [List.map_cons, List.map_cons, List.intercalate_cons_cons, ← List.map_cons, ← ih]
      simp [itemTokens]

/-- The lexemes of a member. -/
def memberLexemes (p : String × Json) : List Lexeme := .string (.ok p.1) :: .colon :: tokens p.2

theorem memberTokens_eq (members : List (String × Json)) :
    memberTokens members = [Lexeme.comma].intercalate (members.map memberLexemes) := by
  induction members with
  | nil => rfl
  | cons p members ih =>
    rcases members with _ | ⟨q, members⟩
    · rw [List.map_singleton, List.intercalate_singleton]
      rfl
    · rw [List.map_cons, List.map_cons, List.intercalate_cons_cons, ← List.map_cons, ← ih]
      simp [memberTokens, memberLexemes]

theorem Lexes.intercalate {α : Type} {f : α → List Char} {g : α → List Lexeme} {xs : List α}
    {rest : List Char} (hxs : ∀ x ∈ xs, ∀ rest, Ends rest → Lexes (f x ++ rest) (g x) rest)
    (h : Ends rest) :
    Lexes ([','].intercalate (xs.map f) ++ rest) ([Lexeme.comma].intercalate (xs.map g)) rest := by
  induction xs with
  | nil => exact .nil rest
  | cons x xs ih =>
    rcases xs with _ | ⟨y, ys⟩
    · simpa using hxs x (by simp) rest h
    · have hfirst := hxs x (by simp) (',' :: ([','].intercalate ((y :: ys).map f) ++ rest))
        (Ends.of_ne (by decide) _)
      have hbehind := ih fun z hz => hxs z (by simp [hz])
      simpa using hfirst.append (.cons (by decide) (by decide) rfl hbehind)

/-- **The text of a value has the lexemes of the value.** -/
theorem lexes_chars {v : Json} {room : ℕ} (hv : Fits room v) {rest : List Char} (h : Ends rest) :
    Lexes (chars v ++ rest) (tokens v) rest := by
  induction hv generalizing rest with
  | null => exact .single (by decide) (by decide) rfl
  | bool b => rcases b <;> exact .single (by decide) (by decide) rfl
  | whole low high => exact lexes_number (exists_cons_wholeChars _) (number_wholeChars low high h)
  | double finite =>
    exact lexes_number (exists_cons_doubleChars finite) (number_doubleChars finite h)
  | text s => simpa [chars, stringChars, tokens] using lexes_string isEscape_escapeChar s rest
  | list inner ih =>
    have hitems := Lexes.intercalate (fun item hitem _ => ih item hitem)
      (Ends.of_ne (c := ']') (by decide) rest)
    have hclose : Lexes (']' :: rest) [.closeList] rest := .single (by decide) (by decide) rfl
    rw [chars, tokens, itemChars_eq, itemTokens_eq, List.cons_append, List.append_assoc]
    exact .cons (by decide) (by decide) rfl (hitems.append hclose)
  | object distinct inner ih =>
    have hmember : ∀ p ∈ _, ∀ rest, Ends rest →
        Lexes (memberText p ++ rest) (memberLexemes p) rest :=
      fun p hp rest hrest => by
        simpa [memberText, memberLexemes, stringChars] using lexes_key p.1 (ih p hp hrest)
    have hmembers := Lexes.intercalate hmember (Ends.of_ne (c := '\x7d') (by decide) rest)
    have hclose : Lexes ('\x7d' :: rest) [.closeObject] rest := .single (by decide) (by decide) rfl
    rw [chars, tokens, memberChars_eq, memberTokens_eq, List.cons_append, List.append_assoc]
    exact .cons (by decide) (by decide) rfl (hmembers.append hclose)

end TokenSheets.Json
