import TokenSheets.Proofs.Sheet.Declarations

/-!
# Scripts and declarations have the same constants

A script writes every value as JSON and puts the description behind it as a comment, as it is. The
same constants are read from it as from the declaration file, unless something in a description
ends the line: what is behind it is no comment any more.

* `ResolvedToken.constant`: the constant of a token;
* `constants?_render`: the constants of either file;
* `script_and_declarations_agree_iff_no_comment_ends_early`: both together.
-/

namespace TokenSheets

/-- **The constant of a token**: its name, and what the text of its value is read as. -/
def ResolvedToken.constant (entry : ResolvedToken) : String × Except JsonError Json :=
  (entry.name, Json.read entry.value.render)

theorem ResolvedToken.constant_eq {entry : ResolvedToken} {room : ℕ}
    (hvalue : entry.value.Fits room) :
    entry.constant = (entry.name, Json.valueOf entry.value.tokens) := by
  rw [constant, Json.read_render_eq hvalue]

namespace Script

/-- The keywords in front of a name. -/
def keyword : String := "export const "

/-- What stands behind the constant of a token. -/
def comment (entry : ResolvedToken) : List Char :=
  match entry.token.description with
  | some text => " // ".toList ++ text.toList
  | none => []

/-- **No comment of the dictionary ends early.** -/
def CommentsEndWithLine (dictionary : Dictionary) : Prop :=
  ∀ entry ∈ dictionary, ∀ text, entry.token.description = some text →
    ∀ c ∈ text.toList, Sheet.endsLine c = false

theorem isComment_comment (entry : ResolvedToken) :
    Sheet.isComment (comment entry) = true ↔
      ∀ text, entry.token.description = some text →
        ∀ c ∈ text.toList, Sheet.endsLine c = false := by
  unfold comment
  rcases entry.token.description with _ | text
  · exact iff_of_true (by decide) (by simp)
  · rw [Sheet.isComment_append]
    simp

/-- The characters of a line. -/
def statement (entry : ResolvedToken) : List Char :=
  Sheet.constantLine keyword entry.name entry.value.chars (comment entry)

theorem toList_render (dictionary : Dictionary) :
    (render dictionary).toList = (Sheet.generatedHeader ++ "\n").toList ++
      dictionary.flatMap fun entry => statement entry ++ ['\n'] := by
  have hend : ";".toList = [';'] := by decide
  have hbreak : "\n".toList = ['\n'] := by decide
  have hline : ∀ entry, (line entry).toList = statement entry ++ ['\n'] := fun entry => by
    unfold line statement comment keyword Sheet.constantLine Json.render
    rcases entry.token.description with _ | text <;>
      simp only [String.toList_append, String.toList_ofList, String.toList_empty, List.append_assoc,
        hend, hbreak, List.cons_append, List.nil_append]
  unfold render
  simp only [String.toList_append, String.toList_join, List.flatMap_map, hline]

theorem notMem_statement {entry : ResolvedToken} {room : ℕ} (hname : entry.IsPlain)
    (hvalue : entry.value.Fits room) (hcomment : '\n' ∉ comment entry) :
    '\n' ∉ statement entry := by
  have hliteral : '\n' ∉ entry.value.chars := fun hmem =>
    absurd (Json.le_toNat_of_mem_chars hvalue _ hmem) (by decide)
  exact Sheet.notMem_constantLine (by decide) hname.2 hliteral hcomment

theorem constant?_statement {entry : ResolvedToken} {room : ℕ} (hname : entry.IsPlain)
    (hvalue : entry.value.Fits room) :
    Sheet.constant? keyword (statement entry) =
      if Sheet.isComment (comment entry) then some entry.constant else none := by
  rw [statement, ResolvedToken.constant_eq hvalue]
  exact Sheet.constant?_line hname.1
    (Json.lexes_chars hvalue (Json.Ends.of_ne (c := ';') (by decide) (comment entry)))

variable {dictionary : Dictionary}

/-- **A script has the constants of its tokens** if and only if no comment ends early. -/
theorem constants?_render
    (h : ∀ entry ∈ dictionary, entry.IsPlain ∧ ∃ room, entry.value.Fits room) :
    Sheet.constants? (Sheet.generatedHeader ++ "\n") keyword (render dictionary) =
        some (dictionary.map ResolvedToken.constant) ↔ CommentsEndWithLine dictionary := by
  rw [Sheet.constants?_eq_some_iff (toList_render dictionary)]
  refine forall₂_congr fun entry hentry => ?_
  obtain ⟨hname, room, hvalue⟩ := h entry hentry
  rw [constant?_statement hname hvalue, ← isComment_comment]
  constructor
  · rintro ⟨-, hread⟩
    by_contra hcomment
    rw [if_neg hcomment] at hread
    cases hread
  · intro hcomment
    exact ⟨notMem_statement hname hvalue (Sheet.notMem_of_isComment hcomment), if_pos hcomment⟩

end Script

namespace Declarations

/-- **A declaration file has the constants of its tokens**, whatever the descriptions are. -/
theorem constants?_render {dictionary : Dictionary}
    (h : ∀ entry ∈ dictionary, entry.IsPlain ∧ ∃ room, entry.value.Fits room) :
    Sheet.constants? header keyword (render dictionary) =
      some (dictionary.map ResolvedToken.constant) := by
  rw [Sheet.constants?_eq_some_iff (toList_render dictionary)]
  intro entry hentry
  obtain ⟨hname, room, hvalue⟩ := h entry hentry
  refine ⟨notMem_statement hname hvalue, ?_⟩
  rw [toList_statement, ResolvedToken.constant_eq hvalue, Sheet.constant?_line hname.1
    (lexes_literal hvalue (Json.Ends.of_ne (c := ';') (by decide) []))]
  rfl

end Declarations

namespace Script

/-- **Scripts and declarations have the same constants** as long as no comment ends early. Of the
declaration file the names and values of all tokens are read, in order; of the script the same, if
and only if no description has a character that ends the line. Values that are nested no deeper than
the reader goes are read as the values that they are. -/
theorem script_and_declarations_agree_iff_no_comment_ends_early {dictionary : Dictionary}
    (h : ∀ entry ∈ dictionary, entry.IsPlain ∧ ∃ room, entry.value.Fits room) :
    Sheet.constants? Declarations.header "export declare const " (Declarations.render dictionary) =
        some (dictionary.map ResolvedToken.constant) ∧
      (Sheet.constants? (Sheet.generatedHeader ++ "\n") "export const " (render dictionary) =
          some (dictionary.map ResolvedToken.constant) ↔
        CommentsEndWithLine dictionary) ∧
      ∀ entry ∈ dictionary, entry.value.Fits Json.maxDepth →
        entry.constant = (entry.name, .ok entry.value.readBack) :=
  ⟨Declarations.constants?_render h, constants?_render h, fun entry _ hvalue => by
    rw [ResolvedToken.constant, Json.read_render hvalue]⟩

theorem script_and_declarations_agree_iff_no_comment_ends_early_described :
    Sheet.constants? (Sheet.generatedHeader ++ "\n") "export const " (render
        [⟨"A", ["a"], .text "é\u2028;", { comment := some "first; export const B = 2;" }⟩]) =
      some [("A", .ok (.text "é\u2028;"))] := by
  have h : ∀ entry ∈ [(⟨"A", ["a"], .text "é\u2028;",
      { comment := some "first; export const B = 2;" }⟩ : ResolvedToken)],
      entry.IsPlain ∧ ∃ room, entry.value.Fits room := fun entry hentry => by
    obtain rfl := List.mem_singleton.mp hentry
    exact ⟨by decide, 0, .text _⟩
  obtain ⟨-, hscript, hvalues⟩ := script_and_declarations_agree_iff_no_comment_ends_early h
  have hcomments := hscript.mpr fun entry hentry text htext => by
    obtain rfl := List.mem_singleton.mp hentry
    obtain rfl := Option.some.inj htext
    exact (Sheet.isComment_append _).mp (by decide)
  rw [hcomments, List.map_singleton, hvalues _ (List.mem_singleton.mpr rfl) (.text _)]
  rfl

/-- **A description becomes code**: behind a line break it is a constant of the script that no token
has. -/
theorem description_behind_a_line_break_becomes_code :
    Sheet.constants? Declarations.header "export declare const " (Declarations.render
        [⟨"A", ["a"], .whole 1, { comment := some "x\nexport const Evil = 2;" }⟩]) =
      some [("A", .ok (.whole 1))] ∧
    Sheet.constants? (Sheet.generatedHeader ++ "\n") "export const " (render
        [⟨"A", ["a"], .whole 1, { comment := some "x\nexport const Evil = 2;" }⟩]) =
      some [("A", .ok (.whole 1)), ("Evil", .ok (.whole 2))] := by
  have hone : (Json.whole 1).Fits Json.maxDepth := .whole (by decide) (by decide)
  have htwo : (Json.whole 2).Fits Json.maxDepth := .whole (by decide) (by decide)
  -- the same script as that of two tokens
  have hsame : render [⟨"A", ["a"], .whole 1, { comment := some "x\nexport const Evil = 2;" }⟩] =
      render [⟨"A", ["a"], .whole 1, { comment := some "x" }⟩, ⟨"Evil", [], .whole 2, {}⟩] := by
    decide
  constructor
  · refine (Declarations.constants?_render fun entry hentry => ?_).trans ?_
    · obtain rfl := List.mem_singleton.mp hentry
      exact ⟨by decide, _, hone⟩
    · rw [List.map_singleton, ResolvedToken.constant, Json.read_render hone]
      rfl
  · rw [hsame]
    refine ((constants?_render fun entry hentry => ?_).mpr
      fun entry hentry text htext => ?_).trans ?_
    · simp only [List.mem_cons, List.not_mem_nil, or_false] at hentry
      rcases hentry with rfl | rfl
      · exact ⟨by decide, _, hone⟩
      · exact ⟨by decide, _, htwo⟩
    · simp only [List.mem_cons, List.not_mem_nil, or_false] at hentry
      rcases hentry with rfl | rfl
      · obtain rfl := Option.some.inj htext
        exact (Sheet.isComment_append _).mp (by decide)
      · cases htext
    · rw [List.map_cons, List.map_singleton, ResolvedToken.constant, ResolvedToken.constant,
        Json.read_render hone, Json.read_render htwo]
      rfl

end Script

end TokenSheets
