import TokenSheets.Proofs.Sheet.Constants

/-!
# What a declaration file says

Every token has one line with its name and its literal. Strings are written in ASCII and other
values as JSON; both are read back, no literal has a line break, and different literals are written
differently. So the file says which names and values the dictionary has.

* `lexes_literal`, `read_literal`: literals are read back;
* `literal_inj`: different values have different literals;
* `lines_render`: the lines of a file;
* `declarations_list_every_token_and_are_read_back`: all of it.
-/

namespace TokenSheets.Declarations

variable {v w : Json} {room room' : ℕ}

/-! ### Literals -/

theorem toList_literal (v : Json) :
    (∃ s, v = .text s ∧ (literal v).toList = escapeChars s.toList) ∨
      v.text? = none ∧ (literal v).toList = v.chars := by
  cases v with
  | text s => exact .inl ⟨s, rfl, String.toList_ofList⟩
  | _ => exact .inr ⟨rfl, String.toList_ofList⟩

/-- **The lexemes of a literal** are those of its value. -/
theorem lexes_literal (hv : v.Fits room) {rest : List Char} (h : Json.Ends rest) :
    Json.Lexes ((literal v).toList ++ rest) v.tokens rest := by
  rcases toList_literal v with ⟨s, rfl, hliteral⟩ | ⟨-, hliteral⟩
  · simpa [hliteral, escapeChars, Json.tokens] using
      Json.lexes_string Json.isEscape_declarations s rest
  · rw [hliteral]
    exact Json.lexes_chars hv h

theorem read_literal (hv : v.Fits Json.maxDepth) : Json.read (literal v) = .ok v.readBack := by
  have hlexes := lexes_literal hv (Text.stops_nil : Json.Ends [])
  rw [List.append_nil] at hlexes
  rw [← String.ofList_toList (s := literal v), Json.read_of_lexes hlexes, Json.valueOf_tokens hv]

theorem notMem_literal (hv : v.Fits room) : '\n' ∉ (literal v).toList := by
  have hall : ∀ c ∈ (literal v).toList, 0x20 ≤ c.toNat := by
    rcases toList_literal v with ⟨s, rfl, hliteral⟩ | ⟨-, hliteral⟩
    · rw [hliteral, escapeChars]
      intro c hc
      simp only [List.mem_cons, List.mem_append, List.mem_flatMap, List.not_mem_nil, or_false] at hc
      rcases hc with rfl | ⟨d, -, hc⟩ | rfl
      · decide
      · exact Json.isEscape_declarations.printable d c hc
      · decide
    · rw [hliteral]
      exact Json.le_toNat_of_mem_chars hv
  exact fun hmem => absurd (hall _ hmem) (by decide)

theorem chars_ne_escapeChars (hv : v.Fits room) (hnone : v.text? = none) (cs : List Char) :
    v.chars ≠ escapeChars cs := by
  obtain ⟨c, rest, hc, hshown⟩ := Json.exists_cons_chars hv
  rw [hc, escapeChars]
  intro h
  rw [(List.cons.inj h).1, show Json.shown '"' = '"' by decide] at hshown
  cases v <;> simp_all [Json.leading, Json.text?]

theorem literal_inj (hv : v.Fits room) (hw : w.Fits room') (h : literal v = literal w) : v = w := by
  have hchars := congrArg String.toList h
  rcases toList_literal v with ⟨s, rfl, hleft⟩ | ⟨hnone, hleft⟩ <;>
    rcases toList_literal w with ⟨t, rfl, hright⟩ | ⟨hnone', hright⟩ <;>
    rw [hleft, hright] at hchars
  · rw [escapeChars, escapeChars] at hchars
    obtain ⟨hsame, -⟩ := Json.isEscape_declarations.inj (List.cons.inj hchars).2
    rw [String.toList_inj.mp hsame]
  · exact absurd hchars.symm (chars_ne_escapeChars hw hnone' _)
  · exact absurd hchars (chars_ne_escapeChars hv hnone _)
  · have hnil : Json.Ends [] := Text.stops_nil
    refine (Json.chars_inj hv hw hnil hnil ?_).1
    rw [hchars]

/-! ### Lines -/

/-- The keywords in front of a name. -/
def keyword : String := "export declare const "

/-- **The line of a token.** -/
def statement (entry : ResolvedToken) : String :=
  keyword ++ entry.name ++ " = " ++ literal entry.value ++ ";"

theorem toList_statement (entry : ResolvedToken) :
    (statement entry).toList =
      Sheet.constantLine keyword entry.name (literal entry.value).toList [] := by
  simp [statement, Sheet.constantLine]

theorem toList_render (dictionary : Dictionary) :
    (render dictionary).toList = header.toList ++
      dictionary.flatMap fun entry => (statement entry).toList ++ ['\n'] := by
  have hend : ";\n".toList = ";".toList ++ ['\n'] := by decide
  have hline : ∀ entry, (line entry).toList = (statement entry).toList ++ ['\n'] := fun entry => by
    unfold line statement keyword
    simp only [String.toList_append, List.append_assoc, hend]
  simp only [render, String.toList_append, String.toList_join, List.flatMap_map, hline]

theorem notMem_statement {entry : ResolvedToken} (hname : entry.IsPlain)
    (hvalue : entry.value.Fits room) : '\n' ∉ (statement entry).toList := by
  rw [toList_statement]
  exact Sheet.notMem_constantLine (by decide) hname.2 (notMem_literal hvalue) List.not_mem_nil

/-- **The lines of a file**: the header, and one line for each token. -/
theorem lines_render {dictionary : Dictionary}
    (h : ∀ entry ∈ dictionary, entry.IsPlain ∧ ∃ room, entry.value.Fits room) :
    (Text.splitAt '\n' (render dictionary).toList).map String.ofList =
      ["// Auto-generated type definitions, do not edit manually.", ""] ++
        dictionary.map statement ++ [""] := by
  have hheader : header.toList =
      "// Auto-generated type definitions, do not edit manually.".toList ++ ['\n', '\n'] := by
    decide
  have hstatement : ∀ entry ∈ dictionary, '\n' ∉ (statement entry).toList := fun entry hentry =>
    notMem_statement (h entry hentry).1 (h entry hentry).2.choose_spec
  rw [toList_render, hheader, List.append_assoc, List.cons_append, Text.splitAt_append,
    Text.splitAt_of_notMem (by decide), List.singleton_append, List.singleton_append, Text.splitAt,
    if_pos rfl, Sheet.splitAt_flatMap, Sheet.flatMap_splitAt_of_notMem hstatement]
  simp

theorem statement_inj {entry other : ResolvedToken} (hname : ' ' ∉ entry.name.toList)
    (hname' : ' ' ∉ other.name.toList) (h : statement entry = statement other) :
    entry.name = other.name ∧ literal entry.value = literal other.value := by
  have hchars := congrArg String.toList h
  rw [toList_statement, toList_statement, Sheet.constantLine, Sheet.constantLine] at hchars
  obtain ⟨hnames, hbehind⟩ := Sheet.name_inj hname hname' (List.append_cancel_left hchars)
  have hliterals := List.append_cancel_right (List.append_cancel_left hbehind)
  exact ⟨hnames, String.toList_inj.mp hliterals⟩

theorem constants_eq {dictionary other : Dictionary}
    (h : ∀ entry ∈ dictionary, entry.IsPlain ∧ ∃ room, entry.value.Fits room)
    (hother : ∀ entry ∈ other, entry.IsPlain ∧ ∃ room, entry.value.Fits room)
    (hlines : dictionary.map statement = other.map statement) :
    dictionary.map (fun entry => (entry.name, entry.value)) =
      other.map fun entry => (entry.name, entry.value) := by
  induction dictionary generalizing other with
  | nil => rw [List.map_eq_nil_iff.mp hlines.symm]
  | cons entry dictionary ih =>
    rcases other with _ | ⟨first, other⟩
    · cases hlines
    · obtain ⟨hline, hbehind⟩ := List.cons.inj hlines
      obtain ⟨hplain, room, hfits⟩ := h entry (by simp)
      obtain ⟨hplain', room', hfits'⟩ := hother first (by simp)
      obtain ⟨hname, hliteral⟩ := statement_inj hplain.1 hplain'.1 hline
      rw [List.map_cons, List.map_cons, hname, literal_inj hfits hfits' hliteral,
        ih (fun e he => h e (by simp [he])) (fun e he => hother e (by simp [he])) hbehind]

/-- **A declaration file says what the dictionary has.** Behind the header it has one line for each
token, in order. Each literal is read as the value, except that a double comes back as the one that
the reader makes of its text; this is the same one wherever the digits and the power of ten are
doubles themselves. Dictionaries with the same file have the same names and values. -/
theorem declarations_list_every_token_and_are_read_back {dictionary : Dictionary}
    (h : ∀ entry ∈ dictionary, entry.IsPlain ∧ ∃ room, entry.value.Fits room) :
    (Text.splitAt '\n' (render dictionary).toList).map String.ofList =
        ["// Auto-generated type definitions, do not edit manually.", ""] ++
          dictionary.map (fun entry =>
            "export declare const " ++ entry.name ++ " = " ++ literal entry.value ++ ";") ++ [""] ∧
      (∀ entry ∈ dictionary, entry.value.Fits Json.maxDepth →
        Json.read (literal entry.value) = .ok entry.value.readBack ∧
        (entry.value.readBack = entry.value ↔ ∀ x ∈ entry.value.doubles, Json.reread x = x) ∧
        ∀ x ∈ entry.value.doubles, Json.IsShort x → Json.reread x = x) ∧
      ∀ other : Dictionary,
        (∀ entry ∈ other, entry.IsPlain ∧ ∃ room, entry.value.Fits room) →
        render dictionary = render other →
        dictionary.map (fun entry => (entry.name, entry.value)) =
          other.map fun entry => (entry.name, entry.value) := by
  refine ⟨lines_render h, fun entry _ hfits => ?_, fun other hother heq => ?_⟩
  · exact ⟨read_literal hfits, Json.readBack_eq_self_iff entry.value, fun x hx =>
      Json.reread_of_isShort (Json.isFinite_of_mem_doubles hfits hx)⟩
  · have hlines := lines_render h
    rw [heq, lines_render hother, List.append_left_inj, List.append_right_inj] at hlines
    exact constants_eq h hother hlines.symm

theorem declarations_list_every_token_and_are_read_back_escaped :
    (Text.splitAt '\n' (render
        [⟨"Quote", ["quote"], .text "\"é\n", default⟩,
          ⟨"Sizes", ["sizes"], .list [.whole 1, .double 0.5], default⟩]).toList).map String.ofList =
        ["// Auto-generated type definitions, do not edit manually.", "",
          "export declare const Quote = \"\\\"\\u00e9\\u000a\";",
          "export declare const Sizes = [1,0.5];", ""] ∧
      Json.read (literal (.list [.whole 1, .double 0.5])) =
        .ok (.list [.whole 1, .double 0.5]) := by
  have hfits : (Json.list [.whole 1, .double 0.5]).Fits Json.maxDepth := by
    refine .list fun item hitem => ?_
    simp only [List.mem_cons, List.not_mem_nil, or_false] at hitem
    rcases hitem with rfl | rfl
    · exact .whole (by decide) (by decide)
    · exact .double (by decide +kernel)
  have hshort : Json.IsShort 0.5 :=
    ⟨⟨['0'], ['5'], none⟩, ⟨List.all_eq_true.mp (by decide), List.all_eq_true.mp (by decide),
      by decide, by decide, by decide, by decide⟩, by decide +kernel, by decide, by decide⟩
  have h : ∀ entry ∈ ([⟨"Quote", ["quote"], .text "\"é\n", default⟩,
      ⟨"Sizes", ["sizes"], .list [.whole 1, .double 0.5], default⟩] : Dictionary),
      entry.IsPlain ∧ ∃ room, entry.value.Fits room := fun entry hentry => by
    simp only [List.mem_cons, List.not_mem_nil, or_false] at hentry
    rcases hentry with rfl | rfl
    · exact ⟨by decide, 0, .text _⟩
    · exact ⟨by decide, _, hfits⟩
  obtain ⟨hlines, hread, -⟩ := declarations_list_every_token_and_are_read_back h
  obtain ⟨hvalue, hsame, hkept⟩ := hread
    ⟨"Sizes", ["sizes"], .list [.whole 1, .double 0.5], default⟩ (by simp) hfits
  refine ⟨hlines.trans (by decide +kernel), hvalue.trans (congrArg _ (hsame.mpr fun x hx => ?_))⟩
  obtain rfl : x = 0.5 := by simpa [Json.doubles, Json.itemDoubles] using hx
  exact hkept 0.5 hx hshort

/-- **A number near one** is written with 16 digits, and these are read as one. -/
theorem number_near_one_is_not_read_back :
    ¬ ∀ dictionary : Dictionary,
      (∀ entry ∈ dictionary, entry.IsPlain ∧ entry.value.Fits Json.maxDepth) →
      ∀ entry ∈ dictionary, ∃ value, Json.read (literal entry.value) = .ok value ∧
        value.render = entry.value.render := by
  intro hall
  have hfits : (Json.double 0.99999999999999989).Fits Json.maxDepth := .double (by decide +kernel)
  obtain ⟨value, hread, hrender⟩ := hall
    [⟨"A", ["a"], .double 0.99999999999999989, default⟩]
    (fun entry hentry => by
      obtain rfl := List.mem_singleton.mp hentry
      exact ⟨by decide, hfits⟩)
    _ (List.mem_singleton.mpr rfl)
  rw [read_literal hfits] at hread
  obtain rfl := Except.ok.inj hread
  have hwritten : Json.chars (.double 0.99999999999999989) = "0.9999999999999999".toList := by
    decide +kernel
  have hchanged : Json.chars (Json.readBack (.double 0.99999999999999989)) = "1.0".toList := by
    decide +kernel
  have hchars := congrArg String.toList hrender
  rw [Json.render, Json.render, String.toList_ofList, String.toList_ofList, hwritten,
    hchanged] at hchars
  exact absurd hchars (by decide)

end TokenSheets.Declarations
