import Mathlib.Tactic
import TokenSheets.Sheet.Stylesheet

/-!
# Comments in style sheets

A description stands behind its declaration as a comment, and a comment goes on to the first star
with a slash behind it. `Parted` says of two neighbours that they are not this pair. A description
is written so that all its neighbours are parted, and the spaces around it part it from the star of
either end, so the comment ends where the declaration does.

* `isChain_commentChars`: no pair is in the text of a comment, whatever the description is;
* `commentChars_eq_self_iff`: the descriptions that are written as they are;
* `exists_pieces`: how any other one is written;
* `comments_end_with_their_declarations`: declarations as a whole.
-/

namespace TokenSheets.Stylesheet

/-- The pair of characters that ends a comment. -/
def commentEnd : List Char := ['*', '/']

/-- The two characters do not end a comment. -/
def Parted (a b : Char) : Prop := a = '*' → b ≠ '/'

/-! ### Neighbours in a comment -/

theorem parted_space_left (b : Char) : Parted ' ' b := fun h => absurd h (by decide)

theorem parted_space_right (a : Char) : Parted a ' ' := fun _ => by decide

/-- **Neighbours are parted** in a text that has no end of a comment. -/
theorem isChain_parted_iff {cs : List Char} : cs.IsChain Parted ↔ ¬ commentEnd <:+: cs := by
  rw [List.isChain_iff_forall_rel_of_append_cons_cons]
  constructor
  · rintro h ⟨front, back, rfl⟩
    have hsplit : front ++ commentEnd ++ back = front ++ '*' :: '/' :: back := by simp [commentEnd]
    exact h hsplit rfl rfl
  · rintro h _ _ front back rfl rfl rfl
    exact h ⟨front, back, by simp [commentEnd]⟩

theorem head?_commentChars (cs : List Char) : (commentChars cs).head? = cs.head? := by
  unfold commentChars
  split <;> rfl

/-- **The text of a comment** has no pair that ends it. The cases are those of the text: a pair is
parted by a backslash, and any other character keeps the neighbour that it had. -/
theorem isChain_commentChars (cs : List Char) : (commentChars cs).IsChain Parted := by
  fun_induction commentChars cs with
  | case1 => exact .nil
  | case2 rest ih =>
    rw [List.isChain_cons_cons, List.isChain_cons_cons, List.isChain_cons]
    exact ⟨fun _ => by decide, fun h => absurd h (by decide), fun _ _ h => absurd h (by decide), ih⟩
  | case3 c rest notEnd ih =>
    refine List.isChain_cons.mpr ⟨fun d hd hc hslash => ?_, ih⟩
    rw [head?_commentChars, Option.mem_def, hslash] at hd
    obtain ⟨behind, rfl⟩ := List.head?_eq_some_iff.mp hd
    exact notEnd behind hc rfl

/-- **A description is written as it is** if nothing in it ends a comment. -/
theorem commentChars_eq_self_iff {cs : List Char} : commentChars cs = cs ↔ cs.IsChain Parted := by
  refine ⟨fun h => h ▸ isChain_commentChars cs, fun h => ?_⟩
  fun_induction commentChars cs with
  | case1 => rfl
  | case2 rest =>
    rw [List.isChain_cons_cons] at h
    exact absurd rfl (h.1 rfl)
  | case3 c rest _ ih => rw [ih (List.isChain_cons.mp h).2]

/-- **A description in pieces**, which the pairs in it lie between: a comment has the same pieces,
with a backslash in each pair. -/
theorem exists_pieces (cs : List Char) : ∃ pieces : List (List Char),
    (∀ piece ∈ pieces, piece.IsChain Parted) ∧ cs = commentEnd.intercalate pieces ∧
      commentChars cs = ['*', '\\', '/'].intercalate pieces := by
  suffices h : ∃ first others, (∀ piece ∈ first :: others, piece.IsChain Parted) ∧
      cs = commentEnd.intercalate (first :: others) ∧
      commentChars cs = ['*', '\\', '/'].intercalate (first :: others) by
    obtain ⟨first, others, h⟩ := h
    exact ⟨first :: others, h⟩
  have hcons : ∀ (c : Char) (sep first : List Char) (others : List (List Char)),
      sep.intercalate ((c :: first) :: others) = c :: sep.intercalate (first :: others) := by
    rintro c sep first (_ | ⟨second, others⟩) <;> simp
  fun_induction commentChars cs with
  | case1 => exact ⟨[], [], by simp, by simp, by simp⟩
  | case2 rest ih =>
    obtain ⟨first, others, hparted, hrest, hcomment⟩ := ih
    refine ⟨[], first :: others, List.forall_mem_cons.mpr ⟨.nil, hparted⟩, ?_, ?_⟩
    · rw [List.intercalate_cons_cons, ← hrest]
      rfl
    · rw [List.intercalate_cons_cons, ← hcomment]
      rfl
  | case3 c rest notEnd ih =>
    obtain ⟨first, others, hparted, hrest, hcomment⟩ := ih
    rw [List.forall_mem_cons] at hparted
    refine ⟨c :: first, others, List.forall_mem_cons.mpr ⟨?_, hparted.2⟩, ?_, ?_⟩
    · -- a slash in front of the first piece would make a pair of the star
      refine List.isChain_cons.mpr ⟨fun d hd hstar hslash => ?_, hparted.1⟩
      obtain ⟨behind, rfl⟩ := List.head?_eq_some_iff.mp hd
      rw [hslash, hcons] at hrest
      exact notEnd _ hstar hrest
    · rw [hcons, ← hrest]
    · rw [hcons, ← hcomment]

theorem isChain_spaced {cs : List Char} (h : cs.IsChain Parted) :
    ([' '] ++ cs ++ [' ']).IsChain Parted := by
  rw [List.isChain_append, List.isChain_append]
  refine ⟨⟨.singleton _, h, fun a ha b _ => ?_⟩, .singleton _, fun a _ b hb => ?_⟩
  · obtain rfl : ' ' = a := by simpa using ha
    exact parted_space_left b
  · obtain rfl : ' ' = b := by simpa using hb
    exact parted_space_right a

/-! ### Where a comment ends -/

/-- **A comment whose neighbours are parted** up to its last star ends with its last slash. -/
theorem eq_nil_of_isChain {cs front back : List Char} (h : (cs ++ ['*']).IsChain Parted)
    (hsplit : cs ++ commentEnd = front ++ commentEnd ++ back) : back = [] := by
  by_contra hback
  obtain ⟨behind, last, rfl⟩ := (List.eq_nil_or_concat back).resolve_left hback
  have hsame : cs ++ ['*'] ++ ['/'] = front ++ commentEnd ++ behind ++ [last] := by
    simpa [commentEnd] using hsplit
  have hfront : cs ++ ['*'] = front ++ commentEnd ++ behind := (List.append_inj' hsame rfl).1
  exact isChain_parted_iff.mp h ⟨front, behind, hfront.symm⟩

/-- **Comments end with their declarations.** A token without a description is declared without a
comment. The description of any other one stands in a comment behind the semicolon, in which the
pair that ends a comment comes once, as the last two characters; and a description without this pair
is written as it is. -/
theorem comments_end_with_their_declarations (entry : ResolvedToken) :
    let declared := declaration entry.name (plainValue entry.value)
    (entry.token.description = none → property entry = declared) ∧
    ∀ text, entry.token.description = some text →
      ∃ body, (property entry).toList = declared.toList ++ " /*".toList ++ body ++ commentEnd ∧
        (∀ front back, "/*".toList ++ body ++ commentEnd = front ++ commentEnd ++ back →
          back = []) ∧
        (¬ commentEnd <:+: text.toList → body = [' '] ++ text.toList ++ [' ']) := by
  intro declared
  refine ⟨fun hnone => ?_, fun text hsome => ⟨[' '] ++ commentChars text.toList ++ [' '], ?_,
    fun front back hsplit => ?_, fun hfree => ?_⟩⟩
  · rw [property, hnone, String.append_empty]
  · have hopen : " /* ".toList = " /*".toList ++ [' '] := by decide
    have hclose : " */".toList = [' '] ++ commentEnd := by decide
    simp only [property, hsome, comment, String.toList_append, String.toList_ofList, hopen, hclose,
      List.append_assoc, declared]
  · refine eq_nil_of_isChain ?_ hsplit
    have hbody := isChain_spaced (isChain_commentChars text.toList)
    have hopen : "/*".toList.IsChain Parted := by
      rw [isChain_parted_iff]
      decide
    rw [List.isChain_append, List.isChain_append]
    refine ⟨⟨hopen, hbody, fun a _ b hb => ?_⟩, .singleton _, fun a ha b _ => ?_⟩
    · obtain rfl : ' ' = b := by simpa using hb
      exact parted_space_right a
    · rw [← List.append_assoc, List.getLast?_concat, Option.mem_some_iff] at ha
      exact ha ▸ parted_space_left b
  · rw [commentChars_eq_self_iff.mpr (isChain_parted_iff.mpr hfree)]

/-- A comment that is full of stars and slashes, and one that is written as it is. -/
theorem comments_end_with_their_declarations_starred :
    let entry (text : String) : ResolvedToken :=
      ⟨"gap", ["gap"], .text "4px", { comment := some text }⟩
    (∃ body, (property (entry "/**/ **/\n*\\/")).toList =
        "  --gap: 4px;".toList ++ " /*".toList ++ body ++ commentEnd ∧
      ∀ front back, "/*".toList ++ body ++ commentEnd = front ++ commentEnd ++ back → back = []) ∧
    property (entry "* / *\\/") = "  --gap: 4px; /* * / *\\/ */" := by
  intro entry
  obtain ⟨body, hbody, honce, -⟩ :=
    (comments_end_with_their_declarations (entry "/**/ **/\n*\\/")).2 _ rfl
  obtain ⟨plain, hplain, -, hfree⟩ :=
    (comments_end_with_their_declarations (entry "* / *\\/")).2 _ rfl
  refine ⟨⟨body, hbody, honce⟩, ?_⟩
  rw [hfree (by decide)] at hplain
  rw [← String.toList_inj, hplain]
  decide

end TokenSheets.Stylesheet
