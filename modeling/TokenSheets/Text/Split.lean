/-!
# Splitting a text at a character

Every occurrence of the separator ends a piece, so there is one piece more than there are
separators, and pieces may be empty.
-/

namespace TokenSheets.Text

/-- The pieces between the separators. -/
def splitAt (separator : Char) : List Char → List (List Char)
  | [] => [[]]
  | c :: rest =>
    if c = separator then [] :: splitAt separator rest
    else
      match splitAt separator rest with
      | [] => [[c]]
      | piece :: pieces => (c :: piece) :: pieces

theorem splitAt_ne_nil (separator : Char) (cs : List Char) : splitAt separator cs ≠ [] := by
  induction cs with
  | nil => simp [splitAt]
  | cons c rest ih =>
    unfold splitAt
    split
    · simp
    · split <;> simp

/-- The piece behind the last separator. -/
def lastPiece (separator : Char) (cs : List Char) : List Char :=
  (splitAt separator cs).getLast (splitAt_ne_nil separator cs)

/-! ### Texts that are put together -/

theorem splitAt_of_notMem {separator : Char} {cs : List Char} (h : separator ∉ cs) :
    splitAt separator cs = [cs] := by
  induction cs with
  | nil => rfl
  | cons c rest ih =>
    rw [List.mem_cons, not_or] at h
    rw [splitAt, if_neg (Ne.symm h.1), ih h.2]

theorem splitAt_append (separator : Char) (a b : List Char) :
    splitAt separator (a ++ separator :: b) = splitAt separator a ++ splitAt separator b := by
  induction a with
  | nil => simp [splitAt]
  | cons c rest ih =>
    by_cases hc : c = separator
    · simp [splitAt, hc, ih]
    · rw [List.cons_append, splitAt, if_neg hc, ih, splitAt, if_neg hc]
      rcases h : splitAt separator rest with _ | ⟨piece, pieces⟩
      · exact absurd h (splitAt_ne_nil separator rest)
      · rfl

/-- **The last piece** has no separator, and is the whole text or stands behind one. -/
theorem lastPiece_eq_iff {separator : Char} {cs last : List Char} :
    lastPiece separator cs = last ↔
      separator ∉ last ∧ (cs = last ∨ ∃ front, cs = front ++ separator :: last) := by
  have of_shape : ∀ last, separator ∉ last →
      (cs = last ∨ ∃ front, cs = front ++ separator :: last) → lastPiece separator cs = last := by
    rintro last hn (rfl | ⟨front, rfl⟩)
    · simp [lastPiece, splitAt_of_notMem hn]
    · simp [lastPiece, splitAt_append, splitAt_of_notMem hn]
  refine ⟨fun h => ?_, fun h => of_shape last h.1 h.2⟩
  -- the text behind the last separator has the shape, and there is only one such text
  have ⟨piece, hn, hshape⟩ : ∃ piece, separator ∉ piece ∧
      (cs = piece ∨ ∃ front, cs = front ++ separator :: piece) := by
    clear of_shape h
    induction cs with
    | nil => exact ⟨[], by simp, .inl rfl⟩
    | cons c rest ih =>
      obtain ⟨piece, hn, rfl | ⟨front, rfl⟩⟩ := ih
      · by_cases hc : c = separator
        · exact ⟨rest, hn, .inr ⟨[], by simp [hc]⟩⟩
        · exact ⟨c :: rest, by simp [hn, Ne.symm hc], .inl rfl⟩
      · exact ⟨piece, hn, .inr ⟨c :: front, rfl⟩⟩
  have hp := of_shape piece hn hshape
  rw [h] at hp
  exact hp ▸ ⟨hn, hshape⟩

end TokenSheets.Text
