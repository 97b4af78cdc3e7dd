import Mathlib.Data.List.TakeWhile

/-!
# Runs of characters

A reader takes the run of characters of one kind at the front of a text. Where a text is put
together from such a run and something that does not go on with it, the reader takes it apart again
at the same place.

* `takeWhile_run`, `dropWhile_run`: the run and what is behind it;
* `stops_dropWhile`: what is behind a run does not go on with it.
-/

namespace TokenSheets.Text

variable {α : Type} {p : α → Bool} {run rest : List α}

/-- **The text does not begin with a character of this kind.** -/
def Stops (p : α → Bool) (rest : List α) : Prop := ∀ c ∈ rest.head?, p c = false

@[simp] theorem stops_nil : Stops p [] := by simp [Stops]

@[simp] theorem stops_cons {c : α} : Stops p (c :: rest) ↔ p c = false := by simp [Stops]

theorem takeWhile_eq_nil_of_stops (h : Stops p rest) : rest.takeWhile p = [] := by
  rcases rest with _ | ⟨c, rest⟩
  · rfl
  · simp [stops_cons.mp h]

theorem dropWhile_eq_self_of_stops (h : Stops p rest) : rest.dropWhile p = rest := by
  rcases rest with _ | ⟨c, rest⟩
  · rfl
  · simp [stops_cons.mp h]

/-- **The run at the front** is what all characters are of its kind up to a stop. -/
theorem takeWhile_run (hrun : ∀ c ∈ run, p c = true) (hrest : Stops p rest) :
    (run ++ rest).takeWhile p = run := by
  rw [List.takeWhile_append_of_pos hrun, takeWhile_eq_nil_of_stops hrest, List.append_nil]

/-- **What is behind the run** begins at the stop. -/
theorem dropWhile_run (hrun : ∀ c ∈ run, p c = true) (hrest : Stops p rest) :
    (run ++ rest).dropWhile p = rest := by
  rw [List.dropWhile_append_of_pos hrun, dropWhile_eq_self_of_stops hrest]

theorem stops_dropWhile (p : α → Bool) (cs : List α) : Stops p (cs.dropWhile p) := by
  intro c hc
  have hstop := List.head?_dropWhile_not p cs
  rw [Option.mem_def.mp hc] at hstop
  exact hstop

end TokenSheets.Text
