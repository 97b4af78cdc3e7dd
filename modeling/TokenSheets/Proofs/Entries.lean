import Mathlib.Tactic
import TokenSheets.Entries

/-!
# Entries that are put in one after another

A list of pairs becomes a map when its pairs are inserted from the first to the last. A key stands
where it comes first and holds what comes last under it, and a map is not changed by putting its own
pairs in again.

* `keys_ofList`: keys stand where they come first;
* `get?_ofList_eq_some_iff`: the last pair of a key decides;
* `ofList_of_distinct`: pairs with keys of their own stay as they are.
-/

namespace TokenSheets.Entries

variable {α : Type} {key : String} {value : α} {pairs : List (String × α)}

/-! ### Pairs by their place -/

theorem exists_get?_of_mem (h : key ∈ keys pairs) : ∃ value, get? key pairs = some value := by
  rcases hget : get? key pairs with _ | value
  · exact absurd h (get?_eq_none_iff.mp hget)
  · exact ⟨value, rfl⟩

theorem get?_eq_some_iff : get? key pairs = some value ↔
    ∃ front behind, pairs = front ++ (key, value) :: behind ∧ key ∉ keys front := by
  constructor
  · intro h
    induction pairs with
    | nil => simp at h
    | cons p rest ih =>
      rw [get?_cons] at h
      split_ifs at h with hkey
      · obtain rfl := Option.some.inj h
        exact ⟨[], rest, by rw [← hkey]; rfl, by simp⟩
      · obtain ⟨front, behind, rfl, hfront⟩ := ih h
        exact ⟨p :: front, behind, rfl, by simp [hfront, Ne.symm hkey]⟩
  · rintro ⟨front, behind, rfl, hfront⟩
    rw [get?_append, get?_eq_none_iff.mpr hfront, Option.none_or, get?_cons, if_pos rfl]

/-! ### Pairs that are inserted one after another -/

theorem ofList_concat (pairs : List (String × α)) (p : String × α) :
    ofList (pairs ++ [p]) = insert p.1 p.2 (ofList pairs) := by
  simp [ofList]

/-- **Keys stand where they come first.** -/
theorem keys_ofList (pairs : List (String × α)) : keys (ofList pairs) = (keys pairs).eraseDups := by
  induction pairs using List.reverseRecOn with
  | nil => rfl
  | append_singleton pairs p ih =>
    rw [ofList_concat, keys_insert, ih, keys_append, List.eraseDups_append]
    by_cases hkey : p.1 ∈ keys pairs
    · simp [hkey, List.removeAll]
    · simp [hkey, List.removeAll, List.eraseDups_cons]

theorem ofList_of_distinct (h : Distinct pairs) : ofList pairs = pairs := by
  induction pairs using List.reverseRecOn with
  | nil => rfl
  | append_singleton pairs p ih =>
    rw [Distinct, keys_append, List.nodup_append] at h
    obtain ⟨hpairs, -, hapart⟩ := h
    have hnew : p.1 ∉ keys pairs := fun hmem => hapart p.1 hmem p.1 (by simp) rfl
    rw [ofList_concat, ih hpairs, insert_of_notMem hnew]

theorem get?_ofList (key : String) (pairs : List (String × α)) :
    get? key (ofList pairs) = get? key pairs.reverse := by
  induction pairs using List.reverseRecOn with
  | nil => rfl
  | append_singleton pairs p ih =>
    rw [ofList_concat, get?_insert, ih, List.reverse_concat, get?_cons]

/-- **The last pair of a key** is the one that stays. -/
theorem get?_ofList_eq_some_iff : get? key (ofList pairs) = some value ↔
    ∃ front behind, pairs = front ++ (key, value) :: behind ∧ key ∉ keys behind := by
  rw [get?_ofList, get?_eq_some_iff]
  constructor
  · rintro ⟨front, behind, hpairs, hfront⟩
    refine ⟨behind.reverse, front.reverse, ?_, by simpa [keys] using hfront⟩
    rw [← List.reverse_reverse pairs, hpairs]
    simp
  · rintro ⟨front, behind, rfl, hbehind⟩
    exact ⟨behind.reverse, front.reverse, by simp, by simpa [keys] using hbehind⟩

/-- A pair that stays is the last one of its key. -/
theorem exists_of_mem_ofList (h : (key, value) ∈ ofList pairs) :
    ∃ front behind, pairs = front ++ (key, value) :: behind ∧ key ∉ keys behind :=
  get?_ofList_eq_some_iff.mp (get?_of_mem (distinct_ofList pairs) h)

end TokenSheets.Entries
