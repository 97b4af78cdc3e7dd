import TokenSheets.Proofs.Entries
import TokenSheets.Token.Tree

/-!
# A child that is put into a group

What a group lists below a key is what the child of the key lists. A child that is put in under a
key takes the place of the one that was there, and whatever stands below other keys stays as it is
and in its order.

* `filter_isBelow_insert`: what stands below the key then;
* `filter_not_isBelow_insert`: what stands elsewhere.
-/

namespace TokenSheets

/-- The place is below a key of the top level. -/
def Placed.isBelow (key : String) (placed : Placed) : Bool := placed.1.head? = some key

variable {key : String}

theorem filter_isBelow_map_under (first : String) (placed : List Placed) :
    (placed.map (Placed.under first)).filter (Placed.isBelow key) =
      if first = key then placed.map (Placed.under first) else [] := by
  split_ifs with hkey
  · rw [List.filter_eq_self, List.forall_mem_map]
    simp [Placed.under, Placed.isBelow, hkey]
  · rw [List.filter_eq_nil_iff, List.forall_mem_map]
    simp [Placed.under, Placed.isBelow, hkey]

theorem filter_not_isBelow_map_under (placed : List Placed) :
    (placed.map (Placed.under key)).filter (fun p => ¬ p.isBelow key) = [] := by
  rw [List.filter_eq_nil_iff, List.forall_mem_map]
  simp [Placed.under, Placed.isBelow]

theorem filter_isBelow_flattenChildren {inherited : Option String} :
    ∀ {children : Entries String Node}, key ∉ Entries.keys children →
      (flattenChildren inherited children).filter (Placed.isBelow key) = []
  | [], _ => by simp [flattenChildren]
  | (first, node) :: rest, h => by
    rw [Entries.keys_cons, List.mem_cons, not_or] at h
    have hfirst : ¬ first = key := fun heq => h.1 heq.symm
    rw [flattenChildren, List.filter_append, filter_isBelow_map_under, if_neg hfirst,
      filter_isBelow_flattenChildren h.2, List.append_nil]

/-- **Below its key** a child that is put in is all that stands there. -/
theorem filter_isBelow_insert (key : String) (inherited : Option String) (node : Node) :
    ∀ {children : Entries String Node}, Entries.Distinct children →
      (flattenChildren inherited (children.insert key node)).filter (Placed.isBelow key) =
        (node.flatten inherited).map (Placed.under key)
  | [], _ => by
    rw [Entries.insert, flattenChildren, List.filter_append, filter_isBelow_map_under, if_pos rfl,
      filter_isBelow_flattenChildren (by simp), List.append_nil]
  | (first, other) :: rest, distinct => by
    obtain ⟨hfirst, hrest⟩ := List.nodup_cons.mp distinct
    rw [Entries.insert]
    split_ifs with heq
    · have hnone : key ∉ Entries.keys rest := heq ▸ hfirst
      rw [flattenChildren, List.filter_append, filter_isBelow_map_under, if_pos heq,
        filter_isBelow_flattenChildren hnone, List.append_nil, heq]
    · rw [flattenChildren, List.filter_append, filter_isBelow_map_under, if_neg heq,
        List.nil_append, filter_isBelow_insert key inherited node hrest]

/-- **Elsewhere** everything stays as it is, and in its order. -/
theorem filter_not_isBelow_insert (key : String) (inherited : Option String) (node : Node) :
    ∀ children : Entries String Node,
      (flattenChildren inherited (children.insert key node)).filter
          (fun placed => ¬ placed.isBelow key) =
        (flattenChildren inherited children).filter fun placed => ¬ placed.isBelow key
  | [] => by
    rw [Entries.insert, flattenChildren, flattenChildren, List.filter_append,
      filter_not_isBelow_map_under, List.nil_append, flattenChildren]
  | (first, other) :: rest => by
    rw [Entries.insert]
    split_ifs with heq
    · rw [flattenChildren, flattenChildren, List.filter_append, List.filter_append, heq,
        filter_not_isBelow_map_under, filter_not_isBelow_map_under]
    · rw [flattenChildren, flattenChildren, List.filter_append, List.filter_append,
        filter_not_isBelow_insert key inherited node rest]

end TokenSheets
