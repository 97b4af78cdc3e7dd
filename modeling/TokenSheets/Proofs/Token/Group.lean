import Mathlib.Tactic
import TokenSheets.Token.Document
import TokenSheets.Proofs.Json.DistinctKeys

/-!
# What the members of an object make

A group is read member by member. `declaredKind` is the type that its members name, `childMember?`
the child that a single member makes; a group is these two and nothing else, and it can be read as
soon as each of its members can (`groupOfMembers_eq_ok_iff`). Children stand in the order of the
members and keep their keys apart (`distinct_children_of_read`).
-/

namespace TokenSheets

/-- The type that a member names. -/
def kindMember? (p : String × Json) : Option String :=
  if isKindKey p.1 then p.2.text? else none

/-- **The type that a group declares**: the string under `$type` or `type`, the later one of two. -/
def declaredKind (members : List (String × Json)) : Option String :=
  (members.filterMap kindMember?).getLast?

/-- The child that a member makes. -/
def childMember? (p : String × Json) : Option (String × Node) :=
  if isReserved p.1 then none
  else
    match Node.ofJson p.2 with
    | .ok (some node) => some (p.1, node)
    | _ => none

theorem declaredKind_cons (p : String × Json) (rest : List (String × Json)) :
    declaredKind (p :: rest) = (declaredKind rest).or (kindMember? p) := by
  unfold declaredKind
  rcases hp : kindMember? p with _ | kind
  · simp [hp]
  · rw [List.filterMap_cons, hp]
    simp only [List.getLast?_cons]
    rcases (rest.filterMap kindMember?).getLast? with _ | later <;> rfl

theorem childMember?_eq_some {p : String × Json} {key : String} {node : Node} :
    childMember? p = some (key, node) ↔
      isReserved p.1 = false ∧ p.1 = key ∧ Node.ofJson p.2 = .ok (some node) := by
  unfold childMember?
  split_ifs with hr
  · simp [hr]
  · rcases hn : Node.ofJson p.2 with e | _ | found <;> simp [hr]

theorem mem_filterMap_childMember? {members : List (String × Json)} {key : String} {node : Node} :
    (key, node) ∈ members.filterMap childMember? ↔
      ∃ value, (key, value) ∈ members ∧ isReserved key = false ∧
        Node.ofJson value = .ok (some node) := by
  rw [List.mem_filterMap]
  constructor
  · rintro ⟨⟨key', value⟩, hp, hc⟩
    obtain ⟨hr, rfl, hn⟩ := childMember?_eq_some.mp hc
    exact ⟨value, hp, hr, hn⟩
  · rintro ⟨value, hp, hr, hn⟩
    exact ⟨(key, value), hp, childMember?_eq_some.mpr ⟨hr, rfl, hn⟩⟩

theorem childMember?_of_ofJson {p : String × Json} {node : Option Node}
    (hr : isReserved p.1 = false) (hn : Node.ofJson p.2 = .ok node) :
    childMember? p = node.map (p.1, ·) := by
  unfold childMember?
  rw [if_neg (by simp [hr]), hn]
  rcases node with _ | node <;> rfl

theorem Node.ofJson_of_text {value : Json} {kind : String} (h : value.text? = some kind) :
    Node.ofJson value = .ok none := by
  cases value <;> simp_all [Json.text?, Node.ofJson]

theorem groupOfMembers_cons (p : String × Json) (rest : List (String × Json)) :
    groupOfMembers (p :: rest) =
      if isReserved p.1 then
        (groupOfMembers rest).map fun tree => { tree with kind := tree.kind.or (kindMember? p) }
      else
        (Node.ofJson p.2).bind fun node => (groupOfMembers rest).map fun tree =>
          { kind := tree.kind.or (kindMember? p),
            children := (node.map (p.1, ·)).toList ++ tree.children } := by
  obtain ⟨key, value⟩ := p
  rw [groupOfMembers]
  rcases ht : value.text? with _ | kind
  · have hk : kindMember? (key, value) = none := by simp [kindMember?, ht]
    simp only [hk, Option.or_none]
    split_ifs with hr
    · rcases groupOfMembers rest with e | tree <;> rfl
    · rcases Node.ofJson value with e | _ | node
      · rfl
      all_goals rcases groupOfMembers rest with e | tree <;> rfl
  · rw [Node.ofJson_of_text ht]
    have hk : kindMember? (key, value) = if isKindKey key then some kind else none := by
      simp [kindMember?, ht]
    rcases groupOfMembers rest with e | tree
    · split_ifs <;> rfl
    · simp only [hk]
      split_ifs <;> simp [Except.map, Except.bind]

/-- **A group is what its members make**, and there is one as soon as every member can be read. -/
theorem groupOfMembers_eq_ok_iff : ∀ {members : List (String × Json)} {tree : Tree},
    groupOfMembers members = .ok tree ↔
      (∀ p ∈ members, isReserved p.1 = false → ∃ node, Node.ofJson p.2 = .ok node) ∧
        tree = { kind := declaredKind members, children := members.filterMap childMember? }
  | [], tree => by
    rw [groupOfMembers, Except.ok.injEq]
    exact ⟨fun h => ⟨by simp, h.symm⟩, fun h => h.2.symm⟩
  | p :: rest, tree => by
    have ih : ∀ tree, groupOfMembers rest = .ok tree ↔ _ := fun _ => groupOfMembers_eq_ok_iff
    rw [groupOfMembers_cons, List.forall_mem_cons, List.filterMap_cons, declaredKind_cons]
    rcases hg : groupOfMembers rest with e | later
    · -- the rest cannot be read, so one of its members cannot
      have hfail : ¬ ∀ q ∈ rest, isReserved q.1 = false → ∃ node, Node.ofJson q.2 = .ok node :=
        fun h => by simpa [hg] using (ih _).mpr ⟨h, rfl⟩
      constructor
      · split_ifs
        · simp [Except.map]
        · rcases Node.ofJson p.2 with e | node <;> simp [Except.map, Except.bind]
      · exact fun h => absurd h.1.2 hfail
    · obtain ⟨hall, rfl⟩ := (ih later).mp hg
      by_cases hr : isReserved p.1 = true
      · have hc : childMember? p = none := by simp [childMember?, hr]
        rw [if_pos hr, hc]
        simp only [Except.map, Except.ok.injEq]
        exact ⟨fun h => ⟨⟨fun h' => by simp [hr] at h', hall⟩, h.symm⟩, fun h => h.2.symm⟩
      · rw [if_neg hr]
        simp only [Bool.not_eq_true] at hr
        rcases hn : Node.ofJson p.2 with e | node
        · simp [Except.bind, hr]
        · rw [childMember?_of_ofJson hr hn]
          simp only [Except.map, Except.bind, Except.ok.injEq]
          constructor
          · rintro rfl
            refine ⟨⟨fun _ => ⟨node, rfl⟩, hall⟩, ?_⟩
            rcases node with _ | node <;> rfl
          · rintro ⟨-, rfl⟩
            rcases node with _ | node <;> rfl

/-! ### Keys of children -/

theorem keys_children_sublist (members : List (String × Json)) :
    (Entries.keys (members.filterMap childMember?)).Sublist (Entries.keys members) := by
  refine Entries.keys_filterMap_sublist (fun p child h => ?_) members
  exact (childMember?_eq_some.mp h).2.1.symm

/-! ### Whole texts -/

namespace Tree

variable {text : String} {members : Entries String Json} {tree : Tree}

theorem read_of_object (h : Json.read text = .ok (.object members)) :
    read text = groupOfMembers members := by
  obtain ⟨rest, hlexemes, hassemble⟩ := Json.read_eq_object h
  have hrest : ofLexemes (.openObject :: rest) =
      (ofJson (.object members)).bind fun tree => .ok tree := by
    rw [ofLexemes, hassemble]
    rfl
  rw [read, hlexemes, hrest, ofJson]
  rcases groupOfMembers members with e | tree <;> rfl

theorem exists_object_of_read (h : read text = .ok tree) :
    ∃ members, Json.read text = .ok (.object members) ∧ groupOfMembers members = .ok tree := by
  unfold read ofLexemes at h
  split at h
  · simp at h
  · simp at h
  · rename_i value _ _
    rcases value with e | value <;> simp [Except.bind] at h
  · rename_i content _ _
    rcases content with e | content <;> simp [Except.bind] at h
  · rename_i ls heq
    rcases ha : Json.assemble [] .value (.openObject :: ls) with e | ⟨value, rest⟩
    · simp [ha, bind, Except.bind] at h
    · rcases hg : ofJson value with e | tree'
      · simp [ha, hg, bind, Except.bind] at h
      · simp only [ha, hg, bind, Except.bind, pure, Except.pure] at h
        split_ifs at h with hrest
        obtain rfl := Except.ok.inj h
        have hread : Json.read text = .ok value := by
          rw [Json.read, heq, ha]
          exact if_pos hrest
        cases value with
        | object members => exact ⟨members, hread, hg⟩
        | _ => simp [ofJson] at hg
  · simp at h

/-- **A tree that is read from a text** is made of the members of an object, and no object of the
text has a key twice. -/
theorem exists_members_of_read (h : read text = .ok tree) :
    ∃ members, (Json.object members).DistinctKeys ∧ groupOfMembers members = .ok tree := by
  obtain ⟨members, hread, hgroup⟩ := exists_object_of_read h
  exact ⟨members, Json.distinctKeys_of_read hread, hgroup⟩

theorem distinct_children_of_read (h : read text = .ok tree) : Entries.Distinct tree.children := by
  obtain ⟨members, hd, hg⟩ := exists_members_of_read h
  rw [(groupOfMembers_eq_ok_iff.mp hg).2]
  exact (Json.distinctKeys_object.mp hd).1.sublist (keys_children_sublist members)

end Tree

end TokenSheets
