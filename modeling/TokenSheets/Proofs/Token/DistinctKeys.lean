import TokenSheets.Proofs.Token.Leaves

/-!
# Trees have no key twice

The children of a group are a map: `Node.DistinctKeys` says of a whole node that no group in it has
a key twice, as `Json.DistinctKeys` says it of the objects of a document. The children of a group
that is read are some of the members of its object, so a tree that is read is one.

* `Node.distinctKeys_of_ofJson`: the nodes that are read;
* `Tree.distinctKeys_of_read`: the trees that are read.
-/

namespace TokenSheets

/-- **No group of the node has a key twice.** -/
inductive Node.DistinctKeys : Node → Prop
  | token (token : Token) : DistinctKeys (.token token)
  | group {kind : Option String} {children : Entries String Node}
    (distinct : Entries.Distinct children) (inner : ∀ p ∈ children, DistinctKeys p.2) :
    DistinctKeys (.group kind children)

/-- **No group of the tree has a key twice**, the tree itself included. -/
def Tree.DistinctKeys (tree : Tree) : Prop := tree.toNode.DistinctKeys

theorem Node.distinctKeys_group {kind : Option String} {children : Entries String Node} :
    (Node.group kind children).DistinctKeys ↔
      Entries.Distinct children ∧ ∀ p ∈ children, p.2.DistinctKeys :=
  ⟨fun | .group distinct inner => ⟨distinct, inner⟩, fun h => .group h.1 h.2⟩

theorem Tree.distinctKeys_of_groupOfMembers {members : Entries String Json} {tree : Tree}
    (distinct : Entries.Distinct members)
    (inner : ∀ p ∈ members, ∀ node, Node.ofJson p.2 = .ok (some node) → node.DistinctKeys)
    (h : groupOfMembers members = .ok tree) : tree.DistinctKeys := by
  obtain ⟨-, rfl⟩ := groupOfMembers_eq_ok_iff.mp h
  refine .group (distinct.sublist (keys_children_sublist members)) fun p hp => ?_
  obtain ⟨value, hmember, -, hread⟩ := mem_filterMap_childMember?.mp hp
  exact inner (p.1, value) hmember p.2 hread

/-- **Nodes that are read** have no key twice. The induction is on the values inside one another. -/
theorem Node.distinctKeys_of_ofJson {json : Json} (hd : json.DistinctKeys) :
    ∀ node, Node.ofJson json = .ok (some node) → node.DistinctKeys := by
  induction hd with
  | @object members distinct _ ih =>
    intro node hnode
    obtain ⟨inner, hinner, ⟨-, own, -, rfl⟩ | ⟨-, tree, hgroup, rfl⟩⟩ := ofJson_eq_some hnode
    · exact .token own
    · obtain rfl : members = inner := Json.object.inj hinner
      exact Tree.distinctKeys_of_groupOfMembers distinct ih hgroup
  | _ =>
    intro node hnode
    simp [Node.ofJson] at hnode

theorem Tree.distinctKeys_of_read {source : String} {tree : Tree}
    (h : Tree.read source = .ok tree) : tree.DistinctKeys := by
  obtain ⟨members, hd, hgroup⟩ := exists_members_of_read h
  obtain ⟨distinct, inner⟩ := Json.distinctKeys_object.mp hd
  exact distinctKeys_of_groupOfMembers distinct
    (fun p hp => Node.distinctKeys_of_ofJson (inner p hp)) hgroup

end TokenSheets
