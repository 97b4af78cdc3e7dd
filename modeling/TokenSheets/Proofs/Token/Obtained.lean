import TokenSheets.Proofs.Token.Children
import TokenSheets.Proofs.Token.DistinctKeys

/-!
# Trees that are loaded and changed

A tree comes from a document or from pairs that are collected; then children are put in and its type
is changed, and the groups that are put in come about in the same ways. `Tree.Obtained` says so, and
names the pairs that went into the tree one after another. They determine its children: a key stands
where it came first and holds what came last. No group has a key twice, so the keys that lead to one
token never lead past it to another one.

* `Tree.obtained_of_read`: the tree of every document that loads is one of them;
* `Tree.Obtained.children_eq`: the children are the pairs that went in;
* `Tree.Obtained.distinctKeys`: no group in the tree has a key twice;
* `Node.pairwise_apart`: where the tokens of such a node stand;
* `obtained_trees_keep_their_tokens_apart`: all of it, and what one more child changes.
-/

namespace TokenSheets

mutual

/-- **Nodes that trees are made of**: any token, and groups that were obtained as trees. -/
inductive Node.Obtained : Node → Prop
  | token (token : Token) : Node.Obtained (.token token)
  | group {tree : Tree} {pairs : List (String × Node)} (h : Tree.Obtained tree pairs) :
    Node.Obtained tree.toNode

/-- **Trees that are loaded or collected and then changed**, with the pairs that went into them. -/
inductive Tree.Obtained : Tree → List (String × Node) → Prop
  | load {members : Entries String Json} {tree : Tree}
    (distinct : (Json.object members).DistinctKeys)
    (loads : Tree.ofJson (.object members) = .ok tree) :
    Tree.Obtained tree (members.filterMap childMember?)
  | collect {pairs : List (String × Node)} (nodes : ∀ p ∈ pairs, Node.Obtained p.2) :
    Tree.Obtained (.collect pairs) pairs
  | insert {tree : Tree} {pairs : List (String × Node)} {node : Node}
    (h : Tree.Obtained tree pairs) (key : String) (hnode : Node.Obtained node) :
    Tree.Obtained (tree.insert key node) (pairs ++ [(key, node)])
  | setKind {tree : Tree} {pairs : List (String × Node)} (h : Tree.Obtained tree pairs)
    (kind : Option String) : Tree.Obtained { tree with kind := kind } pairs

end

namespace Tree

variable {tree : Tree} {pairs : List (String × Node)}

theorem obtained_of_read {source : String} (h : read source = .ok tree) :
    ∃ pairs, tree.Obtained pairs := by
  obtain ⟨members, distinct, hgroup⟩ := exists_members_of_read h
  exact ⟨_, .load distinct hgroup⟩

/-! ### Children -/

/-- **The children of a tree** are the pairs that went in, one after another. -/
theorem Obtained.children_eq : ∀ {tree : Tree} {pairs : List (String × Node)},
    tree.Obtained pairs → tree.children = Entries.ofList pairs
  | _, _, .load distinct loads => by
    have hkeys := (Json.distinctKeys_object.mp distinct).1.sublist (keys_children_sublist _)
    rw [Entries.ofList_of_distinct hkeys]
    exact congrArg Tree.children (groupOfMembers_eq_ok_iff.mp loads).2
  | _, _, .collect _ => rfl
  | _, _, .insert h key _ => by
    rw [Entries.ofList_concat, ← h.children_eq]
    rfl
  | _, _, .setKind h _ => h.children_eq

theorem distinctKeys_iff :
    tree.DistinctKeys ↔ tree.children.Distinct ∧ ∀ p ∈ tree.children, p.2.DistinctKeys :=
  Node.distinctKeys_group

end Tree

mutual

theorem Node.Obtained.distinctKeys : ∀ {node : Node}, node.Obtained → node.DistinctKeys
  | _, .token token => .token token
  | _, .group h => h.distinctKeys

theorem Tree.Obtained.distinctKeys : ∀ {tree : Tree} {pairs : List (String × Node)},
    tree.Obtained pairs → tree.DistinctKeys
  | _, _, .load distinct loads => by
    obtain ⟨hmembers, inner⟩ := Json.distinctKeys_object.mp distinct
    exact Tree.distinctKeys_of_groupOfMembers hmembers
      (fun p hp => Node.distinctKeys_of_ofJson (inner p hp)) loads
  | _, pairs, .collect nodes => by
    refine Tree.distinctKeys_iff.mpr ⟨Entries.distinct_ofList pairs, fun p hp => ?_⟩
    obtain ⟨front, behind, hpairs, -⟩ := Entries.exists_of_mem_ofList hp
    exact (nodes p (hpairs ▸ by simp)).distinctKeys
  | _, _, .insert h key hnode => by
    obtain ⟨distinct, inner⟩ := Tree.distinctKeys_iff.mp h.distinctKeys
    refine Tree.distinctKeys_iff.mpr ⟨distinct.insert key _, fun p hp => ?_⟩
    obtain rfl | hmem := Entries.mem_insert hp
    · exact hnode.distinctKeys
    · exact inner p hmem
  | _, _, .setKind h _ => by
    obtain ⟨distinct, inner⟩ := Tree.distinctKeys_iff.mp h.distinctKeys
    exact Tree.distinctKeys_iff.mpr ⟨distinct, inner⟩

end

/-! ### Where tokens stand -/

/-- Keys that lead to different places, neither of them on the way to the other. -/
def Apart (keys keys' : List String) : Prop := ¬ keys <+: keys' ∧ ¬ keys' <+: keys

theorem Apart.under {keys keys' : List String} (h : Apart keys keys') (key : String) :
    Apart (key :: keys) (key :: keys') := by
  simpa [Apart, List.cons_prefix_cons] using h

theorem apart_of_ne {key key' : String} (h : key ≠ key') (keys keys' : List String) :
    Apart (key :: keys) (key' :: keys') := by
  simp [Apart, List.cons_prefix_cons, h, h.symm]

/-- **The tokens of a node stand apart** if no group in it has a key twice. The induction is on the
node; tokens of one child differ behind its key, tokens of two children at the first one. -/
theorem Node.pairwise_apart {node : Node} (h : node.DistinctKeys) :
    ∀ inherited, ((node.flatten inherited).map (·.1)).Pairwise Apart := by
  induction h with
  | token => simp [Node.flatten]
  | @group kind children distinct _ ih =>
    intro inherited
    rw [Node.flatten, flattenChildren_eq_flatMap, List.pairwise_map, List.pairwise_flatMap]
    constructor
    · intro p hp
      have hchild := ih p hp (kind.or inherited)
      rw [List.pairwise_map] at hchild ⊢
      exact hchild.imp fun hapart => hapart.under p.1
    · refine (List.pairwise_map.mp distinct).imp fun hne x hx y hy => ?_
      obtain ⟨x', -, rfl⟩ := List.mem_map.mp hx
      obtain ⟨y', -, rfl⟩ := List.mem_map.mp hy
      exact apart_of_ne hne _ _

/-- **Places that are apart** are all different, and none is on the way to another. -/
theorem prefixFree_of_pairwise_apart {places : List (List String)} (h : places.Pairwise Apart) :
    places.Nodup ∧ ∀ keys ∈ places, ∀ keys' ∈ places, keys <+: keys' → keys = keys' := by
  have hnodup : places.Nodup :=
    h.imp fun {keys keys'} hapart (heq : keys = keys') => hapart.1 (heq ▸ List.prefix_refl _)
  refine ⟨hnodup, ?_⟩
  intro keys hkeys keys' hkeys' hprefix
  by_contra hne
  have hsymm : Std.Symm Apart := ⟨fun _ _ hapart => hapart.symm⟩
  exact (h.forall hkeys hkeys' hne).1 hprefix

/-! ### The theorem -/

/-- **Trees keep their tokens apart, whatever is done to them.** For a tree that is loaded or
collected, and then changed by putting in children, tokens and groups that come about in the same
ways, and by changes of its type: the keys that lead to its tokens are different for any two of
them, and lead past none of them to another. Its children have keys of their own, in the order in
which these went in first; what went in last under a key is the child of the key. A child that is
put in changes nothing of what the tree lists elsewhere, and lists below its key what it lists
itself. -/
theorem obtained_trees_keep_their_tokens_apart {tree : Tree} {pairs : List (String × Node)}
    (h : tree.Obtained pairs) :
    (tree.flatten.map (·.1)).Nodup ∧
    (∀ keys ∈ tree.flatten.map (·.1), ∀ keys' ∈ tree.flatten.map (·.1),
      keys <+: keys' → keys = keys') ∧
    tree.children.Distinct ∧
    Entries.keys tree.children = (Entries.keys pairs).eraseDups ∧
    (∀ key node, tree.get? key = some node ↔
      ∃ front behind, pairs = front ++ (key, node) :: behind ∧ key ∉ Entries.keys behind) ∧
    ∀ key node,
      (tree.insert key node).flatten.filter (fun placed => ¬ placed.isBelow key) =
        tree.flatten.filter (fun placed => ¬ placed.isBelow key) ∧
      (tree.insert key node).flatten.filter (Placed.isBelow key) =
        (node.flatten tree.kind).map (Placed.under key) := by
  have distinct : tree.children.Distinct := (Tree.distinctKeys_iff.mp h.distinctKeys).1
  have hplaces : (tree.flatten.map (·.1)).Pairwise Apart := by
    have hnode := Node.pairwise_apart h.distinctKeys none
    rwa [Tree.flatten_toNode, Option.or_none] at hnode
  obtain ⟨hnodup, hfree⟩ := prefixFree_of_pairwise_apart hplaces
  refine ⟨hnodup, hfree, distinct, ?_, fun key node => ?_, fun key node => ⟨?_, ?_⟩⟩
  · rw [h.children_eq, Entries.keys_ofList]
  · rw [Tree.get?, h.children_eq, Entries.get?_ofList_eq_some_iff]
  · exact filter_not_isBelow_insert key tree.kind node tree.children
  · exact filter_isBelow_insert key tree.kind node distinct

/-- A document with a token and a group. The token becomes a group and the group a token; then the
tree has another type, and the first child is a token again. -/
theorem obtained_trees_keep_their_tokens_apart_replaced :
    let one : Token := { plainValue := some (.whole 1) }
    let members : Entries String Json := [("a", .object [("value", .whole 1)]),
      ("b", .object [("x", .object [("value", .whole 1)])])]
    let inner : Tree := .collect [("y", .token one), ("x", .token {}), ("y", .token {})]
    ∃ tree, Tree.ofJson (.object members) = .ok tree ∧
      let grouped := (tree.insert "a" inner.toNode).insert "b" (.token one)
      let changed := { grouped with kind := some "size" }.insert "a" (.token {})
      grouped.flatten.map (·.1) = [["a", "y"], ["a", "x"], ["b"]] ∧
      changed.flatten.map (·.1) = [["a"], ["b"]] ∧
      (grouped.flatten.map (·.1)).Nodup ∧ (changed.flatten.map (·.1)).Nodup ∧
      Entries.keys changed.children = ["a", "b"] ∧ changed.get? "a" = some (.token {}) := by
  intro one members inner
  have distinct : (Json.object members).DistinctKeys := by
    simp [members, Entries.Distinct, Json.DistinctKeys.whole]
  refine ⟨_, rfl, ?_⟩
  intro grouped changed
  have hinner : inner.Obtained _ := .collect (by simp [Node.Obtained.token])
  have hgrouped : grouped.Obtained _ :=
    ((Tree.Obtained.load distinct rfl).insert "a" (.group hinner)).insert "b" (.token one)
  have hchanged : changed.Obtained _ := (hgrouped.setKind (some "size")).insert "a" (.token {})
  obtain ⟨hnodup, -⟩ := obtained_trees_keep_their_tokens_apart hgrouped
  obtain ⟨hnodup', -, -, hkeys, hget, -⟩ := obtained_trees_keep_their_tokens_apart hchanged
  refine ⟨rfl, rfl, hnodup, hnodup', hkeys.trans (by decide), (hget "a" _).mpr ?_⟩
  exact ⟨_, [], rfl, by simp⟩

end TokenSheets
