import TokenSheets.Proofs.Token.Group
import TokenSheets.Proofs.Token.Members

/-!
# The tokens of a document are its leaves

A leaf is an object with a value. `Leads` follows keys through a document from one group into the
next down to a leaf, and names the groups on the way; `Precedes` is the order in which a document
lists keys, the first different ones deciding; `Token.Shows` says what is kept of a leaf.

* `mem_flattenChildren_iff_leads`: every token of a group comes from keys that lead to a leaf, and
  all such keys give one;
* `pairwise_precedes`: the tokens of a group stand in the order of the document;
* `flatten_lists_exactly_the_leaves`: both for a whole document.
-/

namespace TokenSheets

/-! ### Leaves and the keys that lead to them -/

/-- **Keys that lead to a leaf.** None of them is reserved, and every object before the last one is
a group. `groups` are the groups that the keys pass through, from the outermost one on; what the
first key is a member of counts as a group in any case. -/
inductive Leads : Entries String Json → List String → List (Entries String Json) →
    Entries String Json → Prop
  | leaf {members leaf : Entries String Json} {key : String}
    (member : (key, .object leaf) ∈ members) (plain : isReserved key = false)
    (holds : Token.isLeaf leaf = true) : Leads members [key] [members] leaf
  | group {members inner leaf : Entries String Json} {key : String} {keys : List String}
    {groups : List (Entries String Json)}
    (member : (key, .object inner) ∈ members) (plain : isReserved key = false)
    (holdsNot : Token.isLeaf inner = false) (further : Leads inner keys groups leaf) :
    Leads members (key :: keys) (members :: groups) leaf

/-- **The type of the nearest group** that declares one. -/
def nearestKind (groups : List (Entries String Json)) : Option String :=
  groups.reverse.findSome? declaredKind

/-- The string that a member holds. -/
def textAt (members : Entries String Json) (name : String) : Option String :=
  (members.get? name).bind Json.text?

/-- **What a token shows of a leaf**: the value, the description and the other members are those of
the leaf, and so is the type unless the leaf has none. -/
structure Token.Shows (token : Token) (leaf : Entries String Json) (inherited : Option String) :
    Prop where
  read : ∃ own, Token.ofMembers leaf = .ok own ∧ token = (own.inherit inherited).normalized
  value : token.value = (Token.valueField leaf "$value").or (Token.valueField leaf "value")
  kind : token.kind = ((textAt leaf "$type").or (textAt leaf "type")).or inherited
  description : token.description =
    ((textAt leaf "$description").or (textAt leaf "description")).or (textAt leaf "comment")
  extra : token.extra = leaf.filter fun p => p.1 ∉ Token.fieldNames

/-- The first key at which two key lists differ comes earlier in the first of them. -/
inductive Precedes : Entries String Json → List String → List String → Prop
  | here {members : Entries String Json} {key later : String} (keys keys' : List String)
    (order : [key, later].Sublist (Entries.keys members)) :
    Precedes members (key :: keys) (later :: keys')
  | inside {members inner : Entries String Json} {key : String} {keys keys' : List String}
    (member : (key, .object inner) ∈ members) (further : Precedes inner keys keys') :
    Precedes members (key :: keys) (key :: keys')

@[simp] theorem nearestKind_singleton (members : Entries String Json) :
    nearestKind [members] = declaredKind members := by
  rcases h : declaredKind members with _ | kind <;> simp [nearestKind, h]

theorem nearestKind_cons (members : Entries String Json) (groups : List (Entries String Json)) :
    nearestKind (members :: groups) = (nearestKind groups).or (declaredKind members) := by
  rcases h : declaredKind members with _ | kind <;>
    simp [nearestKind, List.findSome?_append, h]

/-! ### What is kept of a leaf -/

theorem textField_eq_ok {members : Entries String Json} {name : String} {found : Option String}
    (h : Token.textField members name = .ok found) : found = textAt members name := by
  unfold Token.textField at h
  unfold textAt
  split at h <;> simp_all [Json.text?]

theorem shows_of_ofMembers {leaf : Entries String Json} {own : Token}
    (h : Token.ofMembers leaf = .ok own) (inherited : Option String) :
    ((own.inherit inherited).normalized).Shows leaf inherited := by
  have hmade := Token.ofMembers_eq_ok_iff.mp h
  refine ⟨⟨own, h, rfl⟩, ?_, ?_, ?_, ?_⟩
  · rw [Token.value_normalized, Token.value_inherit, hmade.sigilValue, hmade.plainValue,
      Token.value]
  · rw [Token.kind_normalized, Token.kind_inherit, ← textField_eq_ok hmade.sigilKind,
      ← textField_eq_ok hmade.plainKind, Token.kind]
  · rw [Token.description_normalized, Token.description_inherit,
      ← textField_eq_ok hmade.sigilDescription, ← textField_eq_ok hmade.plainDescription,
      ← textField_eq_ok hmade.comment, Token.description]
  · rw [Token.extra_normalized, Token.extra_inherit, hmade.extra]

/-! ### Which tokens there are -/

theorem mem_flattenChildren {inherited : Option String} {children : List (String × Node)}
    {keys : List String} {token : Token} :
    (keys, token) ∈ flattenChildren inherited children ↔
      ∃ key further node, keys = key :: further ∧ (key, node) ∈ children ∧
        (further, token) ∈ node.flatten inherited := by
  simp only [flattenChildren_eq_flatMap, List.mem_flatMap, List.mem_map, Placed.under,
    Prod.mk.injEq, Prod.exists]
  constructor
  · rintro ⟨key, node, hmem, further, _, hfurther, rfl, rfl⟩
    exact ⟨key, further, node, rfl, hmem, hfurther⟩
  · rintro ⟨key, further, node, rfl, hmem, hfurther⟩
    exact ⟨key, node, hmem, further, token, hfurther, rfl, rfl⟩

theorem ofJson_eq_some {value : Json} {node : Node} (h : Node.ofJson value = .ok (some node)) :
    ∃ inner, value = .object inner ∧
      ((Token.isLeaf inner = true ∧ ∃ own, Token.ofMembers inner = .ok own ∧ node = .token own) ∨
        (Token.isLeaf inner = false ∧
          ∃ tree, groupOfMembers inner = .ok tree ∧ node = .group tree.kind tree.children)) := by
  cases value with
  | object inner =>
    refine ⟨inner, rfl, ?_⟩
    rw [Node.ofJson] at h
    split_ifs at h with hl
    · rcases ho : Token.ofMembers inner with e | own <;>
        simp only [ho, Except.map, reduceCtorEq, Except.ok.injEq, Option.some.injEq] at h
      exact Or.inl ⟨hl, own, rfl, h.symm⟩
    · rcases hg : groupOfMembers inner with e | tree <;>
        simp only [hg, bind, Except.bind, pure, Except.pure, reduceCtorEq, Except.ok.injEq,
          Option.some.injEq] at h
      exact Or.inr ⟨by simpa using hl, tree, rfl, h.symm⟩
  | _ => simp [Node.ofJson] at h

theorem ofJson_leaf {leaf : Entries String Json} {own : Token} (hl : Token.isLeaf leaf = true)
    (hown : Token.ofMembers leaf = .ok own) :
    Node.ofJson (.object leaf) = .ok (some (.token own)) := by
  rw [Node.ofJson, if_pos hl, hown, Except.map]

theorem ofJson_group {inner : Entries String Json} {tree : Tree}
    (hl : Token.isLeaf inner = false) (hg : groupOfMembers inner = .ok tree) :
    Node.ofJson (.object inner) = .ok (some (.group tree.kind tree.children)) := by
  have hl' : ¬ Token.isLeaf inner = true := by simp [hl]
  rw [Node.ofJson, if_neg hl', hg]
  rfl

theorem exists_groupOfMembers {inner : Entries String Json} {node : Option Node}
    (hl : Token.isLeaf inner = false) (hn : Node.ofJson (.object inner) = .ok node) :
    ∃ tree, groupOfMembers inner = .ok tree := by
  have hl' : ¬ Token.isLeaf inner = true := by simp [hl]
  rw [Node.ofJson, if_neg hl'] at hn
  rcases hg : groupOfMembers inner with e | tree
  · rw [hg] at hn
    simp [bind, Except.bind] at hn
  · exact ⟨tree, rfl⟩

/-- **The tokens of a group** come from the keys that lead to a leaf, and from all of them. The
induction is on the keys: what is behind the first one is again a group or a leaf. -/
theorem mem_flattenChildren_iff_leads : ∀ {keys : List String} {members : Entries String Json}
    {tree : Tree} {inherited : Option String} {token : Token}, groupOfMembers members = .ok tree →
      ((keys, token) ∈ flattenChildren (tree.kind.or inherited) tree.children ↔
        ∃ groups leaf, Leads members keys groups leaf ∧
          token.Shows leaf ((nearestKind groups).or inherited))
  | [], _, _, _, _, _ => by
    rw [mem_flattenChildren]
    constructor
    · rintro ⟨_, _, _, h, -, -⟩
      simp at h
    · rintro ⟨_, _, h, -⟩
      cases h
  | key :: keys, members, tree, inherited, token, hg => by
    obtain ⟨hall, rfl⟩ := groupOfMembers_eq_ok_iff.mp hg
    simp only [mem_flattenChildren, List.cons.injEq]
    constructor
    · rintro ⟨_, _, node, ⟨rfl, rfl⟩, hmem, htoken⟩
      obtain ⟨value, hp, hr, hn⟩ := mem_filterMap_childMember?.mp hmem
      obtain ⟨inner, rfl, ⟨hl, own, hown, rfl⟩ | ⟨hl, tree, hg', rfl⟩⟩ := ofJson_eq_some hn
      · simp only [Node.flatten, List.mem_singleton, Prod.mk.injEq] at htoken
        obtain ⟨rfl, rfl⟩ := htoken
        refine ⟨_, inner, .leaf hp hr hl, ?_⟩
        rw [nearestKind_singleton]
        exact shows_of_ofMembers hown _
      · rw [Node.flatten] at htoken
        obtain ⟨groups, leaf, hlead, hshow⟩ := (mem_flattenChildren_iff_leads hg').mp htoken
        refine ⟨_, leaf, .group hp hr hl hlead, ?_⟩
        rwa [nearestKind_cons, Option.or_assoc]
    · rintro ⟨groups, leaf, hlead, hshow⟩
      cases hlead with
      | leaf hp hr hl =>
        obtain ⟨own, hown, rfl⟩ := hshow.read
        refine ⟨key, [], .token own, ⟨rfl, rfl⟩, ?_, ?_⟩
        · exact mem_filterMap_childMember?.mpr ⟨_, hp, hr, ofJson_leaf hl hown⟩
        · rw [nearestKind_singleton, Node.flatten]
          simp
      | group hp hr hl hlead =>
        -- the whole document was read, so this group was
        obtain ⟨node, hn⟩ := hall _ hp hr
        obtain ⟨tree, hg'⟩ := exists_groupOfMembers hl hn
        refine ⟨key, keys, .group tree.kind tree.children, ⟨rfl, rfl⟩, ?_, ?_⟩
        · exact mem_filterMap_childMember?.mpr ⟨_, hp, hr, ofJson_group hl hg'⟩
        · rw [nearestKind_cons, Option.or_assoc] at hshow
          rw [Node.flatten]
          exact (mem_flattenChildren_iff_leads hg').mpr ⟨_, leaf, hlead, hshow⟩

/-! ### In which order they come -/

/-- No key list comes before itself, since no object has a key twice. -/
theorem Precedes.ne {members : Entries String Json} {keys keys' : List String}
    (h : Precedes members keys keys') (hd : (Json.object members).DistinctKeys) : keys ≠ keys' := by
  induction h with
  | here keys keys' order =>
    rintro ⟨rfl, rfl⟩
    simpa using order.nodup (Json.distinctKeys_object.mp hd).1
  | inside member _ ih =>
    exact fun h => ih ((Json.distinctKeys_object.mp hd).2 _ member) (List.cons.inj h).2

/-- **The tokens of a group** stand in the order of the document. The induction is on the values
inside one another; tokens of two members are told apart by the keys of these members. -/
theorem pairwise_precedes {json : Json} (hd : json.DistinctKeys) :
    ∀ {members : Entries String Json} {tree : Tree} (inherited : Option String),
      json = .object members → groupOfMembers members = .ok tree →
        ((flattenChildren inherited tree.children).map (·.1)).Pairwise (Precedes members) := by
  induction hd with
  | @object members distinct _ ih =>
    rintro _ tree inherited ⟨rfl⟩ hg
    obtain ⟨hall, rfl⟩ := groupOfMembers_eq_ok_iff.mp hg
    simp only [flattenChildren_eq_flatMap]
    rw [List.pairwise_map, List.pairwise_flatMap]
    constructor
    · rintro ⟨key, node⟩ hmem
      obtain ⟨value, hp, hr, hn⟩ := mem_filterMap_childMember?.mp hmem
      obtain ⟨inner, rfl, ⟨-, own, -, rfl⟩ | ⟨-, tree, hg', rfl⟩⟩ := ofJson_eq_some hn
      · simp [Node.flatten]
      · have hrest := ih _ hp (tree.kind.or inherited) rfl hg'
        rw [List.pairwise_map] at hrest ⊢
        rw [Node.flatten]
        exact hrest.imp fun h => .inside hp h
    · have hsub := keys_children_sublist members
      refine List.pairwise_iff_forall_sublist.mpr fun {a b} hab x hx y hy => ?_
      obtain ⟨x', -, rfl⟩ := List.mem_map.mp hx
      obtain ⟨y', -, rfl⟩ := List.mem_map.mp hy
      exact .here _ _ ((hab.map Prod.fst).trans hsub)
  | _ => rintro _ _ _ ⟨⟩

/-! ### Whole documents -/

/-- **A document lists exactly its leaves.** There is a token for the keys that lead from the top of
the document to a leaf, and for no other keys; it shows that leaf and inherits the type of the
nearest group around it. Every one of these key lists comes once, in the order of the document. -/
theorem flatten_lists_exactly_the_leaves {members : Entries String Json} {tree : Tree}
    (distinct : (Json.object members).DistinctKeys)
    (loads : Tree.ofJson (.object members) = .ok tree) :
    (∀ keys token, (keys, token) ∈ tree.flatten ↔
      ∃ groups leaf, Leads members keys groups leaf ∧ token.Shows leaf (nearestKind groups)) ∧
    (tree.flatten.map (·.1)).Nodup ∧
    (tree.flatten.map (·.1)).Pairwise (Precedes members) := by
  have horder := pairwise_precedes distinct tree.kind rfl loads
  refine ⟨fun keys token => ?_, ?_, horder⟩
  · simpa only [Option.or_none, Tree.flatten] using
      @mem_flattenChildren_iff_leads keys members tree none token loads
  · exact horder.imp fun h => h.ne distinct

/-- A document with a type of its own, a reserved member that looks like a token, a group named
`type`, a token without a value and a group with a type inside another one. -/
theorem flatten_lists_exactly_the_leaves_nested :
    let members : Entries String Json :=
      [("$type", .text "color"), ("$extensions", .object [("value", .whole 1)]),
        ("type", .object [("body", .object [("value", .null), ("type", .text "text")])]),
        ("a", .object [("b", .object [("$value", .object [("value", .whole 2)])]),
          ("type", .text "size"), ("c", .object [("d", .object [("value", .bool true)])])])]
    (Json.object members).DistinctKeys ∧
    ∃ tree, Tree.ofJson (.object members) = .ok tree ∧
      tree.flatten.map (·.1) = [["type", "body"], ["a", "b"], ["a", "c", "d"]] ∧
      tree.flatten.map (·.2.kind) = [some "text", some "size", some "size"] ∧
      (tree.flatten.map (·.1)).Pairwise (Precedes members) := by
  intro members
  have distinct : (Json.object members).DistinctKeys := by
    simp [members, Entries.Distinct, Json.DistinctKeys.null, Json.DistinctKeys.bool,
      Json.DistinctKeys.whole, Json.DistinctKeys.text]
  exact ⟨distinct, _, rfl, rfl, rfl, (flatten_lists_exactly_the_leaves distinct rfl).2.2⟩

end TokenSheets
