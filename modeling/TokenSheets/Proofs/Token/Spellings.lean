import TokenSheets.Proofs.Token.Leaves

/-!
# The two spellings of the type of a group

A token prefers `$type` to `type`; a group takes the later one of the two, so its type depends on
the order of its members. `Rearranged` moves the members that name types within their groups, at any
depth, and leaves the order of all others. What is listed then stays the same but for the types that
are inherited, and these stay as well where the later one of two stays the later one.

* `declaredKind_of_both`: the type of a group that has both spellings;
* `forall₂_inherits_leavesOf`: tokens as they stand in a tree, and as they are listed;
* `leavesOf_of_rearranged`, `groupOfMembers_of_rearranged`: what moving types keeps;
* `the_later_spelling_names_the_type_of_a_group`: both for a whole document.
-/

namespace TokenSheets

/-! ### Groups with both spellings -/

theorem textAt_eq_none {members : Entries String Json} {name : String}
    (h : name ∉ Entries.keys members) : textAt members name = none := by
  rw [textAt, Entries.get?_eq_none_iff.mpr h, Option.bind_none]

theorem textAt_cons (p : String × Json) (rest : Entries String Json) (name : String) :
    textAt (p :: rest) name = if p.1 = name then p.2.text? else textAt rest name := by
  obtain ⟨key, value⟩ := p
  rw [textAt, Entries.get?_cons]
  split_ifs <;> rfl

/-- **Both spellings in a group**: the one that stands behind the other comes first. The induction
is on the members; a key that is there once is not among those that follow it. -/
theorem declaredKind_eq : ∀ {members : Entries String Json}, Entries.Distinct members →
    declaredKind members =
      if ["$type", "type"].Sublist (Entries.keys members) then
        (textAt members "type").or (textAt members "$type")
      else (textAt members "$type").or (textAt members "type")
  | [], _ => by simp [declaredKind, textAt]
  | (key, value) :: rest, distinct => by
    obtain ⟨hkey, hrest⟩ := List.nodup_cons.mp distinct
    change key ∉ Entries.keys rest at hkey
    rw [declaredKind_cons, declaredKind_eq hrest, textAt_cons, textAt_cons, Entries.keys_cons,
      kindMember?]
    by_cases hsigil : key = "$type"
    · subst hsigil
      have hnone : textAt rest "$type" = none := textAt_eq_none hkey
      have hfront : ["$type", "type"].Sublist ("$type" :: Entries.keys rest) ↔
          "type" ∈ Entries.keys rest := by simp
      have hrestNot : ¬ ["$type", "type"].Sublist (Entries.keys rest) :=
        fun h => hkey (h.subset (by simp))
      rw [if_neg hrestNot, hnone]
      by_cases hplain : "type" ∈ Entries.keys rest
      · simp [hfront.mpr hplain, isKindKey]
      · simp [hfront, hplain, textAt_eq_none hplain, isKindKey]
    · by_cases hplain : key = "type"
      · subst hplain
        have hnone : textAt rest "type" = none := textAt_eq_none hkey
        have hnot : ∀ keys : List String, "type" ∉ keys → ¬ ["$type", "type"].Sublist keys :=
          fun keys hkeys h => hkeys (h.subset (by simp))
        have hmemNot : ¬ ["$type", "type"].Sublist ("type" :: Entries.keys rest) := fun h =>
          hnot _ hkey ((List.sublist_cons_iff.mp h).resolve_right (by simp))
        rw [if_neg (hnot _ hkey), if_neg hmemNot, hnone]
        simp [isKindKey]
      · have hskip : ["$type", "type"].Sublist (key :: Entries.keys rest) ↔
            ["$type", "type"].Sublist (Entries.keys rest) := by
          refine ⟨fun h => (List.sublist_cons_iff.mp h).resolve_right ?_, fun h => h.cons _⟩
          rintro ⟨_, heq, -⟩
          exact hsigil (List.cons.inj heq).1.symm
        simp [hskip, hsigil, hplain, isKindKey]

/-- **A group with both spellings** has the type of the later one. -/
theorem declaredKind_of_both {members : Entries String Json} (distinct : Entries.Distinct members)
    {sigil plain : String} (hsigil : textAt members "$type" = some sigil)
    (hplain : textAt members "type" = some plain) :
    declaredKind members =
      some (if ["$type", "type"].Sublist (Entries.keys members) then plain else sigil) := by
  rw [declaredKind_eq distinct, hsigil, hplain]
  split_ifs <;> rfl

theorem Leads.distinct {members : Entries String Json} {keys : List String}
    {groups : List (Entries String Json)} {leaf : Entries String Json}
    (h : Leads members keys groups leaf) (hd : (Json.object members).DistinctKeys) :
    ∀ group ∈ groups, Entries.Distinct group := by
  induction h with
  | leaf =>
    rw [List.forall_mem_singleton]
    exact (Json.distinctKeys_object.mp hd).1
  | group member _ _ _ ih =>
    obtain ⟨distinct, inner⟩ := Json.distinctKeys_object.mp hd
    exact List.forall_mem_cons.mpr ⟨distinct, ih (inner _ member)⟩

/-! ### Tokens as they stand in a tree -/

mutual

/-- The tokens of a node as they stand in it, without types from outside. -/
def Node.leaves : Node → List Placed
  | .token token => [([], token)]
  | .group _ children => leavesOf children

/-- The tokens of nodes that stand side by side. -/
def leavesOf : List (String × Node) → List Placed
  | [] => []
  | (key, node) :: rest => node.leaves.map (Placed.under key) ++ leavesOf rest

end

/-- **A token is listed** at its place, with a type from outside if it has none. -/
def Placed.Inherits (own listed : Placed) : Prop :=
  listed.1 = own.1 ∧ ∃ kind, listed.2 = (own.2.inherit kind).normalized

/-- **Two lists show the same token** at the same place, with types from outside that may differ. -/
def Placed.SameButInherited (first second : Placed) : Prop :=
  first.1 = second.1 ∧ ∃ (own : Token) (kind kind' : Option String),
    first.2 = (own.inherit kind).normalized ∧ second.2 = (own.inherit kind').normalized

theorem Placed.Inherits.sameButInherited {own first second : Placed} (h : own.Inherits first)
    (h' : own.Inherits second) : first.SameButInherited second := by
  obtain ⟨hplace, kind, hkind⟩ := h
  obtain ⟨hplace', kind', hkind'⟩ := h'
  exact ⟨hplace.trans hplace'.symm, own.2, kind, kind', hkind, hkind'⟩

/-- Two listings of the same tokens agree but for types from outside. -/
theorem forall₂_sameButInherited {own first second : List Placed}
    (h : List.Forall₂ Placed.Inherits own first) (h' : List.Forall₂ Placed.Inherits own second) :
    List.Forall₂ Placed.SameButInherited first second := by
  induction h generalizing second with
  | nil =>
    cases h'
    exact .nil
  | cons here _ ih =>
    cases h' with
    | cons here' behind' => exact .cons (here.sameButInherited here') (ih behind')

theorem leavesOf_append (a b : List (String × Node)) :
    leavesOf (a ++ b) = leavesOf a ++ leavesOf b := by
  induction a with
  | nil => simp [leavesOf]
  | cons p rest ih =>
    obtain ⟨key, node⟩ := p
    simp [leavesOf, ih]

mutual

theorem Node.forall₂_inherits_leaves (inherited : Option String) : ∀ node : Node,
    List.Forall₂ Placed.Inherits node.leaves (node.flatten inherited)
  | .token token => by
    rw [Node.leaves, Node.flatten]
    exact .cons ⟨rfl, inherited, rfl⟩ .nil
  | .group kind children => by
    rw [Node.leaves, Node.flatten]
    exact forall₂_inherits_leavesOf _ children

/-- **Tokens are listed in the order in which they stand.** -/
theorem forall₂_inherits_leavesOf (inherited : Option String) : ∀ children : List (String × Node),
    List.Forall₂ Placed.Inherits (leavesOf children) (flattenChildren inherited children)
  | [] => by
    rw [leavesOf, flattenChildren]
    exact .nil
  | (key, node) :: rest => by
    rw [leavesOf, flattenChildren]
    refine List.rel_append ?_ (forall₂_inherits_leavesOf inherited rest)
    rw [List.forall₂_map_left_iff, List.forall₂_map_right_iff]
    refine (node.forall₂_inherits_leaves inherited).imp fun own listed h => ?_
    exact ⟨congrArg (key :: ·) h.1, h.2⟩

end

/-! ### Types that are moved -/

/-- **The same group with members moved** that name types, in the group itself and in the groups
inside it, one group after the other. `allowed` says which moves within one group may be made. -/
inductive Rearranged (allowed : Entries String Json → Entries String Json → Prop) :
    Entries String Json → Entries String Json → Prop
  | refl (members : Entries String Json) : Rearranged allowed members members
  | trans {a b c : Entries String Json} (first : Rearranged allowed a b)
    (second : Rearranged allowed b c) : Rearranged allowed a c
  | moved {members members' : Entries String Json} (perm : members.Perm members')
    (others : members.filter (fun p => (kindMember? p).isNone) =
      members'.filter fun p => (kindMember? p).isNone)
    (may : allowed members members') : Rearranged allowed members members'
  | inside {front behind inner inner' : Entries String Json} {key : String}
    (isGroup : Token.isLeaf inner = false) (within : Rearranged allowed inner inner') :
    Rearranged allowed (front ++ (key, .object inner) :: behind)
      (front ++ (key, .object inner') :: behind)

/-- Any move. -/
def AnyOrder (_ _ : Entries String Json) : Prop := True

/-- **The later one of two spellings stays the later one**, or says the same. -/
def SameKind (members members' : Entries String Json) : Prop :=
  declaredKind members' = declaredKind members

variable {allowed : Entries String Json → Entries String Json → Prop}
  {members members' : Entries String Json}

theorem childMember?_of_kindMember? {p : String × Json} {kind : String}
    (h : kindMember? p = some kind) : childMember? p = none := by
  have htext : p.2.text? = some kind := by
    rw [kindMember?] at h
    split_ifs at h
    exact h
  rw [childMember?, Node.ofJson_of_text htext]
  split_ifs <;> rfl

theorem filterMap_childMember?_filter (members : Entries String Json) :
    (members.filter fun p => (kindMember? p).isNone).filterMap childMember? =
      members.filterMap childMember? := by
  rw [List.filterMap_filter]
  refine List.filterMap_congr fun p _ => ?_
  rcases hkind : kindMember? p with _ | kind
  · rfl
  · rw [childMember?_of_kindMember? hkind]
    rfl

theorem isLeaf_iff : Token.isLeaf members = true ↔
    "$value" ∈ Entries.keys members ∨ "value" ∈ Entries.keys members := by
  rw [Token.isLeaf, Bool.or_eq_true, Option.isSome_iff_ne_none, Option.isSome_iff_ne_none, ne_eq,
    ne_eq, Entries.get?_eq_none_iff, Entries.get?_eq_none_iff, not_not, not_not]

namespace Rearranged

theorem perm_keys (h : Rearranged allowed members members') :
    (Entries.keys members).Perm (Entries.keys members') := by
  induction h with
  | refl => exact .refl _
  | trans _ _ ih ih' => exact ih.trans ih'
  | moved perm => exact perm.map _
  | inside => simp

theorem isLeaf_eq (h : Rearranged allowed members members') :
    Token.isLeaf members' = Token.isLeaf members := by
  rw [Bool.eq_iff_iff, isLeaf_iff, isLeaf_iff, h.perm_keys.mem_iff, h.perm_keys.mem_iff]

end Rearranged

/-- **One group inside another** that is read as another tree is the only child that changes. -/
theorem groupOfMembers_inside {front behind inner inner' : Entries String Json} {key : String}
    {tree : Tree} (isGroup : Token.isLeaf inner = false) (isGroup' : Token.isLeaf inner' = false)
    (hread : ∀ child, groupOfMembers inner = .ok child →
      ∃ child', groupOfMembers inner' = .ok child')
    (h : groupOfMembers (front ++ (key, .object inner) :: behind) = .ok tree) :
    groupOfMembers (front ++ (key, .object inner') :: behind) = .ok tree ∨
      ∃ child child' before after, groupOfMembers inner = .ok child ∧
        groupOfMembers inner' = .ok child' ∧
        tree.children = before ++ (key, .group child.kind child.children) :: after ∧
        groupOfMembers (front ++ (key, .object inner') :: behind) =
          .ok { kind := tree.kind,
                children := before ++ (key, .group child'.kind child'.children) :: after } := by
  obtain ⟨hall, rfl⟩ := groupOfMembers_eq_ok_iff.mp h
  rw [List.forall_mem_append, List.forall_mem_cons] at hall
  obtain ⟨hfront, hhere, hbehind⟩ := hall
  have hkind : declaredKind (front ++ (key, .object inner') :: behind) =
      declaredKind (front ++ (key, .object inner) :: behind) := by
    simp [declaredKind, kindMember?, Json.text?]
  by_cases hreserved : isReserved key = true
  · left
    have hnone : ∀ value, childMember? (key, value) = none := fun value => by
      simp [childMember?, hreserved]
    rw [groupOfMembers_eq_ok_iff, List.forall_mem_append, List.forall_mem_cons, hkind]
    refine ⟨⟨hfront, fun hplain => ?_, hbehind⟩, ?_⟩
    · rw [hreserved] at hplain
      cases hplain
    · simp [List.filterMap_append, hnone]
  · right
    rw [Bool.not_eq_true] at hreserved
    obtain ⟨node, hnode⟩ := hhere hreserved
    obtain ⟨child, hchild⟩ := exists_groupOfMembers isGroup hnode
    obtain ⟨child', hchild'⟩ := hread child hchild
    have hmember : childMember? (key, .object inner) =
        some (key, .group child.kind child.children) :=
      childMember?_eq_some.mpr ⟨hreserved, rfl, ofJson_group isGroup hchild⟩
    have hmember' : childMember? (key, .object inner') =
        some (key, .group child'.kind child'.children) :=
      childMember?_eq_some.mpr ⟨hreserved, rfl, ofJson_group isGroup' hchild'⟩
    refine ⟨child, child', front.filterMap childMember?, behind.filterMap childMember?, hchild,
      hchild', by simp [hmember], ?_⟩
    rw [groupOfMembers_eq_ok_iff, List.forall_mem_append, List.forall_mem_cons, hkind]
    exact ⟨⟨hfront, fun _ => ⟨_, ofJson_group isGroup' hchild'⟩, hbehind⟩, by simp [hmember']⟩

/-- **What moving types keeps**: the group is still read, its tokens stand where they stood, and
nothing changes at all if every move leaves the type of its group as it is. The induction is on the
moves. -/
theorem groupOfMembers_of_rearranged (h : Rearranged allowed members members') :
    ∀ {tree : Tree}, groupOfMembers members = .ok tree →
      ∃ tree', groupOfMembers members' = .ok tree' ∧
        leavesOf tree'.children = leavesOf tree.children ∧
        ((∀ a b, allowed a b → SameKind a b) → tree' = tree) := by
  induction h with
  | refl => exact fun hread => ⟨_, hread, rfl, fun _ => rfl⟩
  | trans _ _ ih ih' =>
    intro tree hread
    obtain ⟨tree', hread', hleaves', hsame'⟩ := ih hread
    obtain ⟨tree'', hread'', hleaves'', hsame''⟩ := ih' hread'
    exact ⟨tree'', hread'', hleaves''.trans hleaves',
      fun hkinds => (hsame'' hkinds).trans (hsame' hkinds)⟩
  | @moved members members' perm others may =>
    intro tree hread
    obtain ⟨hall, rfl⟩ := groupOfMembers_eq_ok_iff.mp hread
    have hchildren : members'.filterMap childMember? = members.filterMap childMember? := by
      rw [← filterMap_childMember?_filter members', ← others, filterMap_childMember?_filter]
    have hread' := groupOfMembers_eq_ok_iff.mpr
      ⟨fun p hp => hall p (perm.mem_iff.mpr hp), (rfl : Tree.mk (declaredKind members') _ = _)⟩
    refine ⟨_, hread', congrArg leavesOf hchildren, fun hkinds => ?_⟩
    rw [hchildren, hkinds members members' may]
  | @inside front behind inner inner' key isGroup within ih =>
    intro tree hread
    have isGroup' : Token.isLeaf inner' = false := within.isLeaf_eq.trans isGroup
    have hinner : ∀ child, groupOfMembers inner = .ok child →
        ∃ child', groupOfMembers inner' = .ok child' := fun child hchild =>
      let ⟨child', hchild', _⟩ := ih hchild
      ⟨child', hchild'⟩
    rcases groupOfMembers_inside isGroup isGroup' hinner hread with hsame |
      ⟨child, child', before, after, hchild, hchild', hchildren, hread'⟩
    · exact ⟨tree, hsame, rfl, fun _ => rfl⟩
    · obtain ⟨found, hfound, hleaves, hkeeps⟩ := ih hchild
      obtain rfl : child' = found := Except.ok.inj (hchild'.symm.trans hfound)
      refine ⟨_, hread', ?_, fun hkinds => ?_⟩
      · rw [hchildren, leavesOf_append, leavesOf_append, leavesOf, leavesOf, Node.leaves,
          Node.leaves, hleaves]
      · rw [hkeeps hkinds, ← hchildren]

/-! ### Whole documents -/

/-- **The later spelling names the type of a group.** A token that is listed has its own type, or
the one of the nearest group that declares one; where a group declares both spellings this is the
later of the two, so it is the one with the sigil only if that is the later one, or if both say the
same. Moving the types of groups, at any depth, the document is still read and lists the same tokens
at the same places, with inherited types that may differ; it is read as the same tree if in every
group the later one of two stays the later one, or says the same. -/
theorem the_later_spelling_names_the_type_of_a_group {members : Entries String Json} {tree : Tree}
    (distinct : (Json.object members).DistinctKeys)
    (loads : Tree.ofJson (.object members) = .ok tree) :
    (∀ keys token, (keys, token) ∈ tree.flatten →
      ∃ groups leaf, Leads members keys groups leaf ∧
        token.kind = ((textAt leaf "$type").or (textAt leaf "type")).or (nearestKind groups) ∧
        ∀ group ∈ groups, ∀ sigil plain, textAt group "$type" = some sigil →
          textAt group "type" = some plain →
          declaredKind group =
            some (if ["$type", "type"].Sublist (Entries.keys group) then plain else sigil)) ∧
    (∀ members', Rearranged AnyOrder members members' →
      ∃ tree', Tree.ofJson (.object members') = .ok tree' ∧
        List.Forall₂ Placed.SameButInherited tree.flatten tree'.flatten) ∧
    ∀ members', Rearranged SameKind members members' →
      Tree.ofJson (.object members') = .ok tree := by
  refine ⟨fun keys token hmem => ?_, fun members' hmoved => ?_, fun members' hmoved => ?_⟩
  · obtain ⟨groups, leaf, hlead, hshows⟩ : ∃ groups leaf, Leads members keys groups leaf ∧
        token.Shows leaf ((nearestKind groups).or none) := by
      refine (mem_flattenChildren_iff_leads loads).mp ?_
      rwa [Option.or_none]
    rw [Option.or_none] at hshows
    exact ⟨groups, leaf, hlead, hshows.kind, fun group hgroup sigil plain hsigil hplain =>
      declaredKind_of_both (hlead.distinct distinct group hgroup) hsigil hplain⟩
  · obtain ⟨tree', hread, hleaves, -⟩ := groupOfMembers_of_rearranged hmoved loads
    refine ⟨tree', hread, ?_⟩
    have hlisted := forall₂_inherits_leavesOf tree.kind tree.children
    have hlisted' := forall₂_inherits_leavesOf tree'.kind tree'.children
    rw [hleaves] at hlisted'
    exact forall₂_sameButInherited hlisted hlisted'
  · obtain ⟨tree', hread, -, hsame⟩ := groupOfMembers_of_rearranged hmoved loads
    exact hsame (fun _ _ h => h) ▸ hread

/-- A group inside another whose two spellings change places. -/
theorem the_later_spelling_names_the_type_of_a_group_inside :
    let inner : Entries String Json := [("$type", .text "color"), ("type", .text "size"),
      ("b", .object [("value", .whole 1)])]
    let inner' : Entries String Json := [("type", .text "size"), ("$type", .text "color"),
      ("b", .object [("value", .whole 1)])]
    ∃ tree tree', Tree.ofJson (.object [("a", .object inner)]) = .ok tree ∧
      Tree.ofJson (.object [("a", .object inner')]) = .ok tree' ∧
      List.Forall₂ Placed.SameButInherited tree.flatten tree'.flatten := by
  intro inner inner'
  have distinct : (Json.object [("a", .object inner)]).DistinctKeys := by
    simp [inner, Json.distinctKeys_object, Entries.Distinct, Json.DistinctKeys.text,
      Json.DistinctKeys.whole]
  have loads : Tree.ofJson (.object [("a", .object inner)]) = .ok ⟨none, [("a",
      .group (some "size") [("b", .token { plainValue := some (.whole 1) })])]⟩ := by rfl
  have hmoved : Rearranged AnyOrder ([] ++ ("a", .object inner) :: [])
      ([] ++ ("a", .object inner') :: []) := .inside rfl (.moved (.swap _ _ _) rfl trivial)
  obtain ⟨-, hany, -⟩ := the_later_spelling_names_the_type_of_a_group distinct loads
  obtain ⟨tree', hread, hlists⟩ := hany [("a", .object inner')] hmoved
  exact ⟨_, tree', loads, hread, hlists⟩

/-- **A group that names two types** changes its type with the order in which it names them. -/
theorem a_group_takes_the_type_it_names_last :
    let members : Entries String Json := [("$type", .text "color"), ("type", .text "size"),
      ("a", .object [("value", .whole 1)])]
    let members' : Entries String Json := [("type", .text "size"), ("$type", .text "color"),
      ("a", .object [("value", .whole 1)])]
    Rearranged AnyOrder members members' ∧
      ∃ tree tree', Tree.ofJson (.object members) = .ok tree ∧
        Tree.ofJson (.object members') = .ok tree' ∧
        tree.kind = some "size" ∧ tree'.kind = some "color" ∧
        tree.flatten.map (fun placed => placed.2.kind) = [some "size"] ∧
        tree'.flatten.map (fun placed => placed.2.kind) = [some "color"] := by
  intro members members'
  refine ⟨.moved (.swap _ _ _) rfl trivial,
    ⟨some "size", [("a", .token { plainValue := some (.whole 1) })]⟩,
    ⟨some "color", [("a", .token { plainValue := some (.whole 1) })]⟩, rfl, rfl, rfl, rfl, ?_, ?_⟩
  · decide +kernel
  · decide +kernel

end TokenSheets
