import TokenSheets.Namespace.Job
import TokenSheets.Proofs.Token.Children
import TokenSheets.Proofs.Token.Leaves

/-!
# Types on the way from a document to a job

A type that a group names reaches every token below it that has none. A job cuts a namespace out of
its document, and shared texts are taken out of their groups; what stands above the cut is left
behind. The groups inside take their types along, the document itself does not.

* `flattenChildren_or`: a type from further outside is given to the tokens that are left without
  one;
* `Job.own` and `Tree.listed`: the tokens of a namespace, as its job and as its document lists them;
* `SharedText.exists_of_mem_merge`: a shared text comes from the last group that has its name;
* `cut_out_tokens_lack_the_type_of_the_document`: both routes give the same tokens, apart from the
  type of the document.
-/

namespace TokenSheets

/-! ### Types from further outside -/

/-- The token of a place with a type from further outside. -/
def Placed.inherit (placed : Placed) (outer : Option String) : Placed :=
  (placed.1, (placed.2.inherit outer).normalized)

namespace Token

theorem inherit_normalized_inherit (token : Token) (inner outer : Option String) :
    ((token.inherit inner).normalized.inherit outer).normalized =
      (token.inherit (inner.or outer)).normalized := by
  rcases token with ⟨v, w, a, b⟩
  cases v <;> cases w <;> cases a <;> cases b <;> cases inner <;> simp [inherit, kind, normalized]

theorem inherit_eq_self_iff {token : Token} (normal : token.normalized = token)
    (outer : Option String) :
    (token.inherit outer).normalized = token ↔ outer = none ∨ token.kind.isSome := by
  constructor
  · intro hsame
    have hkind : token.kind.or outer = token.kind := by
      rw [← kind_inherit, ← kind_normalized (token.inherit outer), hsame]
    rcases hown : token.kind with _ | own
    · exact .inl (by simpa [hown] using hkind)
    · exact .inr rfl
  · rintro (rfl | hown)
    · rcases token with ⟨_, _, a, b⟩
      cases a <;> cases b <;> simpa [inherit, kind] using normal
    · have hhas : ¬ token.kind.isNone = true := by simp [Option.isSome_iff_ne_none.mp hown]
      rwa [inherit, if_neg hhas]

end Token

mutual

/-- **A type from further outside** is given to the tokens that are left without one. The induction
is on the node. -/
theorem Node.flatten_or (inner outer : Option String) : ∀ node : Node,
    node.flatten (inner.or outer) = (node.flatten inner).map (·.inherit outer)
  | .token token => by
    simp [Node.flatten, Placed.inherit, Token.inherit_normalized_inherit]
  | .group kind children => by
    rw [Node.flatten, Node.flatten, ← Option.or_assoc, flattenChildren_or]

theorem flattenChildren_or (inner outer : Option String) : ∀ children : List (String × Node),
    flattenChildren (inner.or outer) children =
      (flattenChildren inner children).map (·.inherit outer)
  | [] => by simp [flattenChildren]
  | (key, node) :: rest => by
    rw [flattenChildren, flattenChildren, Node.flatten_or inner outer node,
      flattenChildren_or inner outer rest, List.map_append, List.map_map, List.map_map]
    rfl

end

mutual

theorem Node.normalized_of_mem_flatten {inherited : Option String} : ∀ node : Node,
    ∀ placed ∈ node.flatten inherited, placed.2.normalized = placed.2
  | .token token => by
    simp [Node.flatten, Token.normalized_normalized]
  | .group kind children => by
    rw [Node.flatten]
    exact normalized_of_mem_flattenChildren children

theorem normalized_of_mem_flattenChildren {inherited : Option String} :
    ∀ children : List (String × Node), ∀ placed ∈ flattenChildren inherited children,
      placed.2.normalized = placed.2
  | [] => by simp [flattenChildren]
  | (key, node) :: rest => by
    rw [flattenChildren, List.forall_mem_append, List.forall_mem_map]
    exact ⟨Node.normalized_of_mem_flatten node, normalized_of_mem_flattenChildren rest⟩

end

theorem map_inherit_eq_self_iff {listed : List Placed}
    (normal : ∀ placed ∈ listed, placed.2.normalized = placed.2) (outer : Option String) :
    listed.map (·.inherit outer) = listed ↔
      outer = none ∨ ∀ placed ∈ listed, placed.2.kind.isSome := by
  have hpoint : listed.map (·.inherit outer) = listed ↔
      ∀ placed ∈ listed, placed.inherit outer = placed := by
    conv_lhs => rhs; rw [← List.map_id listed]
    exact List.map_inj_left
  have heach : ∀ placed ∈ listed, placed.inherit outer = placed ↔
      outer = none ∨ placed.2.kind.isSome := fun placed hmem => by
    rw [← Token.inherit_eq_self_iff (normal placed hmem) outer, Prod.ext_iff]
    simp [Placed.inherit]
  rw [hpoint, forall₂_congr heach]
  by_cases houter : outer = none <;> simp [houter]

/-! ### The tokens of a namespace on both routes -/

/-- The place is in the group of the shared texts. -/
def Placed.isShared (placed : Placed) : Bool := placed.1.head? = some Job.textKey

/-- The place as it is seen from behind a key, if the key leads to it. -/
def Placed.below? (key : String) : Placed → Option Placed
  | (first :: rest, token) => if first = key then some (rest, token) else none
  | ([], _) => none

/-- **The tokens of a job** without the shared texts. -/
def Job.own (job : Job) : List Placed := job.tokens.flatten.filter fun placed => ¬ placed.isShared

/-- **The tokens that a document lists below a key**, without those that stand where the shared
texts go. -/
def Tree.listed (tree : Tree) (key : String) : List Placed :=
  (tree.flatten.filterMap (Placed.below? key)).filter fun placed => ¬ placed.isShared

theorem filterMap_below?_map_under (key first : String) (placed : List Placed) :
    (placed.map (Placed.under first)).filterMap (Placed.below? key) =
      if first = key then placed else [] := by
  rw [List.filterMap_map]
  by_cases hkey : first = key
  · rw [if_pos hkey]
    refine (List.filterMap_congr fun p _ => ?_).trans List.filterMap_some
    simp [Placed.under, Placed.below?, hkey]
  · rw [if_neg hkey]
    refine List.filterMap_eq_nil_iff.mpr fun p _ => ?_
    simp [Placed.under, Placed.below?, hkey]

theorem filterMap_below?_flattenChildren {inherited : Option String} {key : String} {node : Node} :
    ∀ {children : Entries String Node}, children.Distinct → (key, node) ∈ children →
      (flattenChildren inherited children).filterMap (Placed.below? key) = node.flatten inherited
  | [], _, hmem => by simp at hmem
  | (first, other) :: rest, distinct, hmem => by
    obtain ⟨hfirst, hrest⟩ := List.nodup_cons.mp distinct
    rw [flattenChildren, List.filterMap_append, filterMap_below?_map_under]
    rcases List.mem_cons.mp hmem with hhere | hlater
    · obtain ⟨rfl, rfl⟩ := Prod.mk.inj hhere
      have hnone : (flattenChildren inherited rest).filterMap (Placed.below? key) = [] := by
        rw [List.filterMap_eq_nil_iff]
        rintro ⟨keys, token⟩ hplaced
        obtain ⟨later, further, child, rfl, hchild, -⟩ := mem_flattenChildren.mp hplaced
        have hne : later ≠ key := fun h =>
          hfirst (List.mem_map.mpr ⟨_, hchild, h⟩)
        simp [Placed.below?, hne]
      rw [if_pos rfl, hnone, List.append_nil]
    · have hne : first ≠ key := fun h => hfirst (List.mem_map.mpr ⟨_, hlater, h.symm⟩)
      rw [if_neg hne, List.nil_append]
      exact filterMap_below?_flattenChildren hrest hlater

theorem Job.own_eq (job : Job) :
    job.own = (flattenChildren job.subtree.kind job.subtree.children).filter
      fun placed => ¬ placed.isShared :=
  filter_not_isBelow_insert Job.textKey _ _ _

/-! ### Shared texts and where they come from -/

/-- **A part of a list that is made in pieces** lies in one piece and all pieces behind it. -/
theorem exists_of_flatMap_eq_append_cons {α β : Type} {make : α → List β} {b : β} :
    ∀ {as : List α} {front behind : List β}, as.flatMap make = front ++ b :: behind →
      ∃ before a after own rest, as = before ++ a :: after ∧ make a = own ++ b :: rest ∧
        behind = rest ++ after.flatMap make
  | [], _, _, h => by simp at h
  | a :: as, front, behind, h => by
    rw [List.flatMap_cons, List.append_eq_append_iff] at h
    rcases h with ⟨more, hfront, hrest⟩ | ⟨more, hmake, hrest⟩
    · obtain ⟨before, a', after, own, rest, rfl, hown, hbehind⟩ :=
        exists_of_flatMap_eq_append_cons hrest
      exact ⟨a :: before, a', after, own, rest, rfl, hown, hbehind⟩
    · rcases more with _ | ⟨first, more⟩
      · have hbegin : as.flatMap make = [] ++ b :: behind := hrest.symm
        obtain ⟨before, a', after, own, rest, rfl, hown, hbehind⟩ :=
          exists_of_flatMap_eq_append_cons hbegin
        exact ⟨a :: before, a', after, own, rest, rfl, hown, hbehind⟩
      · obtain ⟨rfl, rfl⟩ := List.cons.inj hrest
        exact ⟨[], a, as, front, more, rfl, hmake, rfl⟩

theorem SharedText.mem_ofNode {node : Node} {name : String} {token : Token} :
    (name, token) ∈ ofNode node ↔ ∃ kind children raw, node = .group kind children ∧
      (name, .token raw) ∈ children ∧ token = (raw.inherit kind).normalized := by
  cases node with
  | token own => simp [ofNode]
  | group kind children =>
    simp only [ofNode, List.mem_filterMap, Node.group.injEq, and_assoc]
    constructor
    · rintro ⟨⟨name', raw | _⟩, hmem, h⟩
      · obtain ⟨rfl, rfl⟩ : name' = name ∧ _ = token := by simpa [ofChild?] using h
        exact ⟨kind, children, raw, rfl, rfl, hmem, rfl⟩
      · simp [ofChild?] at h
    · rintro ⟨_, _, raw, rfl, rfl, hmem, rfl⟩
      exact ⟨_, hmem, rfl⟩

/-- **A shared text comes from the last group** that has a token of its name, with the type of that
group. -/
theorem SharedText.exists_of_mem_merge {tree : Tree} {name : String} {token : Token}
    (h : (name, token) ∈ (merge tree).tokens) :
    ∃ front group kind children behind raw,
      tree.namespaces = front ++ (group, .group kind children) :: behind ∧
      (name, .token raw) ∈ children ∧ token = (raw.inherit kind).normalized ∧
      ∀ later ∈ behind, name ∉ Entries.keys (ofNode later.2) := by
  obtain ⟨_, _, hpairs, hlast⟩ := Entries.exists_of_mem_ofList h
  obtain ⟨front, ⟨group, node⟩, behind, own, rest, hspaces, hown, rfl⟩ :=
    exists_of_flatMap_eq_append_cons hpairs
  obtain ⟨kind, children, raw, rfl, hmem, htoken⟩ := mem_ofNode.mp
    (hown ▸ List.mem_append_right own List.mem_cons_self : (name, token) ∈ ofNode node)
  refine ⟨front, group, kind, children, behind, raw, hspaces, hmem, htoken, fun later hlater => ?_⟩
  rw [Entries.keys_append, List.mem_append, not_or] at hlast
  refine fun hname => hlast.2 ?_
  obtain ⟨p, hp, rfl⟩ := List.mem_map.mp hname
  exact List.mem_map_of_mem (List.mem_flatMap.mpr ⟨later, hlater, hp⟩)

/-! ### Both routes -/

theorem Tree.nodup_places_of_read {source : String} {tree : Tree}
    (loads : Tree.read source = .ok tree) : (tree.flatten.map Prod.fst).Nodup := by
  obtain ⟨members, distinct, hgroup⟩ := exists_members_of_read loads
  exact (pairwise_precedes distinct tree.kind rfl hgroup).imp fun h => h.ne distinct

theorem Tree.mem_children_of_mem_namespaces {tree : Tree} {p : String × Node}
    (h : p ∈ tree.namespaces) : p ∈ tree.children :=
  List.mem_of_mem_filter h

/-- **What is cut out of a document lacks the type of the document.** The job of a namespace lists
the tokens that the document lists below its key, in the same order, and a shared text is the token
that the document lists under its name in the last group that has it; but a token that has no type,
and no group below the document around it that names one, has the type of the document only where
the document lists it. So both routes agree if and only if the document names no type, or every
token has one from elsewhere. -/
theorem cut_out_tokens_lack_the_type_of_the_document {source : String} {tree : Tree}
    (loads : Tree.read source = .ok tree) :
    (∀ (config : Config) (text : SharedText) (key : String) (kind : Option String)
        (children : List (String × Node)), (key, .group kind children) ∈ tree.namespaces →
      let own := (Job.ofNode config text key (.group kind children)).own
      tree.listed key = own.map (·.inherit tree.kind) ∧
      (tree.listed key = own ↔ tree.kind = none ∨ ∀ placed ∈ own, placed.2.kind.isSome)) ∧
    ∀ name token, (name, token) ∈ (SharedText.merge tree).tokens →
      ∃ front group kind children behind,
        tree.namespaces = front ++ (group, .group kind children) :: behind ∧
        name ∈ Entries.keys (SharedText.ofNode (.group kind children)) ∧
        (∀ later ∈ behind, name ∉ Entries.keys (SharedText.ofNode later.2)) ∧
        (∀ listed, ([group, name], listed) ∈ tree.flatten ↔
          listed = (token.inherit tree.kind).normalized) ∧
        (([group, name], token) ∈ tree.flatten ↔ tree.kind = none ∨ token.kind.isSome) := by
  have hchildren := Tree.distinct_children_of_read loads
  refine ⟨?_, fun name token hmem => ?_⟩
  · intro config text key kind children hmem own
    have hown : own = (flattenChildren kind children).filter fun placed => ¬ placed.isShared :=
      Job.own_eq _
    have hbelow : tree.flatten.filterMap (Placed.below? key) =
        (flattenChildren kind children).map (·.inherit tree.kind) := by
      rw [Tree.flatten, filterMap_below?_flattenChildren hchildren
        (Tree.mem_children_of_mem_namespaces hmem), Node.flatten, flattenChildren_or]
    have hlisted : tree.listed key = own.map (·.inherit tree.kind) := by
      rw [Tree.listed, hbelow, hown, List.filter_map]
      rfl
    refine ⟨hlisted, hlisted ▸ map_inherit_eq_self_iff (fun placed hplaced => ?_) tree.kind⟩
    rw [hown] at hplaced
    exact normalized_of_mem_flattenChildren children placed (List.mem_of_mem_filter hplaced)
  · obtain ⟨front, group, kind, children, behind, raw, hspaces, hraw, htoken, hlast⟩ :=
      SharedText.exists_of_mem_merge hmem
    have hgroup : (group, .group kind children) ∈ tree.children :=
      Tree.mem_children_of_mem_namespaces (hspaces ▸ by simp)
    have hthere : ([group, name], (token.inherit tree.kind).normalized) ∈ tree.flatten := by
      rw [htoken, Token.inherit_normalized_inherit]
      refine mem_flattenChildren.mpr ⟨group, [name], _, rfl, hgroup, ?_⟩
      rw [Node.flatten]
      exact mem_flattenChildren.mpr ⟨name, [], _, rfl, hraw, by simp [Node.flatten]⟩
    have honly : ∀ listed, ([group, name], listed) ∈ tree.flatten ↔
        listed = (token.inherit tree.kind).normalized := by
      refine fun listed => ⟨fun hlisted => ?_, fun h => h ▸ hthere⟩
      simpa using List.inj_on_of_nodup_map (Tree.nodup_places_of_read loads) hlisted hthere rfl
    refine ⟨front, group, kind, children, behind, hspaces, ?_, hlast, honly, ?_⟩
    · exact List.mem_map_of_mem (SharedText.mem_ofNode.mpr
        ⟨kind, children, raw, rfl, hraw, htoken⟩)
    · have hnormal : token.normalized = token := htoken ▸ Token.normalized_normalized _
      rw [honly, eq_comm]
      exact Token.inherit_eq_self_iff hnormal tree.kind

/-- A document with a type of its own, a group with another one and a group without: the token of
the first group is the same on both routes, the token of the second one is not. -/
theorem cut_out_tokens_lack_the_type_of_the_document_color :
    let source := "\x7b\"$type\":\"color\"," ++
      "\"a\":\x7b\"type\":\"size\",\"x\":\x7b\"value\":1\x7d\x7d," ++
      "\"b\":\x7b\"y\":\x7b\"value\":\"red\"\x7d\x7d\x7d"
    ∃ tree kind children kind' children', Tree.read source = .ok tree ∧
      tree.namespaces = [("a", .group kind children), ("b", .group kind' children')] ∧
      tree.listed "a" = (Job.ofNode {} ⟨[]⟩ "a" (.group kind children)).own ∧
      tree.listed "b" ≠ (Job.ofNode {} ⟨[]⟩ "b" (.group kind' children')).own := by
  intro source
  have hkinds : (Tree.read source).toOption.map (fun tree => (tree.kind, tree.namespaces.map
      fun p => (p.1, (Job.ofNode {} ⟨[]⟩ p.1 p.2).own.map fun placed => placed.2.kind))) =
        some (some "color", [("a", [some "size"]), ("b", [none])]) := by decide +kernel
  rcases hread : Tree.read source with error | tree
  · simp [hread, Except.toOption] at hkinds
  · simp only [hread, Except.toOption, Option.map_some, Option.some.injEq, Prod.mk.injEq] at hkinds
    obtain ⟨hkind, hspaces⟩ := hkinds
    obtain ⟨⟨a, first⟩, ⟨b, second⟩, htwo⟩ : ∃ p q, tree.namespaces = [p, q] :=
      List.length_eq_two.mp (by simpa using congrArg List.length hspaces)
    simp only [htwo, List.map_cons, List.map_nil, List.cons.injEq, Prod.mk.injEq] at hspaces
    obtain ⟨⟨rfl, hfirst⟩, ⟨rfl, hsecond⟩, -⟩ := hspaces
    -- a single token has no tokens of its own
    have hgroup : ∀ {key : String} {node : Node} {found : Option String},
        ((Job.ofNode {} ⟨[]⟩ key node).own.map fun placed => placed.2.kind) = [found] →
          ∃ kind children, node = .group kind children := by
      intro key node found h
      rcases node with token | ⟨kind, children⟩
      · simp [Job.own_eq, Job.ofNode, Job.treeOf, flattenChildren] at h
      · exact ⟨kind, children, rfl⟩
    obtain ⟨kind, children, rfl⟩ := hgroup hfirst
    obtain ⟨kind', children', rfl⟩ := hgroup hsecond
    obtain ⟨hjobs, -⟩ := cut_out_tokens_lack_the_type_of_the_document hread
    refine ⟨tree, kind, children, kind', children', rfl, htwo, ?_, fun hsame => ?_⟩
    · refine ((hjobs {} ⟨[]⟩ "a" kind children (by simp [htwo])).2).mpr (.inr fun placed hmem => ?_)
      have hthere := List.mem_map_of_mem (f := fun placed : Placed => placed.2.kind) hmem
      rw [hfirst, List.mem_singleton] at hthere
      simp [hthere]
    · rcases ((hjobs {} ⟨[]⟩ "b" kind' children' (by simp [htwo])).2).mp hsame with hnone | hall
      · simp [hkind] at hnone
      · obtain ⟨placed, hmem, hthere⟩ := List.mem_map.mp
          (hsecond ▸ List.mem_singleton_self _ : none ∈ _)
        simpa [hthere] using hall placed hmem

/-- **The type of a document is lost on both ways out of it.** The document lists its token as a
text; the job of the namespace and the shared texts have it without a type. -/
theorem the_type_of_a_document_is_lost :
    let source := "\x7b\"$type\":\"text\",\"A\":\x7b\"a\":\x7b\"$value\":\"x\"\x7d\x7d\x7d"
    ∃ tree, Tree.read source = .ok tree ∧
      (tree.listed "A").map (fun placed => (placed.1, placed.2.kind)) = [(["a"], some "text")] ∧
      tree.namespaces.flatMap (fun p => (Job.ofNode {} (SharedText.merge tree) p.1 p.2).own.map
        fun placed => (placed.1, placed.2.kind)) = [(["a"], none)] ∧
      tree.flatten.map (fun placed => (placed.1, placed.2.kind)) = [(["A", "a"], some "text")] ∧
      (SharedText.merge tree).tokens.map (fun p => (p.1, p.2.kind)) = [("a", none)] := by
  intro source
  have hlisted : (Tree.read source).toOption.map (fun tree =>
      ((tree.listed "A").map fun placed => (placed.1, placed.2.kind),
        tree.flatten.map fun placed => (placed.1, placed.2.kind))) =
      some ([(["a"], some "text")], [(["A", "a"], some "text")]) := by decide +kernel
  have hcut : (Tree.read source).toOption.map (fun tree =>
      (tree.namespaces.flatMap fun p => (Job.ofNode {} (SharedText.merge tree) p.1 p.2).own.map
          fun placed => (placed.1, placed.2.kind),
        (SharedText.merge tree).tokens.map fun p => (p.1, p.2.kind))) =
      some ([(["a"], none)], [("a", none)]) := by decide +kernel
  rcases hread : Tree.read source with error | tree
  · simp [hread, Except.toOption] at hlisted
  · simp only [hread, Except.toOption, Option.map_some, Option.some.injEq, Prod.mk.injEq]
      at hlisted hcut
    exact ⟨tree, rfl, hlisted.1, hcut.1, hlisted.2, hcut.2⟩

end TokenSheets
