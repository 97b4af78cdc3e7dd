import TokenSheets.Proofs.Namespace.Inheritance
import TokenSheets.Proofs.Token.DistinctKeys

/-!
# Shared texts: one list for all namespaces

The texts of all groups of a document are merged by name. A name keeps the place where it comes
first and the token that comes last, with the type of the group of this token. Every namespace gets
the whole list as its group `text`, in place of what it has there; the list names no type, so a
text that has none takes the one of the namespace.

* `Token.Completes`: a token of a group as it is merged, field by field;
* `SharedText.keys_merge`: merged names stand where they come first;
* `merging_keeps_the_last_text_of_every_name`: the texts of a document;
* `Job.shared_ofNode`: the texts of a namespace;
* `shared_texts_differ_in_the_type_of_the_namespace_alone`: the texts of two namespaces.
-/

namespace TokenSheets

/-- **The last of its kind** in a list is one, and so is its place. -/
theorem eq_of_last {α : Type} {p : α → Prop} {a b : α} : ∀ {front front' behind behind' : List α},
    front ++ a :: behind = front' ++ b :: behind' → p a → p b → (∀ x ∈ behind, ¬ p x) →
      (∀ x ∈ behind', ¬ p x) → front = front' ∧ a = b ∧ behind = behind'
  | [], [], _, _, h, _, _, _, _ => by simpa using h
  | [], _ :: front', _, _, h, _, hb, hlast, _ => by
    obtain ⟨-, rfl⟩ := List.cons.inj h
    exact absurd hb (hlast b (by simp))
  | _ :: front, [], _, _, h, ha, _, _, hlast => by
    obtain ⟨-, rfl⟩ := List.cons.inj h
    exact absurd ha (hlast a (by simp))
  | x :: front, y :: front', _, _, h, ha, hb, hlast, hlast' => by
    obtain ⟨rfl, hrest⟩ := List.cons.inj h
    obtain ⟨rfl, rfl, rfl⟩ := eq_of_last hrest ha hb hlast hlast'
    exact ⟨rfl, rfl, rfl⟩

/-! ### Tokens that are completed -/

/-- **A token completes another one** with a type from outside: both spellings of value and type are
filled, the type with the one from outside if there is none, and everything else is as it was. -/
structure Token.Completes (token raw : Token) (kind : Option String) : Prop where
  sigilValue : token.sigilValue = raw.sigilValue.or raw.plainValue
  plainValue : token.plainValue = raw.plainValue.or raw.sigilValue
  sigilKind : token.sigilKind = (raw.sigilKind.or raw.plainKind).or kind
  plainKind : token.plainKind = (raw.plainKind.or raw.sigilKind).or kind
  sigilDescription : token.sigilDescription = raw.sigilDescription
  plainDescription : token.plainDescription = raw.plainDescription
  comment : token.comment = raw.comment
  extra : token.extra = raw.extra

theorem Token.completes_normalized (raw : Token) (kind : Option String) :
    (raw.inherit kind).normalized.Completes raw kind := by
  obtain ⟨_, _, sigilKind, plainKind, _, _, _, _⟩ := raw
  rcases sigilKind with _ | sigilKind <;> rcases plainKind with _ | plainKind <;>
    constructor <;> simp [inherit, normalized, Token.kind]

theorem Token.completes_iff {token raw : Token} {kind : Option String} :
    token.Completes raw kind ↔ token = (raw.inherit kind).normalized := by
  refine ⟨fun h => ?_, fun h => h ▸ completes_normalized raw kind⟩
  have h' := completes_normalized raw kind
  rcases htoken : token
  rcases hother : (raw.inherit kind).normalized
  rw [htoken] at h
  rw [hother] at h'
  simp only [mk.injEq]
  exact ⟨h.sigilValue.trans h'.sigilValue.symm, h.plainValue.trans h'.plainValue.symm,
    h.sigilKind.trans h'.sigilKind.symm, h.plainKind.trans h'.plainKind.symm,
    h.sigilDescription.trans h'.sigilDescription.symm,
    h.plainDescription.trans h'.plainDescription.symm, h.comment.trans h'.comment.symm,
    h.extra.trans h'.extra.symm⟩

theorem Token.Completes.kind_eq {token raw : Token} {kind : Option String}
    (h : token.Completes raw kind) : token.kind = raw.kind.or kind := by
  rw [completes_iff.mp h, kind_normalized, kind_inherit]

/-! ### The texts of a document -/

/-- The names of the tokens that stand directly in a group. -/
def Node.textNames : Node → List String
  | .token _ => []
  | .group _ children => children.filterMap fun
    | (name, .token _) => some name
    | (_, .group ..) => none

/-- **The names of the texts of a document**, as often as they come. -/
def Tree.textNames (document : Tree) : List String :=
  document.namespaces.flatMap fun p => p.2.textNames

theorem Node.mem_textNames {node : Node} {name : String} :
    name ∈ node.textNames ↔
      ∃ kind children token, node = .group kind children ∧ (name, .token token) ∈ children := by
  cases node with
  | token => simp [textNames]
  | group kind children =>
    simp only [textNames, List.mem_filterMap, Node.group.injEq]
    constructor
    · rintro ⟨⟨name', token | _⟩, hmem, hname⟩
      · obtain rfl : name' = name := by simpa using hname
        exact ⟨kind, children, token, ⟨rfl, rfl⟩, hmem⟩
      · simp at hname
    · rintro ⟨_, _, token, ⟨rfl, rfl⟩, hmem⟩
      exact ⟨_, hmem, rfl⟩

namespace SharedText

theorem keys_ofNode (node : Node) : Entries.keys (ofNode node) = node.textNames := by
  cases node with
  | token => rfl
  | group kind children =>
    rw [ofNode, Node.textNames, Entries.keys, List.map_filterMap]
    refine List.filterMap_congr fun p _ => ?_
    rcases p with ⟨name, token | _⟩ <;> rfl

/-- **The names of the merged texts**, each where it comes first. -/
theorem keys_merge (document : Tree) :
    Entries.keys (merge document).tokens = document.textNames.eraseDups := by
  have hnames : Entries.keys (document.namespaces.flatMap fun p => ofNode p.2) =
      document.textNames := by
    rw [Entries.keys, List.map_flatMap]
    exact List.flatMap_congr fun p _ => keys_ofNode p.2
  rw [merge, Entries.keys_ofList, hnames]

theorem distinct_merge (document : Tree) : (merge document).tokens.Distinct :=
  Entries.distinct_ofList _

end SharedText

theorem Tree.namespaces_eq (document : Tree) : document.namespaces =
    document.children.filter fun p => p.1 ≠ "$themes" ∧ p.1 ≠ "$metadata" := by
  simp [namespaces, reservedKeys]

/-- **Merging keeps the last text of every name, where the name comes first.** A name that some
group of the top level has is there once, in the order in which the names come first; tokens of the
top level and groups inside a group give none. Its text completes the token of the last group that
has the name, with the type of this very group: the type is its own, or else that of the group. -/
theorem merging_keeps_the_last_text_of_every_name {document : Tree}
    (distinct : document.DistinctKeys) :
    document.namespaces =
      document.children.filter (fun p => p.1 ≠ "$themes" ∧ p.1 ≠ "$metadata") ∧
    Entries.keys (SharedText.merge document).tokens = document.textNames.eraseDups ∧
    (SharedText.merge document).tokens.Distinct ∧
    ∀ name token, (SharedText.merge document).get? name = some token ↔
      ∃ front group kind children behind raw,
        document.namespaces = front ++ (group, .group kind children) :: behind ∧
        (name, .token raw) ∈ children ∧ (∀ later ∈ behind, name ∉ later.2.textNames) ∧
        token.Completes raw kind ∧ token.kind = raw.kind.or kind := by
  have hlast : ∀ name token, (SharedText.merge document).get? name = some token →
      ∃ front group kind children behind raw,
        document.namespaces = front ++ (group, .group kind children) :: behind ∧
        (name, .token raw) ∈ children ∧ (∀ later ∈ behind, name ∉ later.2.textNames) ∧
        token = (raw.inherit kind).normalized := by
    intro name token hget
    obtain ⟨front, group, kind, children, behind, raw, hspaces, hraw, htoken, hbehind⟩ :=
      SharedText.exists_of_mem_merge (Entries.mem_of_get? hget)
    exact ⟨front, group, kind, children, behind, raw, hspaces, hraw,
      fun later hlater => SharedText.keys_ofNode later.2 ▸ hbehind later hlater, htoken⟩
  refine ⟨document.namespaces_eq, SharedText.keys_merge document,
    SharedText.distinct_merge document, fun name token => ⟨fun hget => ?_, ?_⟩⟩
  · obtain ⟨front, group, kind, children, behind, raw, hspaces, hraw, hbehind, htoken⟩ :=
      hlast name token hget
    have hcompletes := Token.completes_iff.mpr htoken
    exact ⟨front, group, kind, children, behind, raw, hspaces, hraw, hbehind, hcompletes,
      hcompletes.kind_eq⟩
  rintro ⟨front, group, kind, children, behind, raw, hspaces, hraw, hbehind, hcompletes, -⟩
  obtain rfl := Token.completes_iff.mp hcompletes
  have hhas : name ∈ (Node.group kind children).textNames :=
    Node.mem_textNames.mpr ⟨kind, children, raw, rfl, hraw⟩
  have hname : name ∈ Entries.keys (SharedText.merge document).tokens := by
    rw [SharedText.keys_merge, List.mem_eraseDups, Tree.textNames, hspaces]
    exact List.mem_flatMap.mpr ⟨(group, .group kind children), by simp, hhas⟩
  -- the name has a text, and the last group that has it is the given one
  obtain ⟨token, hget⟩ := Entries.exists_get?_of_mem hname
  obtain ⟨front', group', kind', children', behind', raw', hspaces', hraw', hbehind', htoken⟩ :=
    hlast name token hget
  have hhas' : name ∈ (Node.group kind' children').textNames :=
    Node.mem_textNames.mpr ⟨kind', children', raw', rfl, hraw'⟩
  obtain ⟨-, hgroup, -⟩ := eq_of_last (p := fun p => name ∈ p.2.textNames)
    (hspaces.symm.trans hspaces') hhas hhas' hbehind hbehind'
  obtain ⟨rfl, rfl, rfl⟩ : group = group' ∧ kind = kind' ∧ children = children' := by
    simpa using hgroup
  have hchildren : Entries.Distinct children := by
    have hthere : (group, Node.group kind children) ∈ document.children :=
      Tree.mem_children_of_mem_namespaces (hspaces ▸ by simp)
    exact (Node.distinctKeys_group.mp ((Node.distinctKeys_group.mp distinct).2 _ hthere)).1
  have hsame : (Node.token raw) = .token raw' := by
    have hfirst := Entries.get?_of_mem hchildren hraw
    rw [Entries.get?_of_mem hchildren hraw'] at hfirst
    exact (Option.some.inj hfirst).symm
  obtain rfl : raw = raw' := by simpa using hsame
  rw [SharedText.get?, ← htoken]
  exact hget

/-- A token at the top level, two groups with a text of the same name, and a group inside a group:
the name comes first in the first group, and its text is the one of the second group, of which it
takes the type. -/
theorem merging_keeps_the_last_text_of_every_name_again :
    let hi : Token := { sigilValue := some (.text "Hi"), sigilKind := some "label" }
    let hello : Token := { plainValue := some (.text "Hello"), comment := some "short",
                           extra := [("lang", .text "en")] }
    let document : Tree := { children := [("loose", .token hi),
      ("Home", .group (some "page") [("greeting", .token hi), ("end", .token hi)]),
      ("$themes", .group none [("greeting", .token hi)]),
      ("Help", .group (some "text") [("more", .group none [("end", .token hello)]),
        ("greeting", .token hello)]),
      ("$metadata", .group none [("greeting", .token hi)])] }
    document.DistinctKeys ∧
    Entries.keys (SharedText.merge document).tokens = ["greeting", "end"] ∧
    (SharedText.merge document).get? "greeting" = some
      { sigilValue := some (.text "Hello"), plainValue := some (.text "Hello"),
        sigilKind := some "text", plainKind := some "text", comment := some "short",
        extra := [("lang", .text "en")] } := by
  intro hi hello document
  have distinct : document.DistinctKeys := by
    simp [document, Tree.DistinctKeys, Tree.toNode, Node.distinctKeys_group,
      Node.DistinctKeys.token, Entries.Distinct]
  obtain ⟨-, hkeys, -, hlast⟩ := merging_keeps_the_last_text_of_every_name distinct
  refine ⟨distinct, hkeys.trans (by decide), (hlast "greeting" _).mpr ?_⟩
  exact ⟨[("loose", .token hi),
      ("Home", .group (some "page") [("greeting", .token hi), ("end", .token hi)])],
    "Help", some "text", _, [], hello, rfl, by simp, by simp, by constructor <;> rfl, rfl⟩

/-! ### The texts of a namespace -/

/-- **The shared texts as a namespace lists them** whose group names this type. -/
def SharedText.listed (text : SharedText) (kind : Option String) : List Placed :=
  text.tokens.map fun p => ([Job.textKey, p.1], (p.2.inherit kind).normalized)

/-- **The tokens of a job** that stand where the shared texts go. -/
def Job.shared (job : Job) : List Placed := job.tokens.flatten.filter Placed.isShared

theorem Node.DistinctKeys.treeOf {node : Node} (h : node.DistinctKeys) :
    Entries.Distinct (Job.treeOf node).children := by
  cases h with
  | token => exact List.nodup_nil
  | group distinct => exact distinct

theorem SharedText.children_toTree {text : SharedText} (distinct : text.tokens.Distinct) :
    text.toTree.children = text.tokens.map fun p => (p.1, .token p.2) := by
  refine Entries.ofList_of_distinct ?_
  rw [Entries.Distinct, Entries.keys, List.map_map]
  exact distinct

theorem SharedText.flatten_toTree {text : SharedText} (distinct : text.tokens.Distinct)
    (inherited : Option String) :
    text.toTree.toNode.flatten inherited =
      text.tokens.map fun p => ([p.1], (p.2.inherit inherited).normalized) := by
  have huntyped : text.toTree.kind.or inherited = inherited := rfl
  rw [Tree.flatten_toNode, children_toTree distinct, huntyped, flattenChildren_eq_flatMap,
    List.flatMap_map, List.map_eq_flatMap]
  refine List.flatMap_congr fun p _ => ?_
  simp [Node.flatten, Placed.under]

/-- **A namespace lists the shared texts** as its own group makes them, whatever it has under their
key. -/
theorem Job.shared_ofNode {text : SharedText} (distinct : text.tokens.Distinct) (config : Config)
    (key : String) {node : Node} (hnode : node.DistinctKeys) :
    (ofNode config text key node).shared = text.listed (treeOf node).kind := by
  have hinsert : (ofNode config text key node).shared =
      (text.toTree.toNode.flatten (treeOf node).kind).map (Placed.under textKey) :=
    filter_isBelow_insert textKey (treeOf node).kind text.toTree.toNode hnode.treeOf
  rw [hinsert, SharedText.flatten_toTree distinct, List.map_map]
  rfl

theorem Token.inherit_eq_inherit_iff (token : Token) {kind kind' : Option String} :
    (token.inherit kind).normalized = (token.inherit kind').normalized ↔
      kind = kind' ∨ token.kind.isSome := by
  constructor
  · intro hsame
    have hkinds : token.kind.or kind = token.kind.or kind' := by
      rw [← kind_inherit, ← kind_inherit, ← kind_normalized (token.inherit kind), hsame,
        kind_normalized]
    rcases hown : token.kind with _ | own
    · rw [hown, Option.none_or, Option.none_or] at hkinds
      exact .inl hkinds
    · exact .inr rfl
  · rintro (rfl | hown)
    · rfl
    · have hhas : ¬ token.kind.isNone = true := by simp [Option.isSome_iff_ne_none.mp hown]
      rw [inherit, inherit, if_neg hhas, if_neg hhas]

theorem SharedText.listed_eq_iff {text : SharedText} {kind kind' : Option String} :
    text.listed kind = text.listed kind' ↔
      kind = kind' ∨ ∀ p ∈ text.tokens, p.2.kind.isSome := by
  have hlists : text.listed kind = text.listed kind' ↔
      ∀ p ∈ text.tokens, (p.2.inherit kind).normalized = (p.2.inherit kind').normalized := by
    rw [listed, listed, List.map_inj_left]
    simp
  simp only [hlists, Token.inherit_eq_inherit_iff]
  by_cases hkind : kind = kind' <;> simp [hkind]

/-- **The shared texts are the same in every namespace, apart from the type of the namespace.** Two
jobs, whatever their keys, groups and settings are, list the merged texts in their order and nothing
of their own, at the same places and with the same values; a text has its own type, or the one that
the group of the namespace names. So both lists are the same if and only if both groups name the
same type, or every text has one. -/
theorem shared_texts_differ_in_the_type_of_the_namespace_alone {text : SharedText}
    (distinct : text.tokens.Distinct) (config config' : Config) (key key' : String)
    {node node' : Node} (hnode : node.DistinctKeys) (hnode' : node'.DistinctKeys) :
    let first := (Job.ofNode config text key node).shared
    let second := (Job.ofNode config' text key' node').shared
    first.map (fun placed => (placed.1, placed.2.value, placed.2.kind)) =
        text.tokens.map (fun p =>
          ([Job.textKey, p.1], p.2.value, p.2.kind.or (Job.treeOf node).kind)) ∧
      first.map (fun placed => (placed.1, placed.2.value)) =
        second.map (fun placed => (placed.1, placed.2.value)) ∧
      (first = second ↔
        (Job.treeOf node).kind = (Job.treeOf node').kind ∨ ∀ p ∈ text.tokens, p.2.kind.isSome) := by
  intro first second
  have hfirst : first = text.listed (Job.treeOf node).kind :=
    Job.shared_ofNode distinct config key hnode
  have hsecond : second = text.listed (Job.treeOf node').kind :=
    Job.shared_ofNode distinct config' key' hnode'
  rw [hfirst, hsecond]
  refine ⟨?_, ?_, SharedText.listed_eq_iff⟩
  · simp [SharedText.listed, Token.kind_inherit]
  · simp [SharedText.listed]

/-- A namespace with a type and a member under the key of the texts, and one with neither: a text
without a type tells them apart, one with a type does not. -/
theorem shared_texts_differ_in_the_type_of_the_namespace_alone_typed :
    let hi : Token := { sigilValue := some (.text "Hi") }
    let typed : SharedText := ⟨[("hi", { hi with plainKind := some "text" })]⟩
    let untyped : SharedText := ⟨[("hi", hi)]⟩
    let node : Node := .group (some "color") [("text", .token {}), ("gap", .token {})]
    let node' : Node := .group none []
    (Job.ofNode {} typed "a" node).shared = (Job.ofNode {} typed "b" node').shared ∧
    (Job.ofNode {} untyped "a" node).shared ≠ (Job.ofNode {} untyped "b" node').shared := by
  intro hi typed untyped node node'
  have hnode : node.DistinctKeys := by
    simp [node, Node.distinctKeys_group, Node.DistinctKeys.token, Entries.Distinct]
  have hnode' : node'.DistinctKeys := by
    simp [node', Node.distinctKeys_group, Entries.Distinct]
  have htyped : typed.tokens.Distinct := by simp [typed, Entries.Distinct]
  have huntyped : untyped.tokens.Distinct := by simp [untyped, Entries.Distinct]
  obtain ⟨-, -, hsame⟩ := shared_texts_differ_in_the_type_of_the_namespace_alone htyped {} {}
    "a" "b" hnode hnode'
  obtain ⟨-, -, hdiffer⟩ := shared_texts_differ_in_the_type_of_the_namespace_alone huntyped {} {}
    "a" "b" hnode hnode'
  refine ⟨hsame.mpr (.inr (by simp [typed, Token.kind])), fun h => ?_⟩
  rcases hdiffer.mp h with hkind | hall
  · simp [node, node', Job.treeOf] at hkind
  · simp [untyped, hi, Token.kind] at hall

/-- **A text takes the type of its namespace**: with one document and one list of texts, the text is
a text in the first namespace and has no type in the second. -/
theorem a_text_takes_the_type_of_its_namespace :
    let core := "\x7b\"A\":\x7b\"$type\":\"text\"\x7d,\"B\":\x7b\x7d\x7d"
    let font := "\x7b\"Home\":\x7b\"hi\":\x7b\"$value\":\"Hi\"\x7d\x7d\x7d"
    ∃ document texts, Tree.read core = .ok document ∧ Tree.read font = .ok texts ∧
      ∃ first second, Job.ofDocument {} (SharedText.merge texts) document = [first, second] ∧
        first.shared.map (fun placed => (placed.1, placed.2.kind)) =
          [(["text", "hi"], some "text")] ∧
        second.shared.map (fun placed => (placed.1, placed.2.kind)) = [(["text", "hi"], none)] ∧
        first.shared ≠ second.shared := by
  intro core font
  have hlists : (do
      let document ← (Tree.read core).toOption
      let texts ← (Tree.read font).toOption
      return (Job.ofDocument {} (SharedText.merge texts) document).map fun job =>
        job.shared.map fun placed => (placed.1, placed.2.kind)) =
      some [[(["text", "hi"], some "text")], [(["text", "hi"], none)]] := by decide +kernel
  rcases hdocument : Tree.read core with error | document
  · simp [hdocument, Except.toOption] at hlists
  rcases htexts : Tree.read font with error | texts
  · simp [hdocument, htexts, Except.toOption] at hlists
  replace hlists : (Job.ofDocument {} (SharedText.merge texts) document).map (fun job =>
      job.shared.map fun placed => (placed.1, placed.2.kind)) =
      [[(["text", "hi"], some "text")], [(["text", "hi"], none)]] := by
    simpa [hdocument, htexts, Except.toOption] using hlists
  obtain ⟨first, second, hjobs⟩ : ∃ first second,
      Job.ofDocument {} (SharedText.merge texts) document = [first, second] :=
    List.length_eq_two.mp (by simpa using congrArg List.length hlists)
  rw [hjobs, List.map_cons, List.map_cons, List.map_nil, List.cons.injEq, List.cons.injEq] at hlists
  obtain ⟨hfirst, hsecond, -⟩ := hlists
  refine ⟨document, texts, rfl, rfl, first, second, hjobs, hfirst, hsecond, fun hsame => ?_⟩
  rw [hsame, hsecond] at hfirst
  simp at hfirst

end TokenSheets
