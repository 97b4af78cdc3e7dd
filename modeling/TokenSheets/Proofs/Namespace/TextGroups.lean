import TokenSheets.Proofs.Namespace.SharedTexts
import TokenSheets.Proofs.Token.Obtained

/-!
# Shared texts as a document

Texts that are merged can be put back into a document, as its only group. Merging leaves nothing to
be settled there: no name comes twice, every token has both spellings, and a type that its old group
named has become its own. So the same texts are merged from the new document, and the document lists
them as they are. It must not hide the group under a reserved key, and must not name a type, which
the texts that have none would take.

* `SharedText.IsSettled`: how merging leaves texts;
* `SharedText.toDocument`: texts as the only group of a document;
* `SharedText.exists_merge_iff_isSettled`: the texts that are merged from documents;
* `SharedText.merge_toDocument_eq_self_iff`: which texts are merged again;
* `SharedText.flatten_toDocument_eq_iff`: which texts are listed as they are;
* `merged_texts_come_back_from_their_group`: all of it.
-/

namespace TokenSheets

namespace SharedText

variable {text : SharedText} {kind : Option String} {group : String}

/-! ### Settled texts -/

/-- **Texts that merging has nothing to change about**: no name comes twice, and every token has
both spellings filled. -/
structure IsSettled (text : SharedText) : Prop where
  distinct : text.tokens.Distinct
  normal : ∀ p ∈ text.tokens, p.2.normalized = p.2

theorem isSettled_merge (document : Tree) : (merge document).IsSettled where
  distinct := distinct_merge document
  normal := by
    rintro ⟨name, token⟩ hmem
    obtain ⟨_, _, kind, _, _, raw, _, _, rfl, _⟩ := exists_of_mem_merge hmem
    exact Token.normalized_normalized (raw.inherit kind)

theorem isSettled_of_nil (h : text.tokens = []) : text.IsSettled where
  distinct := h ▸ List.nodup_nil
  normal := by simp [h]

theorem IsSettled.inherit_none (h : text.IsSettled) {p : String × Token} (hmem : p ∈ text.tokens) :
    (p.2.inherit none).normalized = p.2 :=
  (Token.inherit_eq_self_iff (h.normal p hmem) none).mpr (.inl rfl)

/-! ### Texts in a document of their own -/

/-- **The document whose only group holds the texts.** The group names no type, the document may. -/
def toDocument (text : SharedText) (kind : Option String) (group : String) : Tree :=
  { Tree.collect [(group, text.toTree.toNode)] with kind }

theorem children_toDocument (text : SharedText) (kind : Option String) (group : String) :
    (text.toDocument kind group).children = [(group, text.toTree.toNode)] := rfl

theorem obtained_toDocument (text : SharedText) (kind : Option String) (group : String) :
    (text.toDocument kind group).Obtained [(group, text.toTree.toNode)] := by
  have htexts : text.toTree.Obtained (text.tokens.map fun p => (p.1, .token p.2)) :=
    .collect (List.forall_mem_map.mpr fun p _ => .token p.2)
  exact .setKind (.collect (List.forall_mem_singleton.mpr (.group htexts))) kind

theorem IsSettled.ofNode_toTree (h : text.IsSettled) : ofNode text.toTree.toNode = text.tokens := by
  rw [Tree.toNode, ofNode, children_toTree h.distinct, List.filterMap_map]
  refine (List.filterMap_congr fun p hmem => ?_).trans List.filterMap_some
  exact congrArg (fun token => some (p.1, token)) (h.inherit_none hmem)

theorem merge_toDocument_of_reserved (reserved : group ∈ Tree.reservedKeys) :
    merge (text.toDocument kind group) = {} := by
  have hspaces : (text.toDocument kind group).namespaces = [] := by
    simp [Tree.namespaces, children_toDocument, reserved]
  rw [merge, hspaces]
  rfl

theorem IsSettled.merge_toDocument (h : text.IsSettled) (plain : group ∉ Tree.reservedKeys) :
    merge (text.toDocument kind group) = text := by
  have hspaces : (text.toDocument kind group).namespaces = [(group, text.toTree.toNode)] := by
    simp [Tree.namespaces, children_toDocument, plain]
  rw [merge, hspaces, List.flatMap_singleton, h.ofNode_toTree,
    Entries.ofList_of_distinct h.distinct]

/-- **The texts that documents give** are the settled ones. -/
theorem exists_merge_iff_isSettled : (∃ document, merge document = text) ↔ text.IsSettled := by
  constructor
  · rintro ⟨document, rfl⟩
    exact isSettled_merge document
  · intro h
    have plain : Job.textKey ∉ Tree.reservedKeys := by decide
    exact ⟨text.toDocument none Job.textKey, h.merge_toDocument plain⟩

/-- **Texts come back from their group** if they are settled and the group can be seen. -/
theorem merge_toDocument_eq_self_iff :
    merge (text.toDocument kind group) = text ↔
      group ∉ Tree.reservedKeys ∧ text.IsSettled ∨ text.tokens = [] := by
  by_cases hgroup : group ∈ Tree.reservedKeys
  · rw [merge_toDocument_of_reserved hgroup]
    constructor
    · exact fun hempty => .inr (congrArg tokens hempty).symm
    · rintro (⟨hplain, -⟩ | hempty)
      · exact absurd hgroup hplain
      · exact congrArg mk hempty.symm
  · constructor
    · exact fun hback => .inl ⟨hgroup, hback ▸ isSettled_merge _⟩
    · rintro (⟨-, hsettled⟩ | hempty)
      · exact hsettled.merge_toDocument hgroup
      · exact (isSettled_of_nil hempty).merge_toDocument hgroup

/-! ### What such a document lists -/

theorem flatten_toDocument (distinct : text.tokens.Distinct) (kind : Option String)
    (group : String) :
    (text.toDocument kind group).flatten =
      (text.tokens.map fun p => ([group, p.1], p.2)).map (Placed.inherit · kind) := by
  rw [Tree.flatten, children_toDocument, flattenChildren, flattenChildren, List.append_nil,
    flatten_toTree distinct, List.map_map, List.map_map]
  rfl

theorem distinct_of_flatten_toDocument
    (h : (text.toDocument kind group).flatten = text.tokens.map fun p => ([group, p.1], p.2)) :
    text.tokens.Distinct := by
  have happart := Node.pairwise_apart (obtained_toDocument text kind group).distinctKeys none
  rw [Tree.flatten_toNode, Option.or_none] at happart
  have hplaces : ((text.toDocument kind group).flatten.map (·.1)).Nodup :=
    (prefixFree_of_pairwise_apart happart).1
  have hnames : (text.toDocument kind group).flatten.map (·.1) =
      (Entries.keys text.tokens).map fun name => [group, name] := by
    rw [h, Entries.keys, List.map_map, List.map_map]
    rfl
  rw [hnames] at hplaces
  exact hplaces.of_map

/-- **The document lists the texts as they are** if they are settled and notice no type. -/
theorem flatten_toDocument_eq_iff :
    (text.toDocument kind group).flatten = text.tokens.map (fun p => ([group, p.1], p.2)) ↔
      text.IsSettled ∧ (kind = none ∨ ∀ p ∈ text.tokens, p.2.kind.isSome) := by
  have hnotice (hsettled : text.IsSettled) :
      (text.toDocument kind group).flatten = text.tokens.map (fun p => ([group, p.1], p.2)) ↔
        kind = none ∨ ∀ p ∈ text.tokens, p.2.kind.isSome := by
    have hnormal : ∀ placed ∈ text.tokens.map fun p => ([group, p.1], p.2),
        placed.2.normalized = placed.2 := List.forall_mem_map.mpr hsettled.normal
    rw [flatten_toDocument hsettled.distinct, map_inherit_eq_self_iff hnormal,
      List.forall_mem_map]
  constructor
  · intro h
    have hnormal : ∀ placed ∈ (text.toDocument kind group).flatten,
        placed.2.normalized = placed.2 := normalized_of_mem_flattenChildren _
    rw [h, List.forall_mem_map] at hnormal
    have hsettled : text.IsSettled := ⟨distinct_of_flatten_toDocument h, hnormal⟩
    exact ⟨hsettled, (hnotice hsettled).mp h⟩
  · rintro ⟨hsettled, hunnoticed⟩
    exact (hnotice hsettled).mpr hunnoticed

end SharedText

/-- **Merged texts come back from their group.** Texts are merged from some document if and only if
they are settled. Just these are given back, the same ones in the same order, by a document that has
them as its only group, unless this stands under a reserved key and there are texts to be lost. And
just these are listed by such a document as they are, each one behind the key of the group, as long
as the document names no type or every text has one. -/
theorem merged_texts_come_back_from_their_group (text : SharedText) (kind : Option String)
    (group : String) :
    let merged := ∃ document, SharedText.merge document = text
    let again := text.toDocument kind group
    (merged ↔ text.IsSettled) ∧
    (SharedText.merge again = text ↔
      group ∉ Tree.reservedKeys ∧ merged ∨ text.tokens = []) ∧
    (again.flatten = text.tokens.map (fun p => ([group, p.1], p.2)) ↔
      merged ∧ (kind = none ∨ ∀ p ∈ text.tokens, p.2.kind.isSome)) := by
  intro merged again
  have hmerged : merged ↔ text.IsSettled := SharedText.exists_merge_iff_isSettled
  rw [hmerged]
  exact ⟨Iff.rfl, SharedText.merge_toDocument_eq_self_iff, SharedText.flatten_toDocument_eq_iff⟩

/-- A text whose spellings disagree keeps both. One without a type notices that the new document
names one. -/
example :
    let hi : Token := { Token.ofValue (.text "Hi") "text" with plainKind := some "label" }
    let bye : Token := { plainValue := some (.text "Bye") }
    let home : Node := .group none [("hi", .token hi), ("bye", .token bye)]
    let text := SharedText.merge { children := [("Home", home)] }
    SharedText.merge (text.toDocument none "all") = text ∧
    (text.get? "hi").map (fun token => (token.sigilKind, token.plainKind)) =
      some (some "text", some "label") ∧
    (text.toDocument none "all").flatten.map (·.2.kind) = [some "text", none] ∧
    (text.toDocument (some "size") "all").flatten.map (·.2.kind) = [some "text", some "size"] :=
  ⟨rfl, rfl, rfl, rfl⟩

end TokenSheets
