import TokenSheets.Proofs.Token.Leaves

/-!
# Which documents load

Only a leaf can keep a document from being read, by a type or a description that is neither a string
nor `null`. All other members of a leaf are kept as they are, a group takes what it understands, and
nothing under a reserved key is looked at. So a document is read unless keys lead to such a leaf,
and the error is always the same.

* `Token.ofMembers_eq_error`: the leaves that are no tokens;
* `HoldsMistyped`: the groups in which keys lead to such a leaf;
* `groupOfMembers_eq_error`: they are the groups that cannot be read.
-/

namespace TokenSheets

/-! ### Leaves -/

namespace Token

/-- The names of the fields that hold a string. -/
def textFieldNames : List String := ["$type", "type", "$description", "description", "comment"]

/-- **A leaf that is no token**: one of its fields must hold a string, and holds something else. -/
def IsMistyped (leaf : Entries String Json) : Prop :=
  ∃ name ∈ textFieldNames, ∃ value, leaf.get? name = some value ∧ value ≠ .null ∧
    ∀ content, value ≠ .text content

theorem textField_eq_error {members : Entries String Json} {name : String} {error : JsonError} :
    textField members name = .error error ↔
      error = .mismatch ∧ ∃ value, members.get? name = some value ∧ value ≠ .null ∧
        ∀ content, value ≠ .text content := by
  unfold textField
  rcases members.get? name with _ | value
  · simp
  · cases value <;> simp [eq_comm]

theorem isMistyped_iff {leaf : Entries String Json} :
    IsMistyped leaf ↔ ∃ name ∈ textFieldNames, textField leaf name = .error .mismatch := by
  simp only [IsMistyped, textField_eq_error, true_and]

/-- **A leaf is no token** if it is mistyped, and for no other reason. -/
theorem ofMembers_eq_error {leaf : Entries String Json} {error : JsonError} :
    ofMembers leaf = .error error ↔ error = .mismatch ∧ IsMistyped leaf := by
  have hmismatch : ∀ {name error}, textField leaf name = .error error → error = .mismatch :=
    fun h => (textField_eq_error.mp h).1
  rw [isMistyped_iff, eq_comm (a := error)]
  unfold ofMembers
  rcases h1 : textField leaf "$type" with e | k1
  · simp [h1, hmismatch h1, textFieldNames, bind, Except.bind]
  rcases h2 : textField leaf "type" with e | k2
  · simp [h1, h2, hmismatch h2, textFieldNames, bind, Except.bind]
  rcases h3 : textField leaf "$description" with e | d1
  · simp [h1, h2, h3, hmismatch h3, textFieldNames, bind, Except.bind]
  rcases h4 : textField leaf "description" with e | d2
  · simp [h1, h2, h3, h4, hmismatch h4, textFieldNames, bind, Except.bind]
  rcases h5 : textField leaf "comment" with e | d3
  · simp [h1, h2, h3, h4, h5, hmismatch h5, textFieldNames, bind, Except.bind]
  simp [h1, h2, h3, h4, h5, textFieldNames, bind, Except.bind, pure, Except.pure]

end Token

/-! ### Groups -/

/-- **Keys lead to a leaf that is no token.** -/
def HoldsMistyped (members : Entries String Json) : Prop :=
  ∃ keys groups leaf, Leads members keys groups leaf ∧ Token.IsMistyped leaf

/-- The value is a leaf that is no token, or a group in which keys lead to one. -/
def Json.IsMistyped : Json → Prop
  | .object inner =>
    if Token.isLeaf inner then Token.IsMistyped inner else HoldsMistyped inner
  | _ => False

theorem holdsMistyped_iff {members : Entries String Json} :
    HoldsMistyped members ↔ ∃ p ∈ members, isReserved p.1 = false ∧ p.2.IsMistyped := by
  constructor
  · rintro ⟨keys, groups, leaf, hleads, hleaf⟩
    cases hleads with
    | leaf hp hr hl => exact ⟨_, hp, hr, by rwa [Json.IsMistyped, if_pos hl]⟩
    | group hp hr hl hleads =>
      refine ⟨_, hp, hr, ?_⟩
      rw [Json.IsMistyped, if_neg (by simp [hl])]
      exact ⟨_, _, leaf, hleads, hleaf⟩
  · rintro ⟨⟨key, value⟩, hp, hr, hvalue⟩
    cases value with
    | object inner =>
      rw [Json.IsMistyped] at hvalue
      split_ifs at hvalue with hl
      · exact ⟨[key], _, inner, .leaf hp hr hl, hvalue⟩
      · obtain ⟨keys, groups, leaf, hleads, hleaf⟩ := hvalue
        exact ⟨key :: keys, _, leaf, .group hp hr (by simpa using hl) hleads, hleaf⟩
    | _ => exact hvalue.elim

theorem holdsMistyped_cons {p : String × Json} {rest : Entries String Json} :
    HoldsMistyped (p :: rest) ↔
      (isReserved p.1 = false ∧ p.2.IsMistyped) ∨ HoldsMistyped rest := by
  simp only [holdsMistyped_iff, List.mem_cons, exists_eq_or_imp]

mutual

theorem Node.ofJson_eq_error : ∀ {value : Json} {error : JsonError},
    Node.ofJson value = .error error ↔ error = .mismatch ∧ value.IsMistyped
  | .object inner, error => by
    rw [Node.ofJson, Json.IsMistyped]
    split_ifs
    · rw [← Token.ofMembers_eq_error]
      rcases Token.ofMembers inner with e | token <;> simp [Except.map]
    · rw [← groupOfMembers_eq_error]
      rcases groupOfMembers inner with e | tree <;> simp [bind, Except.bind, pure, Except.pure]
  | .null, _ | .bool _, _ | .whole _, _ | .double _, _ | .text _, _ | .list _, _ => by
    simp [Node.ofJson, Json.IsMistyped]

/-- **A group cannot be read** if keys lead to a leaf that is no token, and for no other reason. -/
theorem groupOfMembers_eq_error : ∀ {members : List (String × Json)} {error : JsonError},
    groupOfMembers members = .error error ↔ error = .mismatch ∧ HoldsMistyped members
  | [], error => by simp [groupOfMembers, holdsMistyped_iff]
  | (key, value) :: rest, error => by
    have hvalue : ∀ e, Node.ofJson value = .error e ↔ e = .mismatch ∧ value.IsMistyped :=
      fun _ => Node.ofJson_eq_error
    have hrest : ∀ e, groupOfMembers rest = .error e ↔ e = .mismatch ∧ HoldsMistyped rest :=
      fun _ => groupOfMembers_eq_error
    rw [groupOfMembers_cons, holdsMistyped_cons]
    split_ifs with hr
    · simp only [hr, Bool.true_eq_false, false_and, false_or, ← hrest]
      rcases groupOfMembers rest with e | tree <;> simp [Except.map]
    · simp only [hr, true_and]
      rcases hn : Node.ofJson value with e | node
      · obtain ⟨rfl, hbad⟩ := (hvalue e).mp hn
        simp [hbad, Except.bind, eq_comm]
      · have hgood : ¬ value.IsMistyped := fun h => by simp [(hvalue _).mpr ⟨rfl, h⟩] at hn
        simp only [hgood, false_or, ← hrest]
        rcases groupOfMembers rest with e | tree <;> simp [Except.map, Except.bind]

end

end TokenSheets
