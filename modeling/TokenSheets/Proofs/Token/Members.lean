import Mathlib.Tactic
import TokenSheets.Token.Basic

/-!
# The members of a token

A token keeps every member of its object: seven in fields of their own, all others as they are.
Only a `null` in one of the seven is lost, since it counts as no member. `IsMadeOf` says what each
field takes from the members, and `IsWritable` what a token must not hold so that its own object
makes it again.

* `ofMembers_eq_ok_iff`: the tokens that members make;
* `ofMembers_toMembers`: writable tokens are read back;
* `toMembers_of_isMadeOf`: the members of a token that was read;
* `tokens_are_written_as_they_were_read`: both for an object.
-/

namespace TokenSheets.Token

variable {token : Token} {members : Entries String Json} {name : String}

/-! ### What a token takes from the members -/

/-- **The token that members make**, field by field. -/
structure IsMadeOf (token : Token) (members : Entries String Json) : Prop where
  sigilValue : valueField members "$value" = token.sigilValue
  plainValue : valueField members "value" = token.plainValue
  sigilKind : textField members "$type" = .ok token.sigilKind
  plainKind : textField members "type" = .ok token.plainKind
  sigilDescription : textField members "$description" = .ok token.sigilDescription
  plainDescription : textField members "description" = .ok token.plainDescription
  comment : textField members "comment" = .ok token.comment
  extra : (members.filter fun p => p.1 ∉ fieldNames) = token.extra

theorem ofMembers_eq_ok_iff : ofMembers members = .ok token ↔ token.IsMadeOf members := by
  constructor
  · intro h
    unfold ofMembers at h
    rcases h1 : textField members "$type" with e | k1
    · simp [h1, bind, Except.bind] at h
    rcases h2 : textField members "type" with e | k2
    · simp [h1, h2, bind, Except.bind] at h
    rcases h3 : textField members "$description" with e | d1
    · simp [h1, h2, h3, bind, Except.bind] at h
    rcases h4 : textField members "description" with e | d2
    · simp [h1, h2, h3, h4, bind, Except.bind] at h
    rcases h5 : textField members "comment" with e | d3
    · simp [h1, h2, h3, h4, h5, bind, Except.bind] at h
    simp only [h1, h2, h3, h4, h5, bind, Except.bind, pure, Except.pure, Except.ok.injEq] at h
    subst h
    exact ⟨rfl, rfl, h1, h2, h3, h4, h5, rfl⟩
  · rintro ⟨h1, h2, h3, h4, h5, h6, h7, h8⟩
    simp only [ofMembers, h1, h2, h3, h4, h5, h6, h7, h8, bind, Except.bind, pure, Except.pure]

theorem valueField_ne_null : valueField members name ≠ some .null := by
  unfold valueField
  split
  · simp
  · assumption

theorem valueField_eq_some {value : Json} :
    valueField members name = some value ↔ members.get? name = some value ∧ value ≠ .null := by
  unfold valueField
  split <;> grind

theorem map_text_of_textField {found : Option String} (h : textField members name = .ok found) :
    found.map Json.text = valueField members name := by
  unfold textField at h
  unfold valueField
  split at h <;> simp_all

theorem textField_of_get? {found : Option String}
    (h : members.get? name = found.map Json.text) : textField members name = .ok found := by
  rw [textField, h]
  cases found <;> rfl

theorem valueField_of_get? {found : Option Json} (h : members.get? name = found)
    (hnull : found ≠ some .null) : valueField members name = found := by
  rw [valueField, h]
  split
  · exact absurd rfl hnull
  · rfl

/-! ### The members that a token makes -/

/-- The fields of a token as JSON, in the order of their names. -/
def fieldValues (token : Token) : List (Option Json) :=
  [token.sigilValue, token.plainValue, token.sigilKind.map .text, token.plainKind.map .text,
    token.sigilDescription.map .text, token.plainDescription.map .text, token.comment.map .text]

/-- The members that fields make, as far as they are present. -/
def present (fields : List (String × Option Json)) : Entries String Json :=
  fields.filterMap fun field => field.2.map (field.1, ·)

theorem toMembers_eq (token : Token) :
    token.toMembers = present (fieldNames.zip token.fieldValues) ++ token.extra := by
  have hfield : ∀ (name : String) (value : Option Json) (rest : List (String × Option Json)),
      present ((name, value) :: rest) = fieldMember name value ++ present rest := by
    rintro name (_ | value) rest <;> rfl
  simp only [toMembers, fieldNames, fieldValues, List.zip_cons_cons, List.zip_nil_right, hfield,
    List.append_assoc]
  rfl

theorem keys_present_sublist (fields : List (String × Option Json)) :
    (Entries.keys (present fields)).Sublist (fields.map (·.1)) := by
  refine Entries.keys_filterMap_sublist (fun field p h => ?_) fields
  obtain ⟨value, -, rfl⟩ := Option.map_eq_some_iff.mp h
  rfl

theorem mem_present {fields : List (String × Option Json)} {value : Json} :
    (name, value) ∈ present fields ↔ (name, some value) ∈ fields := by
  simp only [present, List.mem_filterMap, Option.map_eq_some_iff, Prod.mk.injEq]
  constructor
  · rintro ⟨⟨_, _⟩, hmem, _, rfl, rfl, rfl⟩
    exact hmem
  · exact fun hmem => ⟨_, hmem, value, rfl, rfl, rfl⟩

theorem get?_present {fields : List (String × Option Json)} {value : Option Json}
    (distinct : (fields.map (·.1)).Nodup) (h : (name, value) ∈ fields) :
    (present fields).get? name = value := by
  rcases hget : (present fields).get? name with _ | found
  · rcases value with _ | value
    · rfl
    · have hkey : name ∈ Entries.keys (present fields) :=
        List.mem_map.mpr ⟨_, mem_present.mpr h, rfl⟩
      exact absurd hkey (Entries.get?_eq_none_iff.mp hget)
  · have hfound := mem_present.mp (Entries.mem_of_get? hget)
    exact congrArg Prod.snd (List.inj_on_of_nodup_map distinct hfound h rfl)

/-! ### Writable tokens -/

/-- **The token can be written**: it holds no `null` as a value, and none of its other members has
the name of a field. -/
structure IsWritable (token : Token) : Prop where
  sigilValue : token.sigilValue ≠ some .null
  plainValue : token.plainValue ≠ some .null
  extra : ∀ p ∈ token.extra, p.1 ∉ fieldNames

theorem IsMadeOf.isWritable (h : token.IsMadeOf members) : token.IsWritable where
  sigilValue := h.sigilValue ▸ valueField_ne_null
  plainValue := h.plainValue ▸ valueField_ne_null
  extra p hp := by
    rw [← h.extra, List.mem_filter] at hp
    simpa using hp.2

theorem IsWritable.normalized (h : token.IsWritable) : token.normalized.IsWritable where
  sigilValue := by
    rw [Token.normalized, ne_eq, Option.or_eq_some_iff]
    exact fun heq => heq.elim h.sigilValue fun heq => h.plainValue heq.2
  plainValue := by
    rw [Token.normalized, ne_eq, Option.or_eq_some_iff]
    exact fun heq => heq.elim h.plainValue fun heq => h.sigilValue heq.2
  extra := h.extra

theorem nodup_fieldNames : fieldNames.Nodup := by decide

theorem IsWritable.get?_toMembers (h : token.IsWritable) {value : Option Json}
    (hfield : (name, value) ∈ fieldNames.zip token.fieldValues) :
    Entries.get? name token.toMembers = value := by
  have hname : name ∈ fieldNames := (List.of_mem_zip hfield).1
  have hextra : Entries.get? name token.extra = none := by
    rw [Entries.get?_eq_none_iff, Entries.keys, List.mem_map]
    rintro ⟨p, hp, rfl⟩
    exact h.extra p hp hname
  have hnames : (fieldNames.zip token.fieldValues).map (·.1) = fieldNames :=
    List.map_fst_zip (Nat.le_refl 7)
  rw [toMembers_eq, Entries.get?_append, get?_present (hnames ▸ nodup_fieldNames) hfield, hextra,
    Option.or_none]

theorem IsWritable.isMadeOf (h : token.IsWritable) : token.IsMadeOf token.toMembers where
  sigilValue := valueField_of_get? (h.get?_toMembers (by simp [fieldNames, fieldValues]))
    h.sigilValue
  plainValue := valueField_of_get? (h.get?_toMembers (by simp [fieldNames, fieldValues]))
    h.plainValue
  sigilKind := textField_of_get? (h.get?_toMembers (by simp [fieldNames, fieldValues]))
  plainKind := textField_of_get? (h.get?_toMembers (by simp [fieldNames, fieldValues]))
  sigilDescription := textField_of_get? (h.get?_toMembers (by simp [fieldNames, fieldValues]))
  plainDescription := textField_of_get? (h.get?_toMembers (by simp [fieldNames, fieldValues]))
  comment := textField_of_get? (h.get?_toMembers (by simp [fieldNames, fieldValues]))
  extra := by
    have hfields : ∀ p ∈ present (fieldNames.zip token.fieldValues), ¬ p.1 ∉ fieldNames :=
      fun p hp => not_not.mpr (List.of_mem_zip (mem_present.mp hp)).1
    rw [toMembers_eq, List.filter_append, List.filter_eq_nil_iff.mpr (by simpa using hfields),
      List.filter_eq_self.mpr (by simpa using h.extra), List.nil_append]

theorem IsWritable.ofJson_toJson (h : token.IsWritable) : ofJson token.toJson = .ok token :=
  ofMembers_eq_ok_iff.mpr h.isMadeOf

/-! ### Tokens that were read -/

/-- The fields of a token that was read are the members of their names, unless these are `null`. -/
theorem IsMadeOf.zip_fieldValues (h : token.IsMadeOf members) :
    fieldNames.zip token.fieldValues =
      fieldNames.map fun name => (name, valueField members name) := by
  simp only [fieldNames, fieldValues, List.zip_cons_cons, List.zip_nil_right, List.map_cons,
    List.map_nil, h.sigilValue, h.plainValue, ← map_text_of_textField h.sigilKind,
    ← map_text_of_textField h.plainKind, ← map_text_of_textField h.sigilDescription,
    ← map_text_of_textField h.plainDescription, ← map_text_of_textField h.comment]

/-- **Tokens are written as they were read.** The object of a token makes the same token again, and
so does the object of its copy with both spellings. The members of the token that was read are those
of the original object, without a `null` in one of the seven fields: first the fields, in the order
of their names and each of them once, and then all other members, as they were. -/
theorem tokens_are_written_as_they_were_read {members : Entries String Json}
    (distinct : members.Distinct) {token : Token} (reads : ofJson (.object members) = .ok token) :
    ofJson token.toJson = .ok token ∧
    ofJson token.normalized.toJson = .ok token.normalized ∧
    ∃ fields, token.toMembers = fields ++ members.filter (fun p => p.1 ∉ fieldNames) ∧
      (Entries.keys fields).Sublist fieldNames ∧
      ∀ p, p ∈ fields ↔ p ∈ members ∧ p.1 ∈ fieldNames ∧ p.2 ≠ .null := by
  have hmade : token.IsMadeOf members := ofMembers_eq_ok_iff.mp reads
  have hwritable := hmade.isWritable
  refine ⟨hwritable.ofJson_toJson, hwritable.normalized.ofJson_toJson,
    present (fieldNames.map fun name => (name, valueField members name)), ?_, ?_, ?_⟩
  · rw [toMembers_eq, hmade.zip_fieldValues, hmade.extra]
  · simpa [Function.comp_def] using
      keys_present_sublist (fieldNames.map fun name => (name, valueField members name))
  · rintro ⟨name, value⟩
    have hfound : members.get? name = some value ↔ (name, value) ∈ members :=
      ⟨Entries.mem_of_get?, Entries.get?_of_mem distinct⟩
    rw [mem_present, List.mem_map, ← hfound]
    constructor
    · rintro ⟨_, hname, heq⟩
      obtain ⟨rfl, hvalue⟩ := Prod.mk.inj heq
      obtain ⟨hget, hnull⟩ := valueField_eq_some.mp hvalue
      exact ⟨hget, hname, hnull⟩
    · rintro ⟨hget, hname, hnull⟩
      exact ⟨name, hname, by rw [valueField_eq_some.mpr ⟨hget, hnull⟩]⟩

/-- A token with members in any order, a `null` in a field and two elsewhere. -/
theorem tokens_are_written_as_they_were_read_mixed :
    let members : Entries String Json :=
      [("note", .null), ("comment", .text "wide"), ("type", .text "size"), ("$type", .null),
        ("$extensions", .object [("unit", .null)]), ("value", .list [.whole 1, .null])]
    members.Distinct ∧ ∃ token, ofJson (.object members) = .ok token ∧
      token.toMembers =
        [("value", .list [.whole 1, .null]), ("type", .text "size"), ("comment", .text "wide"),
          ("note", .null), ("$extensions", .object [("unit", .null)])] ∧
      ofJson token.toJson = .ok token ∧ ofJson token.normalized.toJson = .ok token.normalized := by
  intro members
  have distinct : members.Distinct := by simp [members, Entries.Distinct]
  obtain ⟨htoken, hnormalized, -⟩ := tokens_are_written_as_they_were_read distinct rfl
  exact ⟨distinct, _, rfl, rfl, htoken, hnormalized⟩

end TokenSheets.Token
