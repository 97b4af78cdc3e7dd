import Mathlib.Tactic
import TokenSheets.Proofs.Json.Beginnings

/-!
# Objects that are read have no key twice

`Json.DistinctKeys` says of a whole value that no object in it has a key twice. A literal holds no
object at all, and the members of an object are gathered by insertion, so every stage of reading
keeps the property; it is carried through the stack of open containers by `Frame.Distinct`,
`Stage.Distinct` and `Progress.Distinct`.

* `distinctKeys_of_assemble`: what is put together from lexemes;
* `distinctKeys_of_read`: what is read from a text.
-/

namespace TokenSheets.Json

/-- **No object of the value has a key twice.** -/
inductive DistinctKeys : Json → Prop
  | null : DistinctKeys .null
  | bool (b : Bool) : DistinctKeys (.bool b)
  | whole (n : Int) : DistinctKeys (.whole n)
  | double (x : Float) : DistinctKeys (.double x)
  | text (s : String) : DistinctKeys (.text s)
  | list {items : List Json} (inner : ∀ item ∈ items, DistinctKeys item) :
    DistinctKeys (.list items)
  | object {members : List (String × Json)} (distinct : Entries.Distinct members)
    (inner : ∀ p ∈ members, DistinctKeys p.2) : DistinctKeys (.object members)

@[simp] theorem distinctKeys_object {members : List (String × Json)} :
    (object members).DistinctKeys ↔
      Entries.Distinct members ∧ ∀ p ∈ members, p.2.DistinctKeys :=
  ⟨fun | .object distinct inner => ⟨distinct, inner⟩, fun h => .object h.1 h.2⟩

@[simp] theorem distinctKeys_list {items : List Json} :
    (list items).DistinctKeys ↔ ∀ item ∈ items, item.DistinctKeys :=
  ⟨fun | .list inner => inner, .list⟩

theorem distinctKeys_insert {members : Entries String Json} (h : (object members).DistinctKeys)
    (key : String) {value : Json} (hv : value.DistinctKeys) :
    (object (members.insert key value)).DistinctKeys := by
  obtain ⟨hd, hin⟩ := distinctKeys_object.mp h
  refine .object (hd.insert key value) fun p hp => ?_
  rcases Entries.mem_insert hp with rfl | hp
  · exact hv
  · exact hin p hp

/-! ### Literals -/

/-- The lexeme holds no object that has a key twice. -/
def Lexeme.Distinct : Lexeme → Prop
  | .literal (.ok value) => value.DistinctKeys
  | _ => True

theorem IsScalar.distinctKeys {value : Json} (h : value.IsScalar) : value.DistinctKeys := by
  cases value with
  | list _ => exact h.elim
  | object _ => exact h.elim
  | null => exact .null
  | bool b => exact .bool b
  | whole n => exact .whole n
  | double x => exact .double x
  | text s => exact .text s

theorem distinct_lexemes (cs : List Char) : ∀ lexeme ∈ lexemes cs, lexeme.Distinct := by
  intro lexeme hmem
  have hscalar := Lexeme.isScalar_of_mem cs lexeme hmem
  match lexeme with
  | .literal (.ok value) => exact IsScalar.distinctKeys hscalar
  | .literal (.error _) | .string _ | .openList | .closeList | .openObject | .closeObject
  | .comma | .colon | .stray => trivial

/-! ### Putting lexemes together -/

/-- What was read of an open container has distinct keys. -/
def Frame.Distinct : Frame → Prop
  | .item before => (list before).DistinctKeys
  | .member before _ => (object before).DistinctKeys

/-- What was read of the innermost container has distinct keys. -/
def Stage.Distinct : Stage → Prop
  | .afterItem items => (list items).DistinctKeys
  | .key members => (object members).DistinctKeys
  | .colon members _ => (object members).DistinctKeys
  | .afterMember members => (object members).DistinctKeys
  | _ => True

/-- All that was read has distinct keys. -/
def Progress.Distinct : Progress → Prop
  | .whole value => value.DistinctKeys
  | .more stack stage => (∀ frame ∈ stack, frame.Distinct) ∧ stage.Distinct

theorem distinct_deliver {value : Json} (hv : value.DistinctKeys) {stack : List Frame}
    (hs : ∀ frame ∈ stack, frame.Distinct) : (deliver value stack).Distinct := by
  match stack, hs with
  | [], _ => exact hv
  | .item before :: stack, hs =>
    obtain ⟨hf, hs⟩ := List.forall_mem_cons.mp hs
    exact ⟨hs, .list (List.forall_mem_cons.mpr ⟨hv, distinctKeys_list.mp hf⟩)⟩
  | .member before key :: stack, hs =>
    obtain ⟨hf, hs⟩ := List.forall_mem_cons.mp hs
    exact ⟨hs, distinctKeys_insert hf key hv⟩

theorem distinct_openContainer {stack : List Frame} {stage : Stage} {progress : Progress}
    (h : openContainer stack stage = .ok progress) (hs : ∀ frame ∈ stack, frame.Distinct)
    (hstage : stage.Distinct) : progress.Distinct := by
  unfold openContainer at h
  split_ifs at h
  cases h
  exact ⟨hs, hstage⟩

theorem distinct_beginValue {stack : List Frame} {lexeme : Lexeme} {progress : Progress}
    (h : beginValue stack lexeme = .ok progress) (hs : ∀ frame ∈ stack, frame.Distinct)
    (hl : lexeme.Distinct) : progress.Distinct := by
  unfold beginValue at h
  split at h
  · exact distinct_openContainer h hs trivial
  · exact distinct_openContainer h hs trivial
  · rename_i value
    rcases value with e | value <;> simp only [Except.map, reduceCtorEq, Except.ok.injEq] at h
    exact h ▸ distinct_deliver hl hs
  · rename_i content
    rcases content with e | content <;> simp only [Except.map, reduceCtorEq, Except.ok.injEq] at h
    exact h ▸ distinct_deliver (.text _) hs
  · simp at h

theorem distinct_beginKey {stack : List Frame} {members : Entries String Json} {lexeme : Lexeme}
    {progress : Progress} (h : beginKey stack members lexeme = .ok progress)
    (hs : ∀ frame ∈ stack, frame.Distinct) (hm : (object members).DistinctKeys) :
    progress.Distinct := by
  unfold beginKey at h
  split at h
  · rename_i content
    rcases content with e | content <;> simp only [Except.map, reduceCtorEq, Except.ok.injEq] at h
    exact h ▸ ⟨hs, hm⟩
  · simp at h

theorem distinct_advance {stack : List Frame} {stage : Stage} {lexeme : Lexeme}
    {progress : Progress} (h : advance stack stage lexeme = .ok progress)
    (hs : ∀ frame ∈ stack, frame.Distinct) (hstage : stage.Distinct) (hl : lexeme.Distinct) :
    progress.Distinct := by
  have hnil : (list []).DistinctKeys := .list (by simp)
  have hempty : (object []).DistinctKeys := .object (by simp [Entries.Distinct]) (by simp)
  unfold advance at h
  split at h
  · exact distinct_beginValue h hs hl
  · cases h
    exact distinct_deliver hnil hs
  · exact distinct_beginValue h (List.forall_mem_cons.mpr ⟨hnil, hs⟩) hl
  · cases h
    exact ⟨List.forall_mem_cons.mpr ⟨hstage, hs⟩, trivial⟩
  · cases h
    have hin := distinctKeys_list.mp hstage
    exact distinct_deliver (.list fun item hi => hin item (List.mem_reverse.mp hi)) hs
  · simp at h
  · cases h
    exact distinct_deliver hempty hs
  · exact distinct_beginKey h hs hempty
  · exact distinct_beginKey h hs hstage
  · cases h
    exact ⟨List.forall_mem_cons.mpr ⟨hstage, hs⟩, trivial⟩
  · simp at h
  · cases h
    exact ⟨hs, hstage⟩
  · cases h
    exact distinct_deliver hstage hs
  · simp at h

theorem distinctKeys_of_assemble : ∀ (ls : List Lexeme) (stack : List Frame) (stage : Stage)
    {value : Json} {rest : List Lexeme}, assemble stack stage ls = .ok (value, rest) →
      (∀ frame ∈ stack, frame.Distinct) → stage.Distinct → (∀ lexeme ∈ ls, lexeme.Distinct) →
        value.DistinctKeys
  | [], _, _, _, _, h, _, _, _ => by simp [assemble] at h
  | lexeme :: ls, stack, stage, value, rest, h, hs, hstage, hl => by
    obtain ⟨hlexeme, hl⟩ := List.forall_mem_cons.mp hl
    rcases ha : advance stack stage lexeme with e | progress
    · simp [assemble, ha] at h
    · have hp := distinct_advance ha hs hstage hlexeme
      rcases progress with value' | ⟨stack', stage'⟩
      · simp only [assemble, ha, Except.ok.injEq, Prod.mk.injEq] at h
        exact h.1 ▸ hp
      · simp only [assemble, ha] at h
        exact distinctKeys_of_assemble ls stack' stage' h hp.1 hp.2 hl

theorem distinctKeys_of_read {text : String} {value : Json} (h : read text = .ok value) :
    value.DistinctKeys := by
  unfold read at h
  rcases ha : assemble [] .value (lexemes text.toList) with e | ⟨value', rest⟩
  · simp [ha, bind, Except.bind] at h
  · simp only [ha, bind, Except.bind, pure, Except.pure] at h
    split_ifs at h
    cases h
    exact distinctKeys_of_assemble _ _ _ ha (by simp) trivial (distinct_lexemes _)

end TokenSheets.Json
