import Mathlib.Tactic
import TokenSheets.Json.Reader

/-!
# What a value begins with

A literal is a number, a truth value or `null`, so it holds neither a list nor an object. What is
opened first is what comes out: once the outermost container is a list, the value is a list. So a
text whose value is an object begins with a brace.

* `Lexeme.isScalar_of_mem`: the literals of a text;
* `InList`, `InList.advance`, `InList.exists_list`: a list stays the outermost container to the end;
* `read_eq_object`: how a text begins whose value is an object.
-/

namespace TokenSheets.Json

/-! ### Literals -/

/-- **The value holds no other value**: it is neither a list nor an object. -/
def IsScalar : Json → Prop
  | .list _ => False
  | .object _ => False
  | _ => True

/-- A literal, if the lexeme is one, holds no other value. -/
def Lexeme.IsScalar : Lexeme → Prop
  | .literal (.ok value) => value.IsScalar
  | _ => True

theorem isScalar_signed {negative : Bool} {significand : Nat} {exponent : Int} {j : Json}
    (h : signed negative significand exponent = .ok j) : j.IsScalar := by
  unfold signed at h
  split at h
  · simp at h
  · cases h
    trivial

theorem isScalar_wholeNumber {negative : Bool} {significand : Nat} {left : List Char}
    {j : Json} (h : wholeNumber negative significand left = .ok j) : j.IsScalar := by
  unfold wholeNumber at h
  split_ifs at h
  · exact isScalar_signed h
  all_goals
    cases h
    trivial

theorem isScalar_withExponent {plain : Except JsonError Json}
    {scaledBy : Int → Except JsonError Json} {cs rest : List Char} {j : Json}
    (hp : ∀ j, plain = .ok j → j.IsScalar) (hs : ∀ n j, scaledBy n = .ok j → j.IsScalar)
    (h : withExponent plain scaledBy cs = .ok (j, rest)) : j.IsScalar := by
  have plainCase : ∀ cs : List Char,
      (do return (← plain, cs) : Except JsonError (Json × List Char)) = .ok (j, rest) →
        j.IsScalar := by
    intro cs h
    rcases hq : plain with e | k <;> simp [hq, bind, Except.bind, pure, Except.pure] at h
    exact hp j (by rw [hq, h.1])
  unfold withExponent at h
  split at h
  · exact plainCase _ h
  · split at h
    · rename_i c cs' _
      rcases he : exponentPart cs' with e | ⟨n, rest'⟩ <;> simp [he, bind, Except.bind] at h
      rcases hk : scaledBy n with e | k <;> simp [hk, pure, Except.pure] at h
      exact hs n j (by rw [hk, h.1])
    · exact plainCase _ h

theorem isScalar_fractionPart {negative : Bool} {significand dropped : Nat}
    {cs rest : List Char} {j : Json}
    (h : fractionPart negative significand dropped cs = .ok (j, rest)) : j.IsScalar := by
  unfold fractionPart at h
  dsimp only at h
  split_ifs at h
  exact isScalar_withExponent (fun _ => isScalar_signed) (fun _ _ => isScalar_signed) h

theorem isScalar_magnitude {negative : Bool} {cs rest : List Char} {j : Json}
    (h : magnitude negative cs = .ok (j, rest)) : j.IsScalar := by
  unfold magnitude at h
  dsimp only at h
  split_ifs at h
  split at h
  · exact isScalar_fractionPart h
  · exact isScalar_withExponent (fun _ => isScalar_wholeNumber) (fun _ _ => isScalar_signed) h

theorem isScalar_number {cs rest : List Char} {j : Json} (h : number cs = .ok (j, rest)) :
    j.IsScalar := by
  unfold number at h
  split at h <;> exact isScalar_magnitude h

namespace Lexeme

theorem isScalar_word (letters : List Char) {value : Json} (hv : value.IsScalar)
    (cs : List Char) : (word letters value cs).1.IsScalar := by
  unfold word ended
  rcases expect letters cs with e | rest
  · exact trivial
  · exact hv

theorem isScalar_ite {p : Prop} [Decidable p] {a b : Lexeme × List Char} (ha : a.1.IsScalar)
    (hb : b.1.IsScalar) : (if p then a else b).1.IsScalar := by
  split
  · exact ha
  · exact hb

theorem isScalar_lexemeAt (c : Char) (cs : List Char) : (lexemeAt c cs).1.IsScalar := by
  refine isScalar_ite trivial (isScalar_ite trivial (isScalar_ite trivial (isScalar_ite trivial
    (isScalar_ite trivial (isScalar_ite trivial (isScalar_ite ?_
    (isScalar_ite (isScalar_word _ (show Json.IsScalar .null from trivial) _)
    (isScalar_ite (isScalar_word _ (show Json.IsScalar (.bool true) from trivial) _)
    (isScalar_ite (isScalar_word _ (show Json.IsScalar (.bool false) from trivial) _)
    (isScalar_ite ?_ trivial))))))))))
  · unfold ended
    split <;> exact trivial
  · unfold ended
    split
    · rename_i hn
      exact isScalar_number hn
    · exact trivial

/-- **The literals of a text** hold no other value. -/
theorem isScalar_of_mem (cs : List Char) : ∀ lexeme ∈ lexemes cs, lexeme.IsScalar := by
  fun_induction lexemes cs with
  | case1 => simp
  | case2 c cs hb ih => exact ih
  | case3 c cs hb ih =>
    intro lexeme h
    rcases List.mem_cons.mp h with rfl | h
    · exact isScalar_lexemeAt c cs
    · exact ih lexeme h

end Lexeme

/-! ### What is opened first -/

/-- The frame is one of a list. -/
def Frame.IsItem : Frame → Prop
  | .item _ => True
  | .member _ _ => False

/-- The container that is being read is a list. -/
def Stage.IsInList : Stage → Prop
  | .firstItem => True
  | .afterItem _ => True
  | _ => False

/-- **The outermost container is a list**: the one of the frame at the bottom of the stack, or the
one that is being read if nothing is around it. -/
def InList (stack : List Frame) (stage : Stage) : Prop :=
  match stack.getLast? with
  | some frame => frame.IsItem
  | none => stage.IsInList

/-- What was read leads to a list. -/
def Progress.InList : Progress → Prop
  | .whole value => ∃ items, value = .list items
  | .more stack stage => Json.InList stack stage

namespace InList

variable {stack : List Frame} {stage : Stage} {frame : Frame} {lexeme : Lexeme}
  {progress : Progress}

theorem of_cons (h : InList (frame :: stack) stage) (stage' : Stage) :
    InList (frame :: stack) stage' := by
  unfold InList at h ⊢
  rw [List.getLast?_cons] at h ⊢
  exact h

theorem of_cons_cons {inner : Frame} (h : InList (inner :: frame :: stack) stage)
    (stage' : Stage) : InList (frame :: stack) stage' :=
  have hframe : InList (frame :: stack) stage := by simpa [InList] using h
  hframe.of_cons stage'

theorem cons (h : InList stack stage) (frame : Frame) (hframe : stage.IsInList → frame.IsItem)
    (stage' : Stage) : InList (frame :: stack) stage' := by
  unfold InList at h ⊢
  rw [List.getLast?_cons]
  rcases hlast : stack.getLast? with _ | bottom
  · rw [hlast] at h
    exact hframe h
  · rw [hlast] at h
    exact h

theorem of_not (h : InList stack stage) (hstage : ¬ stage.IsInList) (stage' : Stage) :
    InList stack stage' := by
  match stack, h with
  | [], h => exact absurd h hstage
  | frame :: stack, h => exact of_cons h _

theorem deliver (h : InList stack stage) {value : Json}
    (hvalue : stage.IsInList → ∃ items, value = .list items) :
    (Json.deliver value stack).InList := by
  match stack, h with
  | [], h => exact hvalue h
  | [.item _], _ => exact trivial
  | [.member _ _], h => exact h.elim
  | .item before :: below :: stack, h => exact h.of_cons_cons (.afterItem (value :: before))
  | .member before key :: below :: stack, h =>
    exact h.of_cons_cons (.afterMember (before.insert key value))

theorem openContainer (h : InList stack stage) (hopen : openContainer stack stage = .ok progress) :
    progress.InList := by
  unfold Json.openContainer at hopen
  split_ifs at hopen
  cases hopen
  exact h

theorem beginValue (h : InList stack .value) (hbegin : beginValue stack lexeme = .ok progress) :
    progress.InList := by
  unfold Json.beginValue at hbegin
  split at hbegin
  · exact openContainer (h.of_not id _) hbegin
  · exact openContainer (h.of_not id _) hbegin
  · rename_i value
    rcases value with e | value <;>
      simp only [Except.map, reduceCtorEq, Except.ok.injEq] at hbegin
    exact hbegin ▸ h.deliver False.elim
  · rename_i content
    rcases content with e | content <;>
      simp only [Except.map, reduceCtorEq, Except.ok.injEq] at hbegin
    exact hbegin ▸ h.deliver False.elim
  · simp at hbegin

theorem beginKey {members : Entries String Json} (h : InList stack (.key members))
    (hbegin : beginKey stack members lexeme = .ok progress) : progress.InList := by
  unfold Json.beginKey at hbegin
  split at hbegin
  · rename_i content
    rcases content with e | content <;>
      simp only [Except.map, reduceCtorEq, Except.ok.injEq] at hbegin
    exact hbegin ▸ h.of_not id _
  · simp at hbegin

/-- **One lexeme** leaves the outermost container a list. -/
theorem advance (h : InList stack stage) (hadvance : advance stack stage lexeme = .ok progress) :
    progress.InList := by
  unfold Json.advance at hadvance
  split at hadvance
  · exact h.beginValue hadvance
  · cases hadvance
    exact h.deliver fun _ => ⟨_, rfl⟩
  · exact (h.cons (.item []) (fun _ => trivial) .value).beginValue hadvance
  · rename_i items
    cases hadvance
    exact h.cons (.item items) (fun _ => trivial) .value
  · cases hadvance
    exact h.deliver fun _ => ⟨_, rfl⟩
  · simp at hadvance
  · cases hadvance
    exact h.deliver False.elim
  · exact (h.of_not id _).beginKey hadvance
  · exact h.beginKey hadvance
  · rename_i members key
    cases hadvance
    exact h.cons (.member members key) False.elim .value
  · simp at hadvance
  · cases hadvance
    exact h.of_not id _
  · cases hadvance
    exact h.deliver False.elim
  · simp at hadvance

/-- **What begins as a list** is one. -/
theorem exists_list : ∀ {lexemes : List Lexeme} {stack : List Frame} {stage : Stage} {value : Json}
    {rest : List Lexeme}, InList stack stage → assemble stack stage lexemes = .ok (value, rest) →
      ∃ items, value = .list items
  | [], _, _, _, _, _, hassemble => by simp [assemble] at hassemble
  | lexeme :: lexemes, stack, stage, value, rest, h, hassemble => by
    rcases hadvance : Json.advance stack stage lexeme with e | progress
    · simp [assemble, hadvance] at hassemble
    · have hprogress := h.advance hadvance
      rcases progress with whole | ⟨stack', stage'⟩
      · simp only [assemble, hadvance, Except.ok.injEq, Prod.mk.injEq] at hassemble
        exact hassemble.1 ▸ hprogress
      · simp only [assemble, hadvance] at hassemble
        exact exists_list hprogress hassemble

end InList

/-- **A value that is an object begins with a brace.** -/
theorem eq_openObject_of_assemble {lexeme : Lexeme} {lexemes rest : List Lexeme}
    {members : Entries String Json} (hscalar : lexeme.IsScalar)
    (h : assemble [] .value (lexeme :: lexemes) = .ok (.object members, rest)) :
    lexeme = .openObject := by
  have hvalue : ∀ value : Json, beginValue [] lexeme = .ok (.whole value) →
      value = .object members := by
    intro value hbegin
    have hwhole : advance [] .value lexeme = .ok (.whole value) := hbegin
    simp only [assemble, hwhole, Except.ok.injEq, Prod.mk.injEq] at h
    exact h.1
  match lexeme with
  | .openObject => rfl
  | .openList =>
    have hbegin : advance [] .value .openList = .ok (.more [] .firstItem) := rfl
    simp only [assemble, hbegin] at h
    obtain ⟨items, hitems⟩ := InList.exists_list (show InList [] .firstItem from trivial) h
    cases hitems
  | .literal (.ok value) =>
    obtain rfl := hvalue value rfl
    exact hscalar.elim
  | .string (.ok content) => cases hvalue (.text content) rfl
  | .literal (.error _) | .string (.error _) => cases h
  | .closeList | .closeObject | .comma | .colon | .stray => cases h

/-- **A text that is an object** begins with a brace, and nothing follows the object. -/
theorem read_eq_object {text : String} {members : Entries String Json}
    (h : read text = .ok (.object members)) :
    ∃ rest, lexemes text.toList = .openObject :: rest ∧
      assemble [] .value (.openObject :: rest) = .ok (.object members, []) := by
  unfold read at h
  rcases hassemble : assemble [] .value (lexemes text.toList) with e | ⟨value, left⟩
  · simp [hassemble, bind, Except.bind] at h
  · simp only [hassemble, bind, Except.bind, pure, Except.pure, List.isEmpty_iff] at h
    split_ifs at h with hleft
    obtain rfl := hleft
    obtain rfl := Except.ok.inj h
    rcases hlexemes : lexemes text.toList with _ | ⟨lexeme, rest⟩
    · simp [hlexemes, assemble] at hassemble
    · rw [hlexemes] at hassemble
      have hscalar : lexeme.IsScalar :=
        Lexeme.isScalar_of_mem _ lexeme (hlexemes ▸ List.mem_cons_self)
      obtain rfl := eq_openObject_of_assemble hscalar hassemble
      exact ⟨rest, rfl, hassemble⟩

end TokenSheets.Json
