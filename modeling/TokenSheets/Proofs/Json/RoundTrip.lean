import TokenSheets.Json.Reader
import TokenSheets.Proofs.Json.Tokens

/-!
# Values are read back

The lexemes of a value are put together to it again. A double comes back as the one that the reader
makes of its text; everything else is the same.

* `readBack`: what a value is read as;
* `Assembles`, `assembles_of_fits`: the lexemes make this value;
* `read_render`: so does the text;
* `readBack_eq_self_iff`: when it is the value itself.
-/

namespace TokenSheets.Json

/-! ### What is put together of them -/

mutual

/-- **The value that is read**: each double is the one that the reader makes of its text. -/
def readBack : Json → Json
  | .null => .null
  | .bool b => .bool b
  | .whole n => .whole n
  | .double x => .double (reread x)
  | .text s => .text s
  | .list items => .list (readItems items)
  | .object members => .object (readMembers members)

/-- The items that are read. -/
def readItems : List Json → List Json
  | [] => []
  | j :: rest => readBack j :: readItems rest

/-- The members that are read. -/
def readMembers : List (String × Json) → List (String × Json)
  | [] => []
  | (k, j) :: rest => (k, readBack j) :: readMembers rest

end

/-- Goes on behind a lexeme. -/
def resume : Progress → List Lexeme → Except JsonError (Json × List Lexeme)
  | .whole value, ls => .ok (value, ls)
  | .more stack stage, ls => assemble stack stage ls

theorem assemble_cons {stack : List Frame} {stage : Stage} {lexeme : Lexeme} {progress : Progress}
    (h : advance stack stage lexeme = .ok progress) (ls : List Lexeme) :
    assemble stack stage (lexeme :: ls) = resume progress ls := by
  rw [assemble, h]
  rcases progress <;> rfl

theorem openContainer_of_room {stack : List Frame} {room : ℕ}
    (hroom : stack.length + (room + 1) ≤ maxDepth) (stage : Stage) :
    openContainer stack stage = .ok (.more stack stage) := if_pos (by omega)

theorem assemble_firstItem (stack : List Frame) (j : Json) (items : List Json) (ls : List Lexeme) :
    assemble stack .firstItem (itemTokens (j :: items) ++ ls) =
      assemble (.item [] :: stack) .value (itemTokens (j :: items) ++ ls) := by
  rcases items <;> rcases j <;> rfl

theorem assemble_firstKey (stack : List Frame) (p : String × Json) (members : List (String × Json))
    (ls : List Lexeme) :
    assemble stack .firstKey (memberTokens (p :: members) ++ ls) =
      assemble stack (.key []) (memberTokens (p :: members) ++ ls) := by
  rcases members <;> rfl

theorem assemble_key (stack : List Frame) (before : Entries String Json) (key : String)
    (ls : List Lexeme) :
    assemble stack (.key before) (.string (.ok key) :: .colon :: ls) =
      assemble (.member before key :: stack) .value ls := rfl

/-- **The lexemes of a value are put together to it**, wherever there is room for its nesting, and
it is handed to the frame that waits for it. -/
def Assembles (room : ℕ) (v : Json) : Prop :=
  ∀ stack : List Frame, stack.length + room ≤ maxDepth → ∀ ls : List Lexeme,
    assemble stack .value (tokens v ++ ls) = resume (deliver (readBack v) stack) ls

theorem assemble_items {room : ℕ} {stack : List Frame}
    (hroom : stack.length + (room + 1) ≤ maxDepth) {items : List Json}
    (hitems : ∀ item ∈ items, Assembles room item) (hne : items ≠ []) (before : List Json)
    (ls : List Lexeme) :
    assemble (.item before :: stack) .value (itemTokens items ++ .closeList :: ls) =
      resume (deliver (.list (before.reverse ++ readItems items)) stack) ls := by
  induction items generalizing before with
  | nil => exact absurd rfl hne
  | cons j items ih =>
    have hdeep : (Frame.item before :: stack).length + room ≤ maxDepth := by
      rw [List.length_cons]
      omega
    have hvalue := hitems j (by simp) (.item before :: stack) hdeep
    rcases items with _ | ⟨k, items⟩
    · rw [itemTokens, hvalue]
      refine (assemble_cons rfl ls).trans ?_
      simp [readItems]
    · calc assemble (.item before :: stack) .value
              (itemTokens (j :: k :: items) ++ .closeList :: ls)
          = assemble (.item before :: stack) .value
              (tokens j ++ .comma :: (itemTokens (k :: items) ++ .closeList :: ls)) := by
            simp [itemTokens]
        _ = assemble stack (.afterItem (readBack j :: before))
              (.comma :: (itemTokens (k :: items) ++ .closeList :: ls)) := hvalue _
        _ = assemble (.item (readBack j :: before) :: stack) .value
              (itemTokens (k :: items) ++ .closeList :: ls) := rfl
        _ = resume (deliver (.list (before.reverse ++ readItems (j :: k :: items))) stack) ls := by
            rw [ih (fun item hitem => hitems item (by simp [hitem])) (List.cons_ne_nil k items)]
            simp [readItems]

theorem assemble_members {room : ℕ} {stack : List Frame}
    (hroom : stack.length + (room + 1) ≤ maxDepth) {members : List (String × Json)}
    (hmembers : ∀ p ∈ members, Assembles room p.2) (hne : members ≠ [])
    (before : Entries String Json)
    (hkeys : (Entries.keys before ++ Entries.keys members).Nodup) (ls : List Lexeme) :
    assemble stack (.key before) (memberTokens members ++ .closeObject :: ls) =
      resume (deliver (.object (before ++ readMembers members)) stack) ls := by
  induction members generalizing before with
  | nil => exact absurd rfl hne
  | cons p members ih =>
    obtain ⟨key, j⟩ := p
    have hnew : key ∉ Entries.keys before := fun hmem =>
      List.disjoint_of_nodup_append hkeys hmem (by simp)
    have hdeep : (Frame.member before key :: stack).length + room ≤ maxDepth := by
      rw [List.length_cons]
      omega
    -- one member, up to what stands behind its value
    have hmember : ∀ ls, assemble stack (.key before)
        (.string (.ok key) :: .colon :: (tokens j ++ ls)) =
          assemble stack (.afterMember (before ++ [(key, readBack j)])) ls := fun ls => by
      rw [assemble_key, hmembers (key, j) (by simp) _ hdeep, ← Entries.insert_of_notMem hnew]
      rfl
    rcases members with _ | ⟨p, members⟩
    · exact (hmember _).trans (assemble_cons rfl ls)
    · calc assemble stack (.key before)
              (memberTokens ((key, j) :: p :: members) ++ .closeObject :: ls)
          = assemble stack (.key before) (.string (.ok key) :: .colon ::
              (tokens j ++ .comma :: (memberTokens (p :: members) ++ .closeObject :: ls))) := by
            simp [memberTokens]
        _ = assemble stack (.afterMember (before ++ [(key, readBack j)]))
              (.comma :: (memberTokens (p :: members) ++ .closeObject :: ls)) := hmember _
        _ = assemble stack (.key (before ++ [(key, readBack j)]))
              (memberTokens (p :: members) ++ .closeObject :: ls) := rfl
        _ = resume (deliver (.object (before ++ readMembers ((key, j) :: p :: members))) stack)
              ls := by
            rw [ih (fun q hq => hmembers q (by simp [hq])) (List.cons_ne_nil p members) _
              (by simpa using hkeys)]
            simp [readMembers]

/-- **Every value that fits** is put together of its lexemes. -/
theorem assembles_of_fits {v : Json} {room : ℕ} (hv : Fits room v) : Assembles room v := by
  induction hv with
  | @list room items _ ih =>
    intro stack hroom ls
    have hopen : advance stack .value .openList = .ok (.more stack .firstItem) :=
      openContainer_of_room hroom .firstItem
    rcases items with _ | ⟨j, items⟩
    · exact (assemble_cons hopen _).trans (assemble_cons rfl ls)
    · calc assemble stack .value (tokens (.list (j :: items)) ++ ls)
          = assemble stack .firstItem (itemTokens (j :: items) ++ .closeList :: ls) := by
            rw [tokens, List.cons_append, assemble_cons hopen, List.append_assoc]
            rfl
        _ = assemble (.item [] :: stack) .value (itemTokens (j :: items) ++ .closeList :: ls) :=
            assemble_firstItem stack j items _
        _ = resume (deliver (readBack (.list (j :: items))) stack) ls :=
            assemble_items hroom ih (List.cons_ne_nil j items) [] ls
  | @object room members distinct _ ih =>
    intro stack hroom ls
    have hopen : advance stack .value .openObject = .ok (.more stack .firstKey) :=
      openContainer_of_room hroom .firstKey
    rcases members with _ | ⟨p, members⟩
    · exact (assemble_cons hopen _).trans (assemble_cons rfl ls)
    · calc assemble stack .value (tokens (.object (p :: members)) ++ ls)
          = assemble stack .firstKey (memberTokens (p :: members) ++ .closeObject :: ls) := by
            rw [tokens, List.cons_append, assemble_cons hopen, List.append_assoc]
            rfl
        _ = assemble stack (.key []) (memberTokens (p :: members) ++ .closeObject :: ls) :=
            assemble_firstKey stack p members _
        _ = resume (deliver (readBack (.object (p :: members))) stack) ls :=
            assemble_members hroom ih (List.cons_ne_nil p members) [] distinct ls
  | _ => exact fun _ _ ls => assemble_cons rfl ls

/-- The value of lexemes with nothing behind them. -/
def valueOf (ls : List Lexeme) : Except JsonError Json := do
  let (value, rest) ← assemble [] .value ls
  if rest.isEmpty then return value else throw .malformed

theorem valueOf_tokens {v : Json} (hv : Fits maxDepth v) :
    valueOf (tokens v) = .ok (readBack v) := by
  have hvalue := assembles_of_fits hv [] (Nat.zero_add _).le []
  rw [List.append_nil] at hvalue
  rw [valueOf, hvalue]
  rfl

theorem read_of_lexes {cs : List Char} {ls : List Lexeme} (h : Lexes cs ls []) :
    read (String.ofList cs) = valueOf ls := by
  have hlexemes : lexemes cs = ls := by rw [lexemes_of_lexes h, lexemes, List.append_nil]
  rw [read, String.toList_ofList, hlexemes, valueOf]

theorem read_render_eq {v : Json} {room : ℕ} (hv : Fits room v) :
    read v.render = valueOf (tokens v) := by
  have hlexes := lexes_chars hv (Text.stops_nil : Ends [])
  rw [List.append_nil] at hlexes
  exact read_of_lexes hlexes

theorem read_render {v : Json} (hv : Fits maxDepth v) : read v.render = .ok (readBack v) :=
  (read_render_eq hv).trans (valueOf_tokens hv)

/-! ### Values that come back as they are -/

mutual

/-- The doubles of a value. -/
def doubles : Json → List Float
  | .double x => [x]
  | .list items => itemDoubles items
  | .object members => memberDoubles members
  | _ => []

/-- The doubles of items. -/
def itemDoubles : List Json → List Float
  | [] => []
  | j :: rest => doubles j ++ itemDoubles rest

/-- The doubles of members. -/
def memberDoubles : List (String × Json) → List Float
  | [] => []
  | (_, j) :: rest => doubles j ++ memberDoubles rest

end

mutual

/-- **A value is read as itself** if and only if each of its doubles is. -/
theorem readBack_eq_self_iff : ∀ v : Json, readBack v = v ↔ ∀ x ∈ doubles v, reread x = x
  | .null => by simp [readBack, doubles]
  | .bool _ => by simp [readBack, doubles]
  | .whole _ => by simp [readBack, doubles]
  | .double _ => by simp [readBack, doubles]
  | .text _ => by simp [readBack, doubles]
  | .list items => by
    rw [readBack, doubles, Json.list.injEq]
    exact readItems_eq_self_iff items
  | .object members => by
    rw [readBack, doubles, Json.object.injEq]
    exact readMembers_eq_self_iff members

theorem readItems_eq_self_iff : ∀ items : List Json,
    readItems items = items ↔ ∀ x ∈ itemDoubles items, reread x = x
  | [] => by simp [readItems, itemDoubles]
  | j :: items => by
    rw [readItems, itemDoubles, List.cons.injEq, readBack_eq_self_iff j,
      readItems_eq_self_iff items, List.forall_mem_append]

theorem readMembers_eq_self_iff : ∀ members : List (String × Json),
    readMembers members = members ↔ ∀ x ∈ memberDoubles members, reread x = x
  | [] => by simp [readMembers, memberDoubles]
  | (key, j) :: members => by
    rw [readMembers, memberDoubles, List.cons.injEq, Prod.mk.injEq, readBack_eq_self_iff j,
      readMembers_eq_self_iff members, List.forall_mem_append]
    simp

end

theorem mem_itemDoubles {x : Float} {items : List Json} :
    x ∈ itemDoubles items ↔ ∃ item ∈ items, x ∈ doubles item := by
  induction items with
  | nil => simp [itemDoubles]
  | cons j items ih => simp [itemDoubles, ih]

theorem mem_memberDoubles {x : Float} {members : List (String × Json)} :
    x ∈ memberDoubles members ↔ ∃ p ∈ members, x ∈ doubles p.2 := by
  induction members with
  | nil => simp [memberDoubles]
  | cons p members ih => simp only [memberDoubles, List.mem_append, ih, List.exists_mem_cons_iff]

theorem isFinite_of_mem_doubles {v : Json} {room : ℕ} (hv : Fits room v) {x : Float}
    (hx : x ∈ doubles v) : x.isFinite = true := by
  induction hv with
  | double finite =>
    obtain rfl := List.mem_singleton.mp hx
    exact finite
  | list inner ih =>
    obtain ⟨item, hitem, hx⟩ := mem_itemDoubles.mp hx
    exact ih item hitem hx
  | object distinct inner ih =>
    obtain ⟨p, hp, hx⟩ := mem_memberDoubles.mp hx
    exact ih p hp hx
  | _ => cases hx

end TokenSheets.Json
