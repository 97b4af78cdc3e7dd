import TokenSheets.Proofs.Json.RoundTrip
import TokenSheets.Text.Split

/-!
# Reading constants

A file of constants is read line by line: a keyword, a name up to a blank, an equals sign, a literal
up to a semicolon, and behind it nothing or a comment. A comment ends with the line, and there are
more characters that end a line than the line feed.

* `constant?`: one line;
* `constants?`: a file behind its header;
* `constant?_line`: a line that is put together is read back, if its comment does not end early;
* `constants?_eq_some_iff`: so is a file of single lines, and no other.
-/

namespace TokenSheets

/-- **The name can be told** from what stands behind it. -/
def ResolvedToken.IsPlain (entry : ResolvedToken) : Prop :=
  ' ' ∉ entry.name.toList ∧ '\n' ∉ entry.name.toList

instance (entry : ResolvedToken) : Decidable entry.IsPlain := inferInstanceAs (Decidable (_ ∧ _))

namespace Sheet

/-- The characters that end a line of a script, and a comment with it. -/
def endsLine (c : Char) : Bool := c = '\n' || c = '\r' || c = '\u2028' || c = '\u2029'

/-- Nothing, or a comment that reaches to the end. -/
def isComment (cs : List Char) : Bool :=
  match cs.dropPrefix? " // ".toList with
  | none => cs.isEmpty
  | some text => text.all fun c => !endsLine c

/-- The lexemes up to a semicolon, and what stands behind it. -/
def lexemesUntilEnd : List Char → Option (List Json.Lexeme × List Char)
  | [] => none
  | c :: cs =>
    if c = ';' then some ([], cs)
    else if Json.isBlank c then lexemesUntilEnd cs
    else (lexemesUntilEnd (Json.lexemeAt c cs).2).map fun (lexemes, rest) =>
      ((Json.lexemeAt c cs).1 :: lexemes, rest)
termination_by cs => cs.length
decreasing_by
  · simp
  · have := Json.length_lexemeAt c cs
    simp
    omega

/-- **The constant of a line**: its name, and what its literal is read as. -/
def constant? (keyword : String) (line : List Char) :
    Option (String × Except JsonError Json) := do
  let behind ← line.dropPrefix? keyword.toList
  let text ← (behind.dropWhile (· ≠ ' ')).dropPrefix? " = ".toList
  let (lexemes, rest) ← lexemesUntilEnd text
  if isComment rest then
    some (String.ofList (behind.takeWhile (· ≠ ' ')), Json.valueOf lexemes)
  else none

/-- **The constants of a file**, one for each line behind the header. -/
def constants? (header keyword file : String) : Option (List (String × Except JsonError Json)) := do
  let body ← file.toList.dropPrefix? header.toList
  (Text.splitAt '\n' body).dropLast.mapM (constant? keyword)

/-! ### One line -/

theorem dropPrefix?_append (front rest : List Char) :
    (front ++ rest).dropPrefix? front = some rest :=
  List.dropPrefix?_eq_some_iff.mpr ⟨front, rfl, by simp⟩

theorem lexemesUntilEnd_of_lexes {cs rest : List Char} {ls : List Json.Lexeme}
    (h : Json.Lexes cs ls (';' :: rest)) : lexemesUntilEnd cs = some (ls, rest) := by
  generalize hmiddle : ';' :: rest = middle at h
  induction h with
  | nil =>
    subst hmiddle
    rw [lexemesUntilEnd, if_pos rfl]
  | cons hblank hend hlexeme _ ih =>
    rw [lexemesUntilEnd, if_neg hend, hblank, hlexeme, ih hmiddle]
    rfl

theorem isComment_append (text : List Char) :
    isComment (" // ".toList ++ text) = true ↔ ∀ c ∈ text, endsLine c = false := by
  rw [isComment, dropPrefix?_append]
  simp

theorem notMem_of_isComment {cs : List Char} (h : isComment cs = true) : '\n' ∉ cs := by
  rw [isComment] at h
  rcases hcut : cs.dropPrefix? " // ".toList with _ | text
  · rw [hcut] at h
    simp [List.isEmpty_iff.mp h]
  · obtain ⟨front, rfl, hfront⟩ := List.dropPrefix?_eq_some_iff.mp hcut
    rw [hcut, List.all_eq_true] at h
    rw [beq_iff_eq.mp hfront, List.mem_append, not_or]
    exact ⟨by decide, fun hmem => absurd (h _ hmem) (by decide)⟩

/-- The characters of a line: keyword, name, literal, and what stands behind it. -/
def constantLine (keyword name : String) (literal rest : List Char) : List Char :=
  keyword.toList ++ (name.toList ++ (" = ".toList ++ (literal ++ ';' :: rest)))

theorem notMem_constantLine {keyword name : String} {literal rest : List Char}
    (hkeyword : '\n' ∉ keyword.toList) (hname : '\n' ∉ name.toList) (hliteral : '\n' ∉ literal)
    (hrest : '\n' ∉ rest) : '\n' ∉ constantLine keyword name literal rest := by
  have hequals : '\n' ∉ " = ".toList := by decide
  rw [constantLine]
  simp only [List.mem_append, List.mem_cons, not_or]
  exact ⟨hkeyword, hname, hequals, hliteral, by decide, hrest⟩

section Names

variable {name other : String}

theorem name_run (hname : ' ' ∉ name.toList) : ∀ c ∈ name.toList, decide (c ≠ ' ') = true := by
  intro c hc
  rw [decide_eq_true_iff]
  rintro rfl
  exact hname hc

theorem stops_blank (cs : List Char) :
    Text.Stops (fun c => decide (c ≠ ' ')) (" = ".toList ++ cs) :=
  Text.stops_cons.mpr (by decide)

theorem name_inj {cs ds : List Char} (hname : ' ' ∉ name.toList) (hother : ' ' ∉ other.toList)
    (h : name.toList ++ (" = ".toList ++ cs) = other.toList ++ (" = ".toList ++ ds)) :
    name = other ∧ " = ".toList ++ cs = " = ".toList ++ ds := by
  have htake := congrArg (List.takeWhile fun c => decide (c ≠ ' ')) h
  rw [Text.takeWhile_run (name_run hname) (stops_blank cs),
    Text.takeWhile_run (name_run hother) (stops_blank ds)] at htake
  rw [htake] at h
  exact ⟨String.toList_inj.mp htake, List.append_cancel_left h⟩

end Names

/-- **A line is read back**, provided that nothing but a comment stands behind the constant. -/
theorem constant?_line {keyword name : String} (hname : ' ' ∉ name.toList)
    {lexemes : List Json.Lexeme} {literal rest : List Char}
    (hliteral : Json.Lexes (literal ++ ';' :: rest) lexemes (';' :: rest)) :
    constant? keyword (constantLine keyword name literal rest) =
      if isComment rest then some (name, Json.valueOf lexemes) else none := by
  have hrun := name_run hname
  have hstop := stops_blank (literal ++ ';' :: rest)
  rw [constant?, constantLine, dropPrefix?_append]
  simp only [Option.bind_eq_bind, Option.bind_some, Text.dropWhile_run hrun hstop,
    Text.takeWhile_run hrun hstop, dropPrefix?_append, lexemesUntilEnd_of_lexes hliteral,
    String.ofList_toList]

/-! ### All lines -/

/-- **The lines of texts that are put together**, each with a line end behind it. -/
theorem splitAt_flatMap {α : Type} (separator : Char) (f : α → List Char) (xs : List α) :
    Text.splitAt separator (xs.flatMap fun x => f x ++ [separator]) =
      xs.flatMap (fun x => Text.splitAt separator (f x)) ++ [[]] := by
  induction xs with
  | nil => rfl
  | cons x xs ih =>
    rw [List.flatMap_cons, List.append_assoc, List.singleton_append, Text.splitAt_append, ih,
      List.flatMap_cons, List.append_assoc]

theorem length_splitAt (separator : Char) (cs : List Char) :
    (Text.splitAt separator cs).length = cs.count separator + 1 := by
  induction cs with
  | nil => rfl
  | cons c cs ih =>
    rw [Text.splitAt]
    split_ifs with hc
    · rw [hc, List.count_cons_self, List.length_cons, ih]
    · rw [List.count_cons_of_ne hc, ← ih]
      split <;> simp_all

theorem flatMap_splitAt_of_notMem {α : Type} {separator : Char} {f : α → List Char} {xs : List α}
    (h : ∀ x ∈ xs, separator ∉ f x) :
    (xs.flatMap fun x => Text.splitAt separator (f x)) = xs.map f := by
  rw [List.map_eq_flatMap, List.flatMap_congr fun x hx => Text.splitAt_of_notMem (h x hx)]

theorem mapM_eq_some {α β : Type} {f : α → Option β} {xs : List α} {ys : List β} :
    xs.mapM f = some ys ↔ List.Forall₂ (fun x y => f x = some y) xs ys := by
  induction xs generalizing ys with
  | nil => simp [eq_comm]
  | cons x xs ih =>
    rw [List.mapM_cons]
    simp only [Option.bind_eq_bind, Option.pure_def, Option.bind_eq_some_iff, Option.some.injEq,
      List.forall₂_cons_left_iff]
    constructor
    · rintro ⟨y, hx, rest, hxs, rfl⟩
      exact ⟨y, rest, hx, ih.mp hxs, rfl⟩
    · rintro ⟨y, rest, hx, hxs, rfl⟩
      exact ⟨y, hx, rest, ih.mpr hxs, rfl⟩

theorem length_eq_one_of_flatMap {α β : Type} {f : α → List β} (hpos : ∀ x, 1 ≤ (f x).length)
    {xs : List α} (h : (xs.flatMap f).length ≤ xs.length) : ∀ x ∈ xs, (f x).length = 1 := by
  have hle : ∀ xs : List α, xs.length ≤ (xs.flatMap f).length := fun xs => by
    induction xs with
    | nil => simp
    | cons x xs ih =>
      have := hpos x
      simp only [List.flatMap_cons, List.length_append, List.length_cons]
      omega
  induction xs with
  | nil => simp
  | cons x xs ih =>
    have hfirst := hpos x
    have hrest := hle xs
    simp only [List.flatMap_cons, List.length_append, List.length_cons] at h
    intro y hy
    rcases List.mem_cons.mp hy with rfl | hy
    · omega
    · exact ih (by omega) y hy

/-- **A file has one constant for each of the texts** that it is put together of, if and only if
each text is a single line that is read as this constant. -/
theorem constants?_eq_some_iff {α : Type} {header keyword file : String} {f : α → List Char}
    {g : α → String × Except JsonError Json} {xs : List α}
    (hfile : file.toList = header.toList ++ xs.flatMap fun x => f x ++ ['\n']) :
    constants? header keyword file = some (xs.map g) ↔
      ∀ x ∈ xs, '\n' ∉ f x ∧ constant? keyword (f x) = some (g x) := by
  have hread : constants? header keyword file =
      (xs.flatMap fun x => Text.splitAt '\n' (f x)).mapM (constant? keyword) := by
    rw [constants?, hfile, dropPrefix?_append]
    simp only [Option.bind_eq_bind, Option.bind_some, splitAt_flatMap, List.dropLast_concat]
  have hlines : (xs.map f).mapM (constant? keyword) = some (xs.map g) ↔
      ∀ x ∈ xs, constant? keyword (f x) = some (g x) := by
    rw [mapM_eq_some, List.forall₂_map_left_iff, List.forall₂_map_right_iff, List.forall₂_same]
  rw [hread]
  constructor
  · intro h
    have hlength := (mapM_eq_some.mp h).length_eq
    rw [List.length_map] at hlength
    have hbreak : ∀ x ∈ xs, '\n' ∉ f x := fun x hx => by
      have hone := length_eq_one_of_flatMap (fun x => by rw [length_splitAt]; omega) hlength.le x hx
      rw [length_splitAt] at hone
      exact List.count_eq_zero.mp (by omega)
    rw [flatMap_splitAt_of_notMem hbreak, hlines] at h
    exact fun x hx => ⟨hbreak x hx, h x hx⟩
  · intro h
    rw [flatMap_splitAt_of_notMem fun x hx => (h x hx).1, hlines]
    exact fun x hx => (h x hx).2

end Sheet

end TokenSheets
