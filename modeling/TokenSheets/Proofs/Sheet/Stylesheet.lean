import Mathlib.Data.List.Forall2
import TokenSheets.Proofs.Dimension.Literal
import TokenSheets.Proofs.Sheet.Comments

/-!
# What a style sheet declares

Whether a sheet can be written is decided by the values alone. A value that has the form of a
dimension and no number is refused under every scale and in every unit, so the sheet fails at the
first of them; if there is none, each unit has a ruleset with the same names.

* `mapM_eq_error`, `mapM_eq_ok`: results are gathered up to the first failure;
* `IsDimension`, `IsBroken`: values by their form;
* `Bare`, `Remark`, `RootLine`: the line of a token in the root, as a text;
* `Shows`: the text of a whole sheet;
* `render_of_broken`, `exists_render`: which of the two comes about;
* `sheet_shows_every_token_or_names_the_first_broken_one`: both together.
-/

namespace TokenSheets

/-! ### Results that are gathered -/

section Gathered

variable {ε α β : Type} {f : α → Except ε β}

/-- **The first failure** is the failure of all. -/
theorem mapM_eq_error {front behind : List α} {x : α} {error : ε}
    (hfront : ∀ y ∈ front, ∃ result, f y = .ok result) (hx : f x = .error error) :
    (front ++ x :: behind).mapM f = .error error := by
  induction front with
  | nil => rw [List.nil_append, List.mapM_cons, hx]; rfl
  | cons y front ih =>
    obtain ⟨result, hy⟩ := hfront y (by simp)
    rw [List.cons_append, List.mapM_cons, hy, ih fun z hz => hfront z (by simp [hz])]
    rfl

theorem mapM_eq_ok : ∀ {list : List α} {results : List β},
    list.mapM f = .ok results ↔ List.Forall₂ (fun x result => f x = .ok result) list results
  | [], results => by
    rw [List.mapM_nil, List.forall₂_nil_left_iff]
    exact ⟨fun h => (Except.ok.inj h).symm, fun h => by rw [h]; rfl⟩
  | x :: list, results => by
    rw [List.mapM_cons, List.forall₂_cons_left_iff]
    constructor
    · intro h
      rcases hx : f x with error | result
      · rw [hx] at h
        cases h
      · rcases hlist : list.mapM f with error | rest
        · rw [hx, hlist] at h
          cases h
        · rw [hx, hlist] at h
          exact ⟨result, rest, rfl, mapM_eq_ok.mp hlist, (Except.ok.inj h).symm⟩
    · rintro ⟨result, rest, hx, hlist, rfl⟩
      rw [hx, mapM_eq_ok.mpr hlist]
      rfl

/-- **One result among others** is the one of what is in its position. -/
theorem mapM_eq_ok_append {list : List α} {done left : List β} {result : β} :
    list.mapM f = .ok (done ++ result :: left) ↔
      ∃ front x behind, list = front ++ x :: behind ∧ front.mapM f = .ok done ∧
        f x = .ok result ∧ behind.mapM f = .ok left := by
  simp only [mapM_eq_ok]
  constructor
  · intro h
    have hfront := List.forall₂_take_append _ _ _ h
    have hbehind := List.forall₂_drop_append _ _ _ h
    obtain ⟨x, behind, hx, hrest, hdrop⟩ := List.forall₂_cons_right_iff.mp hbehind
    exact ⟨_, x, behind, by rw [← hdrop, List.take_append_drop], hfront, hx, hrest⟩
  · rintro ⟨front, x, behind, rfl, hfront, hx, hbehind⟩
    exact List.rel_append hfront (.cons hx hbehind)

theorem exists_of_mapM_eq_error : ∀ {list : List α} {error : ε}, list.mapM f = .error error →
    ∃ front x behind, list = front ++ x :: behind ∧
      (∀ y ∈ front, ∃ result, f y = .ok result) ∧ f x = .error error
  | [], _, h => by cases h
  | x :: list, error, h => by
    rw [List.mapM_cons] at h
    rcases hx : f x with error' | result
    · rw [hx] at h
      obtain rfl : error' = error := Except.error.inj h
      exact ⟨[], x, list, rfl, by simp, hx⟩
    · rcases hlist : list.mapM f with error' | results
      · rw [hx, hlist] at h
        obtain rfl : error' = error := Except.error.inj h
        obtain ⟨front, y, behind, rfl, hfront, hy⟩ := exists_of_mapM_eq_error hlist
        refine ⟨x :: front, y, behind, rfl, ?_, hy⟩
        rw [List.forall_mem_cons]
        exact ⟨⟨result, hx⟩, hfront⟩
      · rw [hx, hlist] at h
        cases h

theorem exists_mem_of_mapM_eq_ok {list : List α} {results : List β}
    (h : list.mapM f = .ok results) : ∀ x ∈ list, ∃ result ∈ results, f x = .ok result := by
  have hall := mapM_eq_ok.mp h
  clear h
  induction hall with
  | nil => simp
  | cons hx _ ih =>
    refine List.forall_mem_cons.mpr ⟨⟨_, List.mem_cons_self, hx⟩, fun y hy => ?_⟩
    obtain ⟨result, hmem, hresult⟩ := ih y hy
    exact ⟨result, List.mem_cons_of_mem _ hmem, hresult⟩

theorem exists_mapM_eq_ok {list : List α} :
    (∃ results, list.mapM f = .ok results) ↔ ∀ x ∈ list, ∃ result, f x = .ok result := by
  constructor
  · rintro ⟨results, h⟩ x hx
    obtain ⟨result, -, hresult⟩ := exists_mem_of_mapM_eq_ok h x hx
    exact ⟨result, hresult⟩
  · intro hall
    rcases h : list.mapM f with error | results
    · obtain ⟨front, x, behind, rfl, -, hx⟩ := exists_of_mapM_eq_error h
      obtain ⟨result, hresult⟩ := hall x (by simp)
      simp [hx] at hresult
    · exact ⟨results, rfl⟩

end Gathered

namespace Stylesheet

/-! ### Values by their form -/

/-- **The value is a dimension literal.** -/
def IsDimension (value : Json) : Prop :=
  ∃ text number unit, value = .text text ∧ Dimension.Spells text number unit

/-- **The value is a dimension literal whose number is none.** -/
def IsBroken (value : Json) : Prop := ∃ text, value = .text text ∧ Dimension.Broken text

theorem isDimension_iff {value : Json} : isDimension value = true ↔ IsDimension value := by
  cases value <;> simp [isDimension, IsDimension, Json.text?, Dimension.hasShape_iff]

instance : DecidablePred IsDimension := fun _ => decidable_of_iff _ isDimension_iff

theorem IsBroken.isDimension {value : Json} (h : IsBroken value) : IsDimension value := by
  obtain ⟨text, htext, number, unit, hspells, -⟩ := h
  exact ⟨text, number, unit, htext, hspells⟩

/-- The tokens that have a declaration in every unit. -/
def dimensions (dictionary : Dictionary) : Dictionary :=
  dictionary.filter fun entry => IsDimension entry.value

/-- **A name and a value declare a token** in a unit: the name is that of the token, and the value
is its literal converted to the unit. -/
def Declares (scale : Scale) (unit : LengthUnit) (entry : ResolvedToken)
    (declared : String × String) : Prop :=
  declared.1 = entry.name ∧
    ∃ text, entry.value = .text text ∧ scale.convert text unit = .ok declared.2

/-! ### The text of a sheet -/

/-- **A value as it stands in a sheet**: a string bare, anything else as JSON. -/
inductive Bare : Json → String → Prop
  | text (text : String) : Bare (.text text) text
  | other {value : Json} (noText : ∀ text, value ≠ .text text) : Bare value value.render

/-- **What stands behind a declaration**: nothing, or the description as a comment, in which a
backslash is in every end of a comment that the description has. -/
inductive Remark : Option String → String → Prop
  | none : Remark none ""
  | comment {text : String} {pieces : List (List Char)}
    (free : ∀ piece ∈ pieces, ¬ "*/".toList <:+: piece)
    (parts : text.toList = "*/".toList.intercalate pieces) :
    Remark (some text) (" /* " ++ String.ofList ("*\\/".toList.intercalate pieces) ++ " */")

/-- **The line of a token** in the root. -/
def RootLine (entry : ResolvedToken) (line : String) : Prop :=
  ∃ value remark, Bare entry.value value ∧ Remark entry.token.description remark ∧
    line = "  --" ++ entry.name ++ ": " ++ value ++ ";" ++ remark ++ "\n"

/-- **What a sheet says**: the root declares the font size and every token with its comment; then
each unit has a heading and declares the dimensions, in order. -/
def Shows (scale : Scale) (dictionary : Dictionary) (sheet : String) : Prop :=
  ∃ (lines : List String) (declared : LengthUnit → List (String × String)),
    List.Forall₂ RootLine dictionary lines ∧
    (∀ unit, List.Forall₂ (Declares scale unit) (dimensions dictionary) (declared unit) ∧
      (declared unit).map Prod.fst = (dimensions dictionary).map ResolvedToken.name) ∧
    sheet =
      "/**\n * Do not edit directly, this file was auto-generated.\n */\n\n" ++
        (":root \x7b\n  font-size: " ++ Decimal.plainText scale.baseFontSize ++ "px;\n" ++
          String.join lines ++ "\x7d\n") ++
        String.join ([(LengthUnit.px, "px"), (.rem, "rem"), (.rpx, "rpx")].map fun unit =>
          "\n/**\n * Variables in " ++ unit.2 ++ " units\n */\n" ++
            ".variables-" ++ unit.2 ++ " \x7b\n" ++
            String.join ((declared unit.1).map fun p => "  --" ++ p.1 ++ ": " ++ p.2 ++ ";\n") ++
            "\x7d\n")

theorem bare_plainValue (value : Json) : Bare value (plainValue value) := by
  cases value with
  | text text => exact .text text
  | _ => exact .other fun _ => nofun

theorem remark_comment (text : String) : Remark (some text) (comment text) := by
  obtain ⟨pieces, hparted, hpieces, hcomment⟩ := exists_pieces text.toList
  rw [comment, hcomment]
  exact .comment (fun piece hpiece => isChain_parted_iff.mp (hparted piece hpiece)) hpieces

theorem rootLine_property (entry : ResolvedToken) : RootLine entry (property entry ++ "\n") := by
  obtain ⟨remark, hremark, hproperty⟩ : ∃ remark, Remark entry.token.description remark ∧
      property entry = declaration entry.name (plainValue entry.value) ++ remark := by
    rw [property]
    rcases entry.token.description with _ | text
    · exact ⟨"", .none, rfl⟩
    · exact ⟨comment text, remark_comment text, rfl⟩
  exact ⟨_, remark, bare_plainValue entry.value, hremark, by rw [hproperty, declaration]⟩

theorem rootRuleset_eq (scale : Scale) (dictionary : Dictionary) :
    rootRuleset scale dictionary =
      ":root \x7b\n  font-size: " ++ Decimal.plainText scale.baseFontSize ++ "px;\n" ++
        String.join (List.map (fun entry => property entry ++ "\n") dictionary) ++ "\x7d\n" := by
  have hopen : ":root \x7b\n  font-size: " = ":root" ++ " \x7b\n" ++ "  font-size: " := rfl
  have hline : "px;\n" = "px;" ++ "\n" := rfl
  rw [hopen, hline]
  simp only [rootRuleset, ruleset, List.map_cons, List.map_map, Function.comp_def,
    String.join_cons, String.append_assoc]

theorem ruleset_unit (unit : LengthUnit) (declared : List (String × String)) :
    "\n/**\n * Variables in " ++ unit.name ++ " units\n */\n" ++
        ruleset (".variables-" ++ unit.name) (declared.map fun p => declaration p.1 p.2) =
      "\n/**\n * Variables in " ++ unit.name ++ " units\n */\n" ++
        ".variables-" ++ unit.name ++ " \x7b\n" ++
        String.join (declared.map fun p => "  --" ++ p.1 ++ ": " ++ p.2 ++ ";\n") ++ "\x7d\n" := by
  have hline : ";\n" = ";" ++ "\n" := rfl
  rw [hline]
  simp only [ruleset, declaration, List.map_map, Function.comp_def, String.append_assoc]

/-! ### One token in one unit -/

/-- **A dimension is declared in every unit**, or refused in every unit for the same reason. -/
theorem unitDeclaration_of_isDimension {entry : ResolvedToken} (h : IsDimension entry.value) :
    (¬ IsBroken entry.value ∧ ∀ scale unit, ∃ declared, Declares scale unit entry declared ∧
        unitDeclaration scale unit entry = .ok (declaration declared.1 declared.2)) ∨
      ∃ text, entry.value = .text text ∧ Dimension.Broken text ∧ ∀ scale unit,
        unitDeclaration scale unit entry = .error (.inToken entry.name (.malformed text)) := by
  obtain ⟨text, number, unit, htext, hspells⟩ := h
  have hplain : plainValue entry.value = text := by simp [plainValue, htext]
  rcases Scale.convert_of_hasShape (Dimension.hasShape_iff.mpr ⟨number, unit, hspells⟩) with
    ⟨hsound, hconvert⟩ | ⟨hbroken, hconvert⟩
  · refine .inl ⟨?_, fun scale target => ?_⟩
    · rintro ⟨text', htext', hbroken⟩
      obtain rfl : text = text' := by simpa [htext] using htext'
      exact hsound hbroken
    · obtain ⟨value, hvalue⟩ := hconvert scale target
      exact ⟨(entry.name, value), ⟨rfl, text, htext, hvalue⟩, by
        simp [unitDeclaration, hplain, hvalue]⟩
  · exact .inr ⟨text, htext, hbroken, fun scale target => by
      simp [unitDeclaration, hplain, hconvert scale target]⟩

variable {scale : Scale} {dictionary : Dictionary}

/-! ### A whole sheet -/

/-- **A broken token fails the sheet**, under every scale, if no token before it is broken. -/
theorem render_of_broken {front behind : Dictionary} {entry : ResolvedToken} {text : String}
    (hfront : ∀ earlier ∈ front, ¬ IsBroken earlier.value) (htext : entry.value = .text text)
    (hbroken : Dimension.Broken text) :
    render scale (front ++ entry :: behind) = .error (.inToken entry.name (.malformed text)) := by
  have hentry : IsBroken entry.value := ⟨text, htext, hbroken⟩
  have hdimensions : (front ++ entry :: behind).filter (fun entry => isDimension entry.value) =
      front.filter (fun entry => isDimension entry.value) ++
        entry :: behind.filter (fun entry => isDimension entry.value) := by
    simp [isDimension_iff.mpr hentry.isDimension]
  have hfails : unitDeclaration scale .px entry =
      .error (.inToken entry.name (.malformed text)) := by
    rcases unitDeclaration_of_isDimension hentry.isDimension with ⟨hsound, -⟩ | ⟨text', h', -, hall⟩
    · exact absurd hentry hsound
    · obtain rfl : text = text' := by simpa [htext] using h'
      exact hall scale .px
  have hearlier : ∀ earlier ∈ front.filter fun entry => isDimension entry.value,
      ∃ line, unitDeclaration scale .px earlier = .ok line := by
    intro earlier hearlier
    obtain ⟨hmem, hdimension⟩ := List.mem_filter.mp hearlier
    rcases unitDeclaration_of_isDimension (isDimension_iff.mp hdimension) with
      ⟨-, hall⟩ | ⟨text', h', hbroken', -⟩
    · obtain ⟨declared, -, hok⟩ := hall scale .px
      exact ⟨_, hok⟩
    · exact absurd ⟨text', h', hbroken'⟩ (hfront earlier hmem)
  rw [render, hdimensions, LengthUnit.all, List.mapM_cons, unitRuleset,
    mapM_eq_error hearlier hfails]
  rfl

theorem exists_declared (scale : Scale) (unit : LengthUnit) :
    ∀ entries : Dictionary, (∀ entry ∈ entries, IsDimension entry.value ∧ ¬ IsBroken entry.value) →
      ∃ declared, List.Forall₂ (Declares scale unit) entries declared ∧
        entries.mapM (unitDeclaration scale unit) =
          .ok (declared.map fun p => declaration p.1 p.2)
  | [], _ => ⟨[], .nil, rfl⟩
  | entry :: entries, h => by
    obtain ⟨declared, hdeclared, hlines⟩ :=
      exists_declared scale unit entries fun other hother => h other (by simp [hother])
    obtain ⟨hdimension, hsound⟩ := h entry (by simp)
    rcases unitDeclaration_of_isDimension hdimension with ⟨-, hall⟩ | ⟨text, htext, hbroken, -⟩
    · obtain ⟨first, hfirst, hline⟩ := hall scale unit
      refine ⟨first :: declared, .cons hfirst hdeclared, ?_⟩
      rw [List.mapM_cons, hline, hlines]
      rfl
    · exact absurd ⟨text, htext, hbroken⟩ hsound

theorem names_of_declares {unit : LengthUnit} {entries : Dictionary}
    {declared : List (String × String)} (h : List.Forall₂ (Declares scale unit) entries declared) :
    declared.map Prod.fst = entries.map ResolvedToken.name := by
  induction h with
  | nil => rfl
  | cons hfirst _ ih => rw [List.map_cons, List.map_cons, ih, hfirst.1]

theorem exists_render (h : ∀ entry ∈ dictionary, ¬ IsBroken entry.value) :
    ∃ sheet, render scale dictionary = .ok sheet ∧ Shows scale dictionary sheet := by
  have hdimensions : dictionary.filter (fun entry => isDimension entry.value) =
      dimensions dictionary := by
    refine List.filter_congr fun entry _ => ?_
    rw [Bool.eq_iff_iff, isDimension_iff, decide_eq_true_iff]
  have hunits : ∀ unit, ∃ declared,
      List.Forall₂ (Declares scale unit) (dimensions dictionary) declared ∧
        (dimensions dictionary).mapM (unitDeclaration scale unit) =
          .ok (declared.map fun p => declaration p.1 p.2) := fun unit => by
    refine exists_declared scale unit _ fun entry hentry => ?_
    obtain ⟨hmem, hdimension⟩ := List.mem_filter.mp hentry
    exact ⟨of_decide_eq_true hdimension, h entry hmem⟩
  choose declared hdeclared hlines using hunits
  have hlines' : List.Forall₂ RootLine dictionary
      (List.map (fun entry => property entry ++ "\n") dictionary) := by
    rw [List.forall₂_map_right_iff, List.forall₂_same]
    exact fun entry _ => rootLine_property entry
  refine ⟨_, ?_, _, declared, hlines',
    fun unit => ⟨hdeclared unit, names_of_declares (hdeclared unit)⟩, rfl⟩
  rw [render, hdimensions]
  simp only [LengthUnit.all, List.mapM_cons, List.mapM_nil, unitRuleset, hlines, bind, Except.bind,
    pure, Except.pure, rootRuleset_eq, ruleset_unit, List.map_cons, List.map_nil]
  rfl

theorem exists_first_broken (h : ¬ ∀ entry ∈ dictionary, ¬ IsBroken entry.value) :
    ∃ front entry behind text, dictionary = front ++ entry :: behind ∧
      (∀ earlier ∈ front, ¬ IsBroken earlier.value) ∧ entry.value = .text text ∧
      Dimension.Broken text := by
  classical
  rcases hfind : dictionary.find? fun entry => IsBroken entry.value with _ | entry
  · exact absurd (by simpa using hfind) h
  · obtain ⟨hentry, front, behind, rfl, hfront⟩ := List.find?_eq_some_iff_append.mp hfind
    obtain ⟨text, htext, hbroken⟩ := of_decide_eq_true hentry
    exact ⟨front, entry, behind, text, rfl, by simpa using hfront, htext, hbroken⟩

theorem shows_of_render {sheet : String} (h : render scale dictionary = .ok sheet) :
    Shows scale dictionary sheet := by
  have hsound : ∀ entry ∈ dictionary, ¬ IsBroken entry.value := by
    by_contra hbroken
    obtain ⟨front, entry, behind, text, rfl, hfront, htext, hbroken⟩ := exists_first_broken hbroken
    rw [render_of_broken hfront htext hbroken] at h
    cases h
  obtain ⟨written, hwritten, hshows⟩ : ∃ sheet, render scale dictionary = .ok sheet ∧
      Shows scale dictionary sheet := exists_render hsound
  obtain rfl : written = sheet := by simpa [h] using hwritten.symm
  exact hshows

theorem render_eq_error {error : SheetError} : render scale dictionary = .error error ↔
    ∃ front entry behind text, dictionary = front ++ entry :: behind ∧
      (∀ earlier ∈ front, ¬ IsBroken earlier.value) ∧ entry.value = .text text ∧
      Dimension.Broken text ∧ error = .inToken entry.name (.malformed text) := by
  constructor
  · intro hrender
    have hbroken : ¬ ∀ entry ∈ dictionary, ¬ IsBroken entry.value := by
      intro hsound
      obtain ⟨sheet, hsheet, -⟩ : ∃ sheet, render scale dictionary = .ok sheet ∧
        Shows scale dictionary sheet := exists_render hsound
      simp [hrender] at hsheet
    obtain ⟨front, entry, behind, text, rfl, hfront, htext, hbroken⟩ := exists_first_broken hbroken
    rw [render_of_broken hfront htext hbroken] at hrender
    exact ⟨front, entry, behind, text, rfl, hfront, htext, hbroken, by simpa using hrender.symm⟩
  · rintro ⟨front, entry, behind, text, rfl, hfront, htext, hbroken, rfl⟩
    exact render_of_broken hfront htext hbroken

/-- **A sheet fails at the first broken token, and only there.** A token is broken if its value is a
dimension literal whose number has no digit, or more than one point; the error names it and its
literal, whatever the scale. Without such a token the sheet is written: the root declares the font
size and every token, in order and with its comment, and the rulesets of the three units declare
the dimension literals, all with the same names in the same order, each with its value converted to
the unit. -/
theorem sheet_shows_every_token_or_names_the_first_broken_one (scale : Scale)
    (dictionary : Dictionary) :
    (∀ error, render scale dictionary = .error error ↔
      ∃ front entry behind text, dictionary = front ++ entry :: behind ∧
        (∀ earlier ∈ front, ¬ IsBroken earlier.value) ∧ entry.value = .text text ∧
        Dimension.Broken text ∧ error = .inToken entry.name (.malformed text)) ∧
    ((∀ entry ∈ dictionary, ¬ IsBroken entry.value) →
      ∃ sheet, render scale dictionary = .ok sheet ∧ Shows scale dictionary sheet) :=
  ⟨fun _ => render_eq_error, exists_render⟩

end Stylesheet

end TokenSheets
