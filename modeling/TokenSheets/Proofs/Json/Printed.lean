import TokenSheets.Proofs.Json.Numbers
import TokenSheets.Proofs.Json.Strings

/-!
# Texts of values

What can be said of the text of a value without a reader of whole values: its first character shows
what kind of value it is, it has no control character, and it ends where it must, so that two values
never have the same text.

* `Fits`: the values that a document can hold, with their nesting;
* `itemChars_eq`, `memberChars_eq`: items and members stand between commas;
* `exists_cons_chars`: the first character;
* `le_toNat_of_mem_chars`: no control characters;
* `chars_inj`: values with the same text are the same.
-/

namespace TokenSheets.Json

open Decimal

/-- **The values that a document can hold**: whole numbers of 64 bits, finite doubles, objects
without a key twice, and lists and objects nested no deeper than there is room. -/
inductive Fits : ℕ → Json → Prop
  | null {room : ℕ} : Fits room .null
  | bool {room : ℕ} (b : Bool) : Fits room (.bool b)
  | whole {room : ℕ} {n : Int} (low : -2 ^ 63 ≤ n) (high : n < 2 ^ 64) : Fits room (.whole n)
  | double {room : ℕ} {x : Float} (finite : x.isFinite = true) : Fits room (.double x)
  | text {room : ℕ} (s : String) : Fits room (.text s)
  | list {room : ℕ} {items : List Json} (inner : ∀ item ∈ items, Fits room item) :
    Fits (room + 1) (.list items)
  | object {room : ℕ} {members : List (String × Json)} (distinct : Entries.Distinct members)
    (inner : ∀ p ∈ members, Fits room p.2) : Fits (room + 1) (.object members)

/-! ### Commas -/

/-- A member: its key, a colon and its value. -/
def memberText (p : String × Json) : List Char := stringChars p.1 ++ ':' :: chars p.2

theorem itemChars_eq (items : List Json) :
    itemChars items = [','].intercalate (items.map chars) := by
  induction items with
  | nil => rfl
  | cons j items ih =>
    rcases items with _ | ⟨k, items⟩
    · rw [itemChars, List.map_singleton, List.intercalate_singleton]
    · rw [List.map_cons, List.map_cons, List.intercalate_cons_cons, ← List.map_cons, ← ih]
      simp [itemChars]

theorem memberChars_eq (members : List (String × Json)) :
    memberChars members = [','].intercalate (members.map memberText) := by
  induction members with
  | nil => rfl
  | cons p members ih =>
    rcases members with _ | ⟨q, members⟩
    · rw [List.map_singleton, List.intercalate_singleton]
      rfl
    · rw [List.map_cons, List.map_cons, List.intercalate_cons_cons, ← List.map_cons, ← ih]
      simp [memberChars, memberText]

section Separated

variable {α : Type} {f : α → List Char}

theorem mem_intercalate_comma {xs : List α} {c : Char}
    (hc : c ∈ [','].intercalate (xs.map f)) : c = ',' ∨ ∃ x ∈ xs, c ∈ f x := by
  induction xs with
  | nil => cases hc
  | cons x xs ih =>
    rcases xs with _ | ⟨y, ys⟩
    · rw [List.map_singleton, List.intercalate_singleton] at hc
      exact .inr ⟨x, by simp, hc⟩
    · rw [List.map_cons, List.map_cons, List.intercalate_cons_cons, ← List.map_cons,
        List.append_assoc, List.mem_append, List.mem_append, List.mem_singleton] at hc
      rcases hc with hc | rfl | hc
      · exact .inr ⟨x, by simp, hc⟩
      · exact .inl rfl
      · rcases ih hc with rfl | ⟨z, hz, hc⟩
        · exact .inl rfl
        · exact .inr ⟨z, by simp [hz], hc⟩

/-- **Lists between commas** up to a closing bracket are the same if their elements can be told
apart and none begins with the bracket. -/
theorem intercalate_comma_inj {close : Char}
    (hclose : (close.isDigit || close = '.' || isExponentMark close) = false)
    (hcomma : close ≠ ',') {xs ys : List α} {rest rest' : List Char}
    (hinj : ∀ x ∈ xs, ∀ y ∈ ys, ∀ cs ds, Ends cs → Ends ds → f x ++ cs = f y ++ ds →
      x = y ∧ cs = ds)
    (hxs : ∀ x ∈ xs, ∀ cs ds, f x ++ cs ≠ close :: ds)
    (hys : ∀ y ∈ ys, ∀ cs ds, f y ++ cs ≠ close :: ds)
    (h : [','].intercalate (xs.map f) ++ close :: rest =
      [','].intercalate (ys.map f) ++ close :: rest') :
    xs = ys ∧ rest = rest' := by
  have hsplit : ∀ (x : α) (xs : List α) (rest : List Char), ∃ behind : List Char, Ends behind ∧
      [','].intercalate ((x :: xs).map f) ++ close :: rest = f x ++ behind ∧
      behind = if xs = [] then close :: rest
        else ',' :: ([','].intercalate (xs.map f) ++ close :: rest) := by
    intro x xs rest
    rcases xs with _ | ⟨y, ys⟩
    · exact ⟨_, Ends.of_ne hclose rest, by simp, rfl⟩
    · exact ⟨_, Ends.of_ne (c := ',') (by decide) _, by simp, rfl⟩
  induction xs generalizing ys with
  | nil =>
    rcases ys with _ | ⟨y, ys⟩
    · exact ⟨rfl, (List.cons.inj h).2⟩
    · obtain ⟨behind, -, hbehind, -⟩ := hsplit y ys rest'
      exact absurd (hbehind.symm.trans h.symm) (hys y (by simp) _ _)
  | cons x xs ih =>
    obtain ⟨behind, hends, hbehind, hx⟩ := hsplit x xs rest
    rcases ys with _ | ⟨y, ys⟩
    · exact absurd (hbehind.symm.trans h) (hxs x (by simp) _ _)
    · obtain ⟨behind', hends', hbehind', hy⟩ := hsplit y ys rest'
      obtain ⟨rfl, hsame⟩ := hinj x (by simp) y (by simp) behind behind' hends hends'
        (hbehind.symm.trans (h.trans hbehind'))
      rw [hx, hy] at hsame
      split_ifs at hsame with hnil hnil' hnil'
      · exact ⟨by rw [hnil, hnil'], (List.cons.inj hsame).2⟩
      · exact absurd (List.cons.inj hsame).1 hcomma
      · exact absurd (List.cons.inj hsame).1.symm hcomma
      · obtain ⟨rfl, hrest⟩ := ih
          (fun x hx y hy => hinj x (by simp [hx]) y (by simp [hy]))
          (fun x hx => hxs x (by simp [hx])) (fun y hy => hys y (by simp [hy]))
          (List.cons.inj hsame).2
        exact ⟨rfl, hrest⟩

end Separated

/-! ### The first character -/

/-- The character that texts of this kind begin with: `t` for either truth value, a zero for a sign
or a digit. -/
def leading : Json → Char
  | .null => 'n'
  | .bool _ => 't'
  | .whole _ => '0'
  | .double _ => '0'
  | .text _ => '"'
  | .list _ => '['
  | .object _ => '\x7b'

/-- What a first character shows. -/
def shown (c : Char) : Char :=
  if c = '-' ∨ c.isDigit = true then '0' else if c = 'f' then 't' else c

variable {v w : Json} {room room' : ℕ}

/-- **The first character** shows the kind of the value. -/
theorem exists_cons_chars (hv : Fits room v) : ∃ c cs, chars v = c :: cs ∧ shown c = leading v := by
  cases hv with
  | null => exact ⟨_, _, rfl, by decide⟩
  | bool b =>
    rcases b
    · exact ⟨_, _, rfl, by decide⟩
    · exact ⟨_, _, rfl, by decide⟩
  | whole low high =>
    obtain ⟨c, cs, hchars, hc⟩ := exists_cons_wholeChars _
    exact ⟨c, cs, hchars, if_pos hc⟩
  | double finite =>
    obtain ⟨c, cs, hchars, hc⟩ := exists_cons_doubleChars finite
    exact ⟨c, cs, hchars, if_pos hc⟩
  | text s => exact ⟨_, _, rfl, rfl⟩
  | list inner => exact ⟨_, _, rfl, rfl⟩
  | object distinct inner => exact ⟨_, _, rfl, rfl⟩

theorem leading_eq (hv : Fits room v) (hw : Fits room' w) {rest rest' : List Char}
    (h : chars v ++ rest = chars w ++ rest') : leading v = leading w := by
  obtain ⟨c, cs, hc, hshown⟩ := exists_cons_chars hv
  obtain ⟨d, ds, hd, hshown'⟩ := exists_cons_chars hw
  rw [hc, hd] at h
  rw [← hshown, ← hshown', (List.cons.inj h).1]

theorem chars_ne_closeList (hv : Fits room v) (cs ds : List Char) : chars v ++ cs ≠ ']' :: ds := by
  obtain ⟨c, rest, hc, hshown⟩ := exists_cons_chars hv
  rw [hc]
  intro h
  rw [(List.cons.inj h).1, show shown ']' = ']' by decide] at hshown
  cases v <;> simp [leading] at hshown

/-! ### No control characters -/

theorem le_toNat_of_isDigit {c : Char} (hc : c.isDigit = true) : 0x20 ≤ c.toNat := by
  simp only [Char.isDigit, Bool.and_eq_true, decide_eq_true_eq] at hc
  have hle : '0'.toNat ≤ c.toNat := hc.1
  exact le_trans (by decide) hle

theorem le_toNat_of_mem_numeral {n : Numeral} (hn : n.IsProper) :
    ∀ c ∈ n.chars, 0x20 ≤ c.toNat := by
  intro c hc
  rw [Numeral.chars, List.mem_append, List.mem_append] at hc
  rcases hc with hc | hc | hc
  · exact le_toNat_of_isDigit (hn.whole c hc)
  · rcases hfraction : n.fraction with _ | ⟨d, ds⟩
    · rw [hfraction] at hc
      cases hc
    · rw [hfraction, Numeral.fractionChars, List.mem_cons] at hc
      rcases hc with rfl | hc
      · decide
      · exact le_toNat_of_isDigit (hn.fraction c (hfraction ▸ hc))
  · rcases hshift : n.shift with _ | e
    · rw [hshift] at hc
      cases hc
    · rw [hshift, Numeral.shiftChars, List.mem_cons, List.mem_cons] at hc
      rcases hc with rfl | rfl | hc
      · decide
      · split_ifs <;> decide
      · exact le_toNat_of_isDigit (isDigit_toDigits _ c hc)

theorem le_toNat_of_mem_string (s : String) : ∀ c ∈ stringChars s, 0x20 ≤ c.toNat := by
  intro c hc
  rw [stringChars, List.mem_cons, List.mem_append, List.mem_singleton, List.mem_flatMap] at hc
  rcases hc with rfl | ⟨d, -, hc⟩ | rfl
  · decide
  · exact isEscape_escapeChar.printable d c hc
  · decide

theorem le_toNat_of_mem_whole (n : Int) : ∀ c ∈ wholeChars n, 0x20 ≤ c.toNat := by
  intro c hc
  rw [wholeChars] at hc
  split_ifs at hc
  · rcases List.mem_cons.mp hc with rfl | hc
    · decide
    · exact le_toNat_of_isDigit (isDigit_toDigits _ c hc)
  · exact le_toNat_of_isDigit (isDigit_toDigits _ c hc)

theorem le_toNat_of_mem_double {x : Float} (hx : x.isFinite = true) :
    ∀ c ∈ doubleChars x, 0x20 ≤ c.toNat := by
  obtain ⟨a, ha⟩ := isFinite_iff.mp hx
  obtain ⟨n, hn, -, -, hchars⟩ := exists_doubleChars ha
  intro c hc
  rw [hchars, List.mem_append, signChars] at hc
  rcases hc with hc | hc
  · split_ifs at hc
    · obtain rfl := List.mem_singleton.mp hc
      decide
    · cases hc
  · exact le_toNat_of_mem_numeral hn c hc

theorem le_toNat_of_mem_member {p : String × Json} (hvalue : ∀ c ∈ chars p.2, 0x20 ≤ c.toNat) :
    ∀ c ∈ memberText p, 0x20 ≤ c.toNat := by
  intro c hc
  rw [memberText, List.mem_append, List.mem_cons] at hc
  rcases hc with hc | rfl | hc
  · exact le_toNat_of_mem_string p.1 c hc
  · decide
  · exact hvalue c hc

theorem le_toNat_of_mem_separated {α : Type} {f : α → List Char} {xs : List α}
    {opening close : Char} (hopening : 0x20 ≤ opening.toNat) (hclose : 0x20 ≤ close.toNat)
    (hxs : ∀ x ∈ xs, ∀ c ∈ f x, 0x20 ≤ c.toNat) :
    ∀ c ∈ opening :: ([','].intercalate (xs.map f) ++ [close]), 0x20 ≤ c.toNat := by
  intro c hc
  rw [List.mem_cons, List.mem_append, List.mem_singleton] at hc
  rcases hc with rfl | hc | rfl
  · exact hopening
  · rcases mem_intercalate_comma hc with rfl | ⟨x, hx, hc⟩
    · decide
    · exact hxs x hx c hc
  · exact hclose

theorem le_toNat_of_mem_chars (hv : Fits room v) : ∀ c ∈ chars v, 0x20 ≤ c.toNat := by
  induction hv with
  | null => exact le_toNat_of_all (by decide)
  | bool b => rcases b <;> exact le_toNat_of_all (by decide)
  | @whole _ n => exact le_toNat_of_mem_whole n
  | double finite => exact le_toNat_of_mem_double finite
  | text s => exact le_toNat_of_mem_string s
  | list inner ih =>
    rw [chars, itemChars_eq]
    exact le_toNat_of_mem_separated (by decide) (by decide) ih
  | object distinct inner ih =>
    rw [chars, memberChars_eq]
    exact le_toNat_of_mem_separated (by decide) (by decide) fun p hp =>
      le_toNat_of_mem_member (ih p hp)

/-! ### Values with the same text -/

theorem stringChars_inj {s t : String} {rest rest' : List Char}
    (h : stringChars s ++ rest = stringChars t ++ rest') : s = t ∧ rest = rest' := by
  simp only [stringChars, List.cons_append, List.append_assoc, List.cons.injEq, true_and,
    List.nil_append] at h
  obtain ⟨hchars, hrest⟩ := isEscape_escapeChar.inj h
  exact ⟨String.toList_inj.mp hchars, hrest⟩

theorem memberText_inj {p q : String × Json} {rest rest' : List Char}
    (hinj : chars p.2 ++ rest = chars q.2 ++ rest' → p.2 = q.2 ∧ rest = rest')
    (h : memberText p ++ rest = memberText q ++ rest') : p = q ∧ rest = rest' := by
  simp only [memberText, List.append_assoc, List.cons_append] at h
  obtain ⟨hkey, hbehind⟩ := stringChars_inj h
  obtain ⟨hvalue, hrest⟩ := hinj (List.cons.inj hbehind).2
  exact ⟨Prod.ext hkey hvalue, hrest⟩

/-- **Values with the same text are the same**, and so is what stands behind it. -/
theorem chars_inj (hv : Fits room v) (hw : Fits room' w) {rest rest' : List Char}
    (hrest : Ends rest) (hrest' : Ends rest') (h : chars v ++ rest = chars w ++ rest') :
    v = w ∧ rest = rest' := by
  have hkind := leading_eq hv hw h
  induction hv generalizing w room' rest rest' with
  | null =>
    cases hw
    case null => exact ⟨rfl, List.append_cancel_left h⟩
    all_goals simp [leading] at hkind
  | bool b =>
    cases hw
    case bool b' =>
      obtain rfl : b = b' := by cases b <;> cases b' <;> simp_all [chars]
      exact ⟨rfl, List.append_cancel_left h⟩
    all_goals simp [leading] at hkind
  | whole low high =>
    have hread := number_wholeChars low high hrest
    cases hw
    case whole low' high' =>
      rw [← chars, h, chars, number_wholeChars low' high' hrest'] at hread
      simpa [eq_comm] using hread
    case double finite =>
      rw [← chars, h, chars, number_doubleChars finite hrest'] at hread
      simp at hread
    all_goals simp [leading] at hkind
  | double finite =>
    have hread := number_doubleChars finite hrest
    cases hw
    case whole low' high' =>
      rw [← chars, h, chars, number_wholeChars low' high' hrest'] at hread
      simp at hread
    case double finite' =>
      rw [← chars, h, chars, number_doubleChars finite' hrest'] at hread
      obtain rfl : rest' = rest := by simp_all
      rw [doubleChars_inj finite finite' (List.append_cancel_right h)]
      exact ⟨rfl, rfl⟩
    all_goals simp [leading] at hkind
  | text s =>
    cases hw
    case text t =>
      obtain ⟨rfl, hbehind⟩ := stringChars_inj h
      exact ⟨rfl, hbehind⟩
    all_goals simp [leading] at hkind
  | list inner ih =>
    cases hw
    case list inner' =>
      simp only [chars, itemChars_eq, List.cons_append, List.append_assoc, List.nil_append,
        List.cons.injEq, true_and] at h
      obtain ⟨rfl, hbehind⟩ := intercalate_comma_inj (by decide) (by decide)
        (fun x hx y hy cs ds hcs hds heq => ih x hx (inner' y hy) hcs hds heq
          (leading_eq (inner x hx) (inner' y hy) heq))
        (fun x hx => chars_ne_closeList (inner x hx))
        (fun y hy => chars_ne_closeList (inner' y hy)) h
      exact ⟨rfl, hbehind⟩
    all_goals simp [leading] at hkind
  | object distinct inner ih =>
    cases hw
    case object distinct' inner' =>
      simp only [chars, memberChars_eq, List.cons_append, List.append_assoc, List.nil_append,
        List.cons.injEq, true_and] at h
      have hquote : ∀ (p : String × Json) (cs ds : List Char),
          memberText p ++ cs ≠ '\x7d' :: ds := fun p cs ds heq =>
        absurd (List.cons.inj heq).1 (by decide)
      obtain ⟨rfl, hbehind⟩ := intercalate_comma_inj (by decide) (by decide)
        (fun p hp q hq cs ds hcs hds => memberText_inj fun heq =>
          ih p hp (inner' q hq) hcs hds heq (leading_eq (inner p hp) (inner' q hq) heq))
        (fun p _ => hquote p) (fun q _ => hquote q) h
      exact ⟨rfl, hbehind⟩
    all_goals simp [leading] at hkind

end TokenSheets.Json
