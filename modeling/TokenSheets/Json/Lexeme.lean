import TokenSheets.Decimal.Reader
import TokenSheets.Json.Basic

/-!
# Lexemes of JSON

A text is cut into brackets, commas, colons, strings and literals; blanks between them are dropped.
A string or literal that is broken is a lexeme all the same, one that carries the reason, so that a
reader who meets an error of structure first reports that one. Nothing follows a broken lexeme.

* `stringBody`: a string after its opening quote;
* `number`: a number, its digits gathered into 64 bits and scaled by a power of ten;
* `lexemeAt` and `lexemes`: the first lexeme, and all of them.
-/

namespace TokenSheets.Json

-- powers of natural numbers, also where another instance is in scope
attribute [local instance (2000)] instPowNat

/-- A lexeme of a JSON text. -/
inductive Lexeme where
  | openList
  | closeList
  | openObject
  | closeObject
  | comma
  | colon
  /-- A string, or the reason why it is none. -/
  | string (content : Except JsonError String)
  /-- A number, a truth value or `null`, or the reason why it is none. -/
  | literal (value : Except JsonError Json)
  /-- A character that begins no lexeme. -/
  | stray
deriving Inhabited

/-! ### Strings -/

/-- The value of a hexadecimal digit of either case. -/
def hexValue? (c : Char) : Option Nat :=
  if c.isDigit then some (c.toNat - '0'.toNat)
  else if 'a' ≤ c ∧ c ≤ 'f' then some (c.toNat - 'a'.toNat + 10)
  else if 'A' ≤ c ∧ c ≤ 'F' then some (c.toNat - 'A'.toNat + 10)
  else none

/-- The 16-bit unit that four hexadecimal digits write. -/
def unit? (a b c d : Char) : Option Nat := do
  return (((← hexValue? a) * 16 + (← hexValue? b)) * 16 + (← hexValue? c)) * 16 + (← hexValue? d)

/-- Why fewer than four characters are no unit: the text ends, unless four bytes are still there. -/
def shortUnit (cs : List Char) : JsonError :=
  if (String.ofList cs).utf8ByteSize ≥ 4 then .malformed else .truncated

/-- The character behind a backslash, other than `u`. -/
def unescape? (c : Char) : Option Char :=
  if c = '"' ∨ c = '\\' ∨ c = '/' then some c
  else if c = 'b' then some '\x08'
  else if c = 'f' then some '\x0c'
  else if c = 'n' then some '\n'
  else if c = 'r' then some '\r'
  else if c = 't' then some '\t'
  else none

/-- The unit is the first half of a pair. -/
def isLeading (unit : Nat) : Bool := 0xD800 ≤ unit && unit ≤ 0xDBFF

/-- The unit is the second half of a pair. -/
def isTrailing (unit : Nat) : Bool := 0xDC00 ≤ unit && unit ≤ 0xDFFF

/-- The character of a pair of units. -/
def pairChar (leading trailing : Nat) : Char :=
  Char.ofNat ((leading - 0xD800) * 0x400 + (trailing - 0xDC00) + 0x10000)

/-- Puts a character in front of what was read. -/
def withChar (c : Char) : Except JsonError (List Char × List Char) →
    Except JsonError (List Char × List Char) :=
  Except.map fun (content, rest) => (c :: content, rest)

/-- **A string after its opening quote**: its content and the text behind the closing quote. -/
def stringBody : List Char → Except JsonError (List Char × List Char)
  | [] => .error .truncated
  | '"' :: rest => .ok ([], rest)
  | '\\' :: 'u' :: a :: b :: c :: d :: rest =>
    match unit? a b c d with
    | none => .error .malformed
    | some unit =>
      if isTrailing unit then .error .malformed
      else if isLeading unit then
        match rest with
        | '\\' :: 'u' :: a' :: b' :: c' :: d' :: rest' =>
          match unit? a' b' c' d' with
          | none => .error .malformed
          | some unit' =>
            if isTrailing unit' then withChar (pairChar unit unit') (stringBody rest')
            else .error .malformed
        | '\\' :: 'u' :: short => .error (shortUnit short)
        | ['\\'] => .error .truncated
        | [] => .error .truncated
        | _ => .error .malformed
      else withChar (Char.ofNat unit) (stringBody rest)
  | '\\' :: 'u' :: short => .error (shortUnit short)
  | ['\\'] => .error .truncated
  | '\\' :: c :: rest =>
    match unescape? c with
    | none => .error .malformed
    | some c' => withChar c' (stringBody rest)
  | c :: rest => if c.toNat < 0x20 then .error .malformed else withChar c (stringBody rest)

/-! ### Numbers -/

/-- Reads digits onto a significand while it fits 64 bits; the digits that are left over. -/
def gather (significand : Nat) : List Char → Nat × List Char
  | [] => (significand, [])
  | d :: ds =>
    let next := significand * 10 + (d.toNat - '0'.toNat)
    if next < 2 ^ (64 : Nat) then gather next ds else (significand, d :: ds)

/-- A power of ten that is a double. -/
def powerOfTen (n : Nat) : Float := Float.ofScientific 1 false n

/-- Divides by `10 ^ n`, in steps of the greatest power that is a double. -/
def scaleDown (x : Float) (n : Nat) : Float :=
  if n ≤ 308 then x / powerOfTen n
  else if x == 0.0 then x
  else scaleDown (x / powerOfTen 308) (n - 308)
termination_by n
decreasing_by omega

/-- **The double of a significand and a power of ten.** The significand is rounded to a double and
then scaled; there is no double for what lies beyond the greatest one. -/
def scaled? (significand : Nat) (exponent : Int) : Option Float :=
  let x := Float.ofNat significand
  if exponent < 0 then some (scaleDown x exponent.natAbs)
  else if exponent ≤ 308 then
    let y := x * powerOfTen exponent.natAbs
    if y.isInf then none else some y
  else if significand = 0 then some x
  else none

/-- A double with its sign, or the refusal of one that is out of range. -/
def signed (negative : Bool) (significand : Nat) (exponent : Int) : Except JsonError Json :=
  match scaled? significand exponent with
  | none => .error .malformed
  | some x => .ok (.double (if negative then -x else x))

/-- The exponent behind its letter, and the rest of the text. -/
def exponentPart (cs : List Char) : Except JsonError (Int × List Char) :=
  let (negative, ds) := match cs with
    | '-' :: ds => (true, ds)
    | '+' :: ds => (false, ds)
    | ds => (false, ds)
  match ds with
  | [] => .error .truncated
  | d :: _ =>
    if d.isDigit then
      let n : Int := Decimal.ofDigits (ds.takeWhile Char.isDigit)
      .ok (if negative then -n else n, ds.dropWhile Char.isDigit)
    else .error .malformed

/-- A number without point and exponent: a whole number if it fits 64 bits, else a double. A zero
with a sign is a double. -/
def wholeNumber (negative : Bool) (significand : Nat) (left : List Char) : Except JsonError Json :=
  if left ≠ [] then signed negative significand left.length
  else if !negative then .ok (.whole significand)
  else if significand ≠ 0 ∧ significand ≤ 2 ^ (63 : Nat) then .ok (.whole (-significand))
  else .ok (.double (-Float.ofNat significand))

/-- A number whose digits are read: `scaledBy` gives its value if an exponent follows, `plain` if
none does. -/
def withExponent (plain : Except JsonError Json) (scaledBy : Int → Except JsonError Json) :
    List Char → Except JsonError (Json × List Char)
  | [] => do return (← plain, [])
  | c :: rest =>
    if Decimal.isExponentMark c then do
      let (shift, rest) ← exponentPart rest
      return (← scaledBy shift, rest)
    else do return (← plain, c :: rest)

/-- What is wrong where a digit must come. -/
def missingDigit (cs : List Char) : JsonError := if cs = [] then .truncated else .malformed

/-- The digits behind a point, and what follows them. `dropped` digits in front of the point did not
fit the significand. -/
def fractionPart (negative : Bool) (significand dropped : Nat) (cs : List Char) :
    Except JsonError (Json × List Char) :=
  let fraction := cs.takeWhile Char.isDigit
  if fraction = [] then .error (missingDigit cs)
  else
    let gathered := gather significand fraction
    let exponent : Int := dropped - (fraction.length - gathered.2.length)
    withExponent (signed negative gathered.1 exponent)
      (fun shift => signed negative gathered.1 (exponent + shift)) (cs.dropWhile Char.isDigit)

/-- A number after its sign: its value and the rest of the text. -/
def magnitude (negative : Bool) (cs : List Char) : Except JsonError (Json × List Char) :=
  let digits := cs.takeWhile Char.isDigit
  let gathered := gather 0 digits
  if digits = [] then .error (missingDigit cs)
  else if digits.head? = some '0' ∧ digits.length > 1 then .error .malformed
  else
    match cs.dropWhile Char.isDigit with
    | '.' :: after => fractionPart negative gathered.1 gathered.2.length after
    | rest =>
      withExponent (wholeNumber negative gathered.1 gathered.2)
        (fun shift => signed negative gathered.1 (gathered.2.length + shift)) rest

/-- **A number**: its value and the rest of the text. -/
def number : List Char → Except JsonError (Json × List Char)
  | '-' :: cs => magnitude true cs
  | cs => magnitude false cs

/-! ### Lexemes -/

/-- What is left of the text behind the letters that must come. -/
def expect : List Char → List Char → Except JsonError (List Char)
  | [], rest => .ok rest
  | _ :: _, [] => .error .truncated
  | e :: es, c :: cs => if e = c then expect es cs else .error .malformed

/-- A lexeme and the rest of the text. A broken one is the last. -/
def ended {α : Type} (lexeme : Except JsonError α → Lexeme) :
    Except JsonError (α × List Char) → Lexeme × List Char
  | .ok (value, rest) => (lexeme (.ok value), rest)
  | .error e => (lexeme (.error e), [])

/-- The blanks of JSON: space, line feed, carriage return and tab. -/
def isBlank (c : Char) : Bool := c = ' ' || c = '\n' || c = '\r' || c = '\t'

/-- A word of letters that stands for a value. -/
def word (letters : List Char) (value : Json) (cs : List Char) : Lexeme × List Char :=
  ended .literal ((expect letters cs).map fun rest => (value, rest))

/-- The lexeme that begins with `c`, and the rest of the text. -/
def lexemeAt (c : Char) (rest : List Char) : Lexeme × List Char :=
  if c = '[' then (.openList, rest)
  else if c = ']' then (.closeList, rest)
  else if c = '\x7b' then (.openObject, rest)
  else if c = '\x7d' then (.closeObject, rest)
  else if c = ',' then (.comma, rest)
  else if c = ':' then (.colon, rest)
  else if c = '"' then
    ended .string ((stringBody rest).map fun (content, rest) => (String.ofList content, rest))
  else if c = 'n' then word ['u', 'l', 'l'] .null rest
  else if c = 't' then word ['r', 'u', 'e'] (.bool true) rest
  else if c = 'f' then word ['a', 'l', 's', 'e'] (.bool false) rest
  else if c = '-' ∨ c.isDigit then ended .literal (number (c :: rest))
  else (.stray, [])

/-! ### Every lexeme takes at least one character -/

theorem length_dropWhile_le {α : Type} (p : α → Bool) (cs : List α) :
    (cs.dropWhile p).length ≤ cs.length := by
  induction cs with
  | nil => simp
  | cons c cs ih => grind [List.dropWhile]

theorem withChar_eq_ok {c : Char} {r : Except JsonError (List Char × List Char)}
    {content rest : List Char} (h : withChar c r = .ok (content, rest)) :
    ∃ content', r = .ok (content', rest) ∧ content = c :: content' := by
  unfold withChar at h
  match r, h with
  | .ok (content', rest'), h =>
    simp only [Except.map, Except.ok.injEq, Prod.mk.injEq] at h
    exact ⟨content', by simp [h.2], h.1.symm⟩

theorem length_stringBody {cs content rest : List Char}
    (h : stringBody cs = .ok (content, rest)) : rest.length < cs.length := by
  fun_induction stringBody cs generalizing content rest
  case case2 rest' =>
    cases h
    simp
  all_goals
    first
    | cases h
    | rename_i ih
      obtain ⟨content', h', -⟩ := withChar_eq_ok h
      have := ih h'
      simp only [List.length_cons]
      omega

theorem length_exponentPart {cs rest : List Char} {n : Int}
    (h : exponentPart cs = .ok (n, rest)) : rest.length ≤ cs.length := by
  have hds : ∀ ds : List Char, (ds.dropWhile Char.isDigit).length ≤ ds.length :=
    length_dropWhile_le _
  unfold exponentPart at h
  split at h
  grind

theorem length_dropWhile_lt {α : Type} {p : α → Bool} {cs : List α} (h : cs.takeWhile p ≠ []) :
    (cs.dropWhile p).length < cs.length := by
  have hlen := congrArg List.length (List.takeWhile_append_dropWhile (p := p) (l := cs))
  have := List.length_pos_iff.2 h
  simp only [List.length_append] at hlen
  omega

theorem length_withExponent {plain : Except JsonError Json}
    {scaledBy : Int → Except JsonError Json} {cs rest : List Char} {j : Json}
    (h : withExponent plain scaledBy cs = .ok (j, rest)) : rest.length ≤ cs.length := by
  unfold withExponent at h
  split at h
  · cases plain <;> simp_all [bind, Except.bind, pure, Except.pure]
  · split at h
    · rename_i c cs' _
      cases he : exponentPart cs' with
      | error e => simp [he, bind, Except.bind] at h
      | ok r =>
        have := length_exponentPart he
        cases hs : scaledBy r.1 <;> simp_all [bind, Except.bind, pure, Except.pure]
        omega
    · cases plain <;> simp_all [bind, Except.bind, pure, Except.pure]

theorem length_fractionPart {negative : Bool} {significand dropped : Nat} {cs rest : List Char}
    {j : Json} (h : fractionPart negative significand dropped cs = .ok (j, rest)) :
    rest.length ≤ cs.length := by
  unfold fractionPart at h
  dsimp only at h
  by_cases hne : cs.takeWhile Char.isDigit = []
  · rw [if_pos hne] at h
    simp at h
  · rw [if_neg hne] at h
    exact Nat.le_trans (length_withExponent h) (length_dropWhile_le _ _)

theorem length_magnitude {negative : Bool} {cs rest : List Char} {j : Json}
    (h : magnitude negative cs = .ok (j, rest)) : rest.length < cs.length := by
  unfold magnitude at h
  dsimp only at h
  by_cases hne : cs.takeWhile Char.isDigit = []
  · rw [if_pos hne] at h
    simp at h
  · rw [if_neg hne] at h
    have hlt := length_dropWhile_lt hne
    by_cases hzero : (cs.takeWhile Char.isDigit).head? = some '0' ∧
        (cs.takeWhile Char.isDigit).length > 1
    · rw [if_pos hzero] at h
      simp at h
    · rw [if_neg hzero] at h
      split at h
      · rename_i after heq
        have := length_fractionPart h
        rw [heq] at hlt
        simp at hlt
        omega
      · exact Nat.lt_of_le_of_lt (length_withExponent h) hlt

theorem length_number {cs rest : List Char} {j : Json} (h : number cs = .ok (j, rest)) :
    rest.length < cs.length := by
  unfold number at h
  split at h
  · have := length_magnitude h
    simp
    omega
  · exact length_magnitude h

theorem length_expect {letters cs rest : List Char} (h : expect letters cs = .ok rest) :
    rest.length ≤ cs.length := by
  induction letters generalizing cs with
  | nil => simp only [expect, Except.ok.injEq] at h; simp [h]
  | cons e es ih =>
    cases cs with
    | nil => simp [expect] at h
    | cons c cs =>
      simp only [expect] at h
      split at h
      · have := ih h; simp; omega
      · simp at h

theorem length_ended {α : Type} {lexeme : Except JsonError α → Lexeme}
    {r : Except JsonError (α × List Char)} {bound : Nat}
    (h : ∀ value rest, r = .ok (value, rest) → rest.length ≤ bound) :
    (ended lexeme r).2.length ≤ bound := by
  match r with
  | .ok (value, rest) => exact h value rest rfl
  | .error e => exact Nat.zero_le _

theorem length_word (letters : List Char) (value : Json) (cs : List Char) :
    (word letters value cs).2.length ≤ cs.length := by
  unfold word
  apply length_ended
  intro value' rest h
  cases he : expect letters cs with
  | error e => simp [he, Except.map] at h
  | ok rest' =>
    simp only [he, Except.map, Except.ok.injEq, Prod.mk.injEq] at h
    exact h.2 ▸ length_expect he

theorem length_ite {p : Prop} [Decidable p] {a b : Lexeme × List Char} {bound : Nat}
    (ha : a.2.length ≤ bound) (hb : b.2.length ≤ bound) :
    (if p then a else b).2.length ≤ bound := by
  split
  · exact ha
  · exact hb

theorem length_lexemeAt (c : Char) (cs : List Char) : (lexemeAt c cs).2.length ≤ cs.length := by
  have hself : cs.length ≤ cs.length := Nat.le_refl _
  refine length_ite hself (length_ite hself (length_ite hself (length_ite hself
    (length_ite hself (length_ite hself (length_ite ?_ (length_ite (length_word ..)
    (length_ite (length_word ..) (length_ite (length_word ..) (length_ite ?_ ?_))))))))))
  · apply length_ended
    intro value rest h
    cases hs : stringBody cs with
    | error e => simp [hs, Except.map] at h
    | ok r =>
      simp only [hs, Except.map, Except.ok.injEq, Prod.mk.injEq] at h
      exact h.2 ▸ Nat.le_of_lt (length_stringBody hs)
  · apply length_ended
    intro value rest h
    exact Nat.le_of_lt_succ (length_number h)
  · exact Nat.zero_le _

/-- **The lexemes of a text**, without the blanks between them. -/
def lexemes : List Char → List Lexeme
  | [] => []
  | c :: cs => if isBlank c then lexemes cs else (lexemeAt c cs).1 :: lexemes (lexemeAt c cs).2
termination_by cs => cs.length
decreasing_by
  · simp
  · have := length_lexemeAt c cs
    simp
    omega

end TokenSheets.Json
