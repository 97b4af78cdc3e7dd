import TokenSheets.Text.CaseTable

/-!
# Lower case for every text

Each character is replaced by its lower-case form. Two characters need more than a table: a capital
I with a dot becomes two characters, and a capital sigma becomes a final sigma at the end of a word,
that is, where a cased character stands before it and none behind it, with characters that are
passed over left out of account.
-/

namespace TokenSheets.Text

/-- The lower-case form of a character, apart from sigma and the dotted I. -/
def lowerChar (c : Char) : Char :=
  let code := c.toNat
  match lowerRuns.find? fun run =>
    run.first ≤ code && code ≤ run.last && (code - run.first) % run.step = 0 with
  | some run => Char.ofNat (code + run.shift).toNat
  | none => c

/-- The first character that is not passed over is cased. -/
def meetsCased (cs : List Char) : Bool :=
  match cs.find? fun c => !inRanges ignorableRanges c.toNat with
  | some c => inRanges casedRanges c.toNat
  | none => false

/-- The lower-case form of `c` between `before`, the nearest character first, and `after`. -/
def lowerAt (before : List Char) (c : Char) (after : List Char) : List Char :=
  if c = 'Σ' then [if meetsCased before && !meetsCased after then 'ς' else 'σ']
  else if c = 'İ' then ['i', '\u0307']
  else [lowerChar c]

/-- The lower-case form of a text behind `before`, the nearest character first. -/
def lowerFrom (before : List Char) : List Char → List Char
  | [] => []
  | c :: rest => lowerAt before c rest ++ lowerFrom (c :: before) rest

/-- **A text in lower case.** -/
def lowercase (text : String) : String := String.ofList (lowerFrom [] text.toList)

end TokenSheets.Text
