/-!
# Blanks

The white space of Unicode, and the two ways in which it is taken off a text: at both ends, and as
what divides words.
-/

namespace TokenSheets.Text

/-- White space. -/
def isBlank (c : Char) : Bool :=
  let code := c.toNat
  (9 ≤ code && code ≤ 13) || code = 0x20 || code = 0x85 || code = 0xA0 || code = 0x1680 ||
    (0x2000 ≤ code && code ≤ 0x200A) || code = 0x2028 || code = 0x2029 || code = 0x202F ||
    code = 0x205F || code = 0x3000

/-- The text without blanks at its end. -/
def trimRight (cs : List Char) : List Char := (cs.reverse.dropWhile isBlank).reverse

/-- The text without blanks at both ends. -/
def trim (cs : List Char) : List Char := trimRight (cs.dropWhile isBlank)

/-- The words that blanks divide; `word` is the one at which the text starts, the last character
first. -/
def splitFrom (word : List Char) : List Char → List (List Char)
  | [] => if word = [] then [] else [word.reverse]
  | c :: rest =>
    if isBlank c then (if word = [] then [] else [word.reverse]) ++ splitFrom [] rest
    else splitFrom (c :: word) rest

/-- The words that blanks divide. -/
def splitBlanks (cs : List Char) : List (List Char) := splitFrom [] cs

end TokenSheets.Text
