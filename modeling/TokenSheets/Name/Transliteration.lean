/-!
# Transliteration: ASCII for every text

A text is kept up to its first character that is not printable ASCII or a control character below
it, that is, from `U+007F` on. From there every character is replaced by its ASCII text: control
characters by nothing, other ASCII characters by themselves, and a character without a text by a
placeholder. A text of a character that ends in a space, as those of ideographs do, loses it where a
space follows anyway and at the end.

Which texts the characters from `U+007F` on have is up to a table. A build takes it from outside, as
the instance of `Transliteration`; nothing that is proved of names depends on what stands in it.
-/

namespace TokenSheets.Name

/-- A transliteration table: the texts of characters, by their code points. -/
abbrev Table := Nat → Option String

/-- The table that the names of a build are made with. -/
class Transliteration where
  table : Table

/-- The table without texts, for names that are ASCII. -/
abbrev Transliteration.ascii : Transliteration where
  table _ := none

/-- What stands for a character without a text. -/
def placeholder : List Char := ['[', '?', ']']

/-- The ASCII text of a character. -/
def asciiText? (table : Table) (c : Char) : Option (List Char) :=
  if c.toNat < 0x20 then some []
  else if c.toNat < 0x7F then some [c]
  else (table c.toNat).map String.toList

/-- The space at the end of a longer text is dropped before `next`: the text of the character that
follows, if one follows. -/
def dropsSpace (text : List Char) (next : Option (Option (List Char))) : Bool :=
  text.length > 1 && text.getLast? = some ' ' &&
    match next with
    | none => true
    | some none => false
    | some (some following) => following.head? = some ' '

/-- The text of one character, in front of the texts that follow. -/
def spell (text : Option (List Char)) (next : Option (Option (List Char))) : List Char :=
  match text with
  | none => placeholder
  | some text => if dropsSpace text next then text.dropLast else text

/-- The texts of characters, one after another. -/
def spellAll : List (Option (List Char)) → List Char
  | [] => []
  | text :: rest => spell text rest.head? ++ spellAll rest

/-- The character is kept at the beginning of a text. -/
def isPlain (c : Char) : Bool := c.toNat < 0x7F

/-- **The ASCII text of a text.** -/
def transliterate (table : Table) (cs : List Char) : List Char :=
  cs.takeWhile isPlain ++ spellAll ((cs.dropWhile isPlain).map (asciiText? table))

end TokenSheets.Name
