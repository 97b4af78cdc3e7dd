import TokenSheets.Name.Transliteration
import TokenSheets.Name.Words

/-!
# Names of tokens

The name of a token is made from the keys that lead to it: each key is turned into ASCII, the keys
are joined by spaces, the whole is divided into words, and the words are put together in one of two
styles. Signs that could not stand in a name are replaced first: a comma by `c`, a plus sign by `p`,
a point by `d`, parentheses and slashes by a space.
-/

namespace TokenSheets.Name

/-- How words become a name. -/
inductive Style where
  /-- Lower-case words with hyphens between them. -/
  | kebab
  /-- Words with capitals, put together. -/
  | pascal
deriving DecidableEq, Repr

/-- What stands for a character of a key. -/
def simplifyChar (c : Char) : Char :=
  if c = ',' then 'c'
  else if c = '+' then 'p'
  else if c = '.' then 'd'
  else if c = '(' ∨ c = ')' ∨ c = '/' then ' '
  else c

/-- A key in ASCII. -/
def simplify (table : Table) (key : String) : List Char :=
  transliterate table (key.toList.map simplifyChar)

/-- A word in lower case. -/
def lowered (word : List Char) : List Char := word.map Char.toLower

/-- A word in lower case, but for its first letter. -/
def capitalized : List Char → List Char
  | [] => []
  | c :: rest => c.toUpper :: lowered rest

/-- The name that words make. -/
def Style.join : Style → List (List Char) → List Char
  | .kebab, words => ['-'].intercalate (words.map lowered)
  | .pascal, words => (words.map capitalized).flatten

/-- The words of a path of keys. -/
def pathWords (table : Table) (path : List String) : List (List Char) :=
  words ([' '].intercalate (path.map (simplify table)))

/-- **The name of a path of keys.** -/
def Style.name (style : Style) (table : Table) (path : List String) : String :=
  String.ofList (style.join (pathWords table path))

end TokenSheets.Name
