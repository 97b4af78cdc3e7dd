import TokenSheets.Color.Reader
import TokenSheets.Json.Printer
import TokenSheets.Name.Style
import TokenSheets.Token.Tree

/-!
# Dictionaries: tokens as a sheet shows them

A sheet gives every token a name and a value of its own. `Flavor` says how: style sheets name tokens
in lower case with hyphens, scripts in capitalized words; both write colours in one form.

* `Flavor.resolve`: one token;
* `Dictionary.ofTree`: the tokens of a tree, in order;
* `Dictionary.filtered`: those that a sheet shows.
-/

namespace TokenSheets

/-- The kind of file that shows tokens. -/
inductive Flavor where
  /-- Style sheets: colours with an opacity are functions. -/
  | css
  /-- Scripts and declarations: colours are hexadecimal. -/
  | js
deriving DecidableEq, Repr

/-- Which tokens a sheet shows. -/
inductive TokenFilter where
  | text
  | nonText
deriving DecidableEq, Repr

/-- A token with the name and the value that a sheet shows. -/
structure ResolvedToken where
  name : String
  path : List String
  value : Json
  /-- The token itself, both spellings filled. -/
  token : Token

/-- The tokens of a sheet, in order. -/
abbrev Dictionary := List ResolvedToken

namespace Flavor

/-- The style of names. -/
def nameStyle : Flavor → Name.Style
  | .css => .kebab
  | .js => .pascal

/-- The name of a path of keys. -/
def name [Name.Transliteration] (flavor : Flavor) (path : List String) : String :=
  flavor.nameStyle.name Name.Transliteration.table path

/-- A colour as a sheet writes it. -/
def colorText (flavor : Flavor) (color : Color) : String :=
  match flavor with
  | .css => if color.opacity < 1.0 then color.functionText else color.hexText
  | .js => color.hexText

/-- **The value that a sheet shows**: a string that is a colour is rewritten if the token is of type
`color`; any other value stays as it is. A token without a value shows `null`. -/
def value (flavor : Flavor) (token : Token) : Json :=
  let value := token.value.getD .null
  if token.kind = some "color" then
    match value.text? with
    | none => value
    | some text =>
      match Color.read? text with
      | none => value
      | some color => .text (flavor.colorText color)
  else value

/-- One token with the keys that lead to it. -/
def resolve [Name.Transliteration] (flavor : Flavor) (placed : Placed) : ResolvedToken where
  name := flavor.name placed.1
  path := placed.1
  value := flavor.value placed.2
  token := placed.2

end Flavor

/-- The filter shows a token. -/
def TokenFilter.shows (filter : TokenFilter) (entry : ResolvedToken) : Bool :=
  match filter with
  | .text => entry.token.isText
  | .nonText => !entry.token.isText

namespace Dictionary

/-- **The tokens of a tree.** -/
def ofTree [Name.Transliteration] (flavor : Flavor) (tree : Tree) : Dictionary :=
  tree.flatten.map flavor.resolve

/-- **The tokens that a filter shows**; without a filter, all of them. -/
def filtered (dictionary : Dictionary) (filter : Option TokenFilter) : Dictionary :=
  match filter with
  | none => dictionary
  | some filter => List.filter filter.shows dictionary

end Dictionary

end TokenSheets
