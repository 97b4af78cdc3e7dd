import TokenSheets.Dimension.Scale
import TokenSheets.Sheet.Dictionary

/-!
# Style sheets

A sheet declares every token as a property of the root, after the root font size. Then, for each
unit, a ruleset declares once more the tokens whose value is a dimension, converted to that unit. A
token's description follows its declaration as a comment.

The sheet fails if a value has the shape of a dimension whose number is none.
-/

namespace TokenSheets

/-- Why a sheet cannot be written. -/
inductive SheetError where
  /-- No format has this name. -/
  | unknownFormat (name : String)
  /-- The value of a token is no dimension after all. -/
  | inToken (name : String) (cause : DimensionError)
deriving DecidableEq, Repr

/-- The message of an error. -/
def SheetError.message : SheetError → String
  | .unknownFormat name => "unknown format `" ++ name ++ "`"
  | .inToken name cause => "token `" ++ name ++ "`: " ++ cause.message

namespace Sheet

/-- The comment at the head of a file. -/
def generatedHeader : String :=
  "/**\n * Do not edit directly, this file was auto-generated.\n */\n"

end Sheet

namespace Stylesheet

/-- A value as it stands in a style sheet: a string bare, anything else as JSON. -/
def plainValue (value : Json) : String := value.text?.getD value.render

/-- The text of a comment, which cannot end the comment: a slash behind a star is parted from it by
a backslash. -/
def commentChars : List Char → List Char
  | [] => []
  | '*' :: '/' :: rest => '*' :: '\\' :: '/' :: commentChars rest
  | c :: rest => c :: commentChars rest

/-- A comment behind a declaration. -/
def comment (text : String) : String := " /* " ++ String.ofList (commentChars text.toList) ++ " */"

/-- A declaration, without what may follow it. -/
def declaration (name value : String) : String := "  --" ++ name ++ ": " ++ value ++ ";"

/-- The declaration of a token with its comment. -/
def property (entry : ResolvedToken) : String :=
  declaration entry.name (plainValue entry.value) ++
    match entry.token.description with
    | some text => comment text
    | none => ""

/-- A selector and the lines of its block. -/
def ruleset (selector : String) (lines : List String) : String :=
  selector ++ " \x7b\n" ++ String.join (lines.map (· ++ "\n")) ++ "\x7d\n"

/-- The value of a token is a string with the shape of a dimension. -/
def isDimension (value : Json) : Bool :=
  match value.text? with
  | some text => Dimension.hasShape text
  | none => false

/-- The ruleset of the root: the font size, then every token. -/
def rootRuleset (scale : Scale) (dictionary : Dictionary) : String :=
  ruleset ":root"
    (("  font-size: " ++ Decimal.plainText scale.baseFontSize ++ "px;") ::
      List.map property dictionary)

/-- The declaration of a token in a unit. -/
def unitDeclaration (scale : Scale) (unit : LengthUnit) (entry : ResolvedToken) :
    Except SheetError String :=
  match scale.convert (plainValue entry.value) unit with
  | .ok value => .ok (declaration entry.name value)
  | .error cause => .error (.inToken entry.name cause)

/-- The ruleset of a unit, under its heading. -/
def unitRuleset (scale : Scale) (dimensions : Dictionary) (unit : LengthUnit) :
    Except SheetError String := do
  let lines ← dimensions.mapM (unitDeclaration scale unit)
  return "\n/**\n * Variables in " ++ unit.name ++ " units\n */\n" ++
    ruleset (".variables-" ++ unit.name) lines

/-- **The style sheet** of a dictionary. -/
def render (scale : Scale) (dictionary : Dictionary) : Except SheetError String := do
  let dimensions := dictionary.filter fun entry => isDimension entry.value
  let rulesets ← LengthUnit.all.mapM (unitRuleset scale dimensions)
  return Sheet.generatedHeader ++ "\n" ++ rootRuleset scale dictionary ++ String.join rulesets

end Stylesheet

end TokenSheets
