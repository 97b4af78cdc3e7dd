import TokenSheets.Sheet.Script

/-!
# Formats: the files that show a dictionary, by name
-/

namespace TokenSheets

/-- A format of files. -/
inductive Format where
  | stylesheet
  | declarations
  | script
deriving DecidableEq, Repr

namespace Format

/-- All formats, in the order in which they are listed. -/
def all : List Format := [.stylesheet, .declarations, .script]

/-- The name of a format. -/
def name : Format → String
  | .stylesheet => "css/variables-units"
  | .declarations => "typescript/declarations"
  | .script => "javascript/es6"

/-- The format of a name. -/
def ofName (name : String) : Except SheetError Format :=
  match all.find? fun format => format.name = name with
  | some format => .ok format
  | none => .error (.unknownFormat name)

/-- **The text of a file.** -/
def render (format : Format) (scale : Scale) (dictionary : Dictionary) : Except SheetError String :=
  match format with
  | .stylesheet => Stylesheet.render scale dictionary
  | .declarations => .ok (Declarations.render dictionary)
  | .script => .ok (Script.render dictionary)

/-- The names of all formats, quoted, in braces. -/
def listing : String :=
  "\x7b" ++ ", ".intercalate (all.map fun format => "\"" ++ format.name ++ "\"") ++ "\x7d"

end Format

end TokenSheets
