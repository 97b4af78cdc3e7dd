import TokenSheets.Sheet.Stylesheet

/-!
# Scripts and their declarations

A script exports every token as a constant, its value written as JSON and its description behind two
slashes. The declaration file lists the same constants with ASCII only.

* `Declarations.escape`: a string as an ASCII literal;
* `Declarations.render` and `Script.render`: the two files.
-/

namespace TokenSheets

namespace Declarations

/-- The 16-bit units of a character: two for one beyond the first 65536. -/
def units (c : Char) : List Nat :=
  let code := c.toNat
  if code < 0x10000 then [code]
  else [0xD800 + (code - 0x10000) / 0x400, 0xDC00 + (code - 0x10000) % 0x400]

/-- A unit as four hexadecimal digits behind `\u`. -/
def escapeUnit (unit : Nat) : List Char :=
  ['\\', 'u', Json.hexDigit (unit / 0x1000), Json.hexDigit (unit / 0x100),
    Json.hexDigit (unit / 0x10), Json.hexDigit unit]

/-- One character inside a literal. -/
def escapeChar (c : Char) : List Char :=
  if c = '"' then ['\\', '"']
  else if c = '\\' then ['\\', '\\']
  else if ' ' ≤ c ∧ c ≤ '~' then [c]
  else (units c).flatMap escapeUnit

/-- The characters of a literal, with its quotes. -/
def escapeChars (cs : List Char) : List Char := '"' :: (cs.flatMap escapeChar ++ ['"'])

/-- **A string as an ASCII literal.** -/
def escape (text : String) : String := String.ofList (escapeChars text.toList)

/-- The literal of a value: a string in ASCII, anything else as JSON. -/
def literal (value : Json) : String :=
  match value.text? with
  | some text => escape text
  | none => value.render

/-- The declaration of one constant. -/
def line (entry : ResolvedToken) : String :=
  "export declare const " ++ entry.name ++ " = " ++ literal entry.value ++ ";\n"

/-- The head of a declaration file. -/
def header : String := "// Auto-generated type definitions, do not edit manually.\n\n"

/-- **The declaration file** of a dictionary. -/
def render (dictionary : Dictionary) : String :=
  header ++ String.join (List.map line dictionary)

end Declarations

namespace Script

/-- The export of one constant, with its description. -/
def line (entry : ResolvedToken) : String :=
  "export const " ++ entry.name ++ " = " ++ entry.value.render ++ ";" ++
    (match entry.token.description with
    | some text => " // " ++ text
    | none => "") ++ "\n"

/-- **The script** of a dictionary. -/
def render (dictionary : Dictionary) : String :=
  Sheet.generatedHeader ++ "\n" ++ String.join (List.map line dictionary)

end Script

end TokenSheets
