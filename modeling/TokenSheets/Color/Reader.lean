import TokenSheets.Color.Model
import TokenSheets.Color.Named
import TokenSheets.Decimal.Reader
import TokenSheets.Text.Blank
import TokenSheets.Text.Lowercase

/-!
# Reading colours

Blanks at both ends and the case of letters do not matter. A colour is a name, hexadecimal digits
with or without a number sign, or a function of three or four parameters.

* `Color.hex?`: three, four, six or eight digits;
* `Color.function?`: `rgb`, `hsl`, `hwb` and `hsv`, each also with an `a` at the end;
* `Color.read?`: any of them.
-/

namespace TokenSheets.Color

/-! ### Hexadecimal digits -/

/-- The value of a hexadecimal digit in lower case. -/
def hexDigit? (c : Char) : Option Nat :=
  if c.isDigit then some (c.toNat - '0'.toNat)
  else if 'a' ≤ c ∧ c ≤ 'f' then some (c.toNat - 'a'.toNat + 10)
  else none

/-- The byte of two characters: two digits, or one digit behind a plus sign. -/
def hexByte? (a b : Char) : Option Nat :=
  if a = '+' then hexDigit? b else do return (← hexDigit? a) * 16 + (← hexDigit? b)

/-- The colour of hexadecimal digits. A single digit stands for two of its kind. -/
def hex? (cs : List Char) : Option Color :=
  match cs with
  | [r, g, b] => do return ofBytes (← hexByte? r r) (← hexByte? g g) (← hexByte? b b) 255
  | [r, g, b, a] => do
    return ofBytes (← hexByte? r r) (← hexByte? g g) (← hexByte? b b) (← hexByte? a a)
  | [r, r', g, g', b, b'] => do
    return ofBytes (← hexByte? r r') (← hexByte? g g') (← hexByte? b b') 255
  | [r, r', g, g', b, b', a, a'] => do
    return ofBytes (← hexByte? r r') (← hexByte? g g') (← hexByte? b b') (← hexByte? a a')
  | _ => none

/-! ### Functions -/

/-- The text without a suffix, if it ends in it. -/
def withoutSuffix? (suffix cs : List Char) : Option (List Char) :=
  if suffix.isSuffixOf cs then some (cs.take (cs.length - suffix.length)) else none

/-- A number with a suffix, scaled. -/
def suffixed? (suffix : String) (scale : Float → Float) (cs : List Char) : Option Float := do
  return scale (← Decimal.read? (← withoutSuffix? suffix.toList cs))

/-- A parameter: a percentage, or a number that counts a whole of `whole`; and whether it is a
percentage. -/
def part? (whole : Float) (cs : List Char) : Option (Float × Bool) :=
  ((suffixed? "%" (· / 100.0) cs).map (·, true)).or
    ((Decimal.read? cs).map fun x => (x / whole, false))

/-- A percentage or a fraction. -/
def fraction? (cs : List Char) : Option (Float × Bool) :=
  ((suffixed? "%" (· / 100.0) cs).map (·, true)).or ((Decimal.read? cs).map (·, false))

/-- The degrees of a radian. -/
def degreesOfRadians (t : Float) : Float := t * 57.29577951308232

/-- An angle in degrees, gradians, radians or turns. -/
def angle? (cs : List Char) : Option Float :=
  ((((suffixed? "deg" id cs).or (suffixed? "grad" (· * 360.0 / 400.0) cs)).or
    (suffixed? "rad" degreesOfRadians cs)).or (suffixed? "turn" (· * 360.0) cs)).or
    (Decimal.read? cs)

/-- Two parameters of one form. -/
def pair? (a b : List Char) : Option (Float × Float) := do
  let (x, percentX) ← fraction? a
  let (y, percentY) ← fraction? b
  if percentX = percentY then some (x, y) else none

/-- The colour of a function and its parameters, the opacity apart. -/
def functionOf? (name : String) (a b c : List Char) (opacity : Float) : Option Color :=
  if name = "rgb" ∨ name = "rgba" then do
    let (red, percentRed) ← part? 255.0 a
    let (green, percentGreen) ← part? 255.0 b
    let (blue, percentBlue) ← part? 255.0 c
    if percentRed = percentGreen ∧ percentGreen = percentBlue then
      some (ofChannels red green blue (clamp opacity))
    else none
  else if name = "hsl" ∨ name = "hsla" then do
    let (saturation, lightness) ← pair? b c
    return ofHsl (← angle? a) saturation lightness opacity
  else if name = "hwb" ∨ name = "hwba" then do
    let (whiteness, blackness) ← pair? b c
    return ofHwb (← angle? a) whiteness blackness opacity
  else if name = "hsv" ∨ name = "hsva" then do
    let (saturation, value) ← pair? b c
    return ofHsv (← angle? a) saturation value opacity
  else none

/-- The colour of a function: a name, and parameters that commas, slashes or blanks divide. -/
def function? (name parameters : List Char) : Option Color :=
  let name := String.ofList (Text.trimRight name)
  let spaced := parameters.map fun c => if c = ',' ∨ c = '/' then ' ' else c
  match Text.splitBlanks spaced with
  | [a, b, c] => functionOf? name a b c 1.0
  | [a, b, c, d] => do
    let (opacity, _) ← fraction? d
    functionOf? name a b c opacity
  | _ => none

/-! ### Any colour -/

/-- A colour without blanks around it and in lower case. -/
def readLowered? (text : String) : Option Color :=
  let cs := text.toList
  if text = "transparent" then some ⟨0.0, 0.0, 0.0, 0.0⟩
  else
    match named? text with
    | some channels =>
      some (ofBytes (channels / 0x10000) (channels / 0x100 % 0x100) (channels % 0x100) 255)
    | none =>
      match cs with
      | '#' :: digits => hex? digits
      | _ =>
        if '(' ∈ cs ∧ cs.getLast? = some ')' then
          function? (cs.takeWhile (· ≠ '(')) (cs.dropWhile (· ≠ '(')).tail.dropLast
        else hex? cs

/-- **Reads a colour.** -/
def read? (text : String) : Option Color :=
  readLowered? (Text.lowercase (String.ofList (Text.trim text.toList)))

end TokenSheets.Color
