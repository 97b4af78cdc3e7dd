import TokenSheets.Decimal.Layout

/-!
# Colours

A colour has red, green, blue and opacity from 0 to 1. It is written with hexadecimal digits, or as
a function of three bytes and an opacity.

* `Color.hexText`: `#rrggbb`, and `#rrggbbaa` where the opacity shows;
* `Color.functionText`: `rgba(r,g,b,a)` where the opacity is below 1, else `rgb(r,g,b)`.
-/

namespace TokenSheets

/-- A colour. -/
structure Color where
  red : Float
  green : Float
  blue : Float
  opacity : Float

namespace Color

/-- The nearest number from 0 to 1. What is no number stays so. -/
def clamp (x : Float) : Float := if x < 0.0 then 0.0 else if x > 1.0 then 1.0 else x

/-- The channels clamped; the opacity as it is. -/
def ofChannels (red green blue opacity : Float) : Color :=
  ⟨clamp red, clamp green, clamp blue, opacity⟩

/-- A colour of four bytes. -/
def ofBytes (red green blue opacity : Nat) : Color :=
  let part (n : Nat) : Float := Float.ofNat n / 255.0
  ⟨part red, part green, part blue, part opacity⟩

/-- A channel as a byte. -/
def byte (x : Float) : Nat := (x * 255.0 + 0.5).toUInt8.toNat

/-- A byte as two hexadecimal digits. -/
def hexByte (n : Nat) : List Char := [Nat.digitChar (n / 16), Nat.digitChar (n % 16)]

/-- **Hexadecimal digits** behind a number sign. -/
def hexText (color : Color) : String :=
  let opacity := byte color.opacity
  String.ofList ('#' :: (hexByte (byte color.red) ++ hexByte (byte color.green) ++
    hexByte (byte color.blue) ++ if opacity < 255 then hexByte opacity else []))

/-- **A function** of the channels as bytes and of the opacity. -/
def functionText (color : Color) : String :=
  let channels := ",".intercalate ([color.red, color.green, color.blue].map fun x =>
    toString (byte x))
  if color.opacity < 1.0 then
    "rgba(" ++ channels ++ "," ++ Decimal.plainText color.opacity ++ ")"
  else "rgb(" ++ channels ++ ")"

end Color

end TokenSheets
