import TokenSheets.Decimal.Layout
import TokenSheets.Dimension.Literal

/-!
# Scales: converting between units

A scale fixes how long a `rem` and how wide the screen is, both in pixels. The screen spans a design
grid of 750 `rpx`. A conversion goes through pixels; zero is written as `0` in every unit.
-/

namespace TokenSheets

/-- The pixels of one `rem` and of the whole screen. -/
structure Scale where
  baseFontSize : Float := 16.0
  baseScreenWidth : Float := 375.0

namespace Scale

/-- The width of the design grid in `rpx`. -/
def gridWidth : Float := 750.0

/-- A magnitude in pixels. -/
def toPixels (scale : Scale) (magnitude : Float) : LengthUnit → Float
  | .px => magnitude
  | .rem => magnitude * scale.baseFontSize
  | .rpx => magnitude * scale.baseScreenWidth / gridWidth

/-- Pixels in another unit. -/
def fromPixels (scale : Scale) (pixels : Float) : LengthUnit → Float
  | .px => pixels
  | .rem => pixels / scale.baseFontSize
  | .rpx => pixels * gridWidth / scale.baseScreenWidth

/-- A dimension as a literal in another unit. -/
def express (scale : Scale) (dimension : Dimension) (target : LengthUnit) : String :=
  if dimension.magnitude == 0.0 then "0" ++ target.name
  else
    let pixels := scale.toPixels dimension.magnitude dimension.unit
    Decimal.plainText (scale.fromPixels pixels target) ++ target.name

/-- **Converts a literal** to another unit. -/
def convert (scale : Scale) (literal : String) (target : LengthUnit) :
    Except DimensionError String :=
  (Dimension.read literal).map fun dimension => scale.express dimension target

/-- Both lengths are above zero. A number that is none is not. -/
def isPositive (scale : Scale) : Bool := scale.baseFontSize > 0.0 && scale.baseScreenWidth > 0.0

end Scale

end TokenSheets
