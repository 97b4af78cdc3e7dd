import TokenSheets.Color.Basic

/-!
# Colour models

Hue, saturation and lightness; hue, saturation and value; hue, whiteness and blackness: each becomes
red, green and blue. Hues are degrees and may lie outside the circle; the other parameters are
clamped first.
-/

namespace TokenSheets.Color

/-- A hue on the circle. -/
def normalizeAngle (degrees : Float) : Float :=
  let t := Decimal.remainder degrees 360.0
  if t < 0.0 then t + 360.0 else t

/-- The channel at a sixth of the circle, between the extremes `n1` and `n2`. -/
def channel (n1 n2 sixth : Float) : Float :=
  let h := Decimal.remainder (Decimal.remainder sixth 6.0 + 6.0) 6.0
  if h < 1.0 then n1 + (n2 - n1) * h
  else if h < 3.0 then n2
  else if h < 4.0 then n1 + (n2 - n1) * (4.0 - h)
  else n1

/-- Red, green and blue of hue, saturation and lightness. -/
def rgbOfHsl (hue saturation lightness : Float) : Float × Float × Float :=
  if saturation == 0.0 then (lightness, lightness, lightness)
  else
    let n2 :=
      if lightness < 0.5 then lightness * (1.0 + saturation)
      else lightness + saturation - lightness * saturation
    let n1 := 2.0 * lightness - n2
    let h := hue / 60.0
    (channel n1 n2 (h + 2.0), channel n1 n2 h, channel n1 n2 (h - 2.0))

/-- A colour of hue, saturation and lightness. -/
def ofHsl (hue saturation lightness opacity : Float) : Color :=
  let (r, g, b) := rgbOfHsl (normalizeAngle hue) (clamp saturation) (clamp lightness)
  ofChannels r g b (clamp opacity)

/-- A colour of hue, saturation and value. -/
def ofHsv (hue saturation value opacity : Float) : Color :=
  let saturation := clamp saturation
  let value := clamp value
  let lightness := (2.0 - saturation) * value / 2.0
  let saturation :=
    if lightness == 0.0 then saturation
    else if lightness == 1.0 then 0.0
    else if lightness < 0.5 then saturation * value / (lightness * 2.0)
    else saturation * value / (2.0 - lightness * 2.0)
  let (r, g, b) := rgbOfHsl (normalizeAngle hue) saturation lightness
  ofChannels r g b (clamp opacity)

/-- A colour of hue, whiteness and blackness. Its opacity is not clamped. -/
def ofHwb (hue whiteness blackness opacity : Float) : Color :=
  let whiteness := clamp whiteness
  let blackness := clamp blackness
  if whiteness + blackness >= 1.0 then
    let grey := whiteness / (whiteness + blackness)
    ofChannels grey grey grey opacity
  else
    let (r, g, b) := rgbOfHsl (normalizeAngle hue) 1.0 0.5
    let mix (x : Float) : Float := x * (1.0 - whiteness - blackness) + whiteness
    ofChannels (mix r) (mix g) (mix b) opacity

end TokenSheets.Color
