/-!
# Colour models

What the samples of a decoded image mean: indices into the model's own palette, or colour
components.
-/

namespace Png

/-- A colour with eight bits per component. -/
structure Rgb where
  red : UInt8
  green : UInt8
  blue : UInt8
  deriving DecidableEq

/-- The components of a pixel. -/
inductive ColorSpace where
  | luma
  | lumaA
  | rgb
  | rgba
  deriving DecidableEq

/-- The name in summaries. -/
def ColorSpace.label : ColorSpace → String
  | luma => "Luma"
  | lumaA => "LumaA"
  | rgb => "RGB"
  | rgba => "RGBA"

/-- How samples map to colours. -/
inductive ColorModel where
  /-- Samples of `bits` bits are indices into the component lists. -/
  | indexed (bits : Nat) (red green blue : List UInt8) (alpha : Option (List UInt8))
  /-- Samples are components of eight or sixteen bits. -/
  | component (space : ColorSpace) (wide : Bool) (hasAlpha : Bool)
  deriving DecidableEq

namespace ColorModel

/-- The model of `bands` components: one to four are luma, luma with alpha, RGB and RGBA. -/
def ofBands (bands depth : Nat) : ColorModel :=
  let space := match bands with
    | 1 => .luma
    | 2 => .lumaA
    | 3 => .rgb
    | _ => .rgba
  .component space (depth == 16) (bands == 2 || bands == 4)

/-- The model of indices into `palette`. -/
def ofPalette (bits : Nat) (palette : List Rgb) (alpha : Option (List UInt8)) : ColorModel :=
  .indexed bits (palette.map (·.red)) (palette.map (·.green)) (palette.map (·.blue)) alpha

/-- The model of gray levels below eight bits: every component is the level's spread. -/
def ofLevels (bits : Nat) (levels : List UInt8) : ColorModel :=
  .indexed bits levels levels levels none

/-- The bits of a component; indexed models have no components. -/
def componentBits (wide : Bool) : Nat := if wide then 16 else 8

end ColorModel

end Png
