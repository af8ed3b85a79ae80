import Png.ColorModel
import Png.ToneResponse
import Png.Transform

/-!
# Mapping pixels

A transform together with the tables that it reads. `PixelMap.map?` maps one stored pixel to its
output samples; it has no result only for a pixel that does not have the samples of the transform's
colour type.
-/

namespace Png

/-- A transform and its tables. -/
structure PixelMap where
  transform : Transform
  /-- The corrected value of each stored sample, when correcting. -/
  gamma : Option (Array Nat) := none
  /-- The spread of each gray level below eight bits. -/
  gray : Array Nat := #[]
  /-- The colours and opacities of the palette. -/
  palette : Array (Rgb × UInt8) := #[]
  /-- The transparent gray sample. -/
  grayKey : Nat := 0
  /-- The transparent colour. -/
  rgbKey : Nat × Nat × Nat := (0, 0, 0)

namespace PixelMap

/-- A sample corrected, where there is a table with an entry for it. -/
def correct (m : PixelMap) (sample : Nat) : Nat :=
  match m.gamma with
  | some table => table.getD sample sample
  | none => sample

/-- A gray level spread over a byte. -/
def spread (m : PixelMap) (sample : Nat) : Nat :=
  m.gray.getD sample sample

/-- The colour and the opacity of a palette index: past the last entry, solid black. -/
def entry (m : PixelMap) (index : Nat) : Rgb × UInt8 :=
  m.palette.getD index (⟨0, 0, 0⟩, 255)

/-- A gray level and an opacity in the bands of the transform. -/
def grayAlpha (m : PixelMap) (level alpha : Nat) : List Nat :=
  if m.transform.replicate then [level, level, level, alpha] else [level, alpha]

/-- The opacity of a pixel: zero if it matches the key. -/
def opacity (m : PixelMap) (matchesKey : Bool) : Nat :=
  if matchesKey then 0 else m.transform.fullOpacity

/-- The output samples of a stored pixel. -/
def map? (m : PixelMap) (pixel : List Nat) : Option (List Nat) :=
  match m.transform.mode, pixel with
  | .copy, [g, a] => some (m.grayAlpha g a)
  | .copy, samples => some samples
  | .gamma, [g, a] => some (m.grayAlpha (m.correct g) a)
  | .gamma, [r, g, b, a] => some [m.correct r, m.correct g, m.correct b, a]
  | .gamma, samples => some (samples.map m.correct)
  | .grayTable, [g] => some [m.spread g]
  | .grayTableKeyed, [g] => some (m.grayAlpha (m.spread g) (m.opacity (g == m.grayKey)))
  | .paletteRgb, [index] =>
    let (color, _) := m.entry index
    some [color.red.toNat, color.green.toNat, color.blue.toNat]
  | .paletteRgba, [index] =>
    let (color, alpha) := m.entry index
    some [color.red.toNat, color.green.toNat, color.blue.toNat, alpha.toNat]
  | .grayKeyed, [g] => some (m.grayAlpha (m.correct g) (m.opacity (g == m.grayKey)))
  | .rgbKeyed, [r, g, b] =>
    some [m.correct r, m.correct g, m.correct b, m.opacity ((r, g, b) == m.rgbKey)]
  | .dropGrayAlpha, [g, _] => some [m.correct g]
  | .dropRgbAlpha, [r, g, b, _] => some [m.correct r, m.correct g, m.correct b]
  | _, _ => none

/-- The map of a transform that corrects samples by the table `gamma`, if there is one. Levels below
eight bits are spread through it when correcting, and evenly otherwise. -/
def ofTable (h : Header) (transform : Transform) (gamma : Option (Array Nat)) (palette : List Rgb)
    (transparency : Option Transparency) : PixelMap :=
  let gray :=
    match transform.mode, gamma with
    | .grayTable, some table | .grayTableKeyed, some table => table
    | .grayTable, none | .grayTableKeyed, none =>
      ((spreadLevels h.depth).map (·.toNat)).toArray
    | _, _ => #[]
  let alpha := match transparency with
    | some (.paletteAlpha alpha) => alpha
    | _ => []
  let padded := alpha ++ List.replicate (palette.length - alpha.length) 255
  { transform, gamma, gray
    palette := (palette.zip padded).toArray
    grayKey := match transparency with
      | some (.grayKey key) => key
      | _ => 0
    rgbKey := match transparency with
      | some (.rgbKey r g b) => (r, g, b)
      | _ => (0, 0, 0) }

/-- The map for an image: its transform with the tables for the header's bit depth. -/
def build (h : Header) (o : Options) (transform : Transform) (response : ToneResponse)
    (palette : List Rgb) (transparency : Option Transparency) : PixelMap :=
  ofTable h transform (if o.correctGamma then some (response.table h.depth) else none) palette
    transparency

end PixelMap

end Png
