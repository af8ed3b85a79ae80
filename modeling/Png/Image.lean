import Png.Libraries
import Png.Metadata
import Png.Scan

/-!
# Decoded images

`Metadata.render` makes the image out of all that a file has told: it inflates the image data, scans
them into a raster and says what the samples mean.
-/

namespace Png

/-- A decoded image. -/
structure Image where
  /-- The header of the file. -/
  header : Header
  raster : Raster
  colorModel : ColorModel
  properties : Properties
  /-- The encoding parameters, where they were asked for. -/
  encoding : Option EncodeParams

/-- The tile at a place. An image is a single tile. -/
def Image.tile (image : Image) (x y : Nat) : Except Error Raster := do
  require (x = 0 ∧ y = 0) (.noSuchTile x y)
  return image.raster

namespace Metadata

variable [Libraries]

/-- What the samples of the output mean. Unexpanded indices have the palette as their model, with
its opacities unless these are suppressed; unspread gray levels have the model of their spread. -/
def colorModel (m : Metadata) (h : Header) (t : Transform) : ColorModel :=
  if h.color = .palette ∧ !m.options.expandPalette then
    let alpha := match m.transparency with
      | some (.paletteAlpha alpha) => if t.alphaPalette then some alpha else none
      | _ => none
    .ofPalette h.depth (m.palette.getD []) alpha
  else if h.color = .gray ∧ h.depth < 8 ∧ !t.gray8 then
    .ofLevels h.depth (spreadLevels h.depth)
  else .ofBands t.bands (t.depth h m.options)

/-- The map from stored to output pixels. -/
def pixelMap (m : Metadata) (h : Header) (t : Transform) : PixelMap :=
  .build h m.options t m.response (m.palette.getD []) m.transparency

/-- The header and the transform, once the file is read to its end. An image of palette indices
needs a palette. -/
def readiness (m : Metadata) : Except Error (Header × Transform) := do
  let h ← m.requireHeader
  let t ← demand m.transform .missingHeader
  require (h.color ≠ .palette ∨ m.palette.isSome) (.missingPalette .imageData)
  return (h, t)

/-- The inflated image data. -/
def inflated (m : Metadata) : Except Error (List UInt8) :=
  (Libraries.inflate m.options.verifyChecksum m.imageData).mapError .corruptImageData

/-- The raster of the output before any pixel is written. -/
def blankRaster (m : Metadata) (h : Header) (t : Transform) : Raster :=
  .new h.width h.height t.bands (t.depth h m.options)

/-- The image of the file. -/
def render (m : Metadata) : Except Error Image := do
  let (h, t) ← m.readiness
  let data ← m.inflated
  require (h.dataSize ≤ data.length) (.truncated .imageData)
  let (raster, _) ← scan h (m.pixelMap h t) data (m.blankRaster h t)
  return {
    header := h
    raster
    colorModel := m.colorModel h t
    properties := m.properties
    encoding := m.encoding }

end Metadata

end Png
