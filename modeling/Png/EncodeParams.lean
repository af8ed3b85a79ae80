import Png.Calendar
import Png.Chunk.Tag
import Png.ToneResponse
import Png.Transform

/-!
# Encoding parameters

What an encoder would need to write the file again, gathered on request while the chunks are read.
-/

namespace Png

/-- A keyword and its text. -/
structure TextEntry where
  keyword : String
  text : String
  deriving DecidableEq

/-- The pixel density: pixels per unit along both axes and the code of the unit. -/
structure PixelDensity where
  x : Nat
  y : Nat
  unit : Nat
  deriving DecidableEq

/-- The background as the file has it. -/
inductive Background where
  /-- An index into the palette. -/
  | index (index : Nat)
  | gray (level : Nat)
  | rgb (color : Nat × Nat × Nat)
  deriving DecidableEq

/-- The parameters that depend on the colour type. -/
inductive EncodeKind where
  | palette (background : Option Nat)
  /-- For gray with and without alpha. -/
  | gray (background transparent : Option Nat)
  /-- For RGB with and without alpha. -/
  | rgb (background transparent : Option (Nat × Nat × Nat))
  deriving DecidableEq

namespace EncodeKind

/-- Nothing is known yet but the colour type. -/
def ofColor : ColorType → EncodeKind
  | .palette => palette none
  | .gray | .grayAlpha => gray none none
  | .rgb | .rgba => rgb none none

/-- Records the background. -/
def withBackground : Background → EncodeKind → EncodeKind
  | .index i, palette _ => palette (some i)
  | .gray level, gray _ transparent => gray (some level) transparent
  | .rgb color, rgb _ transparent => rgb (some color) transparent
  | _, kind => kind

/-- Records the transparent gray level or colour; the opacities of a palette are not recorded. -/
def withTransparency : Transparency → EncodeKind → EncodeKind
  | .grayKey key, gray background _ => gray background (some key)
  | .rgbKey r g b, rgb background _ => rgb background (some (r, g, b))
  | _, kind => kind

end EncodeKind

/-- The parameters of a file. -/
structure EncodeParams where
  kind : EncodeKind
  bitDepth : Nat
  interlaced : Bool
  gamma : Option Float32 := none
  chromaticities : Option Chromaticities := none
  significantBits : Option (List Nat) := none
  pixelDensity : Option PixelDensity := none
  histogram : Option (List Nat) := none
  modified : Option DateTime := none
  text : List TextEntry := []
  compressedText : List TextEntry := []
  /-- The chunks of unknown type, with their data. -/
  unknownChunks : List (ChunkTag × List UInt8) := []

/-- What a header alone tells. -/
def EncodeParams.ofHeader (h : Header) : EncodeParams :=
  { kind := .ofColor h.color
    bitDepth := h.depth
    interlaced := h.interlace = .adam7 }

end Png
