import Png.Chunk.Field
import Png.Depth
import Png.Options

/-!
# Image headers

The header chunk gives the size of an image and the form of its samples. `Header.parse` reads its
thirteen bytes and reports the first rule they break; `Header.toBytes` writes them.
-/

namespace Png

/-- The size of an image and the form of its stored samples. -/
structure Header where
  /-- Pixels per row. -/
  width : Nat
  /-- Rows. -/
  height : Nat
  /-- Bits per sample. -/
  depth : Nat
  /-- What the samples of a pixel mean. -/
  color : ColorType
  /-- The order of the pixels. -/
  interlace : Interlace
  deriving DecidableEq

namespace Header

/-- The bit depths that any image may have. -/
def depths : List Nat := [1, 2, 4, 8, 16]

/-- Samples stored per pixel. -/
def channels (h : Header) : Nat := h.color.channels

/-- The distance in bytes between a byte and the one that it is predicted from: a whole pixel, but
at least one byte. -/
def pixelBytes (h : Header) : Nat := max 1 (h.channels * h.depth / 8)

/-- The bytes of a row of `width` pixels, without its filter byte. -/
def rowBytes (h : Header) (width : Nat) : Nat := (h.channels * width * h.depth + 7) / 8

/-- The largest sample of the bit depth. No sample has more than sixteen bits, and depths from 32 on
count modulo 32. -/
def maxSample (h : Header) : Nat := min (levels (h.depth % 32)) (levels 16) - 1

/-- Reads the data of a header chunk under the size limits of `options`. Its rules are checked in
the order: length, zero dimensions, the two limits, bit depth, colour type, bit depth for the colour
type, compression, filtering, interlacing. -/
def parse (options : Options) (data : List UInt8) : Except Error Header := do
  require (data.length = 13) (.badHeaderLength data.length)
  let width ← readField data 0 4
  let height ← readField data 4 4
  require (width ≠ 0 ∧ height ≠ 0) .zeroDimensions
  require (width ≤ options.maxWidth) (.tooLarge .width width options.maxWidth)
  require (height ≤ options.maxHeight) (.tooLarge .height height options.maxHeight)
  let depth ← readField data 8 1
  require (depth ∈ depths) (.invalidDepth depth)
  let colorCode ← readField data 9 1
  let color ← demand (ColorType.ofCode? colorCode) (.unknownColorType colorCode)
  require (color.minDepth ≤ depth ∧ depth ≤ color.maxDepth) (.depthNotAllowed depth color)
  let compression ← readField data 10 1
  require (compression = 0) (.unknownCompression compression)
  let filterMethod ← readField data 11 1
  require (filterMethod = 0) (.unknownFilterMethod filterMethod)
  let interlaceCode ← readField data 12 1
  let interlace ← demand (Interlace.ofCode? interlaceCode) (.unknownInterlace interlaceCode)
  return { width, height, depth, color, interlace }

/-- The thirteen bytes of the header: compression and filter method are always zero. -/
def toBytes (h : Header) : List UInt8 :=
  BigEndian.encode 4 h.width ++ BigEndian.encode 4 h.height ++
    [h.depth.toUInt8, h.color.code.toUInt8, 0, 0, h.interlace.code.toUInt8]

end Header

end Png
