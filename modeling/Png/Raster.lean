import Png.Size

/-!
# Sample buffers

A raster holds the samples of an image. A single band narrower than a byte is packed, most
significant bits first, with every row on a byte boundary; any other raster has one cell per sample,
the bands of a pixel next to each other. Cells are bytes, or words of 16 bits at that depth.

`write?` and `read?` check the bounds of the buffer and not those of the image: a column past the
width is a place in a later row. A place that cannot be counted is in no buffer.
-/

namespace Png

/-- How samples lie in a row. -/
inductive SampleLayout where
  | packed
  | interleaved
  deriving DecidableEq

/-- The name in summaries. -/
def SampleLayout.label : SampleLayout → String
  | packed => "packed"
  | interleaved => "interleaved"

/-- A `width` by `height` image with `bands` samples of `depth` bits per pixel. -/
structure Raster where
  width : Nat
  height : Nat
  /-- Samples per pixel. -/
  bands : Nat
  /-- Bits per sample. -/
  depth : Nat
  /-- Bytes, or words at depth 16, row by row. -/
  cells : Array Nat

namespace Raster

/-- How the samples of an image of this form lie in a row. -/
def layoutOf (bands depth : Nat) : SampleLayout :=
  if bands = 1 ∧ depth < 8 then .packed else .interleaved

/-- The bits of a cell. -/
def cellBits (r : Raster) : Nat := if r.depth = 16 then 16 else 8

/-- How the samples lie in a row. -/
def layout (r : Raster) : SampleLayout := layoutOf r.bands r.depth

/-- The cells per row of an image of this form. -/
def strideOf (width bands depth : Nat) : Nat :=
  let bytes := wrap (bands * width * depth + 7) / 8
  if depth = 16 then bytes / 2 else bytes

/-- Cells per row. -/
def stride (r : Raster) : Nat := strideOf r.width r.bands r.depth

/-- The raster of all zero samples. -/
def new (width height bands depth : Nat) : Raster :=
  { width, height, bands, depth
    cells := Array.replicate (wrap (strideOf width bands depth * height)) 0 }

/-- The raster of all zero samples, for a program that stops where a product or a sum leaves the
words. -/
def new? (width height bands depth : Nat) : Option Raster :=
  if bands * width < levels 64 ∧ bands * width * depth + 7 < levels 64 ∧
      strideOf width bands depth * height < levels 64 then some (new width height bands depth)
  else none

/-- The number of bits below the sample of column `x` in its byte. -/
def shiftOf (depth x : Nat) : Nat := 8 - depth - x * depth % 8

/-- `byte` with the `depth` bits above the lowest `shift` replaced by the low bits of `sample`. -/
def putBits (depth shift byte sample : Nat) : Nat :=
  byte - byte / levels shift % levels depth * levels shift + sample % levels depth * levels shift

/-- The `depth` bits of `byte` above the lowest `shift`. -/
def getBits (depth shift byte : Nat) : Nat :=
  byte / levels shift % levels depth

/-- Writes samples from cell `start` on, each cut to the bits of a cell. -/
def writeCells (bits : Nat) (cells : Array Nat) (start : Nat) : List Nat → Array Nat
  | [] => cells
  | s :: samples =>
    writeCells bits (cells.setIfInBounds start (s % levels bits)) (start + 1) samples

/-- Writes pixel `(x, y)`. A packed pixel takes the first sample and words take all bands; bytes
take as many samples as there are, up to the bands of a pixel. -/
def write? (r : Raster) (x y : Nat) (samples : List Nat) : Option Raster :=
  let row := y * r.stride
  match r.layout with
  | .packed =>
    let place := row + x * r.depth / 8
    match samples with
    | [] => none
    | sample :: _ =>
      if place < r.cells.size then
        some { r with
          cells := r.cells.modify place (putBits r.depth (shiftOf r.depth x) · sample) }
      else none
  | .interleaved =>
    let place := row + x * r.bands
    if place + r.bands ≤ r.cells.size ∧ (r.depth = 16 → r.bands ≤ samples.length) then
      let bits := r.cellBits
      some { r with cells := writeCells bits r.cells place (samples.take r.bands) }
    else none

/-- The samples of pixel `(x, y)`. -/
def pixel? (r : Raster) (x y : Nat) : Option (List Nat) :=
  let row := y * r.stride
  match r.layout with
  | .packed => do
    let byte ← r.cells[row + x * r.depth / 8]?
    return [getBits r.depth (shiftOf r.depth x) byte]
  | .interleaved =>
    let place := row + x * r.bands
    if place + r.bands ≤ r.cells.size then
      some (r.cells.extract place (place + r.bands)).toList
    else none

/-- Reads pixel `(x, y)` over the first entries of `buffer`. A packed pixel needs one entry and
words need one for every band; bytes fill as many entries as there are. -/
def read? (r : Raster) (x y : Nat) (buffer : List Nat) : Option (List Nat) := do
  let samples ← r.pixel? x y
  let needed := if r.layout = .packed then 1 else if r.depth = 16 then r.bands else 0
  if needed ≤ buffer.length then
    return samples.take buffer.length ++ buffer.drop samples.length
  else none

/-- The bytes of the cells, words most significant byte first. -/
def toBytes (r : Raster) : List UInt8 :=
  if r.depth = 16 then r.cells.toList.flatMap fun c => [(c / 256).toUInt8, c.toUInt8]
  else r.cells.toList.map (·.toUInt8)

/-- The bytes of the cells, words least significant byte first. -/
def toBytesLittle (r : Raster) : List UInt8 :=
  if r.depth = 16 then r.cells.toList.flatMap fun c => [c.toUInt8, (c / 256).toUInt8]
  else r.cells.toList.map (·.toUInt8)

end Raster

end Png
