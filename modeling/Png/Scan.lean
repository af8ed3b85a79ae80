import Png.Filter
import Png.Pass
import Png.PixelMap
import Png.Raster
import Png.Size

/-!
# Scanning image data

Inflated image data are the scanlines of one pass after another, each behind its filter byte. `scan`
undoes the filters, maps every pixel and writes it to its place in the raster. `Header.dataSize` is
the number of bytes that this takes.
-/

namespace Png

namespace Header

/-- The passes of the image, in the order of the file. -/
def passes (h : Header) : List Pass := Pass.ofImage h.width h.height h.interlace

/-- The bytes of a row as they are counted in advance. -/
def countedRowBytes (h : Header) (width : Nat) : Nat :=
  cappedAdd (cappedMul (cappedMul h.channels width) h.depth) 7 / 8

/-- The bytes of a pass as they are counted in advance, filter bytes included. -/
def passSize (h : Header) (p : Pass) : Nat :=
  cappedMul (cappedAdd (h.countedRowBytes p.width) 1) p.height

/-- The bytes of all filtered scanlines, as far as they can be counted. A pass without pixels has
none. -/
def dataSize (h : Header) : Nat :=
  (h.passes.filter (!·.isEmpty)).foldl (fun size p => cappedAdd size (h.passSize p)) 0

end Header

/-- The `index`-th sample of a row. Samples narrower than a byte are packed most significant bits
first; samples of sixteen bits have their high byte first. -/
def sampleAt? (row : Array UInt8) (index depth : Nat) : Option Nat :=
  match depth with
  | 16 => do
    let high ← row[2 * index]?
    let low ← row[2 * index + 1]?
    return 256 * high.toNat + low.toNat
  | 8 => row[index]?.map (·.toNat)
  | _ => row[index * depth / 8]?.map fun byte =>
    Raster.getBits depth (Raster.shiftOf depth index) byte.toNat

/-- The samples of the `i`-th pixel of a row. -/
def Header.pixelAt? (h : Header) (row : Array UInt8) (i : Nat) : Option (List Nat) :=
  (List.range h.channels).mapM fun b => sampleAt? row (i * h.channels + b) h.depth

/-- A scan under way: the data left, the rows at work and the raster so far. -/
structure Scan where
  rest : List UInt8
  rows : Rows
  raster : Raster

namespace Scan

/-- The scan before its first pass. -/
def start (h : Header) (data : List UInt8) (raster : Raster) : Scan :=
  { rest := data, rows := .new h.pixelBytes, raster }

/-- Writes the pixel in column `i` of row `j` of a pass to the raster. -/
def putPixel (h : Header) (m : PixelMap) (p : Pass) (row : Array UInt8) (j : Nat) (raster : Raster)
    (i : Nat) : Except Error Raster := do
  let pixel ← demand (h.pixelAt? row i) .outOfBounds
  let samples ← demand (m.map? pixel) .outOfBounds
  let (x, y) := p.position i j
  demand (raster.write? x y samples) .outOfBounds

/-- Takes row `j` of a pass. -/
def takeRow (h : Header) (m : PixelMap) (p : Pass) (s : Scan) (j : Nat) : Except Error Scan :=
  match s with
  | { rest, rows, raster } => do
    let (line, rest) := rest.splitAt (h.rowBytes p.width + 1)
    require (line.length = h.rowBytes p.width + 1) (.truncated .imageData)
    let rows ← match line with
      | code :: raw => rows.next code raw
      | [] => .error (.truncated .imageData)
    let raster ← (List.range p.width).foldlM (putPixel h m p rows.current j) raster
    return { rest, rows, raster }

/-- Takes all rows of a pass. -/
def takePass (h : Header) (m : PixelMap) (s : Scan) (p : Pass) : Except Error Scan :=
  match s with
  | { rest, rows, raster } =>
    (List.range p.height).foldlM (takeRow h m p)
      { rest, rows := rows.start (h.rowBytes p.width), raster }

/-- Takes all passes that have pixels. -/
def takePasses (h : Header) (m : PixelMap) (s : Scan) : Except Error Scan :=
  (h.passes.filter (!·.isEmpty)).foldlM (takePass h m) s

end Scan

/-- The raster of an image, and the data left over. -/
def scan (h : Header) (m : PixelMap) (data : List UInt8) (raster : Raster) :
    Except Error (Raster × List UInt8) := do
  let s ← (Scan.start h data raster).takePasses h m
  return (s.raster, s.rest)

end Png
