import Png.ColorType
import Png.Size

/-!
# Passes over an image

An image is stored as one or more passes, each a smaller image of the pixels on a regular grid. A
sequential image is one pass over all pixels; Adam7 has seven, some of them empty in small images.
-/

namespace Png

/-- The pixels of one pass: pixel `(i, j)` of the pass is the pixel
`(xOffset + i * xStep, yOffset + j * yStep)` of the image. -/
structure Pass where
  xOffset : Nat
  yOffset : Nat
  xStep : Nat
  yStep : Nat
  /-- Pixels per row of the pass. -/
  width : Nat
  /-- Rows of the pass. -/
  height : Nat
  deriving DecidableEq

namespace Pass

/-- Whether the pass has no pixel, and so no bytes. -/
def isEmpty (p : Pass) : Bool := p.width == 0 || p.height == 0

/-- The place in the image of pixel `(i, j)` of the pass. -/
def position (p : Pass) (i j : Nat) : Nat × Nat :=
  (p.xOffset + i * p.xStep, p.yOffset + j * p.yStep)

/-- How many of the numbers `offset`, `offset + step`, … lie below `size`, as long as no sum goes
round on the way. -/
def extent (size offset step : Nat) : Nat :=
  if size ≤ offset then 0 else wrap (size - offset + step - 1) / step

/-- Whether `extent` adds up without leaving the words. -/
def addsUp (size offset step : Nat) : Bool := size ≤ offset || size - offset + step < levels 64

/-- The only pass over a `width` by `height` image that is sequential. -/
def whole (width height : Nat) : Pass :=
  { xOffset := 0, yOffset := 0, xStep := 1, yStep := 1, width, height }

/-- The pass over a `width` by `height` image on the grid given by offsets and steps. -/
def onGrid (width height : Nat) (grid : Nat × Nat × Nat × Nat) : Pass :=
  let (xOffset, yOffset, xStep, yStep) := grid
  { xOffset, yOffset, xStep, yStep
    width := extent width xOffset xStep
    height := extent height yOffset yStep }

/-- The grids of Adam7, in the order of the file: horizontal and vertical offset, then steps. -/
def adam7Grids : List (Nat × Nat × Nat × Nat) :=
  [(0, 0, 8, 8), (4, 0, 8, 8), (0, 4, 4, 8), (2, 0, 4, 4), (0, 2, 2, 4), (1, 0, 2, 2), (0, 1, 1, 2)]

/-- The passes of an image, in the order of the file. -/
def ofImage (width height : Nat) : Interlace → List Pass
  | .sequential => [whole width height]
  | .adam7 => adam7Grids.map (onGrid width height)

/-- The passes of an image, for a program that stops where a sum leaves the words. -/
def ofImage? (width height : Nat) (interlace : Interlace) : Option (List Pass) :=
  if interlace = .sequential ∨ adam7Grids.all fun (xOffset, yOffset, xStep, yStep) =>
      addsUp width xOffset xStep && addsUp height yOffset yStep then
    some (ofImage width height interlace)
  else none

end Pass

end Png
