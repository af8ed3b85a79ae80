import Png.Depth
import Png.Options

/-!
# Gamma and chromaticities

What a file says about the response of its samples, and the tables that correct samples for it.
Values that are reported are computed in single precision, tables in double precision.
-/

namespace Png

/-- The white point and the three primaries, as `x` and `y`. -/
structure Chromaticities where
  whiteX : Float32
  whiteY : Float32
  redX : Float32
  redY : Float32
  greenX : Float32
  greenY : Float32
  blueX : Float32
  blueY : Float32

/-- A number that is stored as its hundred thousandfold. -/
def ofHundredThousandths (n : Nat) : Float32 :=
  n.toUInt32.toFloat32 / 100000.0

namespace Chromaticities

/-- The eight numbers in the order of the chunk. -/
def toList (c : Chromaticities) : List Float32 :=
  [c.whiteX, c.whiteY, c.redX, c.redY, c.greenX, c.greenY, c.blueX, c.blueY]

/-- The properties that report them, in the same order. -/
def keys : List String :=
  ["white_point_x", "white_point_y", "red_x", "red_y", "green_x", "green_y", "blue_x", "blue_y"]

/-- The chromaticities of the standard RGB space. -/
def standardRgb : Chromaticities where
  whiteX := ofHundredThousandths 31270
  whiteY := ofHundredThousandths 32900
  redX := ofHundredThousandths 64000
  redY := ofHundredThousandths 33000
  greenX := ofHundredThousandths 30000
  greenY := ofHundredThousandths 60000
  blueX := ofHundredThousandths 15000
  blueY := ofHundredThousandths 6000

end Chromaticities

/-- The gamma of a file without one, and of the standard RGB space. -/
def defaultFileGamma : Float32 := ofHundredThousandths 45455

example : defaultFileGamma = 0.45455 := by decide

/-- The response of the file, the viewer and the display. -/
structure ToneResponse where
  fileGamma : Float32 := defaultFileGamma
  userExponent : Float32
  displayExponent : Float32
  chromaticities : Option Chromaticities := none
  /-- The rendering intent, once the file names the standard RGB space. -/
  intent : Option Nat := none

namespace ToneResponse

/-- Before anything is read. -/
def ofOptions (o : Options) : ToneResponse :=
  { userExponent := o.userExponent, displayExponent := o.displayExponent }

/-- The standard RGB space with the rendering intent given; it replaces whatever was known. -/
def withStandardRgb (t : ToneResponse) (intent : Nat) : ToneResponse :=
  { t with
    intent := some intent
    fileGamma := defaultFileGamma
    chromaticities := some .standardRgb }

/-- The gamma to report: the file's, or that of the corrected samples when correcting. -/
def reportedGamma (t : ToneResponse) (correcting : Bool) : Float32 :=
  if correcting then t.fileGamma * (t.displayExponent / t.userExponent) else t.fileGamma

/-- The gamma to report when correcting, before the file has given its own. -/
def assumedGamma (t : ToneResponse) : Float32 :=
  (1.0 / 2.2) * (t.displayExponent / t.userExponent)

/-- The corrected value of every sample of `bits` bits, up to 65535 for 16 bits and to 255 for
fewer: the brightness raised to `user / (file * display)`, rounded to nearest. -/
def table (t : ToneResponse) (bits : Nat) : Array Nat :=
  let exponent :=
    t.userExponent.toFloat / (t.fileGamma.toFloat * t.displayExponent.toFloat)
  let top := if bits = 16 then 65535 else 255
  let last := Float.ofNat (levels bits - 1)
  (Array.range (levels bits)).map fun i =>
    min ((Float.ofNat i / last).pow exponent * Float.ofNat top + 0.5).toUInt32.toNat top

end ToneResponse

end Png
