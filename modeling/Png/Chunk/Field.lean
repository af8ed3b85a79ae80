import Png.BigEndian
import Png.Error

/-!
# Fields of a chunk

Reading a number or a NUL terminated keyword out of a chunk's data, with the error that a chunk
too short for it gives.
-/

namespace Png

/-- The number of `width` bytes at `offset` of a chunk's data. -/
def readField (data : List UInt8) (offset width : Nat) : Except Error Nat :=
  demand (BigEndian.field? data offset width) (.truncated .chunkField)

/-- The bytes before the first NUL and those after it; without a NUL the data end inside `part`. -/
def splitKeyword (part : Part) (data : List UInt8) : Except Error (List UInt8 × List UInt8) :=
  match data.dropWhile (· != 0) with
  | _ :: rest => .ok (data.takeWhile (· != 0), rest)
  | [] => .error (.truncated part)

end Png
