import Png.Calendar
import Png.Depth
import Png.Zlib.Fault

/-!
# Libraries

Decoding relies on two things that are not of this format: inflating zlib streams, and knowing which
dates there are. What is defined from them, and stated about it, is for any such libraries;
`Libraries/Own.lean` has those of the command.
-/

namespace Png

/-- What decoding takes from elsewhere. -/
class Libraries where
  /-- The bytes that a zlib stream holds, its checksum compared where `verify` says so. -/
  inflate (verify : Bool) (stream : List UInt8) : Except Zlib.Fault (List UInt8)
  /-- Streams that hold too much are refused. The limit is a gibibyte unless another is asked for,
  which is far below this. -/
  length_inflate {verify : Bool} {stream out : List UInt8} :
    inflate verify stream = .ok out → out.length < levels 59
  /-- Whether there is such a date. -/
  isDate : DateTime → Bool

end Png
