/-!
# Why compressed data are refused

The ways in which a zlib stream can be broken, one constructor each, and their wording in one place.
-/

namespace Png.Zlib

/-- A cause for refusing a zlib stream. -/
inductive Fault where
  /-- The stream is shorter than its header and checksum, or ends inside a block. -/
  | insufficientData
  /-- The compression method is not deflate. -/
  | unknownMethod (method : Nat)
  /-- The window is larger than 32 KiB. -/
  | windowTooLarge (exponent : Nat)
  /-- The two header bytes are no multiple of 31. -/
  | badHeaderCheck
  /-- A block of the reserved type. -/
  | reservedBlock
  /-- The length of a stored block and its complement differ. -/
  | badStoredLength
  /-- Code lengths that no prefix code has. -/
  | badCode
  /-- A length was to be repeated before there was one. -/
  | badRepeat
  /-- A copy from before the start of the output. -/
  | distanceTooFar
  /-- The output is longer than is allowed. -/
  | outputTooLong (limit : Nat)
  /-- The checksum of the output is not the one stored. -/
  | checksumMismatch (stored computed : Nat)
  deriving DecidableEq

/-- The cause in words. -/
def Fault.message : Fault → String
  | insufficientData => "Insufficient data"
  | unknownMethod method => s!"Unknown compression method {method}"
  | windowTooLarge exponent => s!"Window exponent {exponent} is larger than 7"
  | badHeaderCheck => "Header check bits are wrong"
  | reservedBlock => "Block of reserved type"
  | badStoredLength => "Stored block length does not match its complement"
  | badCode => "Corrupt code lengths"
  | badRepeat => "Corrupt repeat of a code length"
  | distanceTooFar => "Copy from before the start of the output"
  | outputTooLong limit => s!"Output is longer than {limit} bytes"
  | checksumMismatch stored computed => s!"Checksum is {computed} but the stream has {stored}"

end Png.Zlib
