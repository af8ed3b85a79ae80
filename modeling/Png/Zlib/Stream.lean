import Png.BigEndian
import Png.Depth
import Png.Zlib.Adler
import Png.Zlib.Inflate

/-!
# Zlib streams

Two bytes of header, deflated data, and the checksum of what they inflate to. What follows the
checksum is not looked at, and the checksum itself only on request.
-/

namespace Png.Zlib

/-- Checks the two header bytes: deflate, a window of at most 32 KiB, and a multiple of 31. -/
def checkHeader (first second : UInt8) : Except Fault Unit := do
  if first.toNat % 16 ≠ 8 then throw (.unknownMethod (first.toNat % 16))
  if first.toNat / 16 > 7 then throw (.windowTooLarge (first.toNat / 16))
  if (256 * first.toNat + second.toNat) % 31 ≠ 0 then throw .badHeaderCheck

/-- The most bytes that a stream may hold, a gibibyte. -/
def outputLimit : Nat := levels 30

/-- Checks the length of the output. -/
def checkLength (out : Array UInt8) : Except Fault Unit :=
  if out.size ≤ outputLimit then .ok () else .error (.outputTooLong outputLimit)

/-- Compares the checksum in front of `rest` with that of the output. -/
def checkSum (out : Array UInt8) (rest : List UInt8) : Except Fault Unit := do
  let stored ← orInsufficient (BigEndian.field? rest 0 4)
  let computed := adler32 out
  if stored ≠ computed then throw (.checksumMismatch stored computed)

/-- The bytes that a zlib stream holds, its checksum compared where `verify` says so. -/
def decompress (verify : Bool) (stream : List UInt8) : Except Fault (List UInt8) :=
  match stream with
  | first :: second :: body =>
    if body.length < 4 then .error .insufficientData
    else do
      checkHeader first second
      let (out, rest) ← inflate body
      checkLength out
      if verify then checkSum out rest
      return out.toList
  | _ => .error .insufficientData

end Png.Zlib
