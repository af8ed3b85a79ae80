/-!
# Adler-32

The checksum of a zlib stream: the sum of the bytes plus one, and the sum of those partial sums,
both modulo 65521.
-/

namespace Png.Zlib

/-- The modulus, the largest prime below 65536. -/
def adlerModulus : Nat := 65521

/-- The checksum of the bytes. -/
def adler32 (bytes : Array UInt8) : Nat :=
  let (low, high) := bytes.foldl
    (fun (low, high) byte =>
      let low := (low + byte.toNat) % adlerModulus
      (low, (high + low) % adlerModulus))
    (1, 0)
  65536 * high + low

end Png.Zlib
