/-!
# Big endian numbers

Every number in a chunk is stored most significant byte first. `decode` reads such bytes, `encode`
writes them, and `field?` reads one from its place in a chunk's data.
-/

namespace Png.BigEndian

/-- The number that the bytes write in base 256, most significant first. -/
def decode (bytes : List UInt8) : Nat :=
  bytes.foldl (fun n b => 256 * n + b.toNat) 0

/-- The `width` low digits of `n` in base 256, most significant first. -/
def encode : (width n : Nat) → List UInt8
  | 0, _ => []
  | width + 1, n => (n >>> (8 * width)).toUInt8 :: encode width n

/-- The number of `width` bytes at `offset`, unless the data end before it does. -/
def field? (data : List UInt8) (offset width : Nat) : Option Nat :=
  let bytes := (data.drop offset).take width
  if bytes.length = width then some (decode bytes) else none

@[simp]
theorem length_encode (width n : Nat) : (encode width n).length = width := by
  induction width with
  | zero => rfl
  | succ w ih => simp [encode, ih]

end Png.BigEndian
