/-!
# Reading bits

Compressed data are a sequence of bits, the lowest bit of each byte first. `Bits` is what is left of
such a sequence. `size` counts its bits: every read lowers it by the bits read (`size_of_next?`,
`size_of_take?`), which is what bounds every loop over compressed data.
-/

namespace Png.Zlib

/-- The bits not read yet: `count` low bits of `held`, then the bytes `rest`. -/
structure Bits where
  held : Nat := 0
  count : Nat := 0
  rest : List UInt8

namespace Bits

/-- The number of bits left. -/
def size (b : Bits) : Nat := b.count + 8 * b.rest.length

/-- The next bit. -/
def next? (b : Bits) : Option (Bool × Bits) :=
  match b.count, b.rest with
  | count + 1, rest => some (b.held % 2 == 1, { held := b.held / 2, count, rest })
  | 0, byte :: rest => some (byte.toNat % 2 == 1, { held := byte.toNat / 2, count := 7, rest })
  | 0, [] => none

/-- The number of the next `n` bits, lowest first. -/
def take? : (n : Nat) → Bits → Option (Nat × Bits)
  | 0, b => some (0, b)
  | n + 1, b => do
    let (bit, b) ← b.next?
    let (more, b) ← take? n b
    return (bit.toNat + 2 * more, b)

/-- Drops the bits of a byte begun. -/
def align (b : Bits) : Bits := { rest := b.rest }

theorem size_of_next? {b b' : Bits} {bit : Bool} (h : b.next? = some (bit, b')) :
    b'.size + 1 = b.size := by
  unfold next? at h
  split at h
  · next count _ hcount =>
    obtain ⟨-, rfl⟩ := by simpa using h
    simp only [size, hcount]
    omega
  · next byte rest hcount hrest =>
    obtain ⟨-, rfl⟩ := by simpa using h
    simp only [size, hcount, hrest, List.length_cons]
    omega
  · simp at h

theorem size_of_take? {n value : Nat} {b b' : Bits} (h : take? n b = some (value, b')) :
    b'.size + n = b.size := by
  induction n generalizing b b' value with
  | zero => simp_all [take?]
  | succ n ih =>
    simp only [take?, Option.bind_eq_bind, Option.bind_eq_some_iff, Prod.exists, Option.pure_def,
      Option.some.injEq, Prod.mk.injEq] at h
    obtain ⟨bit, b₁, h₁, more, b₂, h₂, -, rfl⟩ := h
    have := size_of_next? h₁
    have := ih h₂
    omega

end Bits

end Png.Zlib
