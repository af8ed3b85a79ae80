import Png.Depth

/-!
# Sizes

Sizes and places are counted in words of 64 bits. Arithmetic on them goes round: a result that is
too large loses its upper bits (`wrap`). A program may also be built to stop there; functions whose
name ends in a question mark then have no result. Where sizes are counted in advance, they stay at
the largest word (`cappedAdd`, `cappedMul`).
-/

namespace Png

/-- The word that a number becomes, without the bits that it has no room for. -/
def wrap (n : Nat) : Nat := n % levels 64

/-- A number that fits is kept. -/
theorem wrap_eq {n : Nat} (h : n < levels 64) : wrap n = n := Nat.mod_eq_of_lt h

/-- The largest number of bytes that can be asked for. -/
def sizeLimit : Nat := levels 64 - 1

/-- A sum of sizes, as far as it can be counted. -/
def cappedAdd (a b : Nat) : Nat := min (a + b) sizeLimit

/-- A product of sizes, as far as it can be counted. -/
def cappedMul (a b : Nat) : Nat := min (a * b) sizeLimit

end Png
