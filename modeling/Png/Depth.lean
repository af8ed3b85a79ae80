/-!
# Bit depths

A field of some number of bits takes one of `levels` values, the numbers below it. The laws say that
one more bit doubles them and that fields side by side multiply theirs.
-/

namespace Png

/-- The number of values that a field of `bits` bits takes. -/
def levels (bits : Nat) : Nat := 1 <<< bits

@[simp]
theorem levels_zero : levels 0 = 1 := rfl

theorem levels_succ (bits : Nat) : levels (bits + 1) = 2 * levels bits := by
  simp [levels, Nat.shiftLeft_succ]

theorem levels_pos (bits : Nat) : 0 < levels bits := by
  induction bits with
  | zero => decide
  | succ n ih => rw [levels_succ]; omega

theorem levels_add (m n : Nat) : levels (m + n) = levels m * levels n := by
  induction n with
  | zero => simp [levels_zero]
  | succ n ih => rw [← Nat.add_assoc, levels_succ, ih, levels_succ, Nat.mul_left_comm]

end Png
