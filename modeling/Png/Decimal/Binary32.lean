/-!
# Single precision in exact arithmetic

What the bits of a single precision number stand for, and the number nearest to a decimal. Both are
computed in natural numbers, so that no rounding but the last one happens.
-/

namespace Png.Decimal

/-- What a single precision number stands for. -/
inductive Binary32 where
  | nan
  | infinite (negative : Bool)
  /-- The number `mantissa * 2 ^ (exponent - 149)`, where `narrow` says that the next smaller number
  is only half as far away as the next larger one. -/
  | finite (negative : Bool) (mantissa exponent : Nat) (narrow : Bool)
  deriving DecidableEq

/-- The bit of the sign. -/
def signBit : Nat := 1 <<< 31

/-- A power of ten. -/
def tenPow (n : Nat) : Nat := Nat.pow 10 n

/-- The meaning of the bits: a sign, eight bits of exponent and 23 of fraction. -/
def Binary32.ofBits (bits : Nat) : Binary32 :=
  let negative := signBit ≤ bits
  let exponent := (bits >>> 23) % 256
  let fraction := bits % (1 <<< 23)
  if exponent = 255 then
    if fraction = 0 then .infinite negative else .nan
  else if exponent = 0 then .finite negative fraction 0 false
  else .finite negative ((1 <<< 23) + fraction) (exponent - 1) (fraction == 0 && exponent > 1)

/-- The bits of infinity. -/
def infinityBits : Nat := 0x7F800000

/-- The bits of a quiet NaN. -/
def nanBits : Nat := 0x7FC00000

/-- The bits of the single precision number nearest to `num / den`, the one with an even mantissa if
two are equally near. -/
def nearestBits (num den : Nat) : Nat :=
  if num = 0 then 0
  else
    -- The quotient lies between `2 ^ (size - 1)` and `2 ^ (size + 1)`.
    let size : Int := (num.log2 : Int) - den.log2
    let scaled (exponent : Nat) : Nat × Nat := (num <<< 149, den <<< exponent)
    let low := (size - 1 + 149 - 23).toNat
    let (n, d) := scaled low
    let exponent := if n / d < (1 <<< 24) then low else low + 1
    let (n, d) := scaled exponent
    let mantissa := n / d
    let twiceRest := 2 * (n % d)
    let up := twiceRest > d || (twiceRest == d && mantissa % 2 == 1)
    min ((exponent <<< 23) + mantissa + (if up then 1 else 0)) infinityBits

/-- The bits of the single precision number nearest to `digits * 10 ^ exponent`. Numbers far outside
the range are told by their first digit's exponent, without forming the power. -/
def nearestBitsOfDecimal (digits : Nat) (exponent : Int) : Nat :=
  let leading : Int := (Nat.toDigits 10 digits).length - 1 + exponent
  if digits = 0 ∨ leading < -60 then 0
  else if leading > 60 then infinityBits
  else nearestBits (digits * tenPow exponent.toNat) (tenPow (-exponent).toNat)

end Png.Decimal
