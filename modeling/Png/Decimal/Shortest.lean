import Png.Decimal.Binary32

/-!
# Shortest digits

The fewest decimal digits that read back as a given single precision number, and of those the
nearest to it. A number stands for all reals that round to it; for ever more digits, the two
neighbours of the number on the decimal grid are tested for lying among these.
-/

namespace Png.Decimal

/-- Digits after a decimal point behind the first of them, times a power of ten. -/
structure Digits where
  /-- The digits, the first and the last of them not zero, or a single zero. -/
  digits : List Char
  /-- The power of ten of the first digit. -/
  exponent : Int
  deriving DecidableEq

namespace Digits

/-- The zero. -/
def zero : Digits := { digits := ['0'], exponent := 0 }

/-- The digits of `number * 10 ^ exponent`, without zeros at the end. -/
def ofNat (number : Nat) (exponent : Int) : Digits :=
  let digits := Nat.toDigits 10 number
  { digits := (digits.reverse.dropWhile (· == '0')).reverse
    exponent := exponent + digits.length - 1 }

end Digits

/-- The reals that read back as one number: those from `low` to `high` in units of
`2 ^ (exponent - 151)`, the ends among them where `closed` holds. The number itself is `value`. -/
structure Rounding where
  low : Nat
  value : Nat
  high : Nat
  exponent : Nat
  closed : Bool

/-- The reals that round to `mantissa * 2 ^ (exponent - 149)`: half the way to both neighbours, and
the ends where a tie goes to the number. -/
def Rounding.ofFinite (mantissa exponent : Nat) (narrow : Bool) : Rounding :=
  { low := 4 * mantissa - (if narrow then 1 else 2)
    value := 4 * mantissa
    high := 4 * mantissa + 2
    exponent
    closed := mantissa % 2 == 0 }

/-- A power of ten as a fraction, numerator first. -/
def tenPower (exponent : Int) : Nat × Nat :=
  (tenPow exponent.toNat, tenPow (-exponent).toNat)

/-- The numbers `k` such that `k * 10 ^ exponent` is a neighbour of the value and reads back as it,
nearest first. Of two that are equally near, the smaller one `k` is first where `tieBelow k` holds.
-/
def Rounding.hits (r : Rounding) (tieBelow : Nat → Bool) (exponent : Int) : List Nat :=
  let (up, down) := tenPower exponent
  let scale := down <<< r.exponent
  let step := up <<< 151
  let inside (k : Nat) : Bool :=
    if r.closed then r.low * scale ≤ k * step && k * step ≤ r.high * scale
    else r.low * scale < k * step && k * step < r.high * scale
  let below := r.value * scale / step
  let above := below + 1
  let past := r.value * scale - below * step
  let short := above * step - r.value * scale
  let belowFirst := past < short || (past == short && tieBelow below)
  (if belowFirst then [below, above] else [above, below]).filter inside

/-- The power of ten of the value's first digit. The value is a whole number of units, so that it is
not below `10 ^ -60`. -/
def Rounding.leading (r : Rounding) : Int :=
  ((Nat.toDigits 10 (((r.value * tenPow 60) <<< r.exponent) >>> 151)).length : Int) - 61

/-- The shortest digits that read back as the value. Nine digits are always enough. -/
def Rounding.shortest (r : Rounding) (tieBelow : Nat → Bool) : Digits :=
  let leading := r.leading
  let ofLength (count : Nat) : Option Digits :=
    let exponent := leading - count
    (r.hits tieBelow exponent).head?.map (Digits.ofNat · exponent)
  ((List.range 9).findSome? ofLength).getD .zero

/-- The shortest digits of a finite number without its sign. -/
def shortest (tieBelow : Nat → Bool) (mantissa exponent : Nat) (narrow : Bool) : Digits :=
  if mantissa = 0 then .zero
  else (Rounding.ofFinite mantissa exponent narrow).shortest tieBelow

end Png.Decimal
