import Png.Decimal.Shortest

/-!
# Number text

How digits and a power of ten are written down. Summaries and the log differ in three decisions,
which are the fields of `NumberStyle`.
-/

namespace Png.Decimal

/-- The decisions of a number format. -/
structure NumberStyle where
  /-- The powers of ten of the first digit that are written without an exponent. -/
  positional : Int → Bool
  /-- Whole numbers end in a point and a zero. -/
  keepsPoint : Bool
  /-- Of two equally near digit sequences, whether the smaller one is written. -/
  tieBelow : Nat → Bool

/-- Zeros in a row. -/
def zeros (count : Nat) : List Char := List.replicate count '0'

/-- The digits in positional notation. -/
def positionalText (keepsPoint : Bool) (d : Digits) : List Char :=
  if d.exponent < 0 then ['0', '.'] ++ zeros (-d.exponent - 1).toNat ++ d.digits
  else
    let whole := d.exponent.toNat + 1
    if d.digits.length ≤ whole then
      d.digits ++ zeros (whole - d.digits.length) ++ (if keepsPoint then ['.', '0'] else [])
    else d.digits.take whole ++ ['.'] ++ d.digits.drop whole

/-- The digits with an exponent: a point behind the first digit if there are more, and the exponent
with its sign. -/
def scientificText (d : Digits) : List Char :=
  let sign := if d.exponent < 0 then '-' else '+'
  let fraction := if d.digits.length ≤ 1 then [] else '.' :: d.digits.drop 1
  d.digits.take 1 ++ fraction ++ ['e', sign] ++ Nat.toDigits 10 d.exponent.natAbs

/-- The digits in the style given. -/
def Digits.text (style : NumberStyle) (d : Digits) : List Char :=
  if style.positional d.exponent then positionalText style.keepsPoint d else scientificText d

/-- A finite number in the style given, or nothing for infinity and NaN. -/
def finiteText? (style : NumberStyle) (x : Float32) : Option String :=
  match Binary32.ofBits x.toBits.toNat with
  | .finite negative mantissa exponent narrow =>
    let text := (shortest style.tieBelow mantissa exponent narrow).text style
    some (String.ofList (if negative then '-' :: text else text))
  | _ => none

/-- The style of summaries: from the sixth place behind the point to thirteen places in front of it
without an exponent, and always a point. Of two equally near numbers the even one is written. -/
def summaryStyle : NumberStyle where
  positional e := -6 ≤ e && e ≤ 12
  keepsPoint := true
  tieBelow k := k % 2 == 0

/-- The style of the log: never an exponent, and a point only where it is needed. Of two
equally near numbers the larger one is written. -/
def logStyle : NumberStyle where
  positional _ := true
  keepsPoint := false
  tieBelow _ := false

/-- A number in the log. -/
def logText (x : Float32) : String :=
  match Binary32.ofBits x.toBits.toNat with
  | .nan => "NaN"
  | .infinite negative => if negative then "-inf" else "inf"
  | _ => (finiteText? logStyle x).getD ""

end Png.Decimal
