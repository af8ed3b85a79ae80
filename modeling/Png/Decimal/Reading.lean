import Png.Decimal.Binary32

/-!
# Reading numbers

The numbers of the command line: whole numbers below `2 ^ 64`, and decimals, which become the
nearest single precision number.
-/

namespace Png.Decimal

/-- The number that decimal digits write; nothing for an empty list or any other character. -/
def digits? (text : List Char) : Option Nat :=
  if !text.isEmpty && text.all Char.isDigit then
    some (text.foldl (fun n c => 10 * n + (c.toNat - '0'.toNat)) 0)
  else none

/-- Whether there is a minus sign in front, and the text behind the sign. -/
def splitSign : List Char → Bool × List Char
  | '+' :: text => (false, text)
  | '-' :: text => (true, text)
  | text => (false, text)

/-- A whole number, which may have a plus sign in front. -/
def readSize? (text : String) : Option Nat := do
  let body := match text.toList with
    | '+' :: body => body
    | body => body
  let n ← digits? body
  if n < (1 <<< 64) then some n else none

/-- The exponent behind an `e`: a sign if any, and digits. No text at all is the exponent zero. -/
def readExponent? : List Char → Option Int
  | [] => some 0
  | _ :: text => do
    let (negative, body) := splitSign text
    let n ← digits? body
    return if negative then -n else n

/-- The bits of a decimal without its sign: digits with a point among, before or behind them, and an
exponent. -/
def readDecimal? (text : List Char) : Option Nat := do
  let mantissa := text.takeWhile fun c => c.isDigit || c == '.'
  let exponent := text.drop mantissa.length
  guard (exponent.isEmpty || exponent.head? == some 'e' || exponent.head? == some 'E')
  let whole := mantissa.takeWhile Char.isDigit
  let fraction := mantissa.drop (whole.length + 1)
  let digits ← digits? (whole ++ fraction)
  let exponent ← readExponent? exponent
  return nearestBitsOfDecimal digits (exponent - fraction.length)

/-- A single precision number: a decimal, or infinity or NaN by name in any case, with a sign if
any. -/
def readNumber? (text : String) : Option Float32 := do
  let (negative, body) := splitSign text.toList
  let name := String.ofList (body.map Char.toLower)
  let bits ←
    if name = "inf" ∨ name = "infinity" then some infinityBits
    else if name = "nan" then some nanBits
    else readDecimal? body
  return Float32.ofBits (bits + (if negative then signBit else 0)).toUInt32

end Png.Decimal
