/-!
# Dates

A moment in universal time, as the time chunk stores it. `DateTime.isValid` accepts the dates of the
Gregorian calendar, which is taken to hold for all years from zero on, and no leap seconds.
-/

namespace Png

/-- Whether the year has a 29 February. -/
def isLeapYear (year : Nat) : Bool :=
  year % 4 == 0 && (year % 100 != 0 || year % 400 == 0)

/-- The days of a month, counted from one; zero for a number that is no month. -/
def daysInMonth (year month : Nat) : Nat :=
  match month with
  | 1 | 3 | 5 | 7 | 8 | 10 | 12 => 31
  | 4 | 6 | 9 | 11 => 30
  | 2 => if isLeapYear year then 29 else 28
  | _ => 0

/-- A moment in universal time, to the second. -/
structure DateTime where
  year : Nat
  month : Nat
  day : Nat
  hour : Nat
  minute : Nat
  second : Nat
  deriving DecidableEq

namespace DateTime

/-- Whether the fields name a day of the calendar and a second of it. -/
def isValid (t : DateTime) : Bool :=
  1 ≤ t.day && t.day ≤ daysInMonth t.year t.month && t.hour < 24 && t.minute < 60 && t.second < 60

/-- `n` with zeroes in front, at least `width` digits long. -/
def padded (width n : Nat) : String :=
  let digits := Nat.toDigits 10 n
  String.ofList (List.replicate (width - digits.length) '0' ++ digits)

/-- The moment in the form of RFC 3339; a year of five digits has a sign in front. -/
def toText (t : DateTime) : String :=
  let sign := if t.year > 9999 then "+" else ""
  sign ++ padded 4 t.year ++ "-" ++ padded 2 t.month ++ "-" ++ padded 2 t.day ++ "T" ++
    padded 2 t.hour ++ ":" ++ padded 2 t.minute ++ ":" ++ padded 2 t.second ++ "+00:00"

end DateTime

end Png
