/-!
# Dates and times of day

Calendar values and their ISO text: a year outside four digits carries a sign, and a
fraction of a second is written with three, six or nine digits, the fewest that show it.

Main definitions:

- `Date`, `TimeOfDay`, `Timestamp` and their `text`.
-/

namespace SqlCompiler

/-- A day of the Gregorian calendar. -/
structure Date where
  year : Int
  month : Nat
  day : Nat
  deriving DecidableEq, Repr, Inhabited

/-- A time of day.  A second of a minute extended by a leap second is written with
`nanos` of at least `10^9`. -/
structure TimeOfDay where
  hour : Nat
  minute : Nat
  second : Nat
  nanos : Nat
  deriving DecidableEq, Repr, Inhabited

/-- A date with a time of day. -/
structure Timestamp where
  date : Date
  time : TimeOfDay
  deriving DecidableEq, Repr, Inhabited

/-- The digits of `n`, padded on the left with zeros to `width`. -/
def paddedDigits (width n : Nat) : String :=
  let digits := toString n
  String.ofList (List.replicate (width - digits.length) '0') ++ digits

/-- The year in four digits; with a sign when it has more or is negative. -/
def Date.yearText (d : Date) : String :=
  if 0 ≤ d.year ∧ d.year ≤ 9999 then paddedDigits 4 d.year.toNat
  else (if d.year < 0 then "-" else "+") ++ paddedDigits 4 d.year.natAbs

/-- The date as `year-month-day`. -/
def Date.text (d : Date) : String :=
  d.yearText ++ "-" ++ paddedDigits 2 d.month ++ "-" ++ paddedDigits 2 d.day

/-- A fraction of a second with its point, empty for none. -/
def fractionText (nanos : Nat) : String :=
  if nanos = 0 then ""
  else if nanos % 1000000 = 0 then "." ++ paddedDigits 3 (nanos / 1000000)
  else if nanos % 1000 = 0 then "." ++ paddedDigits 6 (nanos / 1000)
  else "." ++ paddedDigits 9 nanos

/-- The time as `hour:minute:second` with its fraction. -/
def TimeOfDay.text (t : TimeOfDay) : String :=
  let leap := t.nanos ≥ 1000000000
  paddedDigits 2 t.hour ++ ":" ++ paddedDigits 2 t.minute ++ ":" ++
    paddedDigits 2 (if leap then t.second + 1 else t.second) ++
    fractionText (if leap then t.nanos - 1000000000 else t.nanos)

/-- Date and time, separated by a blank. -/
def Timestamp.text (t : Timestamp) : String :=
  t.date.text ++ " " ++ t.time.text

end SqlCompiler
