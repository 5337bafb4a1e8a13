/-!
Calendar dates and points in time, as documents write them. A date is one of the proleptic
Gregorian calendar, years 1 to 9999.
-/

namespace ApiContract

structure Date where
  year : Nat
  month : Nat
  day : Nat
deriving Repr, DecidableEq

/-- A date with a time of day, and its distance from universal time in minutes if it is known. -/
structure Moment where
  date : Date
  hour : Nat
  minute : Nat
  second : Nat
  microsecond : Nat
  offset : Option Int
deriving Repr, DecidableEq

/-- Decimal digits of `n`, with zeros before them up to `width`. -/
def padded (width n : Nat) : String :=
  let digits := Nat.toDigits 10 n
  String.ofList (List.replicate (width - digits.length) '0' ++ digits)

namespace Date

def isLeap (year : Nat) : Bool := year % 4 == 0 && (year % 100 != 0 || year % 400 == 0)

def monthLength (year month : Nat) : Nat :=
  if month == 2 then (if isLeap year then 29 else 28)
  else if month == 4 || month == 6 || month == 9 || month == 11 then 30
  else 31

def isValid (d : Date) : Bool :=
  1 ≤ d.year && d.year ≤ 9999 && 1 ≤ d.month && d.month ≤ 12 && 1 ≤ d.day &&
    d.day ≤ monthLength d.year d.month

/-- The number of a day, the first of January of year 1 being day 1. -/
def dayNumber (d : Date) : Nat :=
  let years := d.year - 1
  let months := (List.range (d.month - 1)).foldr (fun m n => monthLength d.year (m + 1) + n) 0
  365 * years + years / 4 - years / 100 + years / 400 + months + d.day

def text (d : Date) : String :=
  padded 4 d.year ++ "-" ++ padded 2 d.month ++ "-" ++ padded 2 d.day

end Date

namespace Moment

/-- A distance from universal time stays below a day. -/
def isValid (t : Moment) : Bool :=
  t.date.isValid && t.hour < 24 && t.minute < 60 && t.second < 60 && t.microsecond < 1000000 &&
    t.offset.all (fun o => o.natAbs < 1440)

def offsetText (minutes : Int) : String :=
  (if minutes < 0 then "-" else "+") ++ padded 2 (minutes.natAbs / 60) ++ ":" ++
    padded 2 (minutes.natAbs % 60)

/-- The text with `sep` between date and time. -/
def textWith (sep : String) (t : Moment) : String :=
  let fraction := if t.microsecond == 0 then "" else "." ++ padded 6 t.microsecond
  t.date.text ++ sep ++ padded 2 t.hour ++ ":" ++ padded 2 t.minute ++ ":" ++
    padded 2 t.second ++ fraction ++ (t.offset.map offsetText).getD ""

def text (t : Moment) : String := t.textWith " "

/-- Microseconds on the clock of universal time, or on the clock of the moment itself if its
distance from universal time is not known. -/
def microseconds (t : Moment) : Int :=
  let minutes : Int := ((t.date.dayNumber * 24 + t.hour) * 60 + t.minute : Nat)
  ((minutes - t.offset.getD 0) * 60 + t.second) * 1000000 + t.microsecond

/-- Whether two moments are the same one, however they are written. A moment of which the distance
from universal time is known is never the same as one of which it is not. -/
def same (s t : Moment) : Bool :=
  s.offset.isSome == t.offset.isSome && s.microseconds == t.microseconds

end Moment

end ApiContract
