import ExportLint.Text.Lines

/-!
# Moments

A moment is a date and a time of day, with the distance of its zone from universal time if that is
known.
-/
namespace ExportLint

structure Moment where
  year : Nat
  month : Nat
  day : Nat
  hour : Nat
  minute : Nat
  second : Nat
  micro : Nat
  /-- Seconds east of universal time. -/
  offset : Option Int
  deriving DecidableEq, Repr

namespace Moment

open Text (padZero)

def isLeapYear (y : Nat) : Bool := y % 4 == 0 && (y % 100 != 0 || y % 400 == 0)

def daysInMonth (y m : Nat) : Nat :=
  if m = 2 then (if isLeapYear y then 29 else 28)
  else if m = 4 ∨ m = 6 ∨ m = 9 ∨ m = 11 then 30 else 31

def dateText (t : Moment) : String :=
  padZero 4 t.year ++ "-" ++ padZero 2 t.month ++ "-" ++ padZero 2 t.day

/-- The time of day with a mark between hours, minutes and seconds. -/
def timeText (t : Moment) (mark : String) : String :=
  padZero 2 t.hour ++ mark ++ padZero 2 t.minute ++ mark ++ padZero 2 t.second

def fractionText (t : Moment) : String :=
  if t.micro = 0 then "" else "." ++ padZero 6 t.micro

/-- A distance in hours and minutes, and in seconds if it has them. -/
def offsetText (seconds : Int) : String :=
  let n := seconds.natAbs
  let tail := if n % 60 = 0 then "" else ":" ++ padZero 2 (n % 60)
  (if seconds < 0 then "-" else "+") ++ padZero 2 (n / 3600) ++ ":" ++
    padZero 2 (n / 60 % 60) ++ tail

/-- The standard form, with a fraction only if there is one. -/
def isoText (t : Moment) : String :=
  t.dateText ++ "T" ++ t.timeText ":" ++ t.fractionText ++ (t.offset.map offsetText).getD ""

/-- The form in records, where universal time is a `Z`. -/
def recordText (t : Moment) : String :=
  t.dateText ++ "T" ++ t.timeText ":" ++ t.fractionText ++
    match t.offset with
    | none => ""
    | some 0 => "Z"
    | some n => offsetText n

/-- A form for file names, to the second. -/
def fileStamp (t : Moment) : String := t.dateText ++ "T" ++ t.timeText "-"

/-- A form for names of directories, to the microsecond. -/
def directoryStamp (t : Moment) : String := t.fileStamp ++ "-" ++ padZero 6 t.micro ++ "Z"

/-- Year, month and day of a number of days since the first of March of the year 0, reckoned with
the leap days at the ends of the years. -/
def dateOfDays (days : Nat) : Nat × Nat × Nat :=
  let era := days / 146097
  let inEra := days % 146097
  let yearOfEra := (inEra - inEra / 1460 + inEra / 36524 - inEra / 146096) / 365
  let dayOfYear := inEra - (365 * yearOfEra + yearOfEra / 4 - yearOfEra / 100)
  let m := (5 * dayOfYear + 2) / 153
  let day := dayOfYear - (153 * m + 2) / 5 + 1
  let month := if m < 10 then m + 3 else m - 9
  (yearOfEra + era * 400 + (if month ≤ 2 then 1 else 0), month, day)

/-- The number of days from the first of March of the year 0 to the first of January 1970. -/
def epochDays : Nat := 719468

/-- The moment at a number of seconds from the start of 1970, in universal time. -/
def ofSeconds (seconds : Int) (micro : Nat) : Moment :=
  let total : Nat := (seconds + (epochDays : Int) * 86400).toNat
  let (year, month, day) := dateOfDays (total / 86400)
  let s := total % 86400
  ⟨year, month, day, s / 3600, s / 60 % 60, s % 60, micro, some 0⟩

end Moment

end ExportLint
