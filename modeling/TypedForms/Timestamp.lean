/-! Times as the result log writes them: the UTC date and time of a count of seconds since the
start of 1970, in the proleptic Gregorian calendar. The calendar is a circle of 2^64 seconds. -/
namespace TypedForms

/-- Seconds since the start of 1970. -/
structure Timestamp where
  seconds : Int

namespace Timestamp

/-- Digits with zeros in front up to a width. -/
def padded (width : Nat) (n : Nat) : String :=
  let digits := Nat.toDigits 10 n
  String.ofList (List.replicate (width - digits.length) '0' ++ digits)

/-- Year, month and day of a day counted from the start of 1970. The year is taken to begin in
March, so that a leap day is the last of its year; an era is a cycle of 400 such years. -/
def civil (day : Int) : Int × Nat × Nat :=
  let shifted := day + 719468
  let era := Int.fdiv shifted 146097
  let dayOfEra := (Int.fmod shifted 146097).toNat
  let yearOfEra :=
    (dayOfEra - dayOfEra / 1460 + dayOfEra / 36524 - dayOfEra / 146096) / 365
  let dayOfYear := dayOfEra - (365 * yearOfEra + yearOfEra / 4 - yearOfEra / 100)
  let month := (5 * dayOfYear + 2) / 153
  let year := era * 400 + (yearOfEra : Int)
  (if month < 10 then year else year + 1,
   if month < 10 then month + 3 else month - 9,
   dayOfYear - (153 * month + 2) / 5 + 1)

/-- The first second of the calendar: the start of March of the year -292277022400. -/
def calendarStart : Int := -9223372028741760000

/-- The second of the calendar that a time falls on. -/
def onCalendar (seconds : Int) : Int :=
  calendarStart + Int.fmod (seconds - calendarStart) 18446744073709551616

def render (t : Timestamp) : String :=
  let seconds := onCalendar t.seconds
  let (year, month, day) := civil (Int.fdiv seconds 86400)
  let second := (Int.fmod seconds 86400).toNat
  (if year < 0 then "-" else "") ++ padded 4 year.natAbs ++ "-" ++ padded 2 month ++ "-" ++
    padded 2 day ++ "T" ++ padded 2 (second / 3600) ++ ":" ++ padded 2 (second / 60 % 60) ++
    ":" ++ padded 2 (second % 60) ++ "Z"

end Timestamp

end TypedForms
