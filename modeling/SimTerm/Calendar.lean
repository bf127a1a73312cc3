/-!
# Calendar

Moments in milliseconds since the first of January 1970 in universal time, written as date and time
of the proleptic Gregorian calendar in the time of a zone. The calendar repeats every 400 years of
146097 days; counting years from the first of March puts the leap day at the end of a year.
-/

namespace SimTerm.Calendar

/-- A day of the calendar. -/
structure Date where
  year : Int
  month : Nat
  day : Nat
deriving DecidableEq, Repr

/-- The day that lies `days` days after the first of January 1970. -/
def Date.ofDays (days : Int) : Date :=
  -- 719468 days lie between the first of March of the year 0 and the first of January 1970
  let z := days + 719468
  let era := Int.fdiv z 146097
  let dayOfEra := (Int.fmod z 146097).toNat
  let yearOfEra :=
    (dayOfEra - dayOfEra / 1460 + dayOfEra / 36524 - dayOfEra / 146096) / 365
  let dayOfYear := dayOfEra - (365 * yearOfEra + yearOfEra / 4 - yearOfEra / 100)
  -- from March on, five months in a row have 153 days
  let shifted := (5 * dayOfYear + 2) / 153
  let month := if shifted < 10 then shifted + 3 else shifted - 9
  { year := yearOfEra + era * 400 + (if month ≤ 2 then 1 else 0)
    month
    day := dayOfYear - (153 * shifted + 2) / 5 + 1 }

/-- A number with zeros in front of it, up to a width. -/
def padded (width n : Nat) : String :=
  let digits := Nat.toDigits 10 n
  String.ofList (List.replicate (width - digits.length) '0' ++ digits)

/-- A year: four digits, or a sign and five digits or more from the year 10000 on. -/
def yearText (year : Int) : String :=
  let digits := padded 4 year.natAbs
  if year < 0 then "-" ++ digits else if year > 9999 then "+" ++ digits else digits

/-- A time of day, given in milliseconds since midnight. -/
def timeText (millis : Nat) : String :=
  let seconds := millis / 1000
  padded 2 (seconds / 3600) ++ ":" ++ padded 2 (seconds / 60 % 60) ++ ":" ++ padded 2 (seconds % 60)

/-- A time zone: how many seconds its time is ahead of universal time, at each moment. -/
structure Zone where
  offset : Int → Int

/-- The zone of universal time. -/
def Zone.utc : Zone :=
  ⟨fun _ => 0⟩

/-- The milliseconds that the clocks of a zone show at a moment, counted like those of universal
time. -/
def Zone.shown (zone : Zone) (millis : Int) : Int :=
  millis + 1000 * zone.offset millis

/-- The milliseconds of a day. -/
def dayMillis : Nat := 86400000

/-- The first millisecond that has a date, in the year -262143. -/
def firstMoment : Int := -8334601228800000

/-- The last millisecond that has a date, in the year 262142. -/
def lastMoment : Nat := 8210266876799999

/-- The time of day of a moment in a zone; a moment without a date has dashes for digits. -/
def clockText (zone : Zone) (millis : Int) : String :=
  if millis < firstMoment || (lastMoment : Int) < millis then "--:--:--"
  else timeText (Int.fmod (zone.shown millis) dayMillis).toNat

/-- Date and time of a moment in a zone; a moment after the last one is written as its number of
milliseconds. -/
def momentText (zone : Zone) (millis : Nat) : String :=
  if lastMoment < millis then toString millis
  else
    let shown := zone.shown millis
    let date := Date.ofDays (Int.fdiv shown dayMillis)
    yearText date.year ++ "-" ++ padded 2 date.month ++ "-" ++ padded 2 date.day ++ " " ++
      timeText (Int.fmod shown dayMillis).toNat

end SimTerm.Calendar
