/-!
# Dates and times

Days of the calendar, and moments of a day with their distance from universal time. Two
moments are the same if they are equal, or if both distances are known and the moments are
equal in universal time.
-/

namespace NestLayers

/-- A day of the calendar. -/
structure Date where
  year : Nat
  month : Nat
  day : Nat
  deriving DecidableEq, Repr

/-- A moment of a day. -/
structure Moment where
  date : Date
  hour : Nat
  minute : Nat
  second : Nat
  /-- Millionths of a second. -/
  micro : Nat
  /-- The distance from universal time in minutes, if it is known. -/
  offset : Option Int
  deriving DecidableEq, Repr

/-- What no calendar and no clock shows. -/
inductive DateFault
  | year (number : Nat)
  | month
  | day
  | hour
  | minute
  | second
  /-- A distance of a day or more from universal time, in minutes. -/
  | offset (minutes : Int)
  deriving DecidableEq, Repr

/-- A span of minutes as messages name it. -/
def spanText (minutes : Int) : String :=
  let days := Int.fdiv minutes 1440
  let seconds := 60 * Int.fmod minutes 1440
  let parts := (if days = 0 then [] else ["days=" ++ toString days]) ++
    (if seconds = 0 then [] else ["seconds=" ++ toString seconds])
  "datetime.timedelta(" ++ (if parts.isEmpty then "0" else String.intercalate ", " parts) ++ ")"

/-- The message for an impossible date or time. -/
def DateFault.message : DateFault → String
  | .year number => "year " ++ toString number ++ " is out of range"
  | .month => "month must be in 1..12"
  | .day => "day is out of range for month"
  | .hour => "hour must be in 0..23"
  | .minute => "minute must be in 0..59"
  | .second => "second must be in 0..59"
  | .offset minutes =>
    "offset must be a timedelta strictly between -timedelta(hours=24) and " ++
      "timedelta(hours=24), not " ++ spanText minutes ++ "."

/-- Whether a year has a leap day. -/
def isLeapYear (year : Nat) : Bool :=
  year % 4 = 0 && (year % 100 != 0 || year % 400 = 0)

/-- The number of days of a month. -/
def daysInMonth (year month : Nat) : Nat :=
  if month = 2 then (if isLeapYear year then 29 else 28)
  else if [4, 6, 9, 11].contains month then 30
  else 31

namespace Date

/-- What is impossible about a date. -/
def fault? (d : Date) : Option DateFault :=
  if d.year = 0 then some (.year d.year)
  else if d.month = 0 || 12 < d.month then some .month
  else if d.day = 0 || daysInMonth d.year d.month < d.day then some .day
  else none

/-- The number of days from the start of the first year. -/
def ordinal (d : Date) : Nat :=
  let years := d.year - 1
  let months := (List.range (d.month - 1)).foldr (fun m n => daysInMonth d.year (m + 1) + n) 0
  365 * years + years / 4 - years / 100 + years / 400 + months + d.day

/-- A date as messages name it. -/
def shown (d : Date) : String :=
  "datetime.date(" ++ String.intercalate ", " ([d.year, d.month, d.day].map toString) ++ ")"

end Date

namespace Moment

/-- What is impossible about the date and the time of day of a moment. -/
def clockFault? (m : Moment) : Option DateFault :=
  m.date.fault?.or
    (if 23 < m.hour then some .hour
    else if 59 < m.minute then some .minute
    else if 59 < m.second then some .second
    else none)

/-- What is impossible about a moment. Its distance from universal time comes first. -/
def fault? (m : Moment) : Option DateFault :=
  match m.offset with
  | some minutes => if 1440 ≤ minutes.natAbs then some (.offset minutes) else m.clockFault?
  | none => m.clockFault?

/-- The number of minutes from the start of the first year in universal time. -/
def minutes (m : Moment) : Int :=
  (1440 * m.date.ordinal + 60 * m.hour + m.minute : Int) - m.offset.getD 0

/-- Whether two moments are the same. -/
def same (a b : Moment) : Bool :=
  a.offset.isSome == b.offset.isSome && a.minutes == b.minutes && a.second == b.second &&
    a.micro == b.micro

/-- A moment as messages name it. -/
def shown (m : Moment) : String :=
  let clock := [m.date.year, m.date.month, m.date.day, m.hour, m.minute] ++
    (if m.second = 0 && m.micro = 0 then [] else [m.second]) ++
    (if m.micro = 0 then [] else [m.micro])
  let zone := match m.offset with
    | none => ""
    | some 0 => ", tzinfo=datetime.timezone.utc"
    | some minutes => ", tzinfo=datetime.timezone(" ++ spanText minutes ++ ")"
  "datetime.datetime(" ++ String.intercalate ", " (clock.map toString) ++ zone ++ ")"

end Moment

end NestLayers
