/-
# Dates and times of day

Dates, and points in time with an optional distance from universal time, as documents hold them.
Two points in time that both state their distance are the same when they fall on the same instant.
-/
import SchemaCodecs.Text.Segment

namespace SchemaCodecs

/-! ## The types -/

/-- A day of the calendar. -/
structure Date where
  /-- The year, from 1 to 9999. -/
  year : Nat
  /-- The month, from 1 to 12. -/
  month : Nat
  /-- The day of the month, from 1. -/
  day : Nat
  deriving DecidableEq, Inhabited

/-- A point in time: a day, a time of day and, if stated, the distance of its clock from universal
time. -/
structure DateTime where
  /-- The day. -/
  date : Date
  /-- The hour, from 0 to 23. -/
  hour : Nat
  /-- The minute, from 0 to 59. -/
  minute : Nat
  /-- The second, from 0 to 59. -/
  second : Nat
  /-- The fraction of the second in millionths. -/
  micro : Nat
  /-- The minutes by which the clock is ahead of universal time. -/
  offset : Option Int
  deriving DecidableEq, Inhabited

/-! ## The calendar -/

/-- Whether a year has a twenty-ninth of February. -/
def isLeapYear (year : Nat) : Bool :=
  year % 4 == 0 && (year % 100 != 0 || year % 400 == 0)

/-- The number of days of a month. -/
def daysInMonth (year month : Nat) : Nat :=
  if month == 2 then (if isLeapYear year then 29 else 28)
  else if month == 4 || month == 6 || month == 9 || month == 11 then 30
  else 31

/-- The number of days before a day, counted from the first of January of the year 1. -/
def Date.dayNumber (d : Date) : Nat :=
  let y := d.year - 1
  let months := (List.range (d.month - 1)).map fun m => daysInMonth d.year (m + 1)
  365 * y + y / 4 - y / 100 + y / 400 + months.foldr (· + ·) 0 + (d.day - 1)

/-- The minute of universal time of a point in time that states its distance. -/
def DateTime.universalMinute? (t : DateTime) : Option Int :=
  t.offset.map fun offset => (t.date.dayNumber * 1440 + t.hour * 60 + t.minute : Nat) - offset

/-- Whether two points in time are the same instant; one with a distance differs from one
without. -/
def DateTime.same (t u : DateTime) : Bool :=
  match t.universalMinute?, u.universalMinute? with
  | some a, some b => a == b && t.second == u.second && t.micro == u.micro
  | none, none => t == u
  | _, _ => false

/-! ## As text -/

/-- A number with leading zeros up to a width. -/
def zeroPadded (width n : Nat) : Text :=
  let digits := Point.digits 10 n
  Text.ofList (List.replicate (width - digits.length) (.char '0') ++ digits)

/-- A day as year, month and day of the month. -/
def Date.text (d : Date) : Text :=
  zeroPadded 4 d.year ++ "-" ++ zeroPadded 2 d.month ++ "-" ++ zeroPadded 2 d.day

/-- A distance from universal time as signed hours and minutes. -/
def offsetText (offset : Int) : Text :=
  (if offset < 0 then "-" else "+") ++ zeroPadded 2 (offset.natAbs / 60) ++ ":" ++
    zeroPadded 2 (offset.natAbs % 60)

/-- A point in time as day, time of day and distance; a whole second has no fraction. -/
def DateTime.text (t : DateTime) : Text :=
  t.date.text ++ " " ++ zeroPadded 2 t.hour ++ ":" ++ zeroPadded 2 t.minute ++ ":" ++
    zeroPadded 2 t.second ++ (if t.micro = 0 then Text.ofString "" else "." ++ zeroPadded 6 t.micro) ++
    (t.offset.map offsetText).getD ""

/-! ## As an expression -/

/-- A day as a message shows it inside other values. -/
def Date.expression (d : Date) : Text :=
  "datetime.date(" ++ Text.joinWith ", " ([d.year, d.month, d.day].map Text.numeral) ++ ")"

/-- A distance of some minutes as days and seconds, the seconds counting forward. -/
def durationExpression (minutes : Int) : Text :=
  let days := minutes / 1440
  let seconds := minutes % 1440 * 60
  let parts := (if days = 0 then [] else ["days=" ++ Text.signedNumeral days]) ++
    (if seconds = 0 then [] else ["seconds=" ++ Text.signedNumeral seconds])
  "datetime.timedelta(" ++ Text.joinWith ", " parts ++ ")"

/-- A clock's distance from universal time as a message shows it. -/
def offsetExpression (offset : Int) : Text :=
  if offset = 0 then "datetime.timezone.utc"
  else "datetime.timezone(" ++ durationExpression offset ++ ")"

/-- A point in time as a message shows it inside other values: zero seconds and fractions at the
end are left out. -/
def DateTime.expression (t : DateTime) : Text :=
  let leading := [t.date.year, t.date.month, t.date.day, t.hour, t.minute]
  let trailing :=
    if t.micro ≠ 0 then [t.second, t.micro] else if t.second ≠ 0 then [t.second] else []
  let zone := t.offset.map fun offset => "tzinfo=" ++ offsetExpression offset
  "datetime.datetime(" ++
    Text.joinWith ", " ((leading ++ trailing).map Text.numeral ++ zone.toList) ++ ")"

end SchemaCodecs
