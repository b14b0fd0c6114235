import PageTemplate.Text.Basic
import PageTemplate.Number.Binary

/-!
# PageTemplate.Calendar

Days, dates and times of the proleptic Gregorian calendar, counted from the first of January 1970.
-/

namespace PageTemplate

namespace Calendar

/-- The number of days from 1970-01-01 to a date. `month` counts from 1. -/
def dayNumber (year : Int) (month day : Int) : Int :=
  let y := if month ≤ 2 then year - 1 else year
  let era := y.fdiv 400
  let yearOfEra := y - era * 400
  let monthFromMarch := (month + 9).fmod 12
  let dayOfYear := (153 * monthFromMarch + 2) / 5 + day - 1
  let dayOfEra := yearOfEra * 365 + yearOfEra / 4 - yearOfEra / 100 + dayOfYear
  era * 146097 + dayOfEra - 719468

/-- The date of a day number: year, month from 1 and day. -/
def dateOf (n : Int) : Int × Int × Int :=
  let z := n + 719468
  let era := z.fdiv 146097
  let dayOfEra := z - era * 146097
  let yearOfEra :=
    (dayOfEra - dayOfEra / 1460 + dayOfEra / 36524 - dayOfEra / 146096) / 365
  let dayOfYear := dayOfEra - (365 * yearOfEra + yearOfEra / 4 - yearOfEra / 100)
  let monthFromMarch := (5 * dayOfYear + 2) / 153
  let day := dayOfYear - (153 * monthFromMarch + 2) / 5 + 1
  let month := if monthFromMarch < 10 then monthFromMarch + 3 else monthFromMarch - 9
  let year := yearOfEra + era * 400 + (if month ≤ 2 then 1 else 0)
  (year, month, day)

/-- A date whose month or day lies outside its range rolls over into the neighbouring ones. -/
def rolledDayNumber (year month day : Int) : Int :=
  dayNumber (year + (month - 1).fdiv 12) ((month - 1).fmod 12 + 1) 1 + (day - 1)

/-- Two-digit years count from 1900. -/
def expandYear (year : Int) : Int := if 0 ≤ year ∧ year ≤ 99 then 1900 + year else year

/-- The weekday of a day number; Sunday is 0. -/
def weekday (n : Int) : Nat := ((n + 4).fmod 7).toNat

def weekdayNames : List String :=
  ["Sunday", "Monday", "Tuesday", "Wednesday", "Thursday", "Friday", "Saturday"]

def monthNames : List String :=
  ["January", "February", "March", "April", "May", "June", "July", "August", "September",
    "October", "November", "December"]

def millisecondsPerDay : Int := 86400000

/-- The furthest instant from 1970-01-01 that has a date, in milliseconds. -/
def maxTime : Int := 8640000000000000

/-- A moment as the fields of its date and time of day. -/
structure Moment where
  year : Int
  month : Int
  day : Int
  hour : Int
  minute : Int
  second : Int
  millisecond : Int

/-- The fields of an instant given in milliseconds since 1970-01-01. -/
def momentOf (time : Int) : Moment :=
  let days := time.fdiv millisecondsPerDay
  let rest := time.fmod millisecondsPerDay
  let (year, month, day) := dateOf days
  ⟨year, month, day, rest / 3600000, rest / 60000 % 60, rest / 1000 % 60, rest % 1000⟩

def padded (width : Nat) (n : Nat) : Text :=
  let digits := Text.ofNat n
  List.replicate (width - digits.length) (unit '0') ++ digits

/-- The year with four digits, or with a sign and six digits when four do not suffice. -/
def writeYear (year : Int) : Text :=
  if 0 ≤ year ∧ year ≤ 9999 then padded 4 year.toNat
  else unit (if year < 0 then '-' else '+') :: padded 6 year.natAbs

/-- An instant as `2024-03-09T14:05:00.000Z`. -/
def isoText (time : Int) : Text :=
  let m := momentOf time
  let two (n : Int) : Text := padded 2 n.toNat
  writeYear m.year ++ unit '-' :: two m.month ++ unit '-' :: two m.day ++ unit 'T' ::
    two m.hour ++ unit ':' :: two m.minute ++ unit ':' :: two m.second ++ unit '.' ::
    padded 3 m.millisecond.toNat ++ [unit 'Z']

/-- An instant as `Sat Mar 09 2024 14:05:00 GMT+0000 (Coordinated Universal Time)`. -/
def longText (time : Int) : Text :=
  let m := momentOf time
  let two (n : Int) : Text := padded 2 n.toNat
  let short (names : List String) (i : Nat) : Text := (Text.ofString (names.getD i "")).take 3
  short weekdayNames (weekday (time.fdiv millisecondsPerDay)) ++ unit ' ' ::
    short monthNames (m.month - 1).toNat ++ unit ' ' :: two m.day ++ unit ' ' ::
    (if m.year < 0 then [unit '-'] else []) ++ padded 4 m.year.natAbs ++
    unit ' ' :: two m.hour ++ unit ':' :: two m.minute ++ unit ':' :: two m.second ++
    Text.ofString " GMT+0000 (Coordinated Universal Time)"

/-! Instants as numbers, which may be NaN. -/

/-- An instant in whole milliseconds; NaN when it is too far away. -/
def clip (time : Float) : Float :=
  if time.abs <= Number.ofInt maxTime then Number.truncate time + 0.0 else Number.nan

def isFinite (x : Float) : Bool := !x.isNaN && !x.isInf

/-- By how many days a year is moved because its leap years are counted, from the year -399999 on,
by quotients rounded toward zero. Only earlier years are moved. -/
def leapSlip (year : Int) : Int :=
  let y := year + 399999
  (y.tdiv 4 - y.fdiv 4) - (y.tdiv 100 - y.fdiv 100) + (y.tdiv 400 - y.fdiv 400)

/-- The number of days up to a date, with the month from 0. A month outside its range rolls over, a
year or month that is too far away has no days. -/
def daysUntil (year month date : Float) : Float :=
  if year.abs <= 1000000.0 && month.abs <= 10000000.0 && isFinite date then
    let month := (Number.toInt? month).getD 0
    let year := (Number.toInt? year).getD 0 + month.fdiv 12
    Number.ofInt (dayNumber year (month.fmod 12 + 1) 1 - 1 + leapSlip year) + Number.truncate date
  else Number.nan

/-- The milliseconds of a time of day; NaN when a part is no finite number. -/
def timeOfDay (hour minute second millisecond : Float) : Float :=
  if [hour, minute, second, millisecond].all isFinite then
    Number.truncate hour * 3600000.0 + Number.truncate minute * 60000.0 +
      Number.truncate second * 1000.0 + Number.truncate millisecond
  else Number.nan

/-- The instant of a time on a day. -/
def instant (days time : Float) : Float :=
  if isFinite days && isFinite time then time + days * Number.ofInt millisecondsPerDay
  else Number.nan

end Calendar

end PageTemplate
