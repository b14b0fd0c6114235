import PageTemplate.Calendar
import PageTemplate.Json
import PageTemplate.Number.Format
import PageTemplate.Number.Read
import PageTemplate.Text.Search
import PageTemplate.Fault

/-!
# PageTemplate.Builtin.DateText

Dates and times that are written in the ISO form, shown in another way.
-/

namespace PageTemplate

namespace DateText

/-- `2024-03-09...` as `03/09/2024`. A text too short for a date is kept. -/
def showDate (t : Text) : Text :=
  if t.length < 10 then t
  else Text.slice t 5 7 ++ unit '/' :: Text.slice t 8 10 ++ unit '/' :: Text.slice t 0 4

/-- The year, month and day that a text of ten units writes. -/
def date? (t : Text) : Option (Nat × Nat × Nat) :=
  match t with
  | [y, y1, y2, y3, h, m, m1, k, d, d1] =>
    let year := [y, y1, y2, y3]
    let month := [m, m1]
    let day := [d, d1]
    if h == unit '-' && k == unit '-' && (year ++ month ++ day).all CodeUnit.isDigit then
      some (Text.readNat 10 year, Text.readNat 10 month, Text.readNat 10 day)
    else none
  | _ => none

/-- The name of the weekday of a date that a text starts with. Months and days outside their range
roll over, and the years up to 99 count from 1900. -/
def weekdayName (t : Text) : Except Fault Text :=
  let start := t.take 10
  match date? start with
  | some (year, month, day) =>
    let n := Calendar.rolledDayNumber (Calendar.expandYear year) month day
    .ok (Text.ofString (Calendar.weekdayNames.getD (Calendar.weekday n) ""))
  | none =>
    .error (.evaluation ("dayOfWeek(" ++ Json.quote start ++ ")")
      "expected an ISO date (YYYY-MM-DD)")

/-- `2024-03-09T14:05:00Z` as `2:05 PM`. A text too short for a date with a time is kept. -/
def showTime (t : Text) : Text :=
  if t.length < 20 then t
  else
    let hour := Number.leadingNumber 10 (Text.slice t 11 13)
    let minutes := Number.leadingNumber 10 (Text.slice t 14 16)
    Number.format (if hour > 12.0 then hour - 12.0 else hour) ++
      (if minutes < 10.0 then ":0" else ":") ++ Number.format minutes ++
      (if hour >= 12.0 then " PM" else " AM")

end DateText

end PageTemplate
