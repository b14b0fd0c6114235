import PageTemplate.Calendar
import PageTemplate.Library.Text

/-!
# PageTemplate.Library.Date

The methods of dates, and the instant of a date in universal time.
-/

namespace PageTemplate

namespace Library

def receiverTime (this : Value) : M Float := do
  match this with
  | .object id =>
    match ← Store.cell id with
    | .date time _ => return time
    | _ => M.typeError
  | _ => M.typeError

/-- A field of an instant; NaN when there is no instant. -/
def field (time : Float) (f : Int → Int) : Value :=
  .number (((Number.toInt? time).map fun t => Number.ofInt (f t)).getD Number.nan)

/-- The JSON form of an object that has an ISO form; null for an instant that is none. -/
def dateJson (this : Value) : M Value := do
  if this.isNullish then M.typeError
  match ← Convert.toPlain .number this with
  | .number x =>
    if x.isNaN || x.isInf then return .null else Convert.invoke this "toISOString" []
  | _ => Convert.invoke this "toISOString" []

/-- Calls a method of dates. -/
def callDate (m : DateMethod) (this : Value) : M Value := do
  match m with
  | .toJSON => dateJson this
  | m =>
    let time ← receiverTime this
    let of (f : Calendar.Moment → Int) : Value := field time fun t => f (Calendar.momentOf t)
    match m with
    | .getTime | .valueOf | .toJSON => return .number time
    | .getFullYear => return of (·.year)
    | .getMonth => return of (·.month - 1)
    | .getDate => return of (·.day)
    | .getDay =>
      return field time fun t => Calendar.weekday (t.fdiv Calendar.millisecondsPerDay)
    | .getHours => return of (·.hour)
    | .getMinutes => return of (·.minute)
    | .getSeconds => return of (·.second)
    | .getMilliseconds => return of (·.millisecond)
    | .toISOText =>
      match Number.toInt? time with
      | some t => return .text (Calendar.isoText t)
      | none => M.failLibrary .rangeError
    | .toText =>
      return .text (((Number.toInt? time).map Calendar.longText).getD "Invalid Date")

/-- The instant of a date given as year, month from 0, day, hour, minute, second and millisecond;
what is not given is the first. Two-digit years count from 1900. NaN when something is no number. -/
def dateUTC (arguments : List Value) : M Value := do
  let given ← (arguments.take 7).mapM Convert.toNumber
  let part (i : Nat) (default : Float) : Float := given.getD i default
  let year := part 0 Number.nan
  let whole := Number.truncate year
  let year := if 0.0 <= whole && whole <= 99.0 then 1900.0 + whole else year
  let days := Calendar.daysUntil year (part 1 0.0) (part 2 1.0)
  let time := Calendar.timeOfDay (part 3 0.0) (part 4 0.0) (part 5 0.0) (part 6 0.0)
  return .number (Calendar.clip (Calendar.instant days time))

end Library

end PageTemplate
