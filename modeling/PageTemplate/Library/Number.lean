import PageTemplate.Library.Text
import PageTemplate.Number.Power

/-!
# PageTemplate.Library.Number

The methods of numbers and the functions of `Math`, and the functions that read and test numbers.
-/

namespace PageTemplate

namespace Library

/-- A receiver that is a number. -/
def receiverNumber (this : Value) : M Float :=
  match this with
  | .number x => return x
  | _ => M.typeError

/-- A whole number that has to lie between bounds. -/
def wholeBetween (low high : Nat) (x : Float) : M Nat :=
  if x < Number.ofNat low || Number.ofNat high < x then M.failLibrary .rangeError
  else return Convert.clampNat low high x

/-- Calls a method of numbers. -/
def callNumber (m : NumberMethod) (this : Value) (arguments : List Value) : M Value := do
  let x ← receiverNumber this
  match m with
  | .valueOf => return .number x
  | .toFixed =>
    let places ← wholeBetween 0 100 (← Convert.toWhole (argument arguments 0))
    return .text (Number.formatFixed places x)
  | .toText =>
    let base ← match argument arguments 0 with
      | .undefined => pure 10
      | v => do wholeBetween 2 36 (← Convert.toWhole v)
    return .text (Number.formatInBase base x)

/-- The greatest or least of numbers, given which of two is to be kept; NaN wins over all. -/
def extreme (start : Float) (keeps : Float → Float → Bool) (xs : List Float) : Float :=
  xs.foldl (fun best x =>
    if best.isNaN || x.isNaN then Number.nan else if keeps best x then best else x) start

/-- Whether one number comes before another; minus zero comes before zero. -/
def isBelow (x y : Float) : Bool :=
  x < y || (x == y && Number.isNegative x && !Number.isNegative y)

def sign (x : Float) : Float := if x > 0.0 then 1.0 else if x < 0.0 then -1.0 else x

/-- Calls a function of `Math`. -/
def callMath (f : MathFunction) (arguments : List Value) : M Value := do
  match f with
  | .max =>
    let xs ← arguments.mapM Convert.toNumber
    return .number (extreme (-Number.infinity) (fun best x => !isBelow best x) xs)
  | .min =>
    let xs ← arguments.mapM Convert.toNumber
    return .number (extreme Number.infinity (fun best x => !isBelow x best) xs)
  | .pow =>
    let x ← Convert.toNumber (argument arguments 0)
    let y ← Convert.toNumber (argument arguments 1)
    return .number (Number.power x y)
  | f =>
    let x ← Convert.toNumber (argument arguments 0)
    match f with
    | .abs => return .number x.abs
    | .ceil => return .number x.ceil
    | .floor => return .number x.floor
    | .round => return .number (Number.round x)
    | .sign => return .number (sign x)
    | .sqrt => return .number x.sqrt
    | .trunc => return .number (if x.isNaN then x else Number.truncate x)
    | .max | .min | .pow => return .number x

/-- The base that `parseInt` reads in; `none` for a base that there is not, 0 for the usual one. -/
def readingBase (v : Value) : M (Option Nat) := do
  let n ← Convert.toUnsigned 32 v
  return if n == 0 then some 0 else if 2 ≤ n && n ≤ 36 then some n else none

/-- Reads a whole number at the start of a text. -/
def parseInt (arguments : List Value) : M Value := do
  let t ← Convert.toText (argument arguments 0)
  match ← readingBase (argument arguments 1) with
  | some base => return .number (Number.leadingNumber base t)
  | none => return .number Number.nan

/-- Whether a value is a number that passes a test. -/
def isNumberThat (test : Float → Bool) (v : Value) : Value :=
  match v with
  | .number x => .bool (test x)
  | _ => .bool false

end Library

end PageTemplate
