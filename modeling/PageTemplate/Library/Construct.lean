import PageTemplate.Library.Date
import PageTemplate.Library.Number
import PageTemplate.Library.Object

/-!
# PageTemplate.Library.Construct

The constructors, called as functions, and the functions that stand alone or belong to a
constructor.
-/

namespace PageTemplate

namespace Library

/-- A new array of holes. -/
def newHoles (x : Float) : M Value := do
  match Number.toInt? x with
  | some n =>
    if Number.isWhole x && 0 ≤ n then Store.newPlaces n.toNat [] else M.failLibrary .rangeError
  | none => M.failLibrary .rangeError

/-- Calls a constructor as a function. The current date is not available. -/
def callConstructor (c : Constructor) (arguments : List Value) : M Value := do
  match c, arguments with
  | .array, [.number x] => newHoles x
  | .array, items => Store.newArray items
  | .bool, _ => return .bool (argument arguments 0).isTruthy
  | .number, [] => return .number 0.0
  | .number, v :: _ => return .number (← Convert.numberOf v)
  | .text, [] => return .text []
  | .text, v :: _ => return .text (← Convert.display v)
  | .date, _ => return .text "Invalid Date"

/-- Goes through a value that can be iterated over, or else through the items that its length
announces. -/
def visitItems (v : Value) (action : Value → Nat → M Value) : M (List Value) := do
  if v.isNullish then M.typeError
  if ← Sequence.isIterable v then Sequence.visit v action
  else
    let length ← Sequence.length v
    if Store.maxArrayLength < length then M.failLibrary .rangeError
    (← Store.positions 0 length).mapM fun i => do action (.ofOption (← Sequence.item? v i)) i

/-- A new array of the items of a value, each given to a function if there is one. -/
def arrayFrom (arguments : List Value) : M Value := do
  let source := argument arguments 0
  match argument arguments 1 with
  | .undefined =>
    if ← Sequence.isIterable source then Store.newArray (← Sequence.iterate source)
    else Store.newArray (← visitItems source fun item _ => return item)
  | .function f =>
    Store.newArray (← visitItems source fun item i =>
      M.call f (argument arguments 2) [item, .ofNat i])
  | _ => M.typeError

/-- The units of a code point that an argument gives. -/
def codePointOf (v : Value) : M Text := do
  let x ← Convert.toNumber v
  match Number.toInt? x with
  | some n =>
    if Number.isWhole x && 0 ≤ n && n ≤ 0x10FFFF then return Text.ofCodePoint n.toNat
    else M.failLibrary .rangeError
  | none => M.failLibrary .rangeError

def isSafe (x : Float) : Bool :=
  Number.isWhole x && x.abs <= Number.ofNat Number.maxSafeInteger

/-- Calls a function that stands alone or belongs to a constructor. -/
def callGlobal (f : GlobalFunction) (arguments : List Value) : M Value := do
  let v := argument arguments 0
  match f with
  | .isFinite =>
    let x ← Convert.toNumber v
    return .bool (!x.isNaN && !x.isInf)
  | .isNaN => return .bool (← Convert.toNumber v).isNaN
  | .parseFloat => return .number (Number.leadingFloat (← Convert.toText v))
  | .parseInt => parseInt arguments
  | .arrayFrom => arrayFrom arguments
  | .arrayIs => return .bool (← Store.isArray v)
  | .arrayOf => Store.newArray arguments
  | .dateUTC => dateUTC arguments
  | .numberIsFinite => return isNumberThat (fun x => !x.isNaN && !x.isInf) v
  | .numberIsInteger => return isNumberThat Number.isWhole v
  | .numberIsNaN => return isNumberThat Float.isNaN v
  | .numberIsSafeInteger => return isNumberThat isSafe v
  | .fromCharCode =>
    return .text (← arguments.mapM fun v => do return (← Convert.toUnsigned 16 v).toUInt16)
  | .fromCodePoint => return .text (← arguments.mapM codePointOf).flatten

end Library

end PageTemplate
