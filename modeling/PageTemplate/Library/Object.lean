import PageTemplate.Library.Text
import PageTemplate.Value.Sequence
import PageTemplate.Value.Stringify

/-!
# PageTemplate.Library.Object

The methods of all objects, the functions of `Object`, and the small methods of functions, symbols,
truth values and big integers.
-/

namespace PageTemplate

namespace Library

/-- What a value is called that is, or inherits from, something with a name of its own. -/
def namedWithin? : Nat → Value → M (Option Text)
  | n + 1, .object id => do
    match ← Store.cell id with
    | .map _ => return some "Map"
    | .set .. => return some "Set"
    | .math _ => return some "Math"
    | .json _ => return some "JSON"
    | .record (.value v) _ => namedWithin? n v
    | _ => return none
  | _, _ => return none

/-- What a value is called when nothing better is known. -/
def objectTag (v : Value) : M Text := do
  match v with
  | .undefined => return "Undefined"
  | .null => return "Null"
  | .bool _ => return "Boolean"
  | .number _ => return "Number"
  | .bigint _ => return "BigInt"
  | .text _ => return "String"
  | .symbol .. => return "Symbol"
  | .function _ => return "Function"
  | .object id =>
    match ← Store.cell id with
    | .array .. | .sparseArray .. => return "Array"
    | .date .. => return "Date"
    | _ => return (← namedWithin? (← Store.depth) v).getD "Object"

/-- Whether a value has an own property of a name. -/
def hasOwn (v key : Value) : M Value := do
  match key with
  | .symbol .. => return .bool false
  | key => return .bool (← Property.own? v (← Convert.toText key)).isSome

/-- Whether a value has an own property that is listed. -/
def hasListed (v key : Value) : M Value := do
  match key with
  | .symbol .. => return .bool false
  | key =>
    let name ← Convert.toText key
    return .bool (Assoc.has name (← Property.ownEntries v))

/-- Calls a method that all objects have. -/
def callObject (m : ObjectMethod) (this : Value) (arguments : List Value) : M Value := do
  match m with
  | .toText => return .text ("[object " ++ (← objectTag this) ++ "]")
  | .valueOf => if this.isNullish then M.typeError else return this
  | .hasOwnProperty =>
    let key ← Convert.toPlain .text (argument arguments 0)
    if this.isNullish then M.typeError else hasOwn this key
  | .propertyIsEnumerable =>
    let key ← Convert.toPlain .text (argument arguments 0)
    if this.isNullish then M.typeError else hasListed this key

/-- The key and value of an entry, which must be an object. -/
def entryOf (v : Value) : M (Value × Value) := do
  if !v.isObjectLike then M.typeError
  return (← Property.get v "0", ← Property.get v "1")

/-- The properties that entries describe; what is under a symbol is not seen. -/
def propertiesOf (entries : List Value) : M Properties := do
  let pairs ← entries.mapM fun entry => do
    let (key, value) ← entryOf entry
    match ← Convert.toPlain .text key with
    | .symbol .. => return none
    | key => return some (← Convert.toText key, value)
  return Assoc.ofList (pairs.filterMap fun pair => pair)

/-- Calls a function of `Object`. -/
def callObjects (f : ObjectFunction) (arguments : List Value) : M Value := do
  let v := argument arguments 0
  match f with
  | .keys => Store.newArray ((← Property.ownEntries v).map fun (name, _) => .text name)
  | .values =>
    Store.newArray (← (← Property.ownEntries v).mapM fun (name, _) => Property.get v name)
  | .entries =>
    let pairs ← (← Property.ownEntries v).mapM fun (name, _) => do
      Store.newArray [.text name, ← Property.get v name]
    Store.newArray pairs
  | .fromEntries => Store.newRecord (← propertiesOf (← Sequence.iterate v))
  | .hasOwn =>
    if v.isNullish then M.typeError
    hasOwn v (← Convert.toPlain .text (argument arguments 1))
  | .same => return .bool (v.identical (argument arguments 1))

/-- The text of a big integer in a base. -/
def bigintText (n : Int) (base : Nat) : Text :=
  let digits := Number.natInBase base n.natAbs
  if n < 0 then unit '-' :: digits else digits

/-- The base that an argument gives. -/
def baseOf (v : Value) : M Nat := do
  match v with
  | .undefined => return 10
  | v =>
    let x ← Convert.toWhole v
    if x < 2.0 || 36.0 < x then M.failLibrary .rangeError
    return Convert.clampNat 2 36 x

/-- Calls a method of functions, symbols, truth values and big integers. -/
def callSimple (m : SimpleMethod) (this : Value) (arguments : List Value) : M Value := do
  match m, this with
  | .functionToText, .function _ => return .text Convert.functionText
  | .symbolDescription, .symbol _ description => return .text description
  | .symbolToText, .symbol _ description => return .text (Convert.symbolText description)
  | .symbolValueOf, .symbol .. => return this
  | .boolToText, .bool b => return .text (if b then "true" else "false")
  | .boolValueOf, .bool _ => return this
  | .bigintToText, .bigint n => return .text (bigintText n (← baseOf (argument arguments 0)))
  | .bigintValueOf, .bigint _ => return this
  | _, _ => M.typeError

end Library

end PageTemplate
