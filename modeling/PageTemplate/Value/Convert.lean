import PageTemplate.Number.Format
import PageTemplate.Number.Read
import PageTemplate.Value.Property

/-!
# PageTemplate.Value.Convert

Conversions between values: to a value that is no object, to a number, to text, and the equality
that converts its sides.
-/

namespace PageTemplate

namespace Convert

/-- What an object is preferably turned into. -/
inductive Preference where
  | none | number | text
  deriving Repr, DecidableEq

/-- Calls a method of a value; a value without such a method fails. -/
def invoke (v : Value) (name : Text) (arguments : List Value) : M Value := do
  match ← Property.get v name with
  | .function f => M.call f v arguments
  | _ => M.typeError

/-- The text of a function. Its source is not shown. -/
def functionText : Text := "function () \x7b [native code] \x7d"

/-- The first of the named methods that yields no object. -/
def firstPlain (v : Value) : List Text → M Value
  | [] => M.typeError
  | name :: names => do
    match ← Property.get v name with
    | .function f =>
      let r ← M.call f v []
      if r.isObjectLike then firstPlain v names else return r
    | _ => firstPlain v names

/-- A value that is no object: an object is asked for its value and for its text, the text first
when text is preferred. Dates prefer text. -/
def toPlain (preference : Preference) (v : Value) : M Value := do
  match v with
  | .function _ => return .text functionText
  | .object _ =>
    let prefersText ← match preference with
      | .text => pure true
      | .number => pure false
      | .none => pure ((← Property.family? v) == some .date)
    let methods : List Text := ["toString", "valueOf"].map Text.ofString
    firstPlain v (if prefersText then methods else methods.reverse)
  | v => return v

/-- The text of a symbol. -/
def symbolText (description : Text) : Text := "Symbol(" ++ description ++ ")"

/-- The text of a value that is no object. A symbol has none. -/
def plainText? : Value → Option Text
  | .undefined => some "undefined"
  | .null => some "null"
  | .bool b => some (if b then "true" else "false")
  | .number x => some (Number.format x)
  | .bigint n => some (Text.ofInt n)
  | .text t => some t
  | .symbol .. | .object _ | .function _ => none

/-- The text of a value. -/
def toText (v : Value) : M Text := do
  match plainText? (← toPlain .text v) with
  | some t => return t
  | none => M.typeError

/-- The text of a value as it is joined to a text before it: an object is asked for its value first,
as in a sum. -/
def toSuffix (v : Value) : M Text := do toText (← toPlain .none v)

/-- The text of a value among joined ones; absent values have none. -/
def toJoined (v : Value) : M Text :=
  if v.isNullish then return [] else toText v

/-- The text of a value, symbols included. -/
def display (v : Value) : M Text := do
  match v with
  | .symbol _ description => return symbolText description
  | v => toText v

/-- The number of a value that is neither an object nor a big integer. A symbol has none. -/
def plainNumber? : Value → Option Float
  | .undefined => some Number.nan
  | .null => some 0.0
  | .bool b => some (if b then 1.0 else 0.0)
  | .number x => some x
  | .text t => some (Number.ofText t)
  | .bigint _ | .symbol .. | .object _ | .function _ => none

/-- The number of a value. Big integers are not taken for numbers. -/
def toNumber (v : Value) : M Float := do
  match plainNumber? (← toPlain .number v) with
  | some x => return x
  | none => M.typeError

/-- The number of a value, big integers included. -/
def numberOf (v : Value) : M Float := do
  match ← toPlain .number v with
  | .bigint n => return Number.ofInt n
  | v =>
    match plainNumber? v with
    | some x => return x
    | none => M.typeError

/-- Whether a value has a length above zero. -/
def isFilled (v : Value) : M Bool := do
  return (← numberOf (← Property.get v "length")) > 0.0

/-- The whole number of a value: its number rounded toward zero, or an infinity; zero for NaN. -/
def toWhole (v : Value) : M Float := do
  let x ← toNumber v
  return if x.isNaN then 0.0 else Number.truncate x

/-- A whole number as a natural number between bounds. -/
def clampNat (low high : Nat) (x : Float) : Nat :=
  if x.isNaN then low
  else
    match Number.toInt? x with
    | some n => max low (min high n.toNat)
    | none => if x < 0.0 then low else high

/-- A position in a sequence: from the start, or from the end when it is negative. -/
def position (length : Nat) (x : Float) : Nat :=
  if x < 0.0 then clampNat 0 length (Number.ofNat length + x) else clampNat 0 length x

/-- The position that an optional argument gives. -/
def positionOr (length default : Nat) (v : Value) : M Nat := do
  match v with
  | .undefined => return default
  | v => return position length (← toWhole v)

/-- The residue of a number modulo a power of two. -/
def toUnsigned (bits : Nat) (v : Value) : M Nat := do
  match Number.toInt? (← toNumber v) with
  | some n => return (n.emod (Nat.pow 2 bits)).toNat
  | none => return 0

/-- Equality of plain values, with conversion: truth values count as numbers, and text compares as
a number with numbers. -/
def plainEqual (v w : Value) : Bool :=
  match asNumber v, asNumber w with
  | .number x, .text t => x == Number.ofText t
  | .text t, .number x => Number.ofText t == x
  | .bigint n, .text t | .text t, .bigint n => Number.integerOfText? t == some n
  | .bigint n, .number x | .number x, .bigint n =>
    Number.isWhole x && Number.toInt? x == some n
  | v, w => Value.strictlyEqual v w
where
  asNumber : Value → Value
    | .bool b => .number (if b then 1.0 else 0.0)
    | v => v

/-- Equality with conversion. The absent values equal each other and nothing else. -/
def looselyEqual (v w : Value) : M Bool := do
  if v.isNullish || w.isNullish then return v.isNullish && w.isNullish
  else if v.isObjectLike && w.isObjectLike then return Value.strictlyEqual v w
  else return plainEqual (← toPlain .none v) (← toPlain .none w)

/-- The sum of two values: texts are joined when either side is text, numbers are added. -/
def add (v w : Value) : M Value := do
  let v ← toPlain .none v
  let w ← toPlain .none w
  match v, w with
  | .text _, _ | _, .text _ => return .text ((← toText v) ++ (← toText w))
  | .bigint m, .bigint n => return .bigint (m + n)
  | v, w => return .number ((← toNumber v) + (← toNumber w))

end Convert

end PageTemplate
