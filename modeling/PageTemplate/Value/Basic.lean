import PageTemplate.Number.Binary
import PageTemplate.Text.Basic

/-!
# PageTemplate.Value.Basic

The values that expressions compute with. Objects are held in a store and known by their place in
it; functions are the members of the expression library, the helpers of templates, the methods of
node handles and the functions that a page brings along.
-/

namespace PageTemplate

/-- The place of an object in the store. -/
abbrev ObjectId := Nat

/-- The place of a scope in the store. -/
abbrev ScopeId := Nat

inductive TextMethod where
  | itemAt | charAt | charCodeAt | codePointAt | concat | endsWith | includes | indexOf
  | lastIndexOf | padEnd | padStart | replicate | replace | replaceAll | slice | split | startsWith
  | substring
  | toLowerCase | toText | toUpperCase | trim | trimEnd | trimStart | valueOf
  deriving Repr, DecidableEq

inductive ArrayMethod where
  | itemAt | concat | every | fill | filter | find | findIndex | findLast | findLastIndex | flat
  | flatMap | forEach | includes | indexOf | join | lastIndexOf | map | pop | push | reduce
  | reduceRight | reverse | shift | slice | some | sort | splice | toText | unshift
  deriving Repr, DecidableEq

inductive MapMethod where
  | clear | delete | forEach | get | has | set | size
  deriving Repr, DecidableEq

inductive SetMethod where
  | add | clear | delete | forEach | has | size
  deriving Repr, DecidableEq

inductive NumberMethod where
  | toFixed | toText | valueOf
  deriving Repr, DecidableEq

inductive DateMethod where
  | getTime | getFullYear | getMonth | getDate | getDay | getHours | getMinutes | getSeconds
  | getMilliseconds | toISOText | toJSON | toText | valueOf
  deriving Repr, DecidableEq

inductive ObjectMethod where
  | hasOwnProperty | propertyIsEnumerable | toText | valueOf
  deriving Repr, DecidableEq

/-- Methods of functions, symbols, booleans and big integers. -/
inductive SimpleMethod where
  | functionToText
  | symbolDescription | symbolToText | symbolValueOf
  | boolToText | boolValueOf
  | bigintToText | bigintValueOf
  deriving Repr, DecidableEq

inductive MathFunction where
  | abs | ceil | floor | max | min | pow | round | sign | sqrt | trunc
  deriving Repr, DecidableEq

inductive JsonFunction where
  | parse | stringify
  deriving Repr, DecidableEq

/-- The members of `Object`. -/
inductive ObjectFunction where
  | entries | fromEntries | hasOwn | same | keys | values
  deriving Repr, DecidableEq

inductive Constructor where
  | array | bool | date | number | text
  deriving Repr, DecidableEq

/-- Functions without a receiver, and those that belong to a constructor. -/
inductive GlobalFunction where
  | isFinite | isNaN | parseFloat | parseInt
  | arrayFrom | arrayIs | arrayOf
  | dateUTC
  | numberIsFinite | numberIsInteger | numberIsNaN | numberIsSafeInteger
  | fromCharCode | fromCodePoint
  deriving Repr, DecidableEq

/-- The helpers that every template can call. -/
inductive Helper where
  | dayOfWeek | encodeURIComponent | filterKeys | formatDate | formatTime
  deriving Repr, DecidableEq

/-- The methods of a node handle, and what reads and sets its computed properties. -/
inductive HandleMethod where
  | addClass | getAttribute | hasAttribute | populateFrom | removeAttribute | setAttribute | unwrap
  | readTag | readText | writeText
  deriving Repr, DecidableEq

/-- The functions that the child list of a node is asked with. -/
inductive NodeFunction where
  | isElement | serialize | textContent
  deriving Repr, DecidableEq

inductive Fn where
  | text (m : TextMethod)
  | array (m : ArrayMethod)
  | map (m : MapMethod)
  | set (m : SetMethod)
  | number (m : NumberMethod)
  | date (m : DateMethod)
  | object (m : ObjectMethod)
  | simple (m : SimpleMethod)
  | math (f : MathFunction)
  | json (f : JsonFunction)
  | objects (f : ObjectFunction)
  | construct (c : Constructor)
  | global (f : GlobalFunction)
  | helper (h : Helper)
  | handle (m : HandleMethod)
  | node (f : NodeFunction)
  /-- A function of the page, by name. -/
  | host (name : Text)
  /-- A member of the library that exists but cannot be called here. -/
  | unlisted (name : Text)
  deriving Repr, DecidableEq

inductive Value where
  | undefined
  | null
  | bool (b : Bool)
  | number (x : Float)
  | bigint (n : Int)
  | text (t : Text)
  | symbol (id : Nat) (description : Text)
  | object (id : ObjectId)
  | function (f : Fn)
  deriving Repr, Inhabited

namespace Value

def ofString (s : String) : Value := .text (Text.ofString s)

instance : Coe Text Value := ⟨.text⟩

def ofNat (n : Nat) : Value := .number (Number.ofNat n)

def ofOption : Option Value → Value := (·.getD .undefined)

/-- Identity, with a comparison of numbers. -/
def identicalBy (numbers : Float → Float → Bool) : Value → Value → Bool
  | .undefined, .undefined => true
  | .null, .null => true
  | .bool a, .bool b => a == b
  | .number x, .number y => numbers x y
  | .bigint m, .bigint n => m == n
  | .text s, .text t => s == t
  | .symbol i _, .symbol j _ => i == j
  | .object i, .object j => i == j
  | .function f, .function g => f == g
  | _, _ => false

/-- Identity in which NaN differs from itself and the two zeros agree. -/
def strictlyEqual : Value → Value → Bool := identicalBy (· == ·)

/-- Identity in which NaN agrees with itself and so do the two zeros. -/
def same : Value → Value → Bool := identicalBy Number.same

/-- Identity in which NaN agrees with itself and the two zeros differ. -/
def identical : Value → Value → Bool := identicalBy Number.identical

instance : BEq Value := ⟨same⟩

/-- A value as maps and sets keep it: minus zero is zero. -/
def asKey : Value → Value
  | .number x => .number (if x == 0.0 then 0.0 else x)
  | v => v

def isNullish : Value → Bool
  | .undefined | .null => true
  | _ => false

def isObject : Value → Bool
  | .object _ => true
  | _ => false

/-- Whether a value has properties of its own or is a function. -/
def isObjectLike : Value → Bool
  | .object _ | .function _ => true
  | _ => false

/-- What `typeof` says. -/
def typeName : Value → Text
  | .undefined => "undefined"
  | .null => "object"
  | .bool _ => "boolean"
  | .number _ => "number"
  | .bigint _ => "bigint"
  | .text _ => "string"
  | .symbol .. => "symbol"
  | .object _ => "object"
  | .function _ => "function"

/-- Truth by the common rule: zero, NaN, the empty text and the absent values are false. -/
def isTruthy : Value → Bool
  | .undefined | .null => false
  | .bool b => b
  | .number x => !(x == 0.0 || x.isNaN)
  | .bigint n => n != 0
  | .text t => !t.isEmpty
  | .symbol .. | .object _ | .function _ => true

end Value

end PageTemplate
