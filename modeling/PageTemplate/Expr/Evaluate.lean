import PageTemplate.Expr.Globals
import PageTemplate.Expr.Names
import PageTemplate.Expr.Parser
import PageTemplate.Scope
import PageTemplate.Value.Present

/-!
# PageTemplate.Expr.Evaluate

The evaluation of programs. Names are looked up in a scope and then among the globals; blocked
names are never looked up, and every attempt is noted as a warning. An assignment to a name binds it
in the scope itself, never in one around it.
-/

namespace PageTemplate

namespace Expr

/-- Where an expression is evaluated: the text that it was read from, and the scope. -/
structure Site where
  source : Text
  scope : ScopeId

namespace Site

/-- Rejects the expression. -/
def reject {α : Type} (s : Site) (reason : Text) : M α := throw (.evaluation s.source reason)

end Site

def inQuotes (t : Text) : Text := unit '"' :: t ++ [unit '"']

/-- Notes that a blocked name was used. -/
def warnBlocked (what name : Text) : M Unit :=
  Store.warn ("Skeletal: Blocked " ++ what ++ ": " ++ name)

/-- The name of a property that a value gives. -/
def keyText (s : Site) (v : Value) : M Text :=
  match v with
  | .symbol .. => s.reject "symbol keys are not supported"
  | v => Convert.toText v

/-- The value of a name. -/
def lookup (s : Site) (name : Text) : M Value := do
  match ← Scope.find? s.scope name with
  | some v => return v
  | none =>
    if Names.isBlockedProperty name then
      warnBlocked "access to unsafe property" name
      return .undefined
    else return .ofOption (Assoc.find? name Globals.values)

/-- The value of a property. -/
def readMember (object : Value) (key : Text) : M Value := do
  if Names.isBlockedProperty key then
    warnBlocked "access to unsafe property" key
    return .undefined
  else Property.get object key

/-- The order of two values: texts as texts, everything else as numbers. The result is negative,
zero or positive, and NaN when the values have no order. -/
def difference (v w : Value) : M Float := do
  match v, w with
  | .text s, .text t =>
    return if Text.lessThan s t then -1.0 else if Text.lessThan t s then 1.0 else 0.0
  | v, w =>
    let x ← Convert.numberOf v
    let y ← Convert.numberOf w
    return if x.isNaN || y.isNaN then Number.nan else x - y

/-- Whether an operand makes a sum join texts. -/
def joinsTexts : Value → Bool
  | .text _ | .object _ => true
  | _ => false

/-- The sum of two values. -/
def sum (v w : Value) : M Value := do
  match v, w with
  | .number x, .number y => return .number (x + y)
  | v, w =>
    if joinsTexts v || joinsTexts w then
      return .text ((← Convert.display v) ++ (← Convert.display w))
    else return .number ((← Convert.numberOf v) + (← Convert.numberOf w))

/-- What a value that cannot have properties set is called. -/
def kindName : Value → Text
  | .null => "null"
  | v => v.typeName

/-- Whether a key is in an object. -/
def isWithin (s : Site) (key container : Value) : M Value := do
  match container with
  | .object id =>
    let name ← Convert.display key
    if Names.isBlockedProperty name then
      s.reject ("cannot check unsafe property " ++ inQuotes name)
    match ← Store.cell id with
    | .map entries => return .bool (entries.has (.text name))
    | _ =>
      if ← Present.isOf .map container then Convert.invoke container "has" [.text name]
      else return .bool (← Property.has container name)
  | v => s.reject ("cannot use \"in\" on " ++ kindName v)

/-- The result of an operator that needs both operands. -/
def applyBinary (s : Site) (op : BinaryOp) (v w : Value) : M Value := do
  let numbers (f : Float → Float → Float) : M Value := do
    return .number (f (← Convert.numberOf v) (← Convert.numberOf w))
  match op with
  | .add => sum v w
  | .subtract => numbers (· - ·)
  | .multiply => numbers (· * ·)
  | .divide => numbers (· / ·)
  | .remainder => numbers Number.remainder
  | .identical => return .bool (v.strictlyEqual w)
  | .distinct => return .bool !(v.strictlyEqual w)
  | .equal => return .bool (← Convert.looselyEqual v w)
  | .unequal => return .bool !(← Convert.looselyEqual v w)
  | .less => return .bool ((← difference v w) < 0.0)
  | .greater => return .bool ((← difference v w) > 0.0)
  | .atMost => return .bool ((← difference v w) <= 0.0)
  | .atLeast => return .bool ((← difference v w) >= 0.0)
  | .within => isWithin s v w
  | .and | .or | .otherwise => return w

/-- Whether an operator is settled by its first operand alone. -/
def settles (op : BinaryOp) (v : Value) : M Bool := do
  match op with
  | .and => return !(← Present.toBool v)
  | .or => Present.toBool v
  | .otherwise => return !v.isNullish
  | _ => return false

def applyUnary (op : UnaryOp) (v : Value) : M Value := do
  match op with
  | .not => return .bool !(← Present.toBool v)
  | .negate => return .number (-(← Convert.numberOf v))
  | .toNumber => return .number (← Convert.numberOf v)
  | .typeName => return .text v.typeName

/-- The length that an assignment to the length of an array gives. -/
def arrayLength (v : Value) : M Nat := do
  let n ← Convert.toUnsigned 32 v
  let x ← Convert.toNumber v
  if Number.ofNat n == x then return n else M.failLibrary .rangeError

/-- Sets a property of a value. -/
def writeMember (s : Site) (object : Value) (key : Text) (value : Value) : M Unit := do
  match object with
  | .object id =>
    if Names.isBlockedProperty key then s.reject ("cannot assign to " ++ inQuotes key)
    match ← Store.cell id with
    | .map entries => Store.setCell id (.map (entries.put (.text key) value))
    | .array .. | .sparseArray .. =>
      let value ← if key == Text.ofString "length" then .ofNat <$> arrayLength value else pure value
      discard (Property.set id key value)
    | _ =>
      if ← Present.isOf .map object then discard (Convert.invoke object "set" [.text key, value])
      else if !(← Property.set id key value) then s.reject ("cannot set " ++ inQuotes key)
  | v => s.reject ("cannot set " ++ inQuotes key ++ " on " ++ kindName v)

/-- Binds a name in the scope of an expression. -/
def writeName (s : Site) (name : Text) (value : Value) : M Unit := do
  if Names.isBlockedProperty name || Scope.isBlockedName name then
    s.reject ("cannot assign to " ++ inQuotes name)
  Scope.bind s.scope name value

/-- The method of a receiver; `none` for one that is blocked. -/
def method? (s : Site) (receiver : Value) (key : Text) : M (Option Value) := do
  if receiver.isNullish then
    s.reject ("cannot call " ++ inQuotes key ++ " on " ++ (← Convert.toText receiver))
  if Names.isBlockedMethod key then
    warnBlocked "call to unsafe method" key
    return none
  else return some (← Property.get receiver key)

/-- The function that is called. -/
def callee (s : Site) (f : Value) (label : Text) : M Fn :=
  match f with
  | .function f => return f
  | _ => s.reject (inQuotes label ++ " is not a function")

/-- What a function is called by that is no method. -/
def label : Expr → Text
  | .name n => n
  | _ => "expression"

mutual

/-- The value of an expression. -/
def evaluate (s : Site) : Expr → M Value
  | .literal l => return l.value
  | .name n => lookup s n
  | .member holder property => do
    let o ← evaluate s holder
    if o.isNullish then return .undefined
    readMember o (← keyText s (← evaluate s property))
  | .call (.member holder property) arguments => do
    let receiver ← evaluate s holder
    let key ← keyText s (← evaluate s property)
    match ← method? s receiver key with
    | none => return .undefined
    | some f => do
      let f ← callee s f key
      M.call f receiver (← evaluateAll s arguments)
  | .call f arguments => do
    let f ← callee s (← evaluate s f) (label f)
    M.call f .undefined (← evaluateAll s arguments)
  | .unary op operand => do applyUnary op (← evaluate s operand)
  | .binary op left right => do
    let v ← evaluate s left
    if ← settles op v then return v
    applyBinary s op v (← evaluate s right)
  | .ternary condition consequent alternate => do
    if ← Present.toBool (← evaluate s condition) then evaluate s consequent
    else evaluate s alternate
  | .array elements => do Store.newArray (← evaluateAll s elements)
  | .object properties => do Store.newRecord (Assoc.ofList (← evaluateProperties s properties))
  | .assignName n value => do
    let v ← evaluate s value
    writeName s n v
    return v
  | .assignMember holder property value => do
    let v ← evaluate s value
    let o ← evaluate s holder
    let key ← keyText s (← evaluate s property)
    writeMember s o key v
    return v

/-- The values of expressions in order. -/
def evaluateAll (s : Site) : List Expr → M (List Value)
  | [] => return []
  | e :: es => do
    let v ← evaluate s e
    let vs ← evaluateAll s es
    return v :: vs

/-- The properties of an object literal. What is under a blocked name is not evaluated. -/
def evaluateProperties (s : Site) : List (Expr × Expr) → M Properties
  | [] => return []
  | (key, value) :: rest => do
    let name ← keyText s (← evaluate s key)
    if Names.isBlockedProperty name then
      warnBlocked "unsafe object key in literal" name
      evaluateProperties s rest
    else
      let v ← evaluate s value
      let vs ← evaluateProperties s rest
      return (name, v) :: vs

end

end Expr

namespace Program

/-- Evaluates statements in order; the value is that of the last one. -/
def run (s : Expr.Site) : Program → M Value
  | [] => return .undefined
  | [e] => e.evaluate s
  | e :: es => do
    let _ ← e.evaluate s
    run s es

/-- Reads and evaluates a source text in a scope. -/
def evaluateText (scope : ScopeId) (source : Text) : M Value :=
  match parse source with
  | .ok program => run ⟨source, scope⟩ program
  | .error f => throw (.evaluation source (parseMessage source f))

end Program

end PageTemplate
