import PageTemplate.Fault
import PageTemplate.Value.Entries
import PageTemplate.Value.Places

/-!
# PageTemplate.Value.Store

The store that expressions and templates work on: objects, scopes and what was said on the way. An
action reads and writes the store and may fail; what it has written before a failure stays
written.
-/

namespace PageTemplate

/-- Named properties in the order in which they were first set. -/
abbrev Properties := List (Text × Value)

def Properties.of (pairs : List (String × Value)) : Properties :=
  pairs.map fun (name, value) => (Text.ofString name, value)

/-- Where a record inherits from: the members of all objects, nothing, a class of the page, or
another value. -/
inductive Proto where
  | object
  | none
  | pageClass
  | value (v : Value)
  deriving Repr

/-- An object of the store. -/
inductive Cell where
  | record (proto : Proto) (properties : Properties)
  /-- An array; `none` is a hole. -/
  | array (items : List (Option Value)) (extra : Properties)
  /-- An array that is too long to keep its holes. -/
  | sparseArray (length : Nat) (items : Places) (extra : Properties)
  | map (entries : Entries)
  | set (members : Entries) (extra : Properties)
  /-- An instant in milliseconds since 1970-01-01. -/
  | date (time : Float) (extra : Properties)
  /-- A handle on a node. -/
  | handle (node : Value) (extra : Properties)
  /-- The object `Math`. -/
  | math (extra : Properties)
  /-- The object `JSON`. -/
  | json (extra : Properties)
  deriving Repr

instance : Inhabited Cell := ⟨.record .none []⟩

/-- A level of bindings inside another one. -/
structure Scope where
  parent : Option ScopeId
  bindings : Properties
  deriving Repr, Inhabited

structure World where
  cells : Array Cell
  scopes : Array Scope
  /-- Lines logged, the latest first. -/
  log : List Text
  /-- Warnings, the latest first. -/
  warnings : List Text
  /-- The arrays whose texts are being joined, innermost first. -/
  joining : List ObjectId

/-- An action on the store. -/
abbrev Act (α : Type) := ExceptT Fault (StateM World) α

/-- What an action may call: the functions among the values. -/
structure Env where
  apply : Fn → Value → List Value → Act Value

/-- An action that may call functions. -/
abbrev M := ReaderT Env (ExceptT Fault (StateM World))

namespace M

/-- Runs an action and yields its outcome and the store after it. -/
def run' {α : Type} (env : Env) (world : World) (action : M α) : Except Fault α × World :=
  StateT.run (ExceptT.run (ReaderT.run action env)) world

def failLibrary {α : Type} (kind : ErrorKind) : M α := throw (.library kind)

def typeError {α : Type} : M α := failLibrary .typeError

/-- Calls a function. -/
def call (f : Fn) (this : Value) (arguments : List Value) : M Value := do
  let env ← read
  env.apply f this arguments

end M

namespace Store

/-- The object at a place. -/
def cell (id : ObjectId) : M Cell := do return (← get).cells.getD id default

def setCell (id : ObjectId) (c : Cell) : M Unit :=
  modify fun w => { w with cells := w.cells.setIfInBounds id c }

/-- Adds an object. -/
def alloc (c : Cell) : M ObjectId := do
  let w ← get
  set { w with cells := w.cells.push c }
  return w.cells.size

/-- Adds objects, of which each may name the place of the first one. -/
def allocAll (cells : ObjectId → List Cell) : M ObjectId := do
  let w ← get
  set { w with cells := w.cells ++ (cells w.cells.size).toArray }
  return w.cells.size

/-- A bound on the depth of anything without cycles in the store. -/
def depth : M Nat := do return (← get).cells.size + 1

def newRecord (properties : Properties) : M Value := do
  return .object (← alloc (.record .object properties))

def newArray (items : List Value) : M Value := do
  return .object (← alloc (.array (items.map some) []))

/-- A new map. Of two values for one key the later one counts. -/
def newMap (entries : List (Value × Value)) : M Value := do
  return .object (← alloc (.map (.ofList entries)))

/-- A new set. -/
def newSet (items : List Value) : M Value := do
  return .object (← alloc (.set (.ofKeys items) []))

def log (line : Text) : M Unit := modify fun w => { w with log := line :: w.log }

def warn (line : Text) : M Unit := modify fun w => { w with warnings := line :: w.warnings }

/-- The items of an array that keeps its holes. -/
def arrayItems? (v : Value) : M (Option (List (Option Value))) := do
  match v with
  | .object id =>
    match ← cell id with
    | .array items _ => return some items
    | _ => return none
  | _ => return none

/-- The number of items of an array, holes included. -/
def arrayLength? (v : Value) : M (Option Nat) := do
  match v with
  | .object id =>
    match ← cell id with
    | .array items _ => return some items.length
    | .sparseArray length .. => return some length
    | _ => return none
  | _ => return none

def isArray (v : Value) : M Bool := do return (← arrayLength? v).isSome

/-- The items of an array by position. -/
def arrayPlaces? (v : Value) : M (Option Places) := do
  match v with
  | .object id =>
    match ← cell id with
    | .array items _ => return some (.ofList items)
    | .sparseArray _ items _ => return some items
    | _ => return none
  | _ => return none

/-- Replaces the items of an array. -/
def setArrayItems (id : ObjectId) (items : List (Option Value)) : M Unit := do
  match ← cell id with
  | .array _ extra => setCell id (.array items extra)
  | _ => M.typeError

/-- The greatest number of items that an array can have. -/
def maxArrayLength : Nat := Nat.pow 2 32 - 1

/-- The number of items up to which an array keeps its holes, and up to which anything is done for
one item after another. -/
def maxListed : Nat := Nat.pow 2 24

/-- An array of a length. -/
def arrayCell (length : Nat) (items : Places) (extra : Properties) : Cell :=
  if length ≤ maxListed then .array (items.toList length) extra
  else .sparseArray length (items.before length) extra

/-- A new array of a length, which must be one that an array can have. -/
def newPlaces (length : Nat) (items : Places) : M Value := do
  if maxArrayLength < length then M.failLibrary .rangeError
  return .object (← alloc (arrayCell length items []))

/-- The items of an array one after another; an array that is too long for that fails. -/
def listedItems? (v : Value) : M (Option (List (Option Value))) := do
  match ← arrayItems? v with
  | some items => return some items
  | none => if ← isArray v then M.failLibrary .rangeError else return none

/-- The positions from `start` on, `count` of them, which must not be too many. -/
def positions (start count : Nat) : M (List Nat) :=
  if maxListed < count then M.failLibrary .rangeError else return List.range' start count

/-- Whether the texts of an array are being joined. -/
def isJoining (id : ObjectId) : M Bool := do return (← get).joining.contains id

/-- Runs an action as a part of joining the texts of an array. -/
def whileJoining {α : Type} (id : ObjectId) (action : M α) : M α := do
  modify fun w => { w with joining := id :: w.joining }
  try action
  finally modify fun w => { w with joining := w.joining.drop 1 }

end Store

end PageTemplate
