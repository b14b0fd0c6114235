import PageTemplate.Value.Present

/-!
# PageTemplate.Builtin.KeyFilter

Choosing the entries of a value by their keys. A filter is a pattern with wildcards; a minus sign
before it makes it reject. The first filter that matches a key decides.
-/

namespace PageTemplate

namespace KeyFilter

/-- A piece of a pattern. -/
inductive Piece where
  /-- Any number of units, line ends excepted. -/
  | run
  /-- One unit that is no line end. -/
  | one
  | exactly (u : CodeUnit)
  deriving Repr, DecidableEq

structure Filter where
  rejects : Bool
  pattern : List Piece
  deriving Repr, DecidableEq

def isLineEnd (u : CodeUnit) : Bool := u == 10 || u == 13 || u == 0x2028 || u == 0x2029

def patternOf (t : Text) : List Piece :=
  t.map fun u => if u == unit '*' then .run else if u == unit '?' then .one else .exactly u

/-- The filter that a text writes; `none` for the empty text. -/
def filter? (t : Text) : Option Filter :=
  match t with
  | [] => none
  | u :: rest =>
    if u == unit '-' then some ⟨true, patternOf rest⟩ else some ⟨false, patternOf t⟩

/-- Whether some rest of a text passes a test, where only units that are no line ends are dropped
before it. -/
def someRest (test : Text → Bool) : Text → Bool
  | [] => test []
  | u :: rest => test (u :: rest) || (!isLineEnd u && someRest test rest)

/-- Whether a whole text matches a pattern. -/
def matchesPattern : List Piece → Text → Bool
  | [], t => t.isEmpty
  | .run :: ps, t => someRest (matchesPattern ps) t
  | .one :: ps, u :: rest => !isLineEnd u && matchesPattern ps rest
  | .exactly v :: ps, u :: rest => u == v && matchesPattern ps rest
  | _ :: _, [] => false

/-- The filters of a value. A hole stays a hole. -/
def filtersOf (filters : Value) : M (List (Option Filter)) := do
  (← Present.entriesOf filters []).mapM fun entry => do
    match entry with
    | none => return none
    | some (_, v) =>
      match filter? (← Present.toText v) with
      | some f => return some f
      | none =>
        throw (.evaluation "filterKeys" "invalid filter: filters cannot be empty")

/-- Whether a key is kept. Getting to a hole among the filters fails. -/
def keeps (key : Text) : List (Option Filter) → M Bool
  | [] => return false
  | none :: _ => M.typeError
  | some f :: fs => if matchesPattern f.pattern key then return !f.rejects else keeps key fs

/-- The name that stands for what an object inherits from. -/
def protoName : Text := "__proto__"

/-- Makes a record inherit from an object, or from nothing; any other value is ignored. -/
def setProto (id : ObjectId) (value : Value) : M Unit := do
  match ← Store.cell id with
  | .record proto properties =>
    let proto := match value with
      | .null => .none
      | .object _ | .function _ => .value value
      | _ => proto
    Store.setCell id (.record proto properties)
  | _ => return

/-- Adds an entry to a record. The name `__proto__` stands for what the record inherits from, as
long as it inherits from something that lends it this meaning. -/
def store (id : ObjectId) (name : Text) (value : Value) : M Unit := do
  let record := Value.object id
  if name == protoName && (← Property.search? record name).isNone &&
      (← Property.family? record).isSome then
    setProto id value
  else if ← Property.set id name value then return
  else M.typeError

/-- A record of the entries of a value whose keys the filters keep. -/
def filterKeys (v filters : Value) : M Value := do
  let filters ← filtersOf filters
  let id ← Store.alloc (.record .object [])
  (← Present.entriesOf v []).forM fun entry => do
    let (key, value) ← Present.expectEntry entry
    let name ← Convert.toText (← Present.shown key)
    if ← keeps name filters then store id name value
  return .object id

end KeyFilter

end PageTemplate
