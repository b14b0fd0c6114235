import PageTemplate.Tree.Serialize
import PageTemplate.Value.Stringify

/-!
# PageTemplate.Value.Present

What values become in a page: text, a condition, a sequence of keys and items, or JSON that can
stand inside a script.
-/

namespace PageTemplate

namespace Present

/-- Whether a value counts as a node. -/
def isNode (v : Value) : M Bool := Tree.isNode v

/-- The node behind a value, if it is one or wraps one: a handle, or what inherits from one, is
asked for its node. -/
def node? (v : Value) : M (Option Value) := do
  if !v.isObject then return none
  if (← Property.family? v) == some .handle then
    let node ← Convert.invoke v "unwrap" []
    return if node.isTruthy then some node else none
  else return if ← Tree.isNode v then some v else none

/-- Whether a value is of a family, or inherits from one that is. -/
def isOf (f : Family) (v : Value) : M Bool := do
  return v.isObject && (← Property.family? v) == some f

/-- Whether an object has no class of its own. -/
def isPlainObject (v : Value) : M Bool := do
  match v with
  | .object id =>
    match ← Store.cell id with
    | .record .object _ | .record .none _ | .math _ | .json _ => return true
    | _ => return false
  | _ => return false

/-- Whether a value flattens into keys and items. -/
def isObjectShaped (v : Value) : M Bool := do
  if (← node? v).isSome then return false
  return (← Store.isArray v) || (← isOf .map v) || (← isPlainObject v)

/-- A new record of the entries whose keys have a text. -/
def recordOf (entries : List (Value × Value)) : M Value := do
  let pairs ← entries.mapM fun (key, value) => do
    match key with
    | .symbol .. => return none
    | key => return some (← Convert.toText key, value)
  Store.newRecord (Assoc.ofList (pairs.filterMap fun p => p))

/-- The entries of a map; what only inherits from one has none to give. -/
def mapEntries (v : Value) : M (List (Value × Value)) := do
  match v with
  | .object id =>
    match ← Store.cell id with
    | .map entries => return entries.live
    | _ => M.typeError
  | _ => M.typeError

/-- What stands for a value in JSON: nodes are markup, maps are records, sets are arrays and big
integers are text. -/
def jsonForm (v : Value) : M Value := do
  match ← node? v with
  | some node => Tree.serialize node
  | none =>
    if ← isOf .map v then recordOf (← mapEntries v)
    else if ← isOf .set v then Store.newArray (← Sequence.iterate v)
    else
      match v with
      | .bigint n => return .text (Text.ofInt n)
      | v => return v

/-- The style of JSON in pages. -/
def jsonStyle : Stringify.Style := ⟨fun _ _ v => jsonForm v, none, []⟩

/-- What a value is shown as in a page: absent values as nothing, dates in the ISO form, nodes as
markup and other objects as JSON. That is a text, unless a date says otherwise or a raw text node
holds something else. -/
def shown (v : Value) : M Value := do
  match v with
  | .text t => return .text t
  | .undefined | .null => return .text []
  | .number _ | .bool _ | .bigint _ => return .text (← Convert.toText v)
  | .symbol .. | .function _ => return .text (← Convert.display v)
  | .object _ =>
    if ← isOf .date v then Convert.invoke v "toISOString" []
    else
      match ← node? v with
      | some node => Tree.serialize node
      | none => return .text ((← Stringify.write jsonStyle v).getD [])

/-- The text of a value in a page; a value that is shown as something else has none. -/
def toText (v : Value) : M Text := do Tree.expectText (← shown v)

/-- Truth in a template: an empty array, map or set is false. -/
def toBool (v : Value) : M Bool := do
  match ← Store.arrayLength? v with
  | some length => return length != 0
  | none =>
    if (← isOf .map v) || (← isOf .set v) then
      return (← Convert.numberOf (← Property.get v "size")) > 0.0
    else return v.isTruthy

/-- The fault for a value without keys and items. -/
def notIterable (v : Value) (expression : Text) : M (List (Option (Value × Value))) := do
  let name ← if expression.isEmpty then toText v else pure expression
  throw (.evaluation name ("a " ++ v.typeName ++ " is not iterable"))

/-- Items with their indices. -/
def numbered (items : List (Option Value)) : List (Option (Value × Value)) :=
  items.zipIdx.map fun (item, i) => item.map (.ofNat i, ·)

/-- The keys and items of a value in order; `none` is a hole of an array. -/
def entriesOf (v : Value) (expression : Text) : M (List (Option (Value × Value))) := do
  if v.isNullish then return []
  match ← Store.listedItems? v with
  | some items => return numbered items
  | none =>
    if ← isOf .map v then return (← mapEntries v).map some
    else if ← isOf .set v then return numbered ((← Sequence.iterate v).map some)
    else if !v.isObject || (← node? v).isSome then notIterable v expression
    else
      (← Property.ownEntries v).mapM fun (key, _) => do
        return some (.text key, ← Property.get v key)

/-- A key and its item; a hole has neither. -/
def expectEntry : Option (Value × Value) → M (Value × Value)
  | some entry => return entry
  | none => M.typeError

/-- The escape of a unit that has a meaning inside a script. -/
def scriptEscape (u : CodeUnit) : Text :=
  if u == unit '<' || u == unit '>' || u == unit '&' || u == 0x2028 || u == 0x2029 then
    Json.escapeNumber u
  else [u]

/-- The JSON of a value for the body of a script. Values without JSON are null. -/
def toJson (v : Value) : M Text := do
  return ((← Stringify.write jsonStyle v).getD "null").flatMap scriptEscape

end Present

end PageTemplate
