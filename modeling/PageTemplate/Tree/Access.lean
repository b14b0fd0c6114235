import PageTemplate.Tree.Opening
import PageTemplate.Value.Sequence

/-!
# PageTemplate.Tree.Access

The parts of a node: kind, parent, children, attributes and text. Every object that has the
properties of a node passes for one, and is asked for them the way an expression would ask.

A child list that is an array of objects and nothing else is changed as a whole, and so are
attributes that are a map. Whatever else stands in their place is asked to change itself.
-/

namespace PageTemplate

namespace Tree

/-- A text; every other value fails. -/
def expectText (v : Value) : M Text := do
  match v with
  | .text t => return t
  | _ => M.typeError

/-- An object; every other value fails. -/
def expectObject (v : Value) : M ObjectId := do
  match v with
  | .object id => return id
  | _ => M.typeError

/-- The kind of a value, when it has the number of one. An absent value cannot be asked. -/
def kind? (v : Value) : M (Option NodeKind) := do
  match ← Property.get v "nodeType" with
  | .number x => return NodeKind.ofNumber? x
  | _ => return none

/-- Whether a value counts as a node: it is an object with the number of a kind, and with a parent
or the place for one. -/
def isNode (v : Value) : M Bool := do
  if !v.isObject then return false
  return (← kind? v).isSome && (← Property.has v "parentNode")

def isElement (v : Value) : M Bool := do
  if v.isNullish then return false
  return (← kind? v) == some .element

/-- The tag of an element. -/
def tag (v : Value) : M Value := Property.get v "tagName"

/-- The value of a text node, comment or declaration. -/
def nodeValue (v : Value) : M Value := Property.get v "nodeValue"

/-- What says whether a text node is written verbatim. -/
def rawMark (v : Value) : M Value := Property.get v "raw"

/-- The source of inline code. -/
def source (v : Value) : M Value := Property.get v "source"

/-- Sets a property of an object, which has to let it be set. -/
def setPart (id : ObjectId) (name : Text) (value : Value) : M Unit := do
  if ← Property.set id name value then return else M.typeError

/-- Replaces the value of a text node. -/
def setNodeValue (v value : Value) : M Unit := do setPart (← expectObject v) "nodeValue" value

/-- The parent of a node. -/
def parent (v : Value) : M Value := Property.get v "parentNode"

/-- Makes a value the child of a node, as far as the child is concerned. -/
def setParent (child : Value) (p : Option ObjectId) : M Unit := do
  match child with
  | .object id =>
    match ← Store.cell id with
    | .map _ => return
    | _ => setPart id "parentNode" (parentValue p)
  | .function _ => return
  | _ => M.typeError

/-! Children. -/

/-- The child list of a node; a value without one fails. -/
def childList (v : Value) : M Value := do
  let list ← Property.get v "childNodes"
  if list.isNullish then M.typeError else return list

/-- The places of items that are all objects. -/
def objectIds? : List (Option Value) → Option (List ObjectId)
  | [] => some []
  | some (.object id) :: items => (objectIds? items).map (id :: ·)
  | _ :: _ => none

/-- The place of an array that holds objects and has no properties besides, and the objects. -/
def objectList? (v : Value) : M (Option (ObjectId × List ObjectId)) := do
  match v with
  | .object id =>
    match ← Store.cell id with
    | .array items [] => return (objectIds? items).map (id, ·)
    | _ => return none
  | _ => return none

/-- The position of an object in a list. -/
def position? (v : Value) (ids : List ObjectId) : Option Nat :=
  ids.findIdx? fun id => v.strictlyEqual (.object id)

/-- Puts members in the place of the one at a position. Where there is no such position, the last
one makes way. -/
def spliceAt {α : Type} (position : Option Nat) (inserted members : List α) : List α :=
  let i := position.getD (members.length - 1)
  members.take i ++ inserted ++ members.drop (i + 1)

namespace ChildList

/-- Replaces all items of an array. -/
def write (id : ObjectId) (values : List Value) : M Unit :=
  Store.setCell id (.array (values.map some) [])

/-- The children. -/
def toList (l : Value) : M (List Value) := do
  match ← objectList? l with
  | some (_, ids) => return ids.map .object
  | none => Sequence.iterate l

/-- Takes out all children. -/
def takeAll (l : Value) : M (List Value) := do
  match ← objectList? l with
  | some (id, ids) =>
    write id []
    return ids.map .object
  | none => Sequence.iterate (← Convert.invoke l "splice" [.number 0.0])

/-- Adds children behind the last one. -/
def push (l : Value) (values : List Value) : M Unit := do
  match ← objectList? l with
  | some (id, ids) => write id (ids.map .object ++ values)
  | none => discard (Convert.invoke l "push" values)

/-- Adds children before the first one. -/
def unshift (l : Value) (values : List Value) : M Unit := do
  match ← objectList? l with
  | some (id, ids) => write id (values ++ ids.map .object)
  | none => discard (Convert.invoke l "unshift" values)

/-- Removes a child. -/
def remove (l child : Value) : M Unit := do
  match ← objectList? l with
  | some (id, ids) =>
    match position? child ids with
    | some i => write id ((ids.eraseIdx i).map .object)
    | none => return
  | none =>
    let i ← Convert.invoke l "indexOf" [child]
    if !i.strictlyEqual (.number (-1.0)) then
      discard (Convert.invoke l "splice" [i, .number 1.0])

/-- Puts children in the place of one; where that is none of the children, the last one makes
way. -/
def substitute (l child : Value) (inserted : List Value) : M Unit := do
  match ← objectList? l with
  | some (id, ids) => write id (spliceAt (position? child ids) inserted (ids.map .object))
  | none =>
    let i ← Convert.invoke l "indexOf" [child]
    discard (Convert.invoke l "splice" (i :: .number 1.0 :: inserted))

/-- The elements among the children. -/
def elements (l : Value) : M (List Value) := do
  match ← objectList? l with
  | some (_, ids) => (ids.map Value.object).filterM isElement
  | none => do Sequence.iterate (← Convert.invoke l "filter" [.function (.node .isElement)])

/-- The first element among the children; undefined when there is none. -/
def firstElement (l : Value) : M Value := do
  match ← objectList? l with
  | some (_, ids) => return .ofOption ((← (ids.map Value.object).filterM isElement).head?)
  | none => Convert.invoke l "find" [.function (.node .isElement)]

/-- The texts that a function yields for the children, one after another. `each` is the function
itself. -/
def textBy (l : Value) (f : NodeFunction) (each : Value → M Value) : M Value := do
  match ← objectList? l with
  | some (_, ids) =>
    let values ← ids.mapM fun id => each (.object id)
    return .text (← values.mapM Convert.toJoined).flatten
  | none => do Convert.invoke (← Convert.invoke l "map" [.function (.node f)]) "join" [.text []]

end ChildList

/-- The children of a node. -/
def children (v : Value) : M (List Value) := do ChildList.toList (← childList v)

/-! Attributes. -/

/-- A key and a value, which is what iterating over an entry yields first. -/
def entryOf (entry : Value) : M (Value × Value) := do
  let parts ← Sequence.iterate entry
  return (parts.getD 0 .undefined, parts.getD 1 .undefined)

/-- The value that holds the attributes of an element. -/
def attributeMap (v : Value) : M Value := do
  let list ← Property.get v "attributes"
  if list.isNullish then M.typeError else return list

/-- The place and the entries of a map. -/
def mapEntries? (v : Value) : M (Option (ObjectId × Entries)) := do
  match v with
  | .object id =>
    match ← Store.cell id with
    | .map entries => return some (id, entries)
    | _ => return none
  | _ => return none

/-- What is done with the attributes of an element, each with its name, in order. -/
def forAttributes {α : Type} (v : Value) (action : Value → Value → M α) : M (List α) := do
  let list ← attributeMap v
  match ← mapEntries? list with
  | some (_, entries) => entries.live.mapM fun (n, v) => action n v
  | none =>
    (← Sequence.iterate list).mapM fun entry => do
      let (n, v) ← entryOf entry
      action n v

/-- The attributes of an element in order. -/
def attributes (v : Value) : M (List (Value × Value)) := forAttributes v fun n v => return (n, v)

/-- The value of an attribute; undefined when there is none. -/
def getAttribute (v name : Value) : M Value := do
  let list ← attributeMap v
  match ← mapEntries? list with
  | some (_, entries) => return .ofOption (entries.find? name)
  | none => Convert.invoke list "get" [name]

/-- Sets an entry of the attributes of an element. -/
def putEntry (list name value : Value) : M Unit := do
  match ← mapEntries? list with
  | some (id, entries) => Store.setCell id (.map (entries.put name value))
  | none => discard (Convert.invoke list "set" [name, value])

def setAttribute (v name value : Value) : M Unit := do putEntry (← attributeMap v) name value

def removeAttribute (v name : Value) : M Unit := do
  let list ← attributeMap v
  match ← mapEntries? list with
  | some (id, entries) => Store.setCell id (.map (entries.erase name))
  | none => discard (Convert.invoke list "delete" [name])

/-- Whether an element has an attribute, as its attributes say. -/
def hasAttribute (v name : Value) : M Value := do
  let list ← attributeMap v
  match ← mapEntries? list with
  | some (_, entries) => return .bool (entries.has name)
  | none => Convert.invoke list "has" [name]

/-- The attributes of an element as the entries of a map. -/
def attributeEntries (v : Value) : M (List (Value × Value)) := do
  let list ← attributeMap v
  match ← mapEntries? list with
  | some (_, entries) => return entries.live
  | none => do
    let entries ← (← Sequence.iterate list).mapM fun entry => do
      if !entry.isObjectLike then M.typeError
      return (← Property.get entry "0", ← Property.get entry "1")
    return (Entries.ofList entries).live

end Tree

end PageTemplate
