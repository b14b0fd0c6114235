import PageTemplate.Text.Blank
import PageTemplate.Text.Case
import PageTemplate.Tree.Access

/-!
# PageTemplate.Tree.Edit

Building and changing trees. Inserting a node always detaches it from where it was, so a node never
has two parents; inserting a fragment moves its children and leaves it empty.
-/

namespace PageTemplate

namespace Tree

/-- Attributes as the entries of a map. -/
def entriesOfTexts (attributes : Markup.Attributes) : Entries :=
  attributes.map fun (n, v) => some (.text n, .text v)

/-- Makes the values children of a node, as far as they are concerned. -/
def setParents (p : Option ObjectId) : List Value → M Unit
  | [] => pure ()
  | v :: vs => do
    setParent v p
    setParents p vs

/-- Gives nodes without a parent to a node without children. -/
def fill (id : ObjectId) (ids : List ObjectId) : M Unit := do
  setParents (some id) (ids.map .object)
  Store.setCell (childrenOf id) (listCell ids)

mutual

/-- Puts a tree into the store. -/
def plant : Markup.Node → M ObjectId
  | .element tag attributes children => do
    let id ← allocNode (.element tag) (entriesOfTexts attributes)
    fill id (← plantAll children)
    return id
  | .text value raw => allocNode (.text value (.bool raw)) []
  | .code source => allocNode (.code source) []
  | .comment value => allocNode (.comment value) []
  | .doctype value => allocNode (.doctype value) []

/-- Puts trees into the store, one after another. -/
def plantAll : List Markup.Node → M (List ObjectId)
  | [] => pure []
  | n :: ns => do
    let id ← plant n
    let ids ← plantAll ns
    return id :: ids

end

/-- A fragment or document of new nodes. -/
def plantWithin (core : NodeCore) (nodes : List Markup.Node) : M ObjectId := do
  let id ← allocNode core []
  fill id (← plantAll nodes)
  return id

/-- A new node without a parent. -/
def create : Content → M ObjectId
  | .element tag attributes => allocNode (.element tag) (.ofList attributes)
  | .text value raw => allocNode (.text value raw) []
  | .code source => allocNode (.code source) []
  | .comment value => allocNode (.comment value) []
  | .doctype value => allocNode (.doctype value) []
  | .fragment nodes => plantWithin .fragment nodes
  | .document nodes => plantWithin .document nodes

/-- A new element; its tag is brought into lower case. -/
def createElement (tag : Text) (attributes : Markup.Attributes) : M ObjectId :=
  create (.element (Text.toLower tag) (attributes.map fun (n, v) => (.text n, .text v)))

def createText (value : Text) (raw : Bool) : M ObjectId := create (.text value (.bool raw))

/-- What a node is called in messages. -/
def describe (v : Value) : M Text := do
  match ← kind? v with
  | some .element => return unit '<' :: (← Convert.toText (← tag v)) ++ [unit '>']
  | some .text => return "text node"
  | some .code => return "code node"
  | some .comment => return "comment"
  | some .doctype => return "doctype"
  | some .fragment => return "fragment"
  | some .document => return "document"
  | none => return "undefined"

/-- Detaches a node from its parent. -/
def remove (v : Value) : M Unit := do
  let p ← parent v
  if p.isTruthy then
    ChildList.remove (← childList p) v
    setParent v none

/-- Takes a node out of its place, or the children out of a fragment, for a new parent. Yields the
nodes that are to be inserted there. -/
def adopt (p : ObjectId) (v : Value) : M (List Value) := do
  if (← kind? v) == some .fragment then
    let moved ← ChildList.takeAll (← childList v)
    setParents (some p) moved
    return moved
  else
    remove v
    setParent v (some p)
    return [v]

/-- Inserts a node at the end of the children. -/
def append (p v : Value) : M Unit := do
  if v.strictlyEqual p then throw .selfAppend
  let list ← childList p
  ChildList.push list (← adopt (← expectObject p) v)

/-- Inserts a node before the children. -/
def prepend (p v : Value) : M Unit := do
  let list ← childList p
  ChildList.unshift list (← adopt (← expectObject p) v)

/-- A new fragment around nodes, which leave their places. -/
def createFragment (nodes : List Value) : M ObjectId := do
  let id ← create (.fragment [])
  nodes.forM (append (.object id))
  return id

/-- A new document around nodes, which leave their places. -/
def createDocument (nodes : List Value) : M ObjectId := do
  let id ← create (.document [])
  nodes.forM (append (.object id))
  return id

/-- Puts a node, or the children of a fragment, in the place of another node. -/
def replaceWith (old replacement : Value) : M Unit := do
  let p ← parent old
  if !p.isTruthy then throw (.detached (← describe old))
  if replacement.strictlyEqual old then return
  let nodes ← adopt (← expectObject p) replacement
  ChildList.substitute (← childList p) old nodes
  setParent old none

/-- Moves all children of `source` to the end of `target`. -/
def stealChildren (target source : Value) : M Unit := do
  let moved ← ChildList.takeAll (← childList source)
  setParents (some (← expectObject target)) moved
  ChildList.push (← childList target) moved

/-- Replaces an element by its own children. -/
def stripOut (element : Value) : M Unit := do
  let fragment := Value.object (← createFragment [])
  stealChildren fragment element
  replaceWith element fragment

/-- Detaches all children. -/
def removeChildren (p : Value) : M Unit := do
  setParents none (← ChildList.takeAll (← childList p))

/-- The tag of an element in lower case. -/
def lowerTag (v : Value) : M Value := do
  match ← tag v with
  | .text t => return .text (Text.toLower t)
  | t => Convert.invoke t "toLowerCase" []

/-- The attributes of an element, of which there may be none. -/
def ownAttributes (v : Value) : M (List (Value × Value)) := do
  if (← Property.get v "attributes").isNullish then return [] else attributeEntries v

/-- A new element with the tag and the attributes of another one. -/
def cloneElement (v : Value) : M ObjectId := do
  let t ← lowerTag v
  create (.element t (← ownAttributes v))

/-- A detached copy of a node and everything in it. -/
def cloneWithin : Nat → Value → M ObjectId
  | 0, _ => M.failLibrary .rangeError
  | n + 1, v => do
    match ← kind? v with
    | some .element =>
      let clone ← cloneElement v
      (← children v).forM fun child => do
        append (.object clone) (.object (← cloneWithin n child))
      return clone
    | some .text =>
      let value ← nodeValue v
      match ← rawMark v with
      | .undefined => create (.text value (.bool false))
      | raw => create (.text value raw)
    | some .code => create (.code (← source v))
    | some .comment => create (.comment (← nodeValue v))
    | some .doctype => create (.doctype (← nodeValue v))
    | some .fragment | some .document | none => M.typeError

def clone (v : Value) : M ObjectId := do cloneWithin (← Store.depth) v

/-- The classes of an element in order. -/
def classList (v : Value) : M (List Text) := do
  match ← getAttribute v (.text "class") with
  | .undefined | .null => return []
  | classes => return Text.words (← expectText classes)

/-- Adds the classes of a list that are not there yet. -/
def addClass (v classes : Value) : M Unit := do
  let current ← classList v
  let all := (Text.words (← expectText classes)).foldl
    (fun all c => if all.contains c then all else all ++ [c]) current
  setAttribute v (.text "class") (.text (Text.join [unit ' '] all))

/-- The text of all text nodes in a tree, one after another. A single text node yields whatever it
holds. -/
def textWithin : Nat → Value → M Value
  | 0, _ => M.failLibrary .rangeError
  | n + 1, v => do
    match ← kind? v with
    | some .text => nodeValue v
    | some .element | some .fragment | some .document =>
      ChildList.textBy (← childList v) .textContent (textWithin n)
    | some .code | some .comment | some .doctype | none => return .text []

def textContent (v : Value) : M Value := do textWithin (← Store.depth) v

/-- Replaces all children by one text node. -/
def setTextContent (v value : Value) : M Unit := do
  removeChildren v
  append v (.object (← create (.text value (.bool false))))

/-- The elements among the children of a node. -/
def elementChildren (v : Value) : M (List Value) := do ChildList.elements (← childList v)

/-- The first element among the children of a document. -/
def documentElement? (document : Value) : M (Option Value) := do
  match ← ChildList.firstElement (← childList document) with
  | .undefined | .null => return none
  | v => return some v

/-- More steps than a run can take. -/
def endless : Nat := Nat.pow 2 62

/-- Whether a node is another one or lies inside it. -/
def containsWithin (ancestor : Value) : Nat → Value → M Bool
  | 0, _ => M.failLibrary .rangeError
  | n + 1, v => do
    if !v.isTruthy then return false
    if v.strictlyEqual ancestor then return true
    containsWithin ancestor n (← parent v)

/-- Parents that go round in a circle without the other node are followed for ever. -/
def contains (ancestor v : Value) : M Bool := do
  containsWithin ancestor ((← Store.depth) + endless) v

end Tree

end PageTemplate
