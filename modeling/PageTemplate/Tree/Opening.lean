import PageTemplate.Markup.Node
import PageTemplate.Value.Store

/-!
# PageTemplate.Tree.Opening

Opening a node in the store. A node is a record of its parts. Its child list and its attributes are
objects of their own, which lie at the places behind it.
-/

namespace PageTemplate

/-- The kinds of nodes. -/
inductive NodeKind where
  | element | text | code | comment | document | doctype | fragment
  deriving Repr, DecidableEq

namespace NodeKind

/-- The number by which expressions know a kind. -/
def number : NodeKind → Nat
  | .element => 1
  | .text => 3
  | .code => 7
  | .comment => 8
  | .document => 9
  | .doctype => 10
  | .fragment => 11

def all : List NodeKind := [.element, .text, .code, .comment, .document, .doctype, .fragment]

def ofNumber? (x : Float) : Option NodeKind := all.find? fun k => Number.ofNat k.number == x

end NodeKind

/-- A node without its children and attributes. Fragments hold siblings on their way to another
place. -/
inductive NodeCore where
  | element (tag : Value)
  | text (value raw : Value)
  | code (source : Value)
  | comment (value : Value)
  | doctype (value : Value)
  | fragment
  | document
  deriving Repr

namespace NodeCore

def kind : NodeCore → NodeKind
  | .element _ => .element
  | .text .. => .text
  | .code _ => .code
  | .comment _ => .comment
  | .doctype _ => .doctype
  | .fragment => .fragment
  | .document => .document

def hasChildren : NodeCore → Bool
  | .element _ | .fragment | .document => true
  | _ => false

def hasAttributes : NodeCore → Bool
  | .element _ => true
  | _ => false

end NodeCore

/-- What a new node is made of. -/
inductive Content where
  | element (tag : Value) (attributes : List (Value × Value))
  | text (value raw : Value)
  | code (source : Value)
  | comment (value : Value)
  | doctype (value : Value)
  | fragment (nodes : List Markup.Node)
  | document (nodes : List Markup.Node)

namespace Tree

/-- The place of the child list of a node. -/
def childrenOf (id : ObjectId) : ObjectId := id + 1

/-- The place of the attributes of an element. -/
def attributesOf (id : ObjectId) : ObjectId := id + 2

/-- A parent as a property says it. -/
def parentValue : Option ObjectId → Value
  | some id => .object id
  | none => .null

/-- The properties of a node between its kind and its parent. -/
def parts (id : ObjectId) : NodeCore → Properties
  | .element tag =>
    .of [("tagName", tag), ("attributes", .object (attributesOf id)),
      ("childNodes", .object (childrenOf id))]
  | .text value raw => .of [("nodeValue", value), ("raw", raw)]
  | .code source => .of [("source", source)]
  | .comment value | .doctype value => .of [("nodeValue", value)]
  | .fragment | .document => .of [("childNodes", .object (childrenOf id))]

/-- The record of a node at a place. -/
def nodeCell (id : ObjectId) (core : NodeCore) (parent : Option ObjectId) : Cell :=
  .record .object (.of [("nodeType", .ofNat core.kind.number)] ++ parts id core ++
    .of [("parentNode", parentValue parent)])

/-- An array of objects. -/
def listCell (ids : List ObjectId) : Cell := .array (ids.map fun id => some (.object id)) []

/-- The objects that a new node at a place consists of. -/
def nodeCells (core : NodeCore) (attributes : Entries) (id : ObjectId) : List Cell :=
  nodeCell id core none :: (if core.hasChildren then [listCell []] else []) ++
    if core.hasAttributes then [.map attributes] else []

/-- Adds a node without a parent and without children. -/
def allocNode (core : NodeCore) (attributes : Entries) : M ObjectId :=
  Store.allocAll (nodeCells core attributes)

end Tree

end PageTemplate
