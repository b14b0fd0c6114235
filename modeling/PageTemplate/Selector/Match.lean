import PageTemplate.Assoc
import PageTemplate.Selector.Syntax

/-!
# PageTemplate.Selector.Match

Matching of selectors. An element is seen through its lineage: what is known of it and of each of
the elements around it, and where they stand among their siblings.

A tree of elements is walked in document order, so the elements that match come in that order.
-/

namespace PageTemplate

namespace Selector

/-- The value of an attribute. Only in objects that pass for elements it may be no text. -/
inductive AttributeValue where
  | text (t : Text)
  | null
  | other
  deriving Repr, DecidableEq

/-- What selectors can ask of an element itself. -/
structure Facts where
  /-- The tag, if it is text. -/
  tag : Option Text
  /-- The attributes by name; `none` for an object that only passes for an element and has no
  attributes to ask. -/
  attributes : Option (List (Text × AttributeValue))
  deriving Repr

/-- An element and its place among its siblings. What is `none` cannot be asked: only an object that
passes for an element can have a parent that does not answer. -/
structure Seat where
  facts : Facts
  /-- Whether the parent is a document. -/
  underDocument : Option Bool
  isFirst : Option Bool
  isLast : Option Bool
  deriving Repr

/-- An element and the elements around it, innermost first. -/
abbrev Lineage := List Seat

/-- A failure that has no wording of its own. -/
def noSuchPart {α : Type} : Except Fault α := throw (.library .typeError)

namespace Facts

/-- The value of an attribute. -/
def attribute? (f : Facts) (name : Text) : Except Fault (Option AttributeValue) :=
  match f.attributes with
  | some attributes => return Assoc.find? name attributes
  | none => noSuchPart

/-- The classes in order. -/
def classes (f : Facts) : Except Fault (List Text) := do
  match ← f.attribute? "class" with
  | none | some .null => return []
  | some (.text value) => return Text.words value
  | some .other => noSuchPart

end Facts

namespace Comparison

/-- Whether a value compares to what is expected. -/
def holds (c : Comparison) (value expected : Text) : Bool :=
  match c with
  | .equals => value == expected
  | .hasWord => (Text.splitBlanks value).contains expected
  | .hyphenated => value == expected || Text.startsWith value (expected ++ [unit '-'])
  | .beginsWith => Text.startsWith value expected
  | .endsWith => Text.endsWith value expected
  | .contains => Text.includes value expected

end Comparison

def AttributeTest.holds (test : AttributeTest) (f : Facts) : Except Fault Bool := do
  match ← f.attribute? test.name, test.comparison with
  | none, _ => return false
  | some _, none => return true
  | some (.text value), some (c, expected) => return c.holds value expected
  | some _, some (.equals, _) => return false
  | some _, some _ => noSuchPart

/-- What is known of a place. -/
def known (answer : Option Bool) : Except Fault Bool :=
  match answer with
  | some b => return b
  | none => noSuchPart

def PlainPseudo.holds (p : PlainPseudo) (seat : Seat) : Except Fault Bool :=
  match p with
  | .root => known seat.underDocument
  | .firstChild => known seat.isFirst
  | .lastChild => known seat.isLast
  | .anything => return true
  | .unknown name => throw (.unsupportedPseudo name)

/-- Whether all members of a list pass a test, asked in order up to the first that does not. -/
def allHold {α : Type} (test : α → Except Fault Bool) : List α → Except Fault Bool
  | [] => return true
  | a :: as => do if ← test a then allHold test as else return false

/-- Whether a member of a list passes a test, asked in order up to the first that does. -/
def someHolds {α : Type} (test : α → Except Fault Bool) : List α → Except Fault Bool
  | [] => return false
  | a :: as => do if ← test a then return true else someHolds test as

/-- Whether an element passes all tests of a compound: tag, id, classes, attributes and
pseudo-classes, asked in this order up to the first that fails. -/
def Compound.holdsWith {π : Type} (pseudoHolds : π → Seat → Except Fault Bool) (c : Compound π)
    (seat : Seat) : Except Fault Bool :=
  allHold (fun held => held) [tagHolds, idHolds, classesHold, attributesHold, pseudosHold]
where
  tagHolds : Except Fault Bool :=
    match c.tag with
    | some tag => return seat.facts.tag == some tag
    | none => return true
  idHolds : Except Fault Bool :=
    match c.id with
    | some id => return (← seat.facts.attribute? "id") == some (.text id)
    | none => return true
  classesHold : Except Fault Bool := do
    if c.classes.isEmpty then return true
    let present ← seat.facts.classes
    return c.classes.all present.contains
  attributesHold : Except Fault Bool := allHold (·.holds seat.facts) c.attributes
  pseudosHold : Except Fault Bool := allHold (pseudoHolds · seat) c.pseudos

def Pseudo.holds (p : Pseudo) (seat : Seat) : Except Fault Bool :=
  match p with
  | .plain p => p.holds seat
  | .negation (.ok c) => return !(← c.holdsWith PlainPseudo.holds seat)
  | .negation (.error t) => throw (.unsupportedSelector t)

/-- The compound's tests on one element. -/
def Compound.holds (c : Compound Pseudo) (seat : Seat) : Except Fault Bool :=
  c.holdsWith Pseudo.holds seat

/-- A lineage and the lineages of the elements around it, innermost first. -/
def lineages : Lineage → List Lineage
  | [] => []
  | seat :: above => (seat :: above) :: lineages above

/-- Whether the innermost element of a lineage matches a chain: it passes the last compound, and
its parent, or some element around it, matches what is before. A chain without steps cannot be
applied. -/
def chainHolds : Chain → Lineage → Except Fault Bool
  | [], _ => noSuchPart
  | _ :: _, [] => return false
  | [s], seat :: _ => s.compound.holds seat
  | s :: t :: before, seat :: above => do
    if !(← s.compound.holds seat) then return false
    match s.combinator with
    | .child => chainHolds (t :: before) above
    | .descendant => someHolds (chainHolds (t :: before)) (lineages above)

/-- Whether the innermost element of a lineage matches a selector. -/
def holds (s : Alternatives) (lineage : Lineage) : Except Fault Bool :=
  someHolds (chainHolds · lineage) s

/-- An element with a key, and the elements among its children. The place of a stray element is not
the one where it is found: it says itself what lineage it has. -/
inductive Outline (κ : Type) where
  | element (key : κ) (facts : Facts) (children : List (Outline κ))
  | stray (key : κ) (lineage : Lineage) (children : List (Outline κ))

variable {κ : Type}

mutual

/-- The element and all elements inside it in document order, each with its lineage. -/
def Outline.seated (above : Lineage) (underDocument isFirst isLast : Bool) :
    Outline κ → List (κ × Lineage)
  | .element key facts children =>
    let lineage := ⟨facts, some underDocument, some isFirst, some isLast⟩ :: above
    (key, lineage) :: seatedAmong lineage false true children
  | .stray key lineage children => (key, lineage) :: seatedAmong lineage false true children

/-- The elements of a list of siblings and all inside them in document order. -/
def seatedAmong (above : Lineage) (underDocument isFirst : Bool) :
    List (Outline κ) → List (κ × Lineage)
  | [] => []
  | e :: es =>
    e.seated above underDocument isFirst es.isEmpty ++ seatedAmong above underDocument false es

end

/-- Where a query starts: the lineage of the node, whether the node is a document, and the elements
among its children. -/
structure Scope (κ : Type) where
  lineage : Lineage
  isDocument : Bool
  children : List (Outline κ)

/-- All elements inside the node where a query starts, in document order. -/
def Scope.elements (s : Scope κ) : List (κ × Lineage) :=
  seatedAmong s.lineage s.isDocument true s.children

/-- The elements that match a selector, in document order. -/
def Scope.select (s : Scope κ) (selector : Alternatives) : Except Fault (List κ) := do
  return (← s.elements.filterM fun (_, lineage) => holds selector lineage).map (·.1)

end Selector

end PageTemplate
