import PageTemplate.Selector.Match
import PageTemplate.Tree.Edit

/-!
# PageTemplate.Tree.Query

Queries on trees in the store: by selector and by id. A query goes down by child lists, while a
selector looks up by parent links. In a tree the two agree; an object that only passes for a node
may be found in one place and say that it belongs to another.
-/

namespace PageTemplate

namespace Tree

open Selector (Facts Seat Lineage Outline AttributeValue)

/-- The text that a value is, if it is one. -/
def textOf? : Value → Option Text
  | .text t => some t
  | _ => none

/-- The attributes of an element that can be asked for by name. -/
def namedAttributes? (v : Value) : M (Option (List (Value × Value))) := do
  match ← Property.find? v "attributes" with
  | some list => return (← mapEntries? list).map fun (_, entries) => entries.live
  | none => return none

/-- The value of an attribute as selectors see it; an undefined one is not there. -/
def attributeValue? : Value → Option AttributeValue
  | .text t => some (.text t)
  | .undefined => none
  | .null => some .null
  | _ => some .other

/-- What selectors can ask of an element of the store. -/
def facts (v : Value) : M Facts := do
  let entries ← namedAttributes? v
  return ⟨textOf? (← tag v), entries.map fun entries => entries.filterMap fun (name, value) =>
    match name with
    | .text name => (attributeValue? value).map (name, ·)
    | _ => none⟩

/-- What an action answers; `none` when it fails. -/
def answer? (action : M Bool) : M (Option Bool) :=
  tryCatch (do return some (← action)) fun _ => return none

/-- An element with the place among its siblings that its parent link leads to. -/
def seat (v : Value) : M Seat := do
  let facts ← facts v
  match ← parent v with
  | .null => return ⟨facts, some false, some false, some false⟩
  | p =>
    let underDocument ← answer? do return (← kind? p) == some .document
    let isFirst ← answer? do return (← elementChildren p).head?.any (·.strictlyEqual v)
    let isLast ← answer? do
      if !p.isTruthy then return false
      return (← elementChildren p).getLast?.any (·.strictlyEqual v)
    return ⟨facts, underDocument, isFirst, isLast⟩

/-- An element and the elements around it; nothing for a node of another kind. -/
def lineageWithin : Nat → Value → M Lineage
  | 0, _ => return []
  | n + 1, v => do
    if ← isElement v then
      let s ← seat v
      let above ← lineageWithin n (← parent v)
      return s :: above
    else return []

def lineage (v : Value) : M Lineage := do lineageWithin (← Store.depth) v

/-- Whether a node keeps its children in an array. -/
def isOrdered (container : Value) : M Bool := do
  Store.isArray (← Property.get container "childNodes")

/-- Whether the place of an element is the one where it is found: its parent link says so, and it is
there once. `siblings` are the elements in that place. -/
def isSettled (container : Value) (siblings : List Value) (v : Value) : M Bool := do
  if !(← parent v).strictlyEqual container then return false
  return (siblings.filter (·.strictlyEqual v)).length == 1

/-- The tree of elements inside an element or another node with children. -/
def outlinesWithin : Nat → Value → M (List (Outline Value))
  | 0, _ => M.failLibrary .rangeError
  | n + 1, container => do
    let siblings ← (← children container).filterM isElement
    let ordered ← isOrdered container
    siblings.mapM fun v => do
      if ordered && (← isSettled container siblings v) then
        return .element v (← facts v) (← outlinesWithin n v)
      else return .stray v (← lineage v) (← outlinesWithin n v)

/-- A node as the place where a query starts. -/
def scope (root : Value) : M (Selector.Scope Value) := do
  let inner ← outlinesWithin (← Store.depth) root
  return ⟨← lineage root, (← kind? root) == some .document, inner⟩

/-- All elements inside a node that match a selector, in document order. -/
def selectAll (root : Value) (selector : Text) : M (List Value) := do
  let selector ← (Selector.read selector : Except Fault _)
  (← scope root).select selector

/-- The first element inside a node that matches a selector. -/
def select? (root : Value) (selector : Text) : M (Option Value) := do
  return (← selectAll root selector).head?

/-- Whether an element matches a selector. -/
def matchesSelector (v : Value) (selector : Text) : M Bool := do
  let selector ← (Selector.read selector : Except Fault _)
  Selector.holds selector (← lineage v)

/-- The first answer that an action gives for one of several values. -/
def firstAnswer (action : Value → M (Option Value)) : List Value → M (Option Value)
  | [] => return none
  | v :: vs => do
    match ← action v with
    | some answer => return some answer
    | none => firstAnswer action vs

/-- The first element inside a node with an id. -/
def findByIdWithin? (id : Value) : Nat → Value → M (Option Value)
  | 0, _ => M.failLibrary .rangeError
  | n + 1, root => do
    firstAnswer (fun v => do
      if !(← isElement v) then return none
      else if (← getAttribute v (.text "id")).strictlyEqual id then return some v
      else findByIdWithin? id n v) (← children root)

/-- The first element inside a node with an id. -/
def findById? (root id : Value) : M (Option Value) := do
  findByIdWithin? id (← Store.depth) root

end Tree

end PageTemplate
