import PageTemplate.Value.Key
import PageTemplate.Value.Members
import PageTemplate.Value.Store

/-!
# PageTemplate.Value.Property

Reading and writing the properties of values. A property is looked for among the own ones of a
value, then among those of the value that it inherits from, and so on; the search ends at a family,
whose members all values of a kind share, or at nothing.
-/

namespace PageTemplate

namespace Property

/-- An indexed item, or the length, of a sequence. -/
def item? (length : Nat) (item : Nat → Option Value) (name : Text) : Option Value :=
  if name == Text.ofString "length" then some (.ofNat length)
  else (Key.index? name).bind item

/-- An own property of an object. -/
def ownOf? (id : ObjectId) (name : Text) : M (Option Value) := do
  match ← Store.cell id with
  | .record _ properties => return Assoc.find? name properties
  | .array items extra =>
    return (item? items.length (fun i => (items[i]?).join) name).or (Assoc.find? name extra)
  | .sparseArray length items extra =>
    return (item? length items.find? name).or (Assoc.find? name extra)
  | .map _ => return none
  | .set _ extra | .date _ extra => return Assoc.find? name extra
  | .handle node extra =>
    if name == Text.ofString "node" then return some node else return Assoc.find? name extra
  | .math extra =>
    return ((Assoc.find? name extra).or ((Assoc.find? name Members.mathConstants).map .number)).or
      ((Assoc.find? name Members.ofMath).map .function)
  | .json extra =>
    return (Assoc.find? name extra).or ((Assoc.find? name Members.ofJson).map .function)

/-- The names that functions carry. -/
def ownOfFunction? (f : Fn) (name : Text) : Option Value :=
  match f with
  | .construct c =>
    let constant :=
      if c == .number then (Assoc.find? name Members.numberConstants).map Value.number else none
    constant.or ((Assoc.find? name (Members.ofConstructor c)).map .function)
  | _ => none

/-- An own property of a value. -/
def own? (v : Value) (name : Text) : M (Option Value) := do
  match v with
  | .object id => ownOf? id name
  | .text t => return item? t.length (fun i => (t[i]?).map fun u => .text [u]) name
  | .function f => return ownOfFunction? f name
  | _ => return none

/-- Where the search for a property goes on after the own ones. -/
inductive Ancestry where
  | value (v : Value)
  | family (f : Family)
  | nothing
  deriving Repr

/-- Where an object inherits from. -/
def ancestryOf (id : ObjectId) : M Ancestry := do
  match ← Store.cell id with
  | .record (.value v) _ => return .value v
  | .record .none _ => return .nothing
  | .record .object _ | .record .pageClass _ | .math _ | .json _ =>
    return .family .plain
  | .array .. | .sparseArray .. => return .family .array
  | .map _ => return .family .map
  | .set .. => return .family .set
  | .date .. => return .family .date
  | .handle .. => return .family .handle

/-- Where a value inherits from. -/
def ancestry (v : Value) : M Ancestry := do
  match v with
  | .undefined | .null => return .nothing
  | .bool _ => return .family .bool
  | .number _ => return .family .number
  | .bigint _ => return .family .bigint
  | .text _ => return .family .text
  | .symbol .. => return .family .symbol
  | .function _ => return .family .function
  | .object id => ancestryOf id

/-- The family at the end of the ancestry of a value. -/
def familyWithin? : Nat → Value → M (Option Family)
  | 0, _ => return none
  | n + 1, v => do
    match ← ancestry v with
    | .value w => familyWithin? n w
    | .family f => return some f
    | .nothing => return none

/-- The family of a value; `none` when it inherits nothing at all. -/
def family? (v : Value) : M (Option Family) := do familyWithin? (← Store.depth) v

/-- What is found under the name of a property: a value that can be replaced or one that is fixed,
or something computed. -/
inductive Found where
  | value (v : Value) (isFixed : Bool)
  | accessor (a : Members.Accessor)

/-- Whether an own property of a value is fixed: the mathematical constants and the limits of
numbers are. -/
def isFixed (v : Value) (name : Text) : M Bool := do
  match v with
  | .object id =>
    match ← Store.cell id with
    | .math _ => return Assoc.has name Members.mathConstants
    | _ => return false
  | .function (.construct .number) => return Assoc.has name Members.numberConstants
  | _ => return false

/-- A member that a family shares. -/
def shared? (f : Family) (name : Text) : Option Found :=
  match Assoc.find? name f.accessors with
  | some a => some (.accessor a)
  | none =>
    ((Assoc.find? name f.members).or (Assoc.find? name Members.ofObjects)).map fun f =>
      .value (.function f) false

/-- A property of a value along its ancestry. -/
def searchWithin? : Nat → Value → Text → M (Option Found)
  | 0, _, _ => return none
  | n + 1, v, name => do
    match ← own? v name with
    | some p => return some (.value p (← isFixed v name))
    | none =>
      match ← ancestry v with
      | .value w => searchWithin? n w name
      | .family f => return shared? f name
      | .nothing => return none

/-- What a value has under a name, own or inherited. -/
def search? (v : Value) (name : Text) : M (Option Found) := do
  searchWithin? (← Store.depth) v name

/-- The value of a property, own or inherited; computed ones are computed on the value itself. -/
def find? (v : Value) (name : Text) : M (Option Value) := do
  match ← search? v name with
  | some (.value p _) => return some p
  | some (.accessor a) => return some (← M.call a.getter v [])
  | none => return none

/-- The value of a property, undefined when there is none. An absent value has no properties to
read. -/
def get (v : Value) (name : Text) : M Value := do
  if v.isNullish then M.typeError
  return .ofOption (← find? v name)

/-- Whether a value has a property, own or inherited. -/
def has (v : Value) (name : Text) : M Bool := do return (← search? v name).isSome

/-- The own properties of a value that are listed, in their order. -/
def ownEntries (v : Value) : M (List (Text × Value)) := do
  match v with
  | .object id =>
    match ← Store.cell id with
    | .record _ properties => return Key.inOrder properties
    | .array items extra => return indexed (.ofList items) ++ Key.inOrder extra
    | .sparseArray _ items extra => return indexed items ++ Key.inOrder extra
    | .handle node extra => return Key.inOrder ((Text.ofString "node", node) :: extra)
    | .set _ extra | .date _ extra | .math extra | .json extra => return Key.inOrder extra
    | .map _ => return []
  | .text t => return indexed (.ofList (t.map fun u => some (.text [u])))
  | .undefined | .null => M.typeError
  | _ => return []
where
  indexed (items : Places) : List (Text × Value) := items.map fun (i, v) => (Text.ofNat i, v)

/-- An array with an item put at a position, with holes before it where the array was shorter. -/
def withItem (i : Nat) (value : Value) (items : List (Option Value)) (extra : Properties) :
    Cell :=
  if i < items.length then .array (items.set i (some value)) extra
  else if i < Store.maxListed then
    .array (items ++ List.replicate (i - items.length) none ++ [some value]) extra
  else .sparseArray (i + 1) (Places.put i value (.ofList items)) extra

/-- An array of another length: further items are dropped, missing ones are holes. -/
def withLength (length : Nat) : Cell → Cell
  | .array items extra => Store.arrayCell length (.ofList items) extra
  | .sparseArray _ items extra => Store.arrayCell length items extra
  | c => c

/-- The length that a value gives to an array. -/
def lengthOf (v : Value) : M Nat := do
  match v with
  | .number x =>
    match Number.toInt? x with
    | some n =>
      if Number.isWhole x && 0 ≤ n && n ≤ Store.maxArrayLength then return n.toNat
      else M.failLibrary .rangeError
    | none => M.failLibrary .rangeError
  | _ => M.failLibrary .rangeError

/-- Sets a property of an array. The length has to be brought into a number before. -/
def setInArray (id : ObjectId) (c : Cell) (name : Text) (value : Value) : M Unit := do
  if name == Text.ofString "length" then Store.setCell id (withLength (← lengthOf value) c)
  else
    match c, Key.index? name with
    | .array items extra, some i => Store.setCell id (withItem i value items extra)
    | .array items extra, none => Store.setCell id (.array items (Assoc.put name value extra))
    | .sparseArray length items extra, some i =>
      Store.setCell id (.sparseArray (max length (i + 1)) (items.put i value) extra)
    | .sparseArray length items extra, none =>
      Store.setCell id (.sparseArray length items (Assoc.put name value extra))
    | _, _ => return

/-- Sets an own property of an object. Yields whether the object let it be set. -/
def setOwn (id : ObjectId) (name : Text) (value : Value) : M Bool := do
  match ← Store.cell id with
  | .record proto properties =>
    Store.setCell id (.record proto (Assoc.put name value properties))
    return true
  | .array items extra =>
    setInArray id (.array items extra) name value
    return true
  | .sparseArray length items extra =>
    setInArray id (.sparseArray length items extra) name value
    return true
  | .set items extra =>
    Store.setCell id (.set items (Assoc.put name value extra))
    return true
  | .date time extra =>
    Store.setCell id (.date time (Assoc.put name value extra))
    return true
  | .handle node extra =>
    if name == Text.ofString "node" then Store.setCell id (.handle value extra)
    else Store.setCell id (.handle node (Assoc.put name value extra))
    return true
  | .math extra =>
    Store.setCell id (.math (Assoc.put name value extra))
    return true
  | .json extra =>
    Store.setCell id (.json (Assoc.put name value extra))
    return true
  | .map _ => return false

/-- Sets a property of an object: a computed one by what sets it, any other one as an own property.
Yields whether it could be set. -/
def set (id : ObjectId) (name : Text) (value : Value) : M Bool := do
  match ← search? (.object id) name with
  | some (.accessor ⟨_, none⟩) => return false
  | some (.accessor ⟨_, some setter⟩) =>
    let _ ← M.call setter (.object id) [value]
    return true
  | some (.value _ true) => return false
  | some (.value _ false) | none => setOwn id name value

/-- Removes an own property of an object. -/
def erase (id : ObjectId) (name : Text) : M Unit := do
  match ← Store.cell id with
  | .record proto properties => Store.setCell id (.record proto (Assoc.erase name properties))
  | .set items extra => Store.setCell id (.set items (Assoc.erase name extra))
  | .date time extra => Store.setCell id (.date time (Assoc.erase name extra))
  | .handle node extra => Store.setCell id (.handle node (Assoc.erase name extra))
  | .math extra => Store.setCell id (.math (Assoc.erase name extra))
  | .json extra => Store.setCell id (.json (Assoc.erase name extra))
  | .array items extra =>
    match Key.index? name with
    | some i => Store.setCell id (.array (items.set i none) extra)
    | none => Store.setCell id (.array items (Assoc.erase name extra))
  | .sparseArray length items extra =>
    match Key.index? name with
    | some i => Store.setCell id (.sparseArray length (items.erase i) extra)
    | none => Store.setCell id (.sparseArray length items (Assoc.erase name extra))
  | .map _ => return

end Property

end PageTemplate
