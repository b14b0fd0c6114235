import PageTemplate.Value.Convert

/-!
# PageTemplate.Value.Sequence

Values as sequences. Every value with a length passes for a sequence of the properties that are
named by positions; an array is one by its items. What can be iterated over yields its items one
after another.
-/

namespace PageTemplate

namespace Sequence

/-- The number of items that a value says it has, at most the largest safe integer. -/
def length (v : Value) : M Nat := do
  match ← Store.arrayLength? v with
  | some length => return length
  | none =>
    let x ← Convert.toWhole (← Property.get v "length")
    return Convert.clampNat 0 Number.maxSafeInteger x

/-- The item at a position as it is now; `none` for a hole or no such position. -/
def item? (v : Value) (i : Nat) : M (Option Value) := do
  match ← Store.arrayItems? v with
  | some items => return (items[i]?).join
  | none => Property.find? v (Text.ofNat i)

/-- The items at `count` positions from `start` on; holes are `none`. -/
def range (v : Value) (start count : Nat) : M (List (Option Value)) := do
  match ← Store.arrayItems? v with
  | some items =>
    let items := (items.drop start).take count
    return items ++ List.replicate (count - items.length) none
  | none => do (← Store.positions start count).mapM (item? v)

/-- The items of a value; holes are `none`. -/
def items (v : Value) : M (List (Option Value)) := do range v 0 (← length v)

/-- Sets a property, which must let itself be set. -/
def put (v : Value) (name : Text) (value : Value) : M Unit := do
  match v with
  | .object id => if ← Property.set id name value then return else M.typeError
  | _ => M.typeError

/-- Puts an item at a position. -/
def putAt (v : Value) (i : Nat) (item : Value) : M Unit := put v (Text.ofNat i) item

/-- Says how many items a value has. -/
def putLength (v : Value) (length : Nat) : M Unit := put v "length" (.ofNat length)

/-- Removes what a value itself has at a position. -/
def removeAt (v : Value) (i : Nat) : M Unit := do
  match v with
  | .object id => Property.erase id (Text.ofNat i)
  | _ => M.typeError

/-- The characters of a text, each as a text. -/
def characters (t : Text) : List Value :=
  t.codePoints.map fun n => .text (Text.ofCodePoint n)

/-- Whether a value can be iterated over. -/
def isIterable (v : Value) : M Bool := do
  match ← Property.family? v with
  | some .text | some .array | some .map | some .set => return true
  | _ => return false

/-- What an iteration meets at a place of a value. -/
inductive Turn where
  | done
  /-- The place of something that was removed. -/
  | vacant
  | item (v : Value)

/-- What is at a place of an object as it is now: the item of a sequence that is like an array, with
holes as undefined, the entry of a map, the member of a set. -/
def turn (v : Value) (place : Nat) : M Turn := do
  let id ← match v with
    | .object id => pure id
    | _ => M.typeError
  match ← Store.cell id with
  | .map entries =>
    match entries[place]? with
    | none => return .done
    | some none => return .vacant
    | some (some (k, w)) => return .item (← Store.newArray [k, w])
  | .set members _ =>
    match members[place]? with
    | none => return .done
    | some none => return .vacant
    | some (some (k, _)) => return .item k
  | _ =>
    if (← Property.family? v) != some .array then M.typeError
    if place < (← length v) then return .item (.ofOption (← item? v place)) else return .done

/-- Goes on from a place; `done` holds the results so far, the latest first. -/
def visitFrom {α : Type} (v : Value) (action : Value → Nat → M α) :
    Nat → Nat → List α → M (List α)
  | 0, _, _ => M.failLibrary .rangeError
  | n + 1, place, done => do
    match ← turn v place with
    | .done => return done.reverse
    | .vacant => visitFrom v action n (place + 1) done
    | .item item => visitFrom v action n (place + 1) ((← action item done.length) :: done)

/-- Iterates over a value: an action is given every item and how many came before it. Items that
are added on the way take part, and those removed before their turn do not. -/
def visit {α : Type} (v : Value) (action : Value → Nat → M α) : M (List α) := do
  match v with
  | .text t => (characters t).zipIdx.mapM fun (c, i) => action c i
  | v => visitFrom v action Store.maxListed 0 []

/-- The items that iterating over a value yields: the items of a sequence that is like an array,
with holes as undefined, the entries of a map, the members of a set, the characters of a text. -/
def iterate (v : Value) : M (List Value) := do
  match v with
  | .text t => return characters t
  | .object id =>
    match ← Store.cell id with
    | .map entries => entries.live.mapM fun (k, v) => Store.newArray [k, v]
    | .set members _ => return members.keys
    | _ =>
      if (← Property.family? v) == some .array then
        return (← items v).map Value.ofOption
      else M.typeError
  | _ => M.typeError

end Sequence

end PageTemplate
