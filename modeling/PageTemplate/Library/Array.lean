import PageTemplate.Library.ArrayLike
import PageTemplate.Library.Sort
import PageTemplate.Library.Text

/-!
# PageTemplate.Library.Array

The methods of arrays. They work on every value with a length, but an array is changed as a whole. A
method that calls a function for the items asks the receiver for each item when its turn comes, so
it sees what the calls before have changed; the number of turns is settled at the start. Holes are
passed over where a method says so and are undefined elsewhere.
-/

namespace PageTemplate

namespace Library

/-- A new array that may have holes. -/
def newSparseArray (items : List (Option Value)) : M Value := do
  return .object (← Store.alloc (.array items []))

/-- A function among the arguments. -/
def expectFunction (v : Value) : M Fn :=
  match v with
  | .function f => return f
  | _ => M.typeError

/-- Calls a function for one item. -/
def visit (this : Value) (arguments : List Value) (item : Value) (i : Nat) : M Value := do
  let f ← expectFunction (argument arguments 0)
  M.call f (argument arguments 1) [item, .ofNat i, this]

/-- Calls a function for the items in order, holes passed over, and yields for each position the
item and the result. -/
def visitEach (this : Value) (arguments : List Value) (length : Nat) :
    M (List (Option (Value × Value))) := do
  (← Store.positions 0 length).mapM fun i => do
    match ← Sequence.item? this i with
    | some item => return some (item, ← visit this arguments item i)
    | none => return none

/-- A way through positions: the next one, given how many come behind it. -/
abbrev Way := Nat → Nat

/-- From the first of a number of positions to the last one. -/
def forwards (length : Nat) : Way := fun n => length - 1 - n

/-- From the last position to the first one. -/
def backwards : Way := fun n => n

/-- The first position on a way at which a function yields truth. With `holes`, holes count as
undefined; otherwise they are passed over. -/
def search (this : Value) (arguments : List Value) (holes : Bool) (way : Way) :
    Nat → M (Option (Nat × Value))
  | 0 => return none
  | n + 1 => do
    let item ← Sequence.item? this (way n)
    if item.isNone && !holes then search this arguments holes way n
    else
      let item := Value.ofOption item
      if (← visit this arguments item (way n)).isTruthy then return some (way n, item)
      else search this arguments holes way n

/-- Whether there is a position on a way at which a function does not yield truth, holes passed
over. -/
def searchFailure (this : Value) (arguments : List Value) (way : Way) : Nat → M Bool
  | 0 => return false
  | n + 1 => do
    match ← Sequence.item? this (way n) with
    | none => searchFailure this arguments way n
    | some item =>
      if (← visit this arguments item (way n)).isTruthy then searchFailure this arguments way n
      else return true

/-- The first position on a way that a test accepts the item of. -/
def seek (this : Value) (test : Option Value → Bool) (way : Way) : Nat → M (Option Nat)
  | 0 => return none
  | n + 1 => do
    if test (← Sequence.item? this (way n)) then return some (way n) else seek this test way n

/-- Folds the items on a way into an accumulator. -/
def foldItems (this : Value) (f : Fn) (way : Way) (acc : Value) : Nat → M Value
  | 0 => return acc
  | n + 1 => do
    match ← Sequence.item? this (way n) with
    | none => foldItems this f way acc n
    | some item => do
      let acc ← M.call f .undefined [acc, item, .ofNat (way n), this]
      foldItems this f way acc n

/-- Folds the items on a way into the first of them that is no hole. -/
def foldRest (this : Value) (f : Fn) (way : Way) : Nat → M Value
  | 0 => M.typeError
  | n + 1 => do
    match ← Sequence.item? this (way n) with
    | none => foldRest this f way n
    | some item => foldItems this f way item n

/-- Folds items; without a start the first item that is no hole is the start. -/
def reduce (this : Value) (way : Way) (length : Nat) (arguments : List Value) :
    M Value := do
  let f ← expectFunction (argument arguments 0)
  match arguments with
  | _ :: start :: _ => foldItems this f way start length
  | _ => foldRest this f way length

/-- Items with the items of arrays among them in their place, to a depth. Holes in those arrays are
dropped. -/
def flatten : Nat → Nat → List Value → M (List Value)
  | 0, _, _ => M.failLibrary .rangeError
  | n + 1, depth, items => do
    let parts ← items.mapM fun v => do
      match ← Store.arrayPlaces? v, depth with
      | some inner, d + 1 => flatten n d (inner.map (·.2))
      | _, _ => return [v]
    return parts.flatten

/-- Runs an action as a part of joining the texts of a receiver; one inside itself has no text. -/
def unlessJoining (this : Value) (action : M Text) : M Text := do
  match this with
  | .object id => if ← Store.isJoining id then return [] else Store.whileJoining id action
  | _ => action

/-- The texts of the items with a separator between them. -/
def join (this : Value) (length : Nat) (separator : Value) : M Value := do
  let separator ← match separator with
    | .undefined => pure [unit ',']
    | v => Convert.toText v
  let texts : M (List Text) := do
    (← Sequence.range this 0 length).mapM fun item => Convert.toJoined (.ofOption item)
  return .text (← unlessJoining this do
    let texts ← texts
    let units := texts.foldl (fun n t => n + t.length) 0
    checkTextLength (units + separator.length * (texts.length - 1))
    return Text.join separator texts)

/-- Sorts the items of a receiver. Holes come last. -/
def sort (this : Value) (length : Nat) (compare : Comparison) : M Unit := do
  let items ← Sequence.range this 0 length
  let sorted ← sortDefined compare (items.filterMap fun item => item)
  match this, ← Store.arrayItems? this with
  | .object id, some _ =>
    Store.setArrayItems id (sorted.map some ++ List.replicate (length - sorted.length) none)
  | this, _ => ArrayLike.putSorted this length sorted

/-- The comparison that an argument asks for: texts are compared when there is none. -/
def comparisonOf (v : Value) : M Comparison :=
  match v with
  | .undefined => return compareTexts
  | .function f => return compareBy f
  | _ => M.typeError

/-- How many items a splice removes. -/
def spliceCount (available : Nat) (arguments : List Value) : M Nat := do
  match arguments with
  | [] => return 0
  | [_] => return available
  | _ :: v :: _ => return Convert.clampNat 0 available (← Convert.toWhole v)

/-- A position as a number; -1 for none. -/
def positionNumber (i : Option Nat) : Value := .number (i.elim (-1.0) Number.ofNat)

/-- The number of positions from the start up to the one where a search backwards begins. -/
def lastCount (length : Nat) (arguments : List Value) : M Nat := do
  match arguments with
  | _ :: v :: _ =>
    let x ← Convert.toWhole v
    let x := if x < 0.0 then Number.ofNat length + x else x
    return if x < 0.0 then 0 else min length (Convert.clampNat 0 length x + 1)
  | _ => return length

/-- The text of an array that joins in its own way, or of one that cannot join. -/
def arrayText (this : Value) : M Value := do
  match ← Property.get this "join" with
  | .function f => M.call f this []
  | _ => M.call (.object .toText) this []

/-- Calls a method that changes its receiver. -/
def change (m : ArrayMethod) (this : Value) (length : Nat) (arguments : List Value) :
    M Value := do
  match m, this, ← Store.arrayItems? this with
  | .pop, .object id, some items =>
    Store.setArrayItems id items.dropLast
    return .ofOption items.getLast?.join
  | .pop, this, _ => ArrayLike.pop this length
  | .push, .object id, some items =>
    Store.setArrayItems id (items ++ arguments.map some)
    return .ofNat (length + arguments.length)
  | .push, this, _ => ArrayLike.push this length arguments
  | .shift, .object id, some items =>
    Store.setArrayItems id (items.drop 1)
    return .ofOption items.head?.join
  | .shift, this, _ => ArrayLike.shift this length
  | .unshift, .object id, some items =>
    Store.setArrayItems id (arguments.map some ++ items)
    return .ofNat (length + arguments.length)
  | .unshift, this, _ => ArrayLike.unshift this length arguments
  | .reverse, .object id, some items =>
    Store.setArrayItems id items.reverse
    return this
  | .reverse, this, _ =>
    ArrayLike.reverse this length
    return this
  | _, _, _ => M.typeError

/-- Puts an item at the positions of a range. -/
def fill (this : Value) (length : Nat) (arguments : List Value) : M Value := do
  let item := argument arguments 0
  let start ← Convert.positionOr length 0 (argument arguments 1)
  let stop ← Convert.positionOr length length (argument arguments 2)
  match this, ← Store.arrayItems? this with
  | .object id, some items =>
    Store.setArrayItems id (items.take start ++ List.replicate (stop - start) (some item) ++
      items.drop (max start stop))
  | this, _ => ArrayLike.fill this item start stop
  return this

/-- Puts items in the place of others; yields the ones that were there. -/
def splice (this : Value) (length : Nat) (arguments : List Value) : M Value := do
  let start ← Convert.positionOr length 0 (argument arguments 0)
  let count ← spliceCount (length - start) arguments
  let inserted := arguments.drop 2
  match this, ← Store.arrayItems? this with
  | .object id, some items =>
    Store.setArrayItems id (items.take start ++ inserted.map some ++ items.drop (start + count))
    newSparseArray ((items.drop start).take count)
  | this, _ => do newSparseArray (← ArrayLike.splice this length start count inserted)

/-- The items of arrays, and other values as they are, one after another. -/
def concat (this : Value) (arguments : List Value) : M Value := do
  let parts ← (this :: arguments).mapM fun v => do
    match ← Store.arrayLength? v, ← Store.arrayPlaces? v with
    | some length, some items => return (length, items)
    | _, _ => return (1, [(0, v)])
  let (length, items) := parts.foldl (fun (length, items) (count, more) =>
    (length + count, items ++ more.moveUp length)) ((0, []) : Nat × Places)
  Store.newPlaces length items

/-- Fails for a length that a new array cannot have. -/
def checkNewLength (length : Nat) : M Unit :=
  if Store.maxArrayLength < length then M.failLibrary .rangeError else return

/-- Calls a method of arrays. -/
def callArray (m : ArrayMethod) (this : Value) (arguments : List Value) : M Value := do
  let arg := argument arguments
  if m == .sort then discard (comparisonOf (arg 0))
  if this.isNullish then M.typeError
  if m == .toText then arrayText this
  else if m == .concat then concat this arguments
  else
  let length ← Sequence.length this
  let position (i default : Nat) : M Nat := Convert.positionOr length default (arg i)
  let isSought (item : Option Value) : Bool := item.any (·.strictlyEqual (arg 0))
  match m with
  | .toText => arrayText this
  | .pop | .push | .shift | .unshift | .reverse => change m this length arguments
  | .fill => fill this length arguments
  | .splice => splice this length arguments
  | .sort =>
    sort this length (← comparisonOf (arg 0))
    return this
  | .itemAt =>
    let x ← Convert.toWhole (arg 0)
    let i := if x < 0.0 then Number.ofNat length + x else x
    if i < 0.0 || i >= Number.ofNat length then return .undefined
    return .ofOption (← Sequence.item? this (Convert.clampNat 0 length i))
  | .concat => concat this arguments
  | .every =>
    let _ ← expectFunction (arg 0)
    return .bool !(← searchFailure this arguments (forwards length) length)
  | .some =>
    let _ ← expectFunction (arg 0)
    return .bool (← search this arguments false (forwards length) length).isSome
  | .filter =>
    let _ ← expectFunction (arg 0)
    let results ← visitEach this arguments length
    Store.newArray (results.filterMap fun r => r.bind fun (item, kept) =>
      if kept.isTruthy then some item else none)
  | .find =>
    let _ ← expectFunction (arg 0)
    return .ofOption ((← search this arguments true (forwards length) length).map (·.2))
  | .findIndex =>
    let _ ← expectFunction (arg 0)
    return positionNumber ((← search this arguments true (forwards length) length).map (·.1))
  | .findLast =>
    let _ ← expectFunction (arg 0)
    return .ofOption ((← search this arguments true backwards length).map (·.2))
  | .findLastIndex =>
    let _ ← expectFunction (arg 0)
    return positionNumber ((← search this arguments true backwards length).map (·.1))
  | .flat =>
    let depth ← match arg 0 with
      | .undefined => pure 1
      | v => do pure (Convert.clampNat 0 (Nat.pow 2 53) (← Convert.toWhole v))
    let items ← Sequence.range this 0 length
    Store.newArray (← flatten (← Store.depth) depth (items.filterMap fun item => item))
  | .flatMap =>
    let _ ← expectFunction (arg 0)
    let results ← visitEach this arguments length
    Store.newArray (← flatten 2 1 (results.filterMap fun r => r.map (·.2)))
  | .forEach =>
    let _ ← expectFunction (arg 0)
    let _ ← visitEach this arguments length
    return .undefined
  | .includes =>
    if length == 0 then return .bool false
    let start ← position 1 0
    let isSame (item : Option Value) : Bool := (Value.ofOption item).same (arg 0)
    return .bool (← seek this isSame (forwards length) (length - start)).isSome
  | .indexOf =>
    if length == 0 then return .number (-1.0)
    let start ← position 1 0
    return positionNumber (← seek this isSought (forwards length) (length - start))
  | .lastIndexOf =>
    if length == 0 then return .number (-1.0)
    return positionNumber (← seek this isSought backwards (← lastCount length arguments))
  | .join => join this length (arg 0)
  | .map =>
    let _ ← expectFunction (arg 0)
    checkNewLength length
    let results ← visitEach this arguments length
    newSparseArray (results.map fun r => r.map (·.2))
  | .reduce => reduce this (forwards length) length arguments
  | .reduceRight => reduce this backwards length arguments
  | .slice =>
    let start ← position 0 0
    let stop ← position 1 length
    checkNewLength (stop - start)
    newSparseArray (← Sequence.range this start (stop - start))

end Library

end PageTemplate
