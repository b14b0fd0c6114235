import PageTemplate.Value.Sequence

/-!
# PageTemplate.Library.ArrayLike

Changing values that have a length and items by position without being arrays. Every item is read
and set as a property on its own, so what a value inherits counts as its item, and only what has to
be set becomes its own.
-/

namespace PageTemplate

namespace ArrayLike

/-- Fails for a length that cannot be told. -/
def checkLength (length : Nat) : M Unit :=
  if Number.maxSafeInteger < length then M.typeError else return

/-- Puts at a position what is at another one: the item, or nothing. -/
def move (v : Value) (source target : Nat) : M Unit := do
  match ← Sequence.item? v source with
  | some item => Sequence.putAt v target item
  | none => Sequence.removeAt v target

/-- Puts items at positions from a start on. -/
def putItems (v : Value) (start : Nat) (items : List Value) : M Unit :=
  items.zipIdx.forM fun (item, i) => Sequence.putAt v (start + i) item

/-- Adds items behind the last one; yields the new length. -/
def push (v : Value) (length : Nat) (items : List Value) : M Value := do
  checkLength (length + items.length)
  putItems v length items
  Sequence.putLength v (length + items.length)
  return .ofNat (length + items.length)

/-- Takes out the last item. -/
def pop (v : Value) (length : Nat) : M Value := do
  let item ← if length == 0 then pure .undefined
    else do
      let item ← Sequence.item? v (length - 1)
      Sequence.removeAt v (length - 1)
      pure (.ofOption item)
  Sequence.putLength v (length - 1)
  return item

/-- Takes out the first item; the others move up. -/
def shift (v : Value) (length : Nat) : M Value := do
  let first ← if length == 0 then pure .undefined
    else do
      let first ← Sequence.item? v 0
      (← Store.positions 0 (length - 1)).forM fun i => move v (i + 1) i
      Sequence.removeAt v (length - 1)
      pure (.ofOption first)
  Sequence.putLength v (length - 1)
  return first

/-- Adds items before the first one; yields the new length. -/
def unshift (v : Value) (length : Nat) (items : List Value) : M Value := do
  if !items.isEmpty then
    checkLength (length + items.length)
    (← Store.positions 0 length).reverse.forM fun i => move v i (i + items.length)
    putItems v 0 items
  Sequence.putLength v (length + items.length)
  return .ofNat (length + items.length)

/-- Exchanges what is at two positions. -/
def exchange (v : Value) (i j : Nat) : M Unit := do
  match ← Sequence.item? v i, ← Sequence.item? v j with
  | some a, some b =>
    Sequence.putAt v i b
    Sequence.putAt v j a
  | none, some b =>
    Sequence.putAt v i b
    Sequence.removeAt v j
  | some a, none =>
    Sequence.removeAt v i
    Sequence.putAt v j a
  | none, none => return

/-- Turns the order of the items around. -/
def reverse (v : Value) (length : Nat) : M Unit := do
  (← Store.positions 0 (length / 2)).forM fun i => exchange v i (length - 1 - i)

/-- Puts an item at all positions from `start` up to `stop`. -/
def fill (v item : Value) (start stop : Nat) : M Unit := do
  (← Store.positions start (stop - start)).forM fun i => Sequence.putAt v i item

/-- Puts items in the place of `count` items from `start` on; yields what was there. -/
def splice (v : Value) (length start count : Nat) (items : List Value) :
    M (List (Option Value)) := do
  checkLength (length + items.length - count)
  let removed ← Sequence.range v start count
  let behind := Store.positions (start + count) (length - (start + count))
  if items.length < count then
    (← behind).forM fun i => move v i (i - count + items.length)
    (← Store.positions (length - count + items.length) (count - items.length)).reverse.forM
      (Sequence.removeAt v)
  else if count < items.length then
    (← behind).reverse.forM fun i => move v i (i - count + items.length)
  putItems v start items
  Sequence.putLength v (length - count + items.length)
  return removed

/-- Puts sorted items at the first positions and nothing at the others. -/
def putSorted (v : Value) (length : Nat) (sorted : List Value) : M Unit := do
  putItems v 0 sorted
  (← Store.positions sorted.length (length - sorted.length)).forM (Sequence.removeAt v)

end ArrayLike

end PageTemplate
