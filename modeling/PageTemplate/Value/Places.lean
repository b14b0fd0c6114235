import PageTemplate.Assoc
import PageTemplate.Value.Basic

/-!
# PageTemplate.Value.Places

Items by position, with holes between them. An array that has far more holes than items is kept in
this way; the list of all its items would be as long as the array.
-/

namespace PageTemplate

/-- Items with their positions, which ascend. -/
abbrev Places := List (Nat × Value)

namespace Places

/-- The items of a list, of which `none` is a hole. -/
def ofList (items : List (Option Value)) : Places :=
  items.zipIdx.filterMap fun (item, i) => item.map (i, ·)

/-- The list of the items at the positions from `start` up to `stop`. -/
def toListFrom (start stop : Nat) : Places → List (Option Value)
  | [] => List.replicate (stop - start) none
  | (i, v) :: ps =>
    if i < stop then List.replicate (i - start) none ++ some v :: toListFrom (i + 1) stop ps
    else List.replicate (stop - start) none

/-- The list of the items at the first positions, `length` of them. -/
def toList (length : Nat) (ps : Places) : List (Option Value) := toListFrom 0 length ps

/-- The item at a position. -/
def find? (i : Nat) (ps : Places) : Option Value := Assoc.find? i ps

/-- Puts an item at a position. -/
def put (i : Nat) (v : Value) : Places → Places
  | [] => [(i, v)]
  | (j, w) :: ps =>
    if j < i then (j, w) :: put i v ps
    else if j == i then (i, v) :: ps
    else (i, v) :: (j, w) :: ps

/-- Leaves a hole at a position. -/
def erase (i : Nat) (ps : Places) : Places := Assoc.erase i ps

/-- The items before a position. -/
def before (stop : Nat) (ps : Places) : Places := ps.takeWhile fun (i, _) => i < stop

/-- The items with all positions moved up. -/
def moveUp (count : Nat) (ps : Places) : Places := ps.map fun (i, v) => (i + count, v)

end Places

end PageTemplate
