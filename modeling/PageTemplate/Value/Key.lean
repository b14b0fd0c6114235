import PageTemplate.Number.Read
import PageTemplate.Text.Basic

/-!
# PageTemplate.Value.Key

Names of properties. A name that writes a whole number below 2^32 - 1 in its shortest form is an
index: indices come first among the names of an object, in ascending order.
-/

namespace PageTemplate

namespace Key

/-- The first number that is no index. -/
def indexLimit : Nat := Nat.pow 2 32 - 1

/-- The index that a name writes. -/
def index? (name : Text) : Option Nat :=
  match name with
  | [] => none
  | u :: rest =>
    if !name.all CodeUnit.isDigit || (u == unit '0' && !rest.isEmpty) || name.length > 10 then none
    else
      let n := Text.readNat 10 name
      if n < indexLimit then some n else none

variable {ν : Type}

/-- Named things in the order of properties: indices first and ascending, then the other names as
they stand. -/
def inOrder (named : List (Text × ν)) : List (Text × ν) :=
  let indexed := named.filterMap fun (name, v) => (index? name).map fun i => (i, name, v)
  let others := named.filter fun (name, _) => (index? name).isNone
  (indexed.mergeSort fun a b => a.1 ≤ b.1).map (·.2) ++ others

end Key

end PageTemplate
