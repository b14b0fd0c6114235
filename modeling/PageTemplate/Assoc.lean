/-!
# PageTemplate.Assoc

Lists of pairs with distinct keys, in the order in which the keys were first bound.
-/

namespace PageTemplate

namespace Assoc

variable {κ ν : Type} [BEq κ]

/-- The value of a key. -/
def find? (key : κ) : List (κ × ν) → Option ν
  | [] => none
  | (k, v) :: rest => if k == key then some v else find? key rest

/-- Binds a key: in its old place when it is there, at the end when it is new. -/
def put (key : κ) (value : ν) : List (κ × ν) → List (κ × ν)
  | [] => [(key, value)]
  | (k, v) :: rest => if k == key then (k, value) :: rest else (k, v) :: put key value rest

/-- Drops a key. -/
def erase (key : κ) (pairs : List (κ × ν)) : List (κ × ν) :=
  pairs.filter fun (k, _) => !(k == key)

/-- Whether a key is bound. -/
def has (key : κ) (pairs : List (κ × ν)) : Bool := (find? key pairs).isSome

/-- The pairs bound one after another. -/
def ofList (pairs : List (κ × ν)) : List (κ × ν) :=
  pairs.foldl (fun bound (k, v) => put k v bound) []

end Assoc

end PageTemplate
