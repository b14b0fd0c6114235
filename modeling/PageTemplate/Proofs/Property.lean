import PageTemplate.Proofs.Assoc
import PageTemplate.Proofs.Run
import PageTemplate.Value.Present

/-!
# PageTemplate.Proofs.Property

What is found under the name of a property. A record has what it holds itself, then what all objects
share or nothing more; a map and an array have what their family shares.
-/

namespace PageTemplate

/-- Whether the objects with an ancestry are objects without a class of their own. -/
inductive Proto.IsPlain : Proto → Prop where
  | object : IsPlain .object
  | none : IsPlain .none

/-- The member that a family shares under a name, what is computed apart. -/
def Family.member? (f : Family) (name : Text) : Option Value :=
  ((Assoc.find? name f.members).or (Assoc.find? name Members.ofObjects)).map .function

/-- What an object without a class of its own inherits under a name. -/
def Proto.member? (proto : Proto) (name : Text) : Option Value :=
  match proto with
  | .object => Family.plain.member? name
  | _ => .none

/-- What an object without a class of its own has under a name. -/
def Properties.member? (properties : Properties) (proto : Proto) (name : Text) : Option Value :=
  (Assoc.find? name properties).or (proto.member? name)

/-- What is set is there, and everything else is what it was. -/
theorem Properties.member?_put (properties : Properties) (proto : Proto) (key : Text) (v : Value)
    (name : Text) :
    Properties.member? (Assoc.put key v properties) proto name =
      if name = key then some v else properties.member? proto name := by
  rw [member?, member?]
  split
  · rename_i h
    rw [h, Assoc.find?_put_self, Option.some_or]
  · rename_i h
    rw [Assoc.find?_put_of_ne h]

namespace Property

section Search

variable {env : Env} {w : World} {v : Value} {name : Text}

/-- What is found and not computed is read. -/
theorem run'_get_member {m : Option Value}
    (h : M.run' env w (search? v name) = (.ok (m.map fun p => .value p false), w))
    (hv : v.isNullish = false) : M.run' env w (get v name) = (.ok (.ofOption m), w) := by
  cases m <;> simp [get, find?, M.run'_bind, h, hv, Value.ofOption]

theorem run'_get_none (h : M.run' env w (search? v name) = (.ok none, w))
    (hv : v.isNullish = false) : M.run' env w (get v name) = (.ok .undefined, w) :=
  run'_get_member (m := none) h hv

/-- A property that a value has not itself is one of its family. -/
theorem run'_search_shared {f : Family} (ho : M.run' env w (own? v name) = (.ok none, w))
    (ha : M.run' env w (ancestry v) = (.ok (.family f), w)) :
    M.run' env w (search? v name) = (.ok (shared? f name), w) := by
  rw [search?, M.run'_bind_ok Store.run'_depth, searchWithin?, M.run'_bind_ok ho,
    M.run'_bind_ok ha]
  rfl

/-- A member that is not computed can be replaced. -/
theorem shared?_eq_member? {f : Family} (h : Assoc.find? name f.accessors = none) :
    shared? f name = (f.member? name).map fun v => .value v false := by
  rw [shared?, h, Family.member?, Option.map_map]
  rfl

theorem run'_search_nothing (ho : M.run' env w (own? v name) = (.ok none, w))
    (ha : M.run' env w (ancestry v) = (.ok .nothing, w)) :
    M.run' env w (search? v name) = (.ok none, w) := by
  rw [search?, M.run'_bind_ok Store.run'_depth, searchWithin?, M.run'_bind_ok ho,
    M.run'_bind_ok ha]
  rfl

end Search

variable {env : Env} {w : World} {id : ObjectId} {proto : Proto} {properties : Properties}
  {name : Text} {v : Value}

/-! Records. -/

/-- An own property of a record is found in the record. -/
theorem run'_search_record (h : w.cell id = .record proto properties)
    (hv : Assoc.find? name properties = some v) :
    M.run' env w (search? (.object id) name) = (.ok (some (.value v false)), w) := by
  simp only [search?, M.run'_bind, Store.run'_depth, searchWithin?, own?, ownOf?,
    Store.run'_cell, h, M.run'_pure, hv, isFixed]

theorem run'_find_record (h : w.cell id = .record proto properties)
    (hv : Assoc.find? name properties = some v) :
    M.run' env w (find? (.object id) name) = (.ok (some v), w) := by
  simp [find?, M.run'_bind, run'_search_record h hv]

theorem run'_get_record (h : w.cell id = .record proto properties)
    (hv : Assoc.find? name properties = some v) :
    M.run' env w (get (.object id) name) = (.ok v, w) :=
  run'_get_member (m := some v) (run'_search_record h hv) rfl

/-- Setting an own property of a record changes the record. -/
theorem run'_set_record (h : w.cell id = .record proto properties)
    (hv : Assoc.find? name properties = some v) (v' : Value) :
    M.run' env w (set id name v') =
      (.ok true, w.setCell id (.record proto (Assoc.put name v' properties))) := by
  simp [set, M.run'_bind, run'_search_record h hv, setOwn, h]

theorem run'_family_record (h : w.cell id = .record .object properties) :
    M.run' env w (family? (.object id)) = (.ok (some .plain), w) := by
  rw [family?, M.run'_bind_ok Store.run'_depth]
  simp only [familyWithin?, ancestry, ancestryOf, M.run'_bind, Store.run'_cell, h]
  rfl

/-! Objects without a class of their own. -/

/-- What an object without a class of its own has can be replaced. -/
theorem run'_search_plain (hp : proto.IsPlain) (h : w.cell id = .record proto properties)
    (name : Text) :
    M.run' env w (search? (.object id) name) =
      (.ok ((properties.member? proto name).map fun v => .value v false), w) := by
  rw [Properties.member?]
  cases hv : Assoc.find? name properties with
  | some v => exact run'_search_record h hv
  | none =>
    have hown : M.run' env w (own? (.object id) name) = (.ok none, w) := by
      simp only [own?, ownOf?, M.run'_bind, Store.run'_cell, h, hv, M.run'_pure]
    cases hp with
    | object =>
      rw [Option.none_or]
      refine (run'_search_shared (f := .plain) hown ?_).trans
        (congrArg (fun found => (Except.ok found, w)) (shared?_eq_member? rfl))
      simp only [ancestry, ancestryOf, M.run'_bind, Store.run'_cell, h, M.run'_pure]
    | none =>
      refine run'_search_nothing hown ?_
      simp only [ancestry, ancestryOf, M.run'_bind, Store.run'_cell, h, M.run'_pure]

theorem run'_get_plain (hp : proto.IsPlain) (h : w.cell id = .record proto properties)
    (name : Text) :
    M.run' env w (get (.object id) name) =
      (.ok (.ofOption (properties.member? proto name)), w) :=
  run'_get_member (run'_search_plain hp h name) rfl

theorem run'_has_plain (hp : proto.IsPlain) (h : w.cell id = .record proto properties)
    (name : Text) :
    M.run' env w (has (.object id) name) = (.ok (properties.member? proto name).isSome, w) := by
  rw [has, M.run'_bind_ok (run'_search_plain hp h name), Option.isSome_map]
  rfl

/-- An object without a class of its own takes every property. -/
theorem run'_set_plain (hp : proto.IsPlain) (h : w.cell id = .record proto properties)
    (name : Text) (v : Value) :
    M.run' env w (set id name v) =
      (.ok true, w.setCell id (.record proto (Assoc.put name v properties))) := by
  have hown : M.run' env w (setOwn id name v) =
      (.ok true, w.setCell id (.record proto (Assoc.put name v properties))) := by
    simp [setOwn, M.run'_bind, h]
  rw [set, M.run'_bind_ok (run'_search_plain hp h name)]
  cases properties.member? proto name <;> exact hown

/-- No object without a class of its own is of another family. -/
theorem run'_isOf_plain (hp : proto.IsPlain) (h : w.cell id = .record proto properties)
    {f : Family} (hf : f ≠ .plain) :
    M.run' env w (Present.isOf f (.object id)) = (.ok false, w) := by
  have hfamily : ∃ found, M.run' env w (family? (.object id)) = (.ok found, w) ∧
      found ≠ some f := by
    cases hp with
    | object => exact ⟨_, run'_family_record h, fun he => hf (Option.some.inj he).symm⟩
    | none =>
      refine ⟨none, ?_, nofun⟩
      rw [family?, M.run'_bind_ok Store.run'_depth]
      simp only [familyWithin?, ancestry, ancestryOf, M.run'_bind, Store.run'_cell, h]
      rfl
  obtain ⟨found, hrun, hne⟩ := hfamily
  rw [Present.isOf, M.run'_bind_ok hrun]
  simp [hne, Value.isObject]

/-! Maps and arrays. -/

/-- What a map has under a name it has from the maps. -/
theorem run'_search_map {entries : Entries} (h : w.cell id = .map entries) (name : Text) :
    M.run' env w (search? (.object id) name) = (.ok (shared? .map name), w) := by
  refine run'_search_shared ?_ ?_
  · simp only [own?, ownOf?, M.run'_bind, Store.run'_cell, h]
    rfl
  · simp only [ancestry, ancestryOf, M.run'_bind, Store.run'_cell, h]
    rfl

/-- What an array has under a name that is no position, it has from the arrays. -/
theorem run'_search_array {items : List (Option Value)} (h : w.cell id = .array items [])
    (hlength : (name == Text.ofString "length") = false) (hindex : Key.index? name = none) :
    M.run' env w (search? (.object id) name) = (.ok (shared? .array name), w) := by
  refine run'_search_shared ?_ ?_
  · simp only [own?, ownOf?, item?, M.run'_bind, Store.run'_cell, h, hlength, hindex]
    rfl
  · simp only [ancestry, ancestryOf, M.run'_bind, Store.run'_cell, h]
    rfl

theorem run'_family_array {items : List (Option Value)} (h : w.cell id = .array items []) :
    M.run' env w (family? (.object id)) = (.ok (some .array), w) := by
  rw [family?, M.run'_bind_ok Store.run'_depth]
  simp only [familyWithin?, ancestry, ancestryOf, M.run'_bind, Store.run'_cell, h]
  rfl

/-- The family of an object that inherits from one. -/
theorem run'_family_object {f : Family}
    (h : M.run' env w (ancestryOf id) = (.ok (.family f), w)) :
    M.run' env w (family? (.object id)) = (.ok (some f), w) := by
  rw [family?, M.run'_bind_ok Store.run'_depth, familyWithin?]
  exact M.run'_bind_ok h

end Property

end PageTemplate
