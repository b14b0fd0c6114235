import PageTemplate.Library.Text
import PageTemplate.Value.Sequence

/-!
# PageTemplate.Library.Collection

The methods of maps and sets. Their keys are compared by identity, with NaN equal to itself and
minus zero taken for zero.
-/

namespace PageTemplate

namespace Library

/-- The place and the entries of a receiver that must be a map. -/
def receiverMap (this : Value) : M (ObjectId × Entries) := do
  match this with
  | .object id =>
    match ← Store.cell id with
    | .map entries => return (id, entries)
    | _ => M.typeError
  | _ => M.typeError

/-- The place, the members and the own properties of a receiver that must be a set. -/
def receiverSet (this : Value) : M (ObjectId × Entries × Properties) := do
  match this with
  | .object id =>
    match ← Store.cell id with
    | .set members extra => return (id, members, extra)
    | _ => M.typeError
  | _ => M.typeError

/-- Calls a function for each entry from a place on, for those added meanwhile too, with the value,
the key and the collection. `entries` tells the entries as they are now. -/
def visitEntries (this : Value) (f : Fn) (receiver : Value) (entries : M Entries) :
    Nat → Nat → M Unit
  | 0, _ => M.failLibrary .rangeError
  | n + 1, place => do
    match (← entries)[place]? with
    | none => return
    | some none => visitEntries this f receiver entries n (place + 1)
    | some (some (key, value)) =>
      let _ ← M.call f receiver [value, key, this]
      visitEntries this f receiver entries n (place + 1)

/-- Calls the function among the arguments for each entry. -/
def forEachEntry (this : Value) (arguments : List Value) (entries : M Entries) :
    M Value := do
  match argument arguments 0 with
  | .function f =>
    visitEntries this f (argument arguments 1) entries Store.maxListed 0
    return .undefined
  | _ => M.typeError

/-- Calls a method of maps. -/
def callMap (m : MapMethod) (this : Value) (arguments : List Value) : M Value := do
  let (id, entries) ← receiverMap this
  let key := argument arguments 0
  match m with
  | .get => return .ofOption (entries.find? key)
  | .has => return .bool (entries.has key)
  | .size => return .ofNat entries.live.length
  | .set =>
    Store.setCell id (.map (entries.put key (argument arguments 1)))
    return this
  | .delete =>
    Store.setCell id (.map (entries.erase key))
    return .bool (entries.has key)
  | .clear =>
    Store.setCell id (.map entries.clear)
    return .undefined
  | .forEach => forEachEntry this arguments do return (← receiverMap this).2

/-- Calls a method of sets. -/
def callSet (m : SetMethod) (this : Value) (arguments : List Value) : M Value := do
  let (id, members, extra) ← receiverSet this
  let item := argument arguments 0
  match m with
  | .has => return .bool (members.has item)
  | .size => return .ofNat members.live.length
  | .add =>
    Store.setCell id (.set (members.add item) extra)
    return this
  | .delete =>
    Store.setCell id (.set (members.erase item) extra)
    return .bool (members.has item)
  | .clear =>
    Store.setCell id (.set members.clear extra)
    return .undefined
  | .forEach => forEachEntry this arguments do return (← receiverSet this).2.1

end Library

end PageTemplate
