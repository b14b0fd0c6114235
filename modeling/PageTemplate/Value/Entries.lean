import PageTemplate.Assoc
import PageTemplate.Value.Basic

/-!
# PageTemplate.Value.Entries

The entries of maps and sets, in the order in which their keys were added. Removing an entry leaves
its place empty, and new keys come behind all places. So whoever goes through the entries by place
meets each entry once, however the collection changes on the way.
-/

namespace PageTemplate

/-- The places of the entries of a collection; `none` is the place of one that was removed. -/
abbrev Entries := List (Option (Value × Value))

namespace Entries

/-- The entries that are there. -/
def live (es : Entries) : List (Value × Value) := es.filterMap fun e => e

/-- The keys that are there. -/
def keys (es : Entries) : List Value := es.live.map (·.1)

/-- The value of a key. -/
def find? (key : Value) (es : Entries) : Option Value := Assoc.find? key es.live

def has (key : Value) (es : Entries) : Bool := (es.find? key).isSome

/-- Binds a key: in its old place when it is there, behind all places when it is new. -/
def put (key value : Value) (es : Entries) : Entries :=
  if es.has key then
    es.map fun e => e.map fun (k, v) => if k == key then (k, value) else (k, v)
  else es ++ [some (key.asKey, value)]

/-- Adds a key that stands for itself. -/
def add (key : Value) (es : Entries) : Entries := es.put key key.asKey

/-- Removes a key. -/
def erase (key : Value) (es : Entries) : Entries :=
  es.map fun e => e.filter fun (k, _) => !(k == key)

/-- Removes all keys. -/
def clear (es : Entries) : Entries := es.map fun _ => none

/-- Entries bound one after another. -/
def ofList (entries : List (Value × Value)) : Entries :=
  entries.foldl (fun es (k, v) => es.put k v) []

/-- Keys added one after another. -/
def ofKeys (keys : List Value) : Entries := keys.foldl (fun es k => es.add k) []

end Entries

end PageTemplate
