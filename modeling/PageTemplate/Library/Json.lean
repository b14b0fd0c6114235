import PageTemplate.Library.Text
import PageTemplate.Value.Stringify

/-!
# PageTemplate.Library.Json

The functions of `JSON`.
-/

namespace PageTemplate

namespace Library

mutual

/-- Puts a JSON document into the store. -/
def plantJson : Json → M Value
  | .null => return .null
  | .bool b => return .bool b
  | .number x => return .number x
  | .text t => return .text t
  | .array items => do Store.newArray (← plantItems items)
  | .object members => do Store.newRecord (← plantMembers members)

def plantItems : List Json → M (List Value)
  | [] => return []
  | item :: items => do
    let v ← plantJson item
    let vs ← plantItems items
    return v :: vs

def plantMembers : List (Text × Json) → M Properties
  | [] => return []
  | (name, member) :: members => do
    let v ← plantJson member
    let vs ← plantMembers members
    return (name, v) :: vs

end

/-- Reads a JSON text. -/
def parseJson (t : Text) : M Value :=
  match Json.parse? t with
  | some document => plantJson document
  | none => M.failLibrary .syntaxError

/-- The keys that a list of replacements limits objects to. -/
def keyList (items : List (Option Value)) : M (List Text) := do
  let keys ← items.mapM fun item => do
    match item with
    | some (.text t) => return some t
    | some (.number x) => return some (Number.format x)
    | _ => return none
  return (keys.filterMap fun key => key).eraseDups

/-- The indentation that an argument gives: a number of blanks, or the text itself, ten units at
most. -/
def gapOf (v : Value) : Text :=
  match v with
  | .number x => List.replicate (Convert.clampNat 0 10 (Number.truncate x)) (unit ' ')
  | .text t => t.take 10
  | _ => []

/-- The style that the arguments of `stringify` give. -/
def styleOf (replacer gap : Value) : M Stringify.Style := do
  match replacer with
  | .function f =>
    return ⟨fun holder key v => M.call f holder [.text key, v], none, gapOf gap⟩
  | replacer =>
    match ← Store.listedItems? replacer with
    | some items => return ⟨fun _ _ v => return v, some (← keyList items), gapOf gap⟩
    | none => return ⟨fun _ _ v => return v, none, gapOf gap⟩

/-- Calls a function of `JSON`. -/
def callJson (f : JsonFunction) (arguments : List Value) : M Value := do
  match f with
  | .parse => parseJson (← Convert.toText (argument arguments 0))
  | .stringify =>
    let style ← styleOf (argument arguments 1) (argument arguments 2)
    return .ofOption ((← Stringify.write style (argument arguments 0)).map .text)

end Library

end PageTemplate
