import PageTemplate.Json
import PageTemplate.Value.Convert

/-!
# PageTemplate.Value.Stringify

Values as JSON text. A value may say itself what stands for it, then a replacement rule decides;
what has no JSON form is left out of objects and null in arrays. A value that contains itself has
no JSON text.
-/

namespace PageTemplate

namespace Stringify

/-- How values are written. -/
structure Style where
  /-- What stands for a value, given the object that holds it, its key and the value. -/
  replace : Value → Text → Value → M Value
  /-- The only keys of objects that are written, if they are limited. -/
  keys : Option (List Text)
  /-- What a level is indented by; nothing for everything on one line. -/
  gap : Text

/-- Pieces between brackets. -/
def bracketed (style : Style) (indent : Text) (opening closing : Char) (pieces : List Text) :
    Text :=
  if pieces.isEmpty then [unit opening, unit closing]
  else if style.gap.isEmpty then
    unit opening :: Text.join [unit ','] pieces ++ [unit closing]
  else
    let inner := indent ++ style.gap
    unit opening :: unit '\n' :: inner ++ Text.join ([unit ',', unit '\n'] ++ inner) pieces ++
      unit '\n' :: indent ++ [unit closing]

/-- A key and the text of its value. -/
def member (style : Style) (key value : Text) : Text :=
  Json.quote key ++ (if style.gap.isEmpty then ":" else ": ") ++ value

/-- What stands for a value: the result of its method `toJSON`, then that of the replacement. -/
def standIn (style : Style) (holder : Value) (key : Text) (v : Value) : M Value := do
  let own ← match v with
    | .object _ | .bigint _ | .function _ =>
      match ← Property.get v "toJSON" with
      | .function f => M.call f v [.text key]
      | _ => pure v
    | v => pure v
  style.replace holder key own

/-- The JSON text of a value under a key; `none` for a value that has none. `path` holds the
objects around it. -/
def writeWithin (style : Style) : Nat → List ObjectId → Text → Value → Text → Value →
    M (Option Text)
  | 0, _, _, _, _, _ => M.failLibrary .rangeError
  | n + 1, path, indent, holder, key, v => do
    match ← standIn style holder key v with
    | .null => return some "null"
    | .bool b => return some (if b then "true" else "false")
    | .text t => return some (Json.quote t)
    | .number x => return some (if x.isNaN || x.isInf then "null" else Number.format x)
    | .bigint _ => M.typeError
    | .undefined | .symbol .. | .function _ => return none
    | .object id =>
      if path.contains id then M.typeError
      let write := writeWithin style n (id :: path) (indent ++ style.gap) (.object id)
      match ← Store.listedItems? (.object id) with
      | some items =>
        let pieces ← (List.range items.length).mapM fun i => do
          let key := Text.ofNat i
          return (← write key (← Property.get (.object id) key)).getD "null"
        return some (bracketed style indent '[' ']' pieces)
      | none =>
        let keys ← match style.keys with
          | some keys => pure keys
          | none => (·.map (·.1)) <$> Property.ownEntries (.object id)
        let pieces ← keys.mapM fun key => do
          return (← write key (← Property.get (.object id) key)).map (member style key)
        return some (bracketed style indent '\x7b' '\x7d' (pieces.filterMap fun piece => piece))

/-- The JSON text of a value. -/
def write (style : Style) (v : Value) : M (Option Text) := do
  let depth ← Store.depth
  let holder ← Store.newRecord [([], v)]
  writeWithin style (2 * depth + 8) [] [] holder [] v

end Stringify

end PageTemplate
