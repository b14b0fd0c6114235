import PageTemplate.Markup.Entity
import PageTemplate.Tree.Serialize
import PageTemplate.Url.Link

/-!
# PageTemplate.Builtin.TextLike

Functions on text, applied to any value. A value that is no text is asked what a text would be
asked, so one that gives the same answers passes for text, and any other one fails where it cannot
answer.
-/

namespace PageTemplate

namespace TextLike

/-- A value with its character references decoded. One that says that it holds none is kept. -/
def decodeReferences (v : Value) : M Value := do
  match v with
  | .text t => return .text (Markup.decodeReferences t)
  | v => if (← Convert.invoke v "includes" [.text "&"]).isTruthy then M.typeError else return v

/-- Values as patterns with their replacements. -/
def pairUp? : List Value → Option (List (Value × Value))
  | [] => some []
  | [_] => none
  | pattern :: replacement :: rest => (pairUp? rest).map ((pattern, replacement) :: ·)

/-- Patterns and replacements that are all text. -/
def textPairs? (pairs : List (Value × Value)) : Option (List (Text × Text)) :=
  pairs.mapM fun
    | (.text pattern, .text replacement) => some (pattern, replacement)
    | _ => none

/-- An occurrence of a pattern: its position, its size and what replaces it. -/
structure Occurrence where
  position : Value
  size : Value
  replacement : Value

/-- The earlier one of an occurrence and the place of a pattern in a value. Patterns of no length
occur nowhere. -/
def earlier (v : Value) (found : Option Occurrence) (pair : Value × Value) :
    M (Option Occurrence) := do
  let size ← Property.get pair.1 "length"
  if size.strictlyEqual (.number 0.0) then return found
  let position ← Convert.invoke v "indexOf" [pair.1]
  if position.strictlyEqual (.number (-1.0)) then return found
  let limit ← match found with
    | some o => pure o.position
    | none => Property.get v "length"
  if (← Convert.numberOf position) < (← Convert.numberOf limit) then
    return some ⟨position, size, pair.2⟩
  else return found

/-- Replaces the patterns in the rest of a value; `done` is the text for what is before it. -/
def replaceRest (pairs : List (Value × Value)) : Nat → Text → Value → M Text
  | 0, _, _ => M.failLibrary .rangeError
  | n + 1, done, v => do
    if !(← Convert.isFilled v) then return done
    match ← pairs.foldlM (earlier v) none with
    | none => return done ++ (← Convert.toSuffix v)
    | some o =>
      let before ← Convert.invoke v "slice" [.number 0.0, o.position]
      let part ← Convert.toSuffix (← Convert.add before o.replacement)
      let stop ← Convert.add o.position o.size
      replaceRest pairs n (done ++ part) (← Convert.invoke v "slice" [stop])

/-- A value with every second one of some values, where it occurs, replaced by the next one in a
single pass. Without patterns the value is kept. -/
def replaceMany (v : Value) (replacements : List Value) : M Value := do
  match pairUp? replacements with
  | none => throw .unpairedReplacement
  | some [] => return v
  | some pairs =>
    match v, textPairs? pairs with
    | .text t, some pairs => return .text (Text.replaceMany pairs t)
    | v, _ => return .text (← replaceRest pairs Store.maxListed [] v)

/-- A link as it is resolved against a base. -/
def resolveLink (link base : Value) : M Value := do
  let base ← Convert.toText base
  match Url.resolveLink? (← Convert.toText link) base with
  | some resolved => return .text resolved
  | none => M.typeError

end TextLike

end PageTemplate
