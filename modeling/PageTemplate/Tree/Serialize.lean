import PageTemplate.Markup.Serialize
import PageTemplate.Text.Replace
import PageTemplate.Tree.Edit

/-!
# PageTemplate.Tree.Serialize

The text of a node in the store. It follows the rules by which a tree outside the store is written.
A raw text node is written as what it holds, which for an opened one may be something else than
text; a value that is no node is not written at all.
-/

namespace PageTemplate

namespace Tree

/-- What is escaped in text, each with its reference. -/
def references : List (Text × Text) :=
  [("&", "&amp;"), ("<", "&lt;"), (">", "&gt;"), ("\"", "&quot;"), ("'", "&#39;")]

/-- A pattern for all places of a text, as it is handed to a value that replaces: an object that
shows as the written pattern. -/
def patternOf (t : Text) : M Value := Store.newArray [.text ("/" ++ t ++ "/g")]

/-- The escaped form of a value: a value that is no text has to replace what is escaped itself. -/
def escape (v : Value) : M Value := do
  match v with
  | .text t => return .text (Markup.escape t)
  | v => references.foldlM escapeOne v
where
  escapeOne (v : Value) : Text × Text → M Value
    | (u, reference) =>
      match v with
      | .text t => return .text (Text.replaceMany [(u, reference)] t)
      | v => do Convert.invoke v "replace" [← patternOf u, .text reference]

/-- An attribute with the blank before it. -/
def writeAttribute (name value : Value) : M Text := do
  match name, value with
  | .text n, .text v => return Markup.writeAttribute n v
  | name, value =>
    let name ← Convert.toText name
    return unit ' ' :: name ++ unit '=' :: unit '"' ::
      (← Convert.toText (← escape value)) ++ [unit '"']

/-- The text of a node; undefined for a value that is no node. -/
def serializeWithin : Nat → Value → M Value
  | 0, _ => M.failLibrary .rangeError
  | n + 1, v => do
    match ← kind? v with
    | some .text =>
      if (← rawMark v).isTruthy then nodeValue v else escape (← nodeValue v)
    | some .code => return .text (Markup.writeCode (← Convert.toText (← source v)))
    | some .comment => return .text (Markup.writeComment (← Convert.toText (← nodeValue v)))
    | some .doctype => return .text (Markup.writeDoctype (← Convert.toText (← nodeValue v)))
    | some .element =>
      let tag ← tag v
      let attributes := (← forAttributes v writeAttribute).flatten
      let name ← Convert.toText tag
      if Markup.voidTags.any fun t => tag.strictlyEqual (.text t) then
        return .text (Markup.writeVoid name attributes)
      let content ← ChildList.textBy (← childList v) .serialize (serializeWithin n)
      let content ← Convert.toText content
      return .text (Markup.writeFilled name attributes content)
    | some .fragment | some .document =>
      ChildList.textBy (← childList v) .serialize (serializeWithin n)
    | none => return .undefined

def serialize (v : Value) : M Value := do serializeWithin (← Store.depth) v

/-- The text of the children of a node. -/
def innerMarkup (v : Value) : M Value := do
  let depth ← Store.depth
  ChildList.textBy (← childList v) .serialize (serializeWithin depth)

end Tree

end PageTemplate
