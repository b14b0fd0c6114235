import PageTemplate.Markup.Entity
import PageTemplate.Markup.Node

/-!
# PageTemplate.Markup.Serialize

Markup written as text. Nothing is added for looks, so white space survives.
-/

namespace PageTemplate

namespace Markup

/-- An attribute with the blank before it. -/
def writeAttribute (name value : Text) : Text :=
  unit ' ' :: name ++ unit '=' :: unit '"' :: escape value ++ [unit '"']

/-- An element that has no content and no closing tag. -/
def writeVoid (tag attributes : Text) : Text := unit '<' :: tag ++ attributes ++ " />"

/-- An element around its written content. -/
def writeFilled (tag attributes content : Text) : Text :=
  unit '<' :: tag ++ attributes ++ unit '>' :: content ++ "</" ++ tag ++ [unit '>']

/-- An element around its written content, which void elements do not have. -/
def writeElement (tag attributes content : Text) : Text :=
  if isVoid tag then writeVoid tag attributes else writeFilled tag attributes content

def writeText (value : Text) (raw : Bool) : Text := if raw then value else escape value

def writeCode (source : Text) : Text := "<%" ++ source ++ "%>"

def writeComment (value : Text) : Text := "<!--" ++ value ++ "-->"

def writeDoctype (value : Text) : Text := "<!" ++ value ++ ">"

mutual

/-- The text of a node. -/
def Node.serialize : Node → Text
  | .element tag attributes children =>
    writeElement tag (attributes.flatMap fun (n, v) => writeAttribute n v) (serializeAll children)
  | .text value raw => writeText value raw
  | .code source => writeCode source
  | .comment value => writeComment value
  | .doctype value => writeDoctype value

/-- The texts of nodes one after another. -/
def serializeAll : List Node → Text
  | [] => []
  | n :: ns => n.serialize ++ serializeAll ns

end

end Markup

end PageTemplate
