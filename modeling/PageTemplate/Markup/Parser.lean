import PageTemplate.Markup.Token

/-!
# PageTemplate.Markup.Parser

The tree of a sequence of lexical pieces. A closing tag closes the innermost open element of its
name and everything inside it; one that closes nothing is ignored, and what is open at the end is
closed there.
-/

namespace PageTemplate

namespace Markup

/-- An element that is being read: its children so far, the latest first. -/
structure Frame where
  tag : Text
  attributes : Attributes
  children : List Node

/-- The open elements, innermost first, and the finished nodes outside them, the latest first. -/
structure Builder where
  frames : List Frame
  finished : List Node

namespace Builder

/-- Adds a node at the current place. -/
def add (b : Builder) (n : Node) : Builder :=
  match b.frames with
  | [] => { b with finished := n :: b.finished }
  | f :: fs => { b with frames := { f with children := n :: f.children } :: fs }

/-- Closes the innermost open element. -/
def closeOne (b : Builder) : Builder :=
  match b.frames with
  | [] => b
  | f :: fs =>
    Builder.add { b with frames := fs } (.element f.tag f.attributes f.children.reverse)

/-- Closes the innermost `n` elements. -/
def close (b : Builder) : Nat → Builder
  | 0 => b
  | n + 1 => b.closeOne.close n

/-- Takes the next piece. Text of nothing but white space counts only inside an element. -/
def step (b : Builder) : Token → Builder
  | .text value =>
    if !value.trim.isEmpty || (!value.isEmpty && !b.frames.isEmpty) then
      b.add (.text (decodeReferences value) false)
    else b
  | .code source => b.add (.code source)
  | .comment value => b.add (.comment value)
  | .doctype value => b.add (.doctype value)
  | .close tag =>
    match b.frames.findIdx? (·.tag == tag) with
    | some i => b.close (i + 1)
    | none => b
  | .opening tag attributes closed content =>
    match closed, content with
    | false, none => { b with frames := ⟨tag, attributes, []⟩ :: b.frames }
    | _, some content =>
      b.add (.element tag attributes (if content.isEmpty then [] else [.text content true]))
    | true, none => b.add (.element tag attributes [])

/-- The nodes read, with everything open closed. -/
def finish (b : Builder) : List Node := (b.close b.frames.length).finished.reverse

end Builder

/-- The nodes of a sequence of pieces. -/
def Node.ofTokens (tokens : List Token) : List Node :=
  (tokens.foldl Builder.step ⟨[], []⟩).finish

/-- The top-level nodes of a text. -/
def parse (options : ReadOptions) (t : Text) : Except Malformed (List Node) :=
  (tokens options t).map Node.ofTokens

end Markup

end PageTemplate
