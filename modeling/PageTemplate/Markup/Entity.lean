import PageTemplate.Assoc
import PageTemplate.Text.Search

/-!
# PageTemplate.Markup.Entity

Escaping of the characters that have a meaning in markup, and the decoding of character
references.
-/

namespace PageTemplate

namespace Markup

/-- The reference that stands for a unit in text and attribute values. -/
def escapeUnit (u : CodeUnit) : Text :=
  if u == unit '&' then "&amp;"
  else if u == unit '<' then "&lt;"
  else if u == unit '>' then "&gt;"
  else if u == unit '"' then "&quot;"
  else if u == unit '\'' then "&#39;"
  else [u]

/-- Text without `<`, `>` or quotes, and with `&` only at the start of a reference. -/
def escape (t : Text) : Text := t.flatMap escapeUnit

/-- What the names of references stand for, in lower case. -/
def namedReferences : List (Text × Text) :=
  [("amp", "&"), ("lt", "<"), ("gt", ">"), ("quot", "\""), ("apos", "'"), ("nbsp", "\u00A0"),
    ("constructor", "function Object() \x7b [native code] \x7d")].map
    fun (name, value) => (Text.ofString name, Text.ofString value)

/-- The text that a reference stands for, given what is between `&` and `;`. -/
def reference? (body : Text) : Option Text :=
  match body with
  | [] => none
  | h :: rest =>
    if h == unit '#' then
      match rest with
      | [] => none
      | x :: hex =>
        if CodeUnit.asciiLower x == unit 'x' then
          if !hex.isEmpty && hex.all CodeUnit.isHexDigit then point? (Text.readNat 16 hex)
          else none
        else if rest.all CodeUnit.isDigit then point? (Text.readNat 10 rest)
        else none
    else if body.all CodeUnit.isLetter then Assoc.find? body.asciiLower namedReferences
    else none
where
  point? (n : Nat) : Option Text := if n ≤ 0x10FFFF then some (Text.ofCodePoint n) else none

/-- The units of a reference between `&` and `;`. -/
def isReferenceUnit (u : CodeUnit) : Bool :=
  CodeUnit.isLetter u || CodeUnit.isDigit u || u == unit '#'

/-- The text that the reference at the start of a text stands for and the number of units it takes,
its `;` included. The text starts behind the `&`. -/
def leadingReference? (t : Text) : Option (Text × Nat) :=
  let body := t.takeWhile isReferenceUnit
  match t.dropWhile isReferenceUnit with
  | s :: _ => if s == unit ';' then (reference? body).map (·, body.length + 1) else none
  | [] => none

/-- Decodes the references of a text whose first `skip` units belong to one that is decoded
already. -/
def decodeFrom : Nat → Text → Text
  | _, [] => []
  | skip + 1, _ :: rest => decodeFrom skip rest
  | 0, u :: rest =>
    if u == unit '&' then
      match leadingReference? rest with
      | some (value, size) => value ++ decodeFrom size rest
      | none => u :: decodeFrom 0 rest
    else u :: decodeFrom 0 rest

/-- Every known reference replaced by what it stands for, in one pass from left to right; whatever
is no known reference is kept. -/
def decodeReferences (t : Text) : Text := decodeFrom 0 t

end Markup

end PageTemplate
