import PageTemplate.Text.Case
import PageTemplate.Value.Convert

/-!
# PageTemplate.Library.Text

The methods of text. Their receiver and arguments are converted as needed; positions count code
units.
-/

namespace PageTemplate

namespace Library

/-- An argument; undefined when it is not given. -/
def argument (arguments : List Value) (i : Nat) : Value := arguments.getD i .undefined

/-- The text of a receiver, which must not be absent. -/
def receiverText (this : Value) : M Text :=
  if this.isNullish then M.typeError else Convert.toText this

/-- A receiver that is text already. -/
def expectReceiverText (this : Value) : M Text :=
  match this with
  | .text t => return t
  | _ => M.typeError

/-- The greatest length of a text that is made out of copies or parts. -/
def maxTextLength : Nat := Nat.pow 2 26

/-- Fails for a length that a text cannot have. -/
def checkTextLength (length : Nat) : M Unit :=
  if maxTextLength < length then M.failLibrary .rangeError else return

/-- A length that an argument gives: its whole part, from zero. -/
def lengthOf (v : Value) : M Nat := do
  return Convert.clampNat 0 Number.maxSafeInteger (← Convert.toWhole v)

/-- A position from the start; a negative one is the start. -/
def startOf (length : Nat) (v : Value) : M Nat := do
  return Convert.clampNat 0 length (← Convert.toWhole v)

/-- A position from the start, with a default for an argument that is not given. -/
def startOr (length default : Nat) (v : Value) : M Nat :=
  match v with
  | .undefined => return default
  | v => startOf length v

/-- The unit at a position that an argument gives. -/
def unitAt (t : Text) (v : Value) : M (Option CodeUnit) := do
  let x ← Convert.toWhole v
  return if x < 0.0 || x >= Number.ofNat t.length then none else t[Convert.clampNat 0 t.length x]?

/-- As much of a repeated filling as brings a text to a length. -/
def padding (t : Text) (arguments : List Value) : M Text := do
  let target ← lengthOf (argument arguments 0)
  if target ≤ t.length then return []
  let filling ← match argument arguments 1 with
    | .undefined => pure [unit ' ']
    | v => Convert.toText v
  if filling.isEmpty then return []
  checkTextLength target
  let missing := target - t.length
  return Text.replicate (missing / filling.length) filling ++
    filling.take (missing % filling.length)

/-- A replacement with its marks resolved: `$$` is a dollar sign, `$&` the text replaced, and the
two quotes after a dollar sign stand for the text before and the text behind it. -/
def expandMarks (before found after : Text) : Text → Text
  | [] => []
  | [u] => [u]
  | u :: v :: rest =>
    if u == unit '$' then
      if v == unit '$' then v :: expandMarks before found after rest
      else if v == unit '&' then found ++ expandMarks before found after rest
      else if v == 0x60 then before ++ expandMarks before found after rest
      else if v == unit '\'' then after ++ expandMarks before found after rest
      else u :: expandMarks before found after (v :: rest)
    else u :: expandMarks before found after (v :: rest)

/-- The replacement of one occurrence. -/
def replacement (replacer : Value) (t found : Text) (position : Nat) : M Text := do
  match replacer with
  | .function f =>
    Convert.toText (← M.call f .undefined [.text found, .number (Number.ofNat position), .text t])
  | .text pattern =>
    if !pattern.contains (unit '$') then return pattern
    return expandMarks (t.take position) found (t.drop (position + found.length)) pattern
  | _ => M.typeError

/-- What replaces: a function, or else text. -/
def replacerOf (v : Value) : M Value := do
  match v with
  | .function f => return .function f
  | v => return .text (← Convert.toText v)

/-- The text with the occurrences at ascending positions replaced. `rest` is what is left of it from
the position `done` on. -/
def replaceAt (replacer : Value) (t found : Text) (done : Nat) (rest : Text) :
    List Nat → M Text
  | [] => return rest
  | p :: ps => do
    let r ← replacement replacer t found p
    let behind := rest.drop (p - done + found.length)
    let replaced ← replaceAt replacer t found (p + found.length) behind ps
    return rest.take (p - done) ++ r ++ replaced

/-- The positions of the separators between pieces that stand from an offset on. -/
def separatorPositions (size offset : Nat) : List Text → List Nat
  | piece :: next :: pieces =>
    let position := offset + piece.length
    position :: separatorPositions size (position + size) (next :: pieces)
  | _ => []

/-- The positions of the occurrences of a pattern, from left to right without overlap. -/
def occurrences (pattern t : Text) : List Nat :=
  if pattern.isEmpty then List.range (t.length + 1)
  else separatorPositions pattern.length 0 (Text.splitOn pattern t)

/-- The pieces of a text as an array. -/
def pieces (parts : List Text) : M Value := Store.newArray (parts.map .text)

/-- The number of pieces that a split may yield. -/
def splitLimit (v : Value) : M Nat := do
  match v with
  | .undefined => return Nat.pow 2 32 - 1
  | v => Convert.toUnsigned 32 v

/-- Calls a method of text. -/
def callText (m : TextMethod) (this : Value) (arguments : List Value) : M Value := do
  let arg := argument arguments
  match m with
  | .toText | .valueOf => return .text (← expectReceiverText this)
  | m =>
    let t ← receiverText this
    match m with
    | .toText | .valueOf => return .text t
    | .itemAt =>
      let x ← Convert.toWhole (arg 0)
      let i := if x < 0.0 then Number.ofNat t.length + x else x
      if i < 0.0 || i >= Number.ofNat t.length then return .undefined
      return .ofOption ((t[Convert.clampNat 0 t.length i]?).map fun u => .text [u])
    | .charAt => return .text ((← unitAt t (arg 0)).elim [] fun u => [u])
    | .charCodeAt =>
      return .number ((← unitAt t (arg 0)).elim Number.nan fun u => Number.ofNat u.toNat)
    | .codePointAt =>
      match ← unitAt t (arg 0) with
      | none => return .undefined
      | some _ =>
        let rest := t.drop (← startOf t.length (arg 0))
        return .ofOption ((Text.codePoints (rest.take 2)).head?.map Value.ofNat)
    | .concat => return .text (t ++ (← arguments.mapM Convert.toText).flatten)
    | .endsWith =>
      let pattern ← Convert.toText (arg 0)
      let stop ← startOr t.length t.length (arg 1)
      return .bool (Text.endsWith (t.take stop) pattern)
    | .includes =>
      let pattern ← Convert.toText (arg 0)
      let start ← startOf t.length (arg 1)
      return .bool (Text.includes (t.drop start) pattern)
    | .indexOf =>
      let pattern ← Convert.toText (arg 0)
      let start ← startOf t.length (arg 1)
      return .number ((Text.indexOfFrom t pattern start).elim (-1.0) Number.ofNat)
    | .lastIndexOf =>
      let pattern ← Convert.toText (arg 0)
      let x ← Convert.toNumber (arg 1)
      let last := if x.isNaN then t.length else Convert.clampNat 0 t.length (Number.truncate x)
      return .number ((Text.lastIndexOf t pattern last).elim (-1.0) Number.ofNat)
    | .padEnd => return .text (t ++ (← padding t arguments))
    | .padStart => return .text ((← padding t arguments) ++ t)
    | .replicate =>
      let x ← Convert.toWhole (arg 0)
      if x < 0.0 || x.isInf then M.failLibrary .rangeError
      if t.isEmpty then return .text []
      let n := Convert.clampNat 0 (maxTextLength + 1) x
      checkTextLength (n * t.length)
      return .text (Text.replicate n t)
    | .replace =>
      let pattern ← Convert.toText (arg 0)
      let replacer ← replacerOf (arg 1)
      match Text.indexOf t pattern with
      | none => return .text t
      | some p => return .text (← replaceAt replacer t pattern 0 t [p])
    | .replaceAll =>
      let pattern ← Convert.toText (arg 0)
      let replacer ← replacerOf (arg 1)
      return .text (← replaceAt replacer t pattern 0 t (occurrences pattern t))
    | .slice =>
      let start ← Convert.positionOr t.length 0 (arg 0)
      let stop ← Convert.positionOr t.length t.length (arg 1)
      return .text (Text.slice t start stop)
    | .split =>
      let limit ← splitLimit (arg 1)
      let separator ← Convert.toText (arg 0)
      if limit == 0 then pieces []
      else if (arg 0).strictlyEqual .undefined then pieces [t]
      else pieces ((Text.splitOn separator t).take limit)
    | .startsWith =>
      let pattern ← Convert.toText (arg 0)
      let start ← startOf t.length (arg 1)
      return .bool (Text.startsWith (t.drop start) pattern)
    | .substring =>
      let start ← startOf t.length (arg 0)
      let stop ← startOr t.length t.length (arg 1)
      return .text (Text.slice t (min start stop) (max start stop))
    | .toLowerCase => return .text (Text.toLower t)
    | .toUpperCase => return .text (Text.toUpper t)
    | .trim => return .text t.trim
    | .trimEnd => return .text t.trimEnd
    | .trimStart => return .text t.trimStart

end Library

end PageTemplate
