import PageTemplate.Assoc
import PageTemplate.Number.Read

/-!
# PageTemplate.Json

JSON as a tree, its reader, and the quoting of text. The reader takes exactly the grammar: no
trailing comma, no leading zero, no unescaped control character.
-/

namespace PageTemplate

/-- A JSON document. Members stand in the order in which their names first occur. -/
inductive Json where
  | null
  | bool (b : Bool)
  | number (x : Float)
  | text (t : Text)
  | array (items : List Json)
  | object (members : List (Text × Json))
  deriving Inhabited

namespace Json

open CodeUnit

/-- The four hexadecimal digits of a unit, in lower case. -/
def hex4 (u : CodeUnit) : Text :=
  let digit (n : Nat) : CodeUnit := if n < 10 then (48 + n).toUInt16 else (87 + n).toUInt16
  let n := u.toNat
  [digit (n / 4096), digit (n / 256 % 16), digit (n / 16 % 16), digit (n % 16)]

/-- The escape of a unit below U+0020, or of a half of a surrogate pair. -/
def escapeNumber (u : CodeUnit) : Text := unit '\\' :: unit 'u' :: hex4 u

/-- The escape of a unit inside quotes. -/
def escapeUnit (u : CodeUnit) : Text :=
  if u == unit '"' then [unit '\\', u]
  else if u == unit '\\' then [unit '\\', u]
  else if u == 8 then [unit '\\', unit 'b']
  else if u == 9 then [unit '\\', unit 't']
  else if u == 10 then [unit '\\', unit 'n']
  else if u == 12 then [unit '\\', unit 'f']
  else if u == 13 then [unit '\\', unit 'r']
  else if u < 0x20 then escapeNumber u
  else [u]

/-- The inside of a quoted text. A half of a surrogate pair that stands alone is escaped. -/
def escapeText : Text → Text
  | [] => []
  | [u] => if isLead u || isTrail u then escapeNumber u else escapeUnit u
  | u :: v :: rest =>
    if isLead u && isTrail v then u :: v :: escapeText rest
    else if isLead u || isTrail u then escapeNumber u ++ escapeText (v :: rest)
    else escapeUnit u ++ escapeText (v :: rest)

/-- A text in quotes. -/
def quote (t : Text) : Text := unit '"' :: escapeText t ++ [unit '"']

def isSpace (u : CodeUnit) : Bool := u == 32 || u == 9 || u == 10 || u == 13

def skipSpace (t : Text) : Text := t.dropWhile isSpace

/-- The unit of an escape of one letter. -/
def letterEscape? (u : CodeUnit) : Option CodeUnit :=
  if u == unit '"' || u == unit '\\' || u == unit '/' then some u
  else if u == unit 'b' then some 8
  else if u == unit 'f' then some 12
  else if u == unit 'n' then some 10
  else if u == unit 'r' then some 13
  else if u == unit 't' then some 9
  else none

/-- The text up to the closing quote and what follows it. -/
def readText? : Text → Option (Text × Text)
  | [] => none
  | u :: rest =>
    if u == unit '"' then some ([], rest)
    else if u < 0x20 then none
    else if u == unit '\\' then
      match rest with
      | [] => none
      | e :: more =>
        if e == unit 'u' then
          match more with
          | a :: b :: c :: d :: after =>
            if [a, b, c, d].all isHexDigit then
              (readText? after).map fun (t, r) =>
                ((Text.readNat 16 [a, b, c, d]).toUInt16 :: t, r)
            else none
          | _ => none
        else
          match letterEscape? e with
          | some v => (readText? more).map fun (t, r) => (v :: t, r)
          | none => none
    else (readText? rest).map fun (t, r) => (u :: t, r)

/-- Whether a text starts with an unsigned number of the grammar: no sign, no leading zero, a digit
on each side of a point, and a digit in the exponent. -/
def startsNumber (t : Text) : Bool :=
  let whole := t.takeWhile isDigit
  let rest := t.dropWhile isDigit
  let wholeOk := !whole.isEmpty && (whole.length == 1 || whole.head? != some (unit '0'))
  let (fractionOk, rest) :=
    match rest with
    | p :: more =>
      if p == unit '.' then (!(more.takeWhile isDigit).isEmpty, more.dropWhile isDigit)
      else (true, rest)
    | [] => (true, rest)
  let exponentOk :=
    match rest with
    | e :: more =>
      if asciiLower e == unit 'e' then
        let more :=
          match more with
          | s :: digits => if s == unit '+' || s == unit '-' then digits else more
          | [] => more
        !(more.takeWhile isDigit).isEmpty
      else true
    | [] => true
  wholeOk && fractionOk && exponentOk

/-- The number that a text starts with, and what follows it. -/
def readNumber? (t : Text) : Option (Float × Text) :=
  match t with
  | s :: rest =>
    if s == unit '-' then
      if startsNumber rest then (Number.scanDecimal? rest).map fun (x, r) => (-x, r) else none
    else if startsNumber t then Number.scanDecimal? t else none
  | [] => none

mutual

/-- The document that a text starts with, and what follows it. -/
def readValue? (fuel : Nat) (t : Text) : Option (Json × Text) :=
  match fuel with
  | 0 => none
  | n + 1 =>
    match skipSpace t with
    | [] => none
    | u :: rest =>
      if u == unit '"' then (readText? rest).map fun (s, r) => (.text s, r)
      else if u == unit '[' then
        match skipSpace rest with
        | c :: after =>
          if c == unit ']' then some (.array [], after)
          else (readItems? n rest).map fun (items, r) => (.array items, r)
        | [] => none
      else if u == unit '\x7b' then
        match skipSpace rest with
        | c :: after =>
          if c == unit '\x7d' then some (.object [], after)
          else (readMembers? n rest).map fun (members, r) => (.object (Assoc.ofList members), r)
        | [] => none
      else
        match Text.afterPrefix "true" (u :: rest) with
        | some r => some (.bool true, r)
        | none =>
          match Text.afterPrefix "false" (u :: rest) with
          | some r => some (.bool false, r)
          | none =>
            match Text.afterPrefix "null" (u :: rest) with
            | some r => some (.null, r)
            | none => (readNumber? (u :: rest)).map fun (x, r) => (.number x, r)

/-- One item or more up to the closing bracket. -/
def readItems? (fuel : Nat) (t : Text) : Option (List Json × Text) :=
  match fuel with
  | 0 => none
  | n + 1 =>
    match readValue? n t with
    | none => none
    | some (item, rest) =>
      match skipSpace rest with
      | c :: after =>
        if c == unit ',' then (readItems? n after).map fun (items, r) => (item :: items, r)
        else if c == unit ']' then some ([item], after)
        else none
      | [] => none

/-- One member or more up to the closing brace. -/
def readMembers? (fuel : Nat) (t : Text) : Option (List (Text × Json) × Text) :=
  match fuel with
  | 0 => none
  | n + 1 =>
    match skipSpace t with
    | q :: rest =>
      if q == unit '"' then
        match readText? rest with
        | none => none
        | some (name, rest) =>
          match skipSpace rest with
          | c :: after =>
            if c == unit ':' then
              match readValue? n after with
              | none => none
              | some (value, rest) =>
                match skipSpace rest with
                | d :: after =>
                  if d == unit ',' then
                    (readMembers? n after).map fun (members, r) => ((name, value) :: members, r)
                  else if d == unit '\x7d' then some ([(name, value)], after)
                  else none
                | [] => none
            else none
          | [] => none
      else none
    | [] => none

end

/-- The document that a whole text writes. -/
def parse? (t : Text) : Option Json :=
  match readValue? (2 * t.length + 2) t with
  | some (value, rest) => if (skipSpace rest).isEmpty then some value else none
  | none => none

/-- The value of a member. -/
def member? (name : Text) : Json → Option Json
  | .object members => Assoc.find? name members
  | _ => none

end Json

end PageTemplate
