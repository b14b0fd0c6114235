import PageTemplate.Text.Blank
import PageTemplate.Number.Binary

/-!
# PageTemplate.Number.Read

How text is read as a number: as a whole, as the number it begins with, or as the integer it
begins with.
-/

namespace PageTemplate

namespace Number

open CodeUnit

/-- The number nearest to `digits * 10 ^ exponent`. -/
def ofDecimal (digits : Nat) (exponent : Int) : Float :=
  if digits = 0 then 0.0
  else
    let position := ((Nat.toDigits 10 digits).length : Int) + exponent
    if 310 < position then infinity
    else if position < -330 then 0.0
    else Float.ofScientific digits (exponent < 0) exponent.natAbs

/-- The exponent that a text begins with (`e`, a sign, digits) and what follows; zero when there
is none. -/
def scanExponent (t : Text) : Int × Text :=
  match t with
  | e :: rest =>
    if asciiLower e == unit 'e' then
      let (negative, digits) :=
        match rest with
        | s :: more =>
          if s == unit '-' then (true, more) else if s == unit '+' then (false, more)
          else (false, rest)
        | [] => (false, rest)
      let run := digits.takeWhile isDigit
      if run.isEmpty then (0, t)
      else
        let n : Int := Text.readNat 10 run
        (if negative then -n else n, digits.dropWhile isDigit)
    else (0, t)
  | [] => (0, t)

/-- The unsigned decimal that a text begins with, and what follows it. -/
def scanDecimal? (t : Text) : Option (Float × Text) :=
  let whole := t.takeWhile isDigit
  let rest := t.dropWhile isDigit
  let (fraction, rest) :=
    match rest with
    | d :: more =>
      if d == unit '.' then
        let run := more.takeWhile isDigit
        if whole.isEmpty && run.isEmpty then ([], rest) else (run, more.dropWhile isDigit)
      else ([], rest)
    | [] => ([], rest)
  if whole.isEmpty && fraction.isEmpty then none
  else
    let (e, rest) := scanExponent rest
    some (ofDecimal (Text.readNat 10 (whole ++ fraction)) (e - fraction.length), rest)

/-- The unsigned number that a text begins with: a decimal or `Infinity`. -/
def scanUnsigned? (t : Text) : Option (Float × Text) :=
  match Text.afterPrefix "Infinity" t with
  | some rest => some (infinity, rest)
  | none => scanDecimal? t

/-- The number that a text begins with, a sign allowed. -/
def scanSigned? (t : Text) : Option (Float × Text) :=
  match t with
  | s :: rest =>
    if s == unit '-' then (scanUnsigned? rest).map fun (x, rest) => (-x, rest)
    else if s == unit '+' then scanUnsigned? rest
    else scanUnsigned? t
  | [] => none

/-- The base that a two-unit mark (`0x`, `0o`, `0b`) announces, and the digits after it. -/
def markedBase? (t : Text) : Option (Nat × Text) :=
  match t with
  | z :: m :: digits =>
    let m := asciiLower m
    if z != unit '0' then none
    else if m == unit 'x' then some (16, digits)
    else if m == unit 'o' then some (8, digits)
    else if m == unit 'b' then some (2, digits)
    else none
  | _ => none

def isDigitIn (base : Nat) (u : CodeUnit) : Bool :=
  match digitValue? u with
  | some d => d < base
  | none => false

/-- The number that a whole text writes, white space around it aside: zero for an empty text, NaN
for a text that is no number. -/
def ofText (t : Text) : Float :=
  let t := t.trim
  if t.isEmpty then 0.0
  else
    match markedBase? t with
    | some (base, digits) =>
      if !digits.isEmpty && digits.all (isDigitIn base) then ofNat (Text.readNat base digits)
      else nan
    | none =>
      match scanSigned? t with
      | some (x, []) => x
      | _ => nan

/-- The number that a text begins with, white space before it aside; NaN when there is none. -/
def leadingFloat (t : Text) : Float :=
  match scanSigned? t.trimStart with
  | some (x, _) => x
  | none => nan

/-- The sign, the base and the digits of the integer that a text begins with. `base` is from 2 to
36, or 0 for the base that the text itself announces. -/
def leadingDigits? (base : Nat) (t : Text) : Option (Bool × Nat × Text) :=
  let t := t.trimStart
  let (negative, t) :=
    match t with
    | s :: rest =>
      if s == unit '-' then (true, rest) else if s == unit '+' then (false, rest) else (false, t)
    | [] => (false, t)
  let (base, t) :=
    match t with
    | z :: x :: rest =>
      if (base == 0 || base == 16) && z == unit '0' && asciiLower x == unit 'x' then (16, rest)
      else (if base == 0 then 10 else base, t)
    | _ => (if base == 0 then 10 else base, t)
  let run := t.takeWhile (isDigitIn base)
  if run.isEmpty then none else some (negative, base, run)

/-- The weight up to which digits are collected in one group. -/
def maxGroupWeight : Nat := 4294967295 / 36

/-- Adds digits group by group to the value of those before them; every group rounds. `part` and
`weight` are the value and the weight of the group so far. -/
def addGroups (base : Nat) (value : Float) (part weight : Nat) : Text → Float
  | [] => value * ofNat weight + ofNat part
  | u :: rest =>
    let digit := (digitValue? u).getD 0
    if maxGroupWeight < weight * base then
      addGroups base (value * ofNat weight + ofNat part) digit base rest
    else addGroups base value (part * base + digit) (weight * base) rest

/-- The number of a run of digits: the nearest one in base ten and where the base is a power of two,
and else the one that the groups of digits add up to. The groups begin with the first digit that is
not zero. -/
def ofDigits (base : Nat) (digits : Text) : Float :=
  if [2, 4, 8, 10, 16, 32].contains base then ofNat (Text.readNat base digits)
  else addGroups base 0.0 0 1 (digits.dropWhile (· == unit '0'))

/-- The integer that a text begins with as a number; NaN when there is none. -/
def leadingNumber (base : Nat) (t : Text) : Float :=
  match leadingDigits? base t with
  | some (negative, base, digits) =>
    let n := ofDigits base digits
    if negative then -n else n
  | none => nan

/-- The integer that a whole text writes, white space around it aside. -/
def integerOfText? (t : Text) : Option Int :=
  let t := t.trim
  if t.isEmpty then some 0
  else
    match markedBase? t with
    | some (base, digits) =>
      if !digits.isEmpty && digits.all (isDigitIn base) then some (Text.readNat base digits)
      else none
    | none =>
      let (negative, digits) :=
        match t with
        | s :: rest =>
          if s == unit '-' then (true, rest) else if s == unit '+' then (false, rest)
          else (false, t)
        | [] => (false, t)
      if !digits.isEmpty && digits.all isDigit then
        let n : Int := Text.readNat 10 digits
        some (if negative then -n else n)
      else none

end Number

end PageTemplate
