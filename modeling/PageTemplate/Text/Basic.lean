/-!
# PageTemplate.Text.Basic

Text is a sequence of sixteen-bit code units. Lengths, positions and slices count units, and one
half of a surrogate pair is a unit like any other; pairs are joined only where a rule speaks of
code points.
-/

namespace PageTemplate

/-- A sixteen-bit unit of text. -/
abbrev CodeUnit := UInt16

/-- Text as a sequence of code units. -/
abbrev Text := List CodeUnit

/-- The unit of a character below U+10000. -/
def unit (c : Char) : CodeUnit := c.toNat.toUInt16

namespace CodeUnit

def isDigit (u : CodeUnit) : Bool := unit '0' ≤ u && u ≤ unit '9'

def isLowerLetter (u : CodeUnit) : Bool := unit 'a' ≤ u && u ≤ unit 'z'

def isUpperLetter (u : CodeUnit) : Bool := unit 'A' ≤ u && u ≤ unit 'Z'

/-- An ASCII letter of either case. -/
def isLetter (u : CodeUnit) : Bool := isLowerLetter u || isUpperLetter u

/-- An ASCII letter, a digit or the underscore. -/
def isWord (u : CodeUnit) : Bool := isLetter u || isDigit u || u == unit '_'

def isHexDigit (u : CodeUnit) : Bool :=
  isDigit u || (unit 'a' ≤ u && u ≤ unit 'f') || (unit 'A' ≤ u && u ≤ unit 'F')

/-- The value of a digit or letter as a digit: `0` to `9`, then `a` to `z` in either case. -/
def digitValue? (u : CodeUnit) : Option Nat :=
  if isDigit u then some (u.toNat - 48)
  else if isLowerLetter u then some (u.toNat - 87)
  else if isUpperLetter u then some (u.toNat - 55)
  else none

/-- The first half of a surrogate pair. -/
def isLead (u : CodeUnit) : Bool := 0xD800 ≤ u && u ≤ 0xDBFF

/-- The second half of a surrogate pair. -/
def isTrail (u : CodeUnit) : Bool := 0xDC00 ≤ u && u ≤ 0xDFFF

/-- The lower-case form of an ASCII letter; every other unit is kept. -/
def asciiLower (u : CodeUnit) : CodeUnit := if isUpperLetter u then u + 32 else u

end CodeUnit

namespace Text

open CodeUnit

/-- The one or two units of a code point. -/
def ofCodePoint (n : Nat) : Text :=
  if n < 0x10000 then [n.toUInt16]
  else [(0xD800 + (n - 0x10000) / 0x400).toUInt16, (0xDC00 + (n - 0x10000) % 0x400).toUInt16]

def ofCodePoints (ns : List Nat) : Text := ns.flatMap ofCodePoint

def ofString (s : String) : Text := s.toList.flatMap fun c => ofCodePoint c.toNat

instance : Coe String Text := ⟨ofString⟩

/-- The code point of a surrogate pair. -/
def joinPair (lead trail : CodeUnit) : Nat :=
  0x10000 + (lead.toNat - 0xD800) * 0x400 + (trail.toNat - 0xDC00)

/-- The code points of a text. A half of a pair that stands alone counts as a point of its own. -/
def codePoints : Text → List Nat
  | [] => []
  | [u] => [u.toNat]
  | u :: v :: rest =>
    if isLead u && isTrail v then joinPair u v :: codePoints rest
    else u.toNat :: codePoints (v :: rest)

/-- The characters of a text, with U+FFFD for a half of a pair that stands alone. -/
def toString (t : Text) : String :=
  String.ofList (t.codePoints.map fun n =>
    if h : n.isValidChar then Char.ofNatAux n h else '\uFFFD')

/-- Whether no half of a surrogate pair stands alone. -/
def isWellFormed (t : Text) : Bool := t.codePoints.all fun n => n < 0xD800 || 0xDFFF < n

/-- The lower-case form by ASCII rules alone. -/
def asciiLower (t : Text) : Text := t.map CodeUnit.asciiLower

/-- Equality up to the case of ASCII letters. -/
def sameIgnoringAsciiCase (s t : Text) : Bool := s.asciiLower == t.asciiLower

/-- The decimal digits of a number. -/
def ofNat (n : Nat) : Text := (Nat.toDigits 10 n).map unit

def ofInt : Int → Text
  | .ofNat n => ofNat n
  | .negSucc n => unit '-' :: ofNat (n + 1)

/-- The number that a run of digits writes in base `base`; units that are no digits count as 0. -/
def readNat (base : Nat) (t : Text) : Nat :=
  t.foldl (fun n u => n * base + (digitValue? u).getD 0) 0

/-- Order by code units, the shorter first when one is a beginning of the other. -/
def lessThan : Text → Text → Bool
  | _, [] => false
  | [], _ :: _ => true
  | a :: s, b :: t => a < b || (a == b && lessThan s t)

end Text

end PageTemplate
