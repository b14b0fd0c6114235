import PageTemplate.Text.Basic

/-!
# PageTemplate.Text.Percent

The UTF-8 form of text, its decoding with replacement characters, and percent-encoding.
-/

namespace PageTemplate

namespace Utf8

/-- The bytes of a code point. -/
def encodePoint (n : Nat) : List UInt8 :=
  if n < 0x80 then [n.toUInt8]
  else if n < 0x800 then [(0xC0 + n / 0x40).toUInt8, (0x80 + n % 0x40).toUInt8]
  else if n < 0x10000 then
    [(0xE0 + n / 0x1000).toUInt8, (0x80 + n / 0x40 % 0x40).toUInt8, (0x80 + n % 0x40).toUInt8]
  else
    [(0xF0 + n / 0x40000).toUInt8, (0x80 + n / 0x1000 % 0x40).toUInt8,
      (0x80 + n / 0x40 % 0x40).toUInt8, (0x80 + n % 0x40).toUInt8]

/-- The bytes of a text, with U+FFFD for a half of a surrogate pair that stands alone. -/
def encode (t : Text) : List UInt8 :=
  t.codePoints.flatMap fun n => encodePoint (if 0xD800 ≤ n && n ≤ 0xDFFF then 0xFFFD else n)

/-- What a decoder expects after a leading byte: how many more bytes, the value so far, and the
range that the next byte must lie in. -/
structure Pending where
  more : Nat
  value : Nat
  low : UInt8
  high : UInt8

/-- The state after a byte that starts a sequence; `none` for a byte that starts none. -/
def lead? (b : UInt8) : Option Pending :=
  if 0xC2 ≤ b && b ≤ 0xDF then some ⟨1, b.toNat - 0xC0, 0x80, 0xBF⟩
  else if 0xE0 ≤ b && b ≤ 0xEF then
    some ⟨2, b.toNat - 0xE0, if b == 0xE0 then 0xA0 else 0x80, if b == 0xED then 0x9F else 0xBF⟩
  else if 0xF0 ≤ b && b ≤ 0xF4 then
    some ⟨3, b.toNat - 0xF0, if b == 0xF0 then 0x90 else 0x80, if b == 0xF4 then 0x8F else 0xBF⟩
  else none

/-- The points that a byte outside any sequence yields, and the state after it. -/
def start (b : UInt8) : List Nat × Option Pending :=
  if b < 0x80 then ([b.toNat], none)
  else
    match lead? b with
    | some p => ([], some p)
    | none => ([0xFFFD], none)

/-- Code points of a byte sequence. A maximal beginning of a well-formed sequence that breaks off
becomes one U+FFFD, and so does every byte that starts none. -/
def decodePoints (pending : Option Pending) : List UInt8 → List Nat
  | [] => if pending.isSome then [0xFFFD] else []
  | b :: bs =>
    match pending with
    | none => let (ns, next) := start b; ns ++ decodePoints next bs
    | some p =>
      if p.low ≤ b && b ≤ p.high then
        let value := p.value * 0x40 + (b.toNat - 0x80)
        if p.more == 1 then value :: decodePoints none bs
        else decodePoints (some ⟨p.more - 1, value, 0x80, 0xBF⟩) bs
      else
        let (ns, next) := start b
        0xFFFD :: ns ++ decodePoints next bs

def decode (bytes : List UInt8) : Text := Text.ofCodePoints (decodePoints none bytes)

end Utf8

namespace Percent

/-- The upper-case hexadecimal digit of a number below 16. -/
def hexDigit (n : Nat) : CodeUnit := if n < 10 then (48 + n).toUInt16 else (55 + n).toUInt16

def encodeByte (b : UInt8) : Text := [unit '%', hexDigit (b.toNat / 16), hexDigit (b.toNat % 16)]

/-- The points that a URI component keeps: letters, digits and `- _ . ! ~ * ' ( )`. -/
def isUnreserved (n : Nat) : Bool :=
  n < 0x80 && (CodeUnit.isWord n.toUInt16 || (Text.ofString "-.!~*'()").contains n.toUInt16)

/-- A text as a URI component; `none` when half of a surrogate pair stands alone in it. -/
def encodeComponent? (t : Text) : Option Text :=
  if t.isWellFormed then
    some (t.codePoints.flatMap fun n =>
      if isUnreserved n then [n.toUInt16] else (Utf8.encodePoint n).flatMap encodeByte)
  else none

end Percent

end PageTemplate
