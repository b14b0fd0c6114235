import PageTemplate.Text.Basic
import PageTemplate.Text.CaseTable

/-!
# PageTemplate.Text.Case

Full case conversion. Most points map to one point; a few map to several (`ß` to `SS`), and a
capital sigma has a form of its own at the end of a word.
-/

namespace PageTemplate

namespace CaseRange

def covers (r : CaseRange) (n : Nat) : Bool :=
  r.first ≤ n && n ≤ r.last && (n - r.first) % r.stride == 0

end CaseRange

namespace CodePoint

def within (table : List (Nat × Nat)) (n : Nat) : Bool :=
  table.any fun (first, last) => first ≤ n && n ≤ last

def mapped (ranges : List CaseRange) (long : List (Nat × List Nat)) (n : Nat) : List Nat :=
  match long.lookup n with
  | some ns => ns
  | none =>
    match ranges.find? (·.covers n) with
    | some r => [((n : Int) + r.shift).toNat]
    | none => [n]

def lower (n : Nat) : List Nat :=
  if n < 0x80 then [if 0x41 ≤ n && n ≤ 0x5A then n + 32 else n]
  else mapped CaseTable.lower CaseTable.lowerLong n

def upper (n : Nat) : List Nat :=
  if n < 0x80 then [if 0x61 ≤ n && n ≤ 0x7A then n - 32 else n]
  else mapped CaseTable.upper CaseTable.upperLong n

def isCased (n : Nat) : Bool := within CaseTable.cased n

def isCaseIgnorable (n : Nat) : Bool := within CaseTable.ignorable n

end CodePoint

namespace Text

open CodePoint

/-- Whether the first point that is not ignorable is a cased letter. -/
def casedAhead (ns : List Nat) : Bool :=
  match ns.dropWhile isCaseIgnorable with
  | [] => false
  | n :: _ => isCased n

/-- Lower case of the points `ns` that follow the points `seen`, the latest first. -/
def lowerPoints (seen : List Nat) : List Nat → List Nat
  | [] => []
  | n :: ns =>
    (if n == 0x3A3 then
      [if casedAhead seen && !casedAhead ns then 0x3C2 else 0x3C3]
    else CodePoint.lower n) ++ lowerPoints (n :: seen) ns

def toLower (t : Text) : Text :=
  if t.all (· < 0x80) then t.map CodeUnit.asciiLower
  else ofCodePoints (lowerPoints [] t.codePoints)

def toUpper (t : Text) : Text := ofCodePoints (t.codePoints.flatMap CodePoint.upper)

end Text

end PageTemplate
