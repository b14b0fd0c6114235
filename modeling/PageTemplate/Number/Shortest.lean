import PageTemplate.Number.Binary

/-!
# PageTemplate.Number.Shortest

The shortest decimal that reads back as a given number. The reals that round to the number form an
interval; the first decimal grid, of one digit, two digits and so on, that has a point in the
interval decides how many digits are written, and the point nearest to the number is taken.
-/

namespace PageTemplate

namespace Number

/-- A positive decimal `digits * 10 ^ exponent`. -/
structure Decimal where
  digits : Nat
  exponent : Int

/-- A non-negative rational. -/
structure Ratio where
  numerator : Nat
  denominator : Nat

namespace Ratio

/-- The rational `n * 2 ^ e`. -/
def ofBinary (n : Nat) (e : Int) : Ratio :=
  if 0 ≤ e then ⟨n * Nat.pow 2 e.toNat, 1⟩ else ⟨n, Nat.pow 2 (-e).toNat⟩

/-- The rational divided by `10 ^ e`. -/
def shiftDecimal (r : Ratio) (e : Int) : Ratio :=
  if 0 ≤ e then ⟨r.numerator, r.denominator * Nat.pow 10 e.toNat⟩
  else ⟨r.numerator * Nat.pow 10 (-e).toNat, r.denominator⟩

def floor (r : Ratio) : Nat := r.numerator / r.denominator

def le (r s : Ratio) : Bool := r.numerator * s.denominator ≤ s.numerator * r.denominator

def lt (r s : Ratio) : Bool := r.numerator * s.denominator < s.numerator * r.denominator

end Ratio

/-- The count of decimal digits of a natural number. -/
def digitCount (n : Nat) : Nat := (Nat.toDigits 10 n).length

/-- The position of the decimal point: `10 ^ (e - 1) ≤ r < 10 ^ e` for a positive rational `r` of
at least `10 ^ (-400)`. -/
def pointPosition (r : Ratio) : Int :=
  (digitCount (r.shiftDecimal (-400)).floor : Int) - 400

/-- The points of the grid `10 ^ g` next to the middle that lie in the interval, the nearer one
first; `closed` says whether the ends belong to the interval. -/
def gridPoint? (low middle high : Ratio) (closed : Bool) (g : Int) : Option Nat :=
  let m := middle.shiftDecimal g
  let below := m.floor
  let above := below + 1
  let l := low.shiftDecimal g
  let h := high.shiftDecimal g
  let okBelow := 0 < below && (if closed then l.le ⟨below, 1⟩ else l.lt ⟨below, 1⟩)
  let okAbove := if closed then Ratio.le ⟨above, 1⟩ h else Ratio.lt ⟨above, 1⟩ h
  let twice := 2 * (m.numerator % m.denominator)
  let belowNearer := twice < m.denominator || (twice == m.denominator && below % 2 == 0)
  if okBelow && okAbove then some (if belowNearer then below else above)
  else if okBelow then some below
  else if okAbove then some above
  else none

/-- Drops the zeros at the end of the digits. -/
def Decimal.normalize (fuel : Nat) (d : Decimal) : Decimal :=
  match fuel with
  | 0 => d
  | n + 1 =>
    if d.digits != 0 && d.digits % 10 == 0 then normalize n ⟨d.digits / 10, d.exponent + 1⟩ else d

/-- The shortest decimal of the magnitude of a finite number other than zero. -/
def shortest (x : Float) : Decimal :=
  let (m, e) := magnitude x
  let middle := Ratio.ofBinary (4 * m) (e - 2)
  let high := Ratio.ofBinary (4 * m + 2) (e - 2)
  let isAtBoundary := m == Nat.pow 2 52 && e != -1074
  let low := Ratio.ofBinary (if isAtBoundary then 4 * m - 1 else 4 * m - 2) (e - 2)
  let position := pointPosition middle
  let hit := (List.range 17).findSome? fun (i : Nat) =>
    let g := position - ((i : Int) + 1)
    (gridPoint? low middle high (m % 2 == 0) g).map fun n => (⟨n, g⟩ : Decimal)
  (hit.getD ⟨m, e⟩).normalize 20

end Number

end PageTemplate
