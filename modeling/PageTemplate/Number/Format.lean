import PageTemplate.Text.Search
import PageTemplate.Number.Shortest

/-!
# PageTemplate.Number.Format

How numbers are written: with the fewest digits, with a fixed count of decimals, or in another
base.
-/

namespace PageTemplate

namespace Number

/-- Where positional notation ends and how an exponent looks. -/
structure Layout where
  /-- The greatest position of the decimal point that is written without an exponent. -/
  maxPosition : Int
  /-- The least such position. -/
  minPosition : Int
  /-- The mark before an exponent. -/
  mark : Char

/-- Numbers from a millionth up to, not including, `10 ^ 21` are written without an exponent. -/
def layout : Layout := ⟨21, -5, 'e'⟩

def zeros (n : Nat) : Text := List.replicate n (unit '0')

/-- A positive decimal in the given layout. -/
def Decimal.write (l : Layout) (d : Decimal) : Text :=
  let digits := Text.ofNat d.digits
  let count : Int := digits.length
  let position := count + d.exponent
  if count ≤ position && position ≤ l.maxPosition then
    digits ++ zeros (position - count).toNat
  else if 0 < position && position ≤ l.maxPosition then
    digits.take position.toNat ++ unit '.' :: digits.drop position.toNat
  else if l.minPosition ≤ position && position ≤ 0 then
    unit '0' :: unit '.' :: zeros (-position).toNat ++ digits
  else
    let e := position - 1
    let tail := unit l.mark :: unit (if 0 ≤ e then '+' else '-') :: Text.ofNat e.natAbs
    if count == 1 then digits ++ tail
    else digits.take 1 ++ unit '.' :: digits.drop 1 ++ tail

/-- The text of a number: the fewest digits that read back, and `0` for both zeros. -/
def format (x : Float) : Text :=
  if x.isNaN then Text.ofString "NaN"
  else if isWhole x && x.abs <= ofNat maxSafeInteger then Text.ofInt ((toInt? x).getD 0)
  else
    let body := if x.isInf then Text.ofString "Infinity" else (shortest x).write layout
    if isNegative x then unit '-' :: body else body

/-- The number with `places` decimals, a half rounded away from zero. Numbers from `10 ^ 21` on are
written as usual. -/
def formatFixed (places : Nat) (x : Float) : Text :=
  if x.isNaN || x.isInf || x.abs >= 1.0e21 then format x
  else
    let (m, e) := magnitude x
    let r := (Ratio.ofBinary m e).shiftDecimal (-(places : Int))
    let n := (2 * r.numerator + r.denominator) / (2 * r.denominator)
    let digits := Text.ofNat n
    let padded := zeros (places + 1 - digits.length) ++ digits
    let body :=
      if places == 0 then padded
      else padded.take (padded.length - places) ++ unit '.' :: padded.drop (padded.length - places)
    if x < 0.0 then unit '-' :: body else body

/-- The digit of a value below 36. -/
def digitUnit (n : Nat) : CodeUnit := if n < 10 then (48 + n).toUInt16 else (87 + n).toUInt16

/-- The digits of a natural number in base `base`, at least two. -/
def natInBase (base n : Nat) : Text :=
  go (n + 1) n []
where
  go : Nat → Nat → Text → Text
    | 0, _, acc => acc
    | fuel + 1, n, acc =>
      let acc := digitUnit (n % base) :: acc
      if n < base then acc else go fuel (n / base) acc

/-- A whole number too large for its last digit to count, divided by the base until it does, and
the number of divisions. -/
def reduceLarge (base : Nat) : Nat → Float → Nat → Float × Nat
  | 0, whole, count => (whole, count)
  | fuel + 1, whole, count =>
    if whole / ofNat base >= ofNat (Nat.pow 2 53) then
      reduceLarge base fuel (whole / ofNat base) (count + 1)
    else (whole, count)

/-- The digits of a number before the point, those of `acc` behind them. The divisions round. -/
def wholeDigits (base : Nat) : Nat → Float → Text → Text
  | 0, _, acc => acc
  | fuel + 1, whole, acc =>
    let last := remainder whole (ofNat base)
    let acc := digitUnit ((toInt? last).getD 0).toNat :: acc
    let rest := (whole - last) / ofNat base
    if rest > 0.0 then wholeDigits base fuel rest acc else acc

/-- One more on the last digit of a fraction; the first component says whether it carries over. -/
def incrementDigits (base : Nat) : List Nat → Bool × List Nat
  | [] => (true, [])
  | d :: ds =>
    if d + 1 < base then (false, (d + 1) :: ds) else incrementDigits base ds

/-- The digits of a fraction, the last one first, as long as they tell the number from its
neighbours; the first component says whether rounding carries into the whole part. -/
def fractionDigits (base : Nat) : Nat → Float → Float → List Nat → Bool × List Nat
  | 0, _, _, acc => (false, acc)
  | fuel + 1, fraction, delta, acc =>
    let scaled := fraction * ofNat base
    let delta := delta * ofNat base
    let digit := (truncate scaled).toUInt64.toNat
    let rest := scaled - ofNat digit
    let acc := digit :: acc
    if (rest > 0.5 || (rest == 0.5 && digit % 2 == 1)) && rest + delta > 1.0 then
      incrementDigits base acc
    else if rest >= delta then fractionDigits base fuel rest delta acc
    else (false, acc)

/-- The text of a number in base `base`, from 2 to 36. -/
def formatInBase (base : Nat) (x : Float) : Text :=
  if base == 10 || x.isNaN || x.isInf || x == 0.0 then format x
  else
    let value := x.abs
    let whole := value.floor
    let fraction := value - whole
    let next := Float.ofBits (value.toBits + 1)
    let half := 0.5 * (next - value)
    let least := Float.ofBits 1
    let delta := if half > least then half else least
    let (carry, digits) :=
      if fraction >= delta then fractionDigits base 1100 fraction delta [] else (false, [])
    let (whole, count) := reduceLarge base 1100 (if carry then whole + 1.0 else whole) 0
    let body := wholeDigits base 1100 whole (zeros count) ++
      (if digits.isEmpty then [] else unit '.' :: digits.reverse.map digitUnit)
    if x < 0.0 then unit '-' :: body else body

end Number

end PageTemplate
