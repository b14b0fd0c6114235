/-!
# PageTemplate.Number.Binary

A floating-point number as a whole number times a power of two, and the operations that are exact
on that form: truncation, remainder and conversion to and from whole numbers.
-/

namespace PageTemplate

namespace Number

def nan : Float := 0.0 / 0.0

def infinity : Float := 1.0 / 0.0

/-- The greatest whole number up to which every whole number has a form of its own. -/
def maxSafeInteger : Nat := Nat.pow 2 53 - 1

/-- Whether the sign bit is set; it is for minus zero. -/
def isNegative (x : Float) : Bool := Nat.pow 2 63 ≤ x.toBits.toNat

/-- The magnitude of a finite number as `mantissa * 2 ^ exponent`. -/
def magnitude (x : Float) : Nat × Int :=
  let bits : Nat := x.toBits.toNat % Nat.pow 2 63
  let exponent : Nat := bits / Nat.pow 2 52
  let fraction : Nat := bits % Nat.pow 2 52
  if exponent = 0 then (fraction, -1074) else (fraction + Nat.pow 2 52, (exponent : Int) - 1075)

/-- The nearest number to a natural number. -/
def ofNat (n : Nat) : Float := Float.ofScientific n false 0

/-- The nearest number to an integer. -/
def ofInt : Int → Float
  | .ofNat n => ofNat n
  | .negSucc n => -ofNat (n + 1)

/-- The number `n * 2 ^ e`. -/
def scale (n : Nat) (e : Int) : Float := (ofNat n).scaleB e

/-- The whole part of a finite number, rounded toward zero; `none` for NaN and the infinities. -/
def toInt? (x : Float) : Option Int :=
  if x.isNaN || x.isInf then none
  else
    let (m, e) := magnitude x
    let n : Nat := if 0 ≤ e then m * Nat.pow 2 e.toNat else m / Nat.pow 2 (-e).toNat
    some (if isNegative x then -(n : Int) else n)

/-- Whether a finite number has no fraction. -/
def isWhole (x : Float) : Bool := !x.isNaN && !x.isInf && x.floor == x

/-- The number rounded toward zero; the sign of zero is kept. -/
def truncate (x : Float) : Float := if isNegative x then x.ceil else x.floor

/-- The nearest whole number, a half going up; a negative number that rounds to zero gives minus
zero. -/
def round (x : Float) : Float :=
  if x.isNaN || x.isInf then x
  else
    let low := x.floor
    let r := if x - low >= 0.5 then low + 1.0 else low
    if r == 0.0 && isNegative x then -0.0 else r

/-- The remainder of a division that rounds toward zero. It has the sign of the dividend. -/
def remainder (x y : Float) : Float :=
  if x.isNaN || y.isNaN || x.isInf || y == 0.0 then nan
  else if y.isInf || x == 0.0 then x
  else
    let (mx, ex) := magnitude x
    let (my, ey) := magnitude y
    let e := min ex ey
    let r := (mx * Nat.pow 2 (ex - e).toNat) % (my * Nat.pow 2 (ey - e).toNat)
    let value := scale r e
    if isNegative x then -value else value

/-- Equality that tells NaN equal to itself and takes the two zeros as one. -/
def same (x y : Float) : Bool := x == y || (x.isNaN && y.isNaN)

/-- Equality that tells NaN equal to itself and the two zeros apart. -/
def identical (x y : Float) : Bool :=
  (x == y && isNegative x == isNegative y) || (x.isNaN && y.isNaN)

end Number

end PageTemplate
