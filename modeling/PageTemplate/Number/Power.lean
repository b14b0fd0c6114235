import PageTemplate.Number.Binary

/-!
# PageTemplate.Number.Power

Powers of numbers. The logarithm in base two of the base is kept as a sum of two numbers, the first
of them short enough that its product with the exponent is exact; the power is two to that product.
Where a result is not exact its last digit hangs on the order of the operations, so this is part of
the rule.
-/

namespace PageTemplate

namespace Number

/-- The upper half of the bits of a number. -/
def upper (x : Float) : Nat := (x.toBits >>> 32).toNat

/-- The number with the lower half of its bits clear. -/
def coarse (x : Float) : Float := Float.ofBits ((x.toBits >>> 32) <<< 32)

/-- The number with the given upper half of its bits, the lower half being clear. -/
def ofUpper (bits : Nat) : Float := Float.ofBits (bits.toUInt64 <<< 32)

/-- A number as a sum, the first part with the lower half of its bits clear. -/
structure Split where
  high : Float
  low : Float

/-- The logarithm in base two of a number close to one. -/
def logNearOne (x : Float) : Split :=
  let t := x - 1.0
  let w := t * t * (0.5 - t * (0.3333333333333333333333 - t * 0.25))
  let u := 1.44269502162933349609 * t
  let v := t * 1.92596299112661746887e-8 - w * 1.44269504088896338700
  let high := coarse (u + v)
  ⟨high, v - (high - u)⟩

/-- The point that the logarithm of a number between one and two is expanded around, whether it is
one and a half, and whether the number is halved first. -/
def pivot (fraction : Nat) : Float × Bool × Bool :=
  if fraction ≤ 0x3988E then (1.0, false, false)
  else if fraction < 0xBB67A then (1.5, true, false)
  else (1.0, false, true)

/-- The logarithm of a number between half the square root of three and the square root of three,
times three halves, as a series in its distance from `center`. `middle` is half of the number plus
`center` on a coarse grid, doubled. -/
def logSeries (x center middle : Float) : Split :=
  let u := x - center
  let v := 1.0 / (x + center)
  let s := u * v
  let sHigh := coarse s
  let rest := x - (middle - center)
  let sLow := v * ((u - sHigh * middle) - sHigh * rest)
  let s2 := s * s
  let tail := s2 * s2 * (5.99999999999994648725e-1 + s2 * (4.28571428578550184252e-1 +
    s2 * (3.33333329818377432918e-1 + s2 * (2.72728123808534006489e-1 +
    s2 * (2.30660745775561754067e-1 + s2 * 2.06975017800338417784e-1)))))
  let r := tail + sLow * (sHigh + s)
  let s2 := sHigh * sHigh
  let tHigh := coarse (3.0 + s2 + r)
  let tLow := r - ((tHigh - 3.0) - s2)
  let u := sHigh * tHigh
  let v := sLow * tHigh + tLow * s
  let high := coarse (u + v)
  ⟨high, v - (high - u)⟩

/-- The logarithm in base two of a positive number. -/
def logTwo (x : Float) : Split :=
  let tiny := upper x < 0x00100000
  let x := if tiny then x * 9007199254740992.0 else x
  let fraction := upper x % 0x00100000
  let (center, isUpper, halved) := pivot fraction
  let exponent : Int := (upper x / 0x00100000 : Nat) - 1023 - (if tiny then 53 else 0) +
    (if halved then 1 else 0)
  let bits := fraction + (if halved then 0x3FE00000 else 0x3FF00000)
  let scaled := Float.ofBits ((bits.toUInt64 <<< 32) + (x.toBits &&& 0xFFFFFFFF))
  let middle := ofUpper ((bits / 2 ||| 0x20000000) + 0x00080000 + (if isUpper then 0x40000 else 0))
  let series := logSeries scaled center middle
  let pivotHigh := if isUpper then 5.84962487220764160156e-1 else 0.0
  let pivotLow := if isUpper then 1.35003920212974897128e-8 else 0.0
  let zHigh := 9.61796700954437255859e-1 * series.high
  let zLow := -7.02846165095275826516e-9 * series.high + series.low * 9.61796693925975554329e-1 +
    pivotLow
  let t := ofInt exponent
  let high := coarse (((zHigh + zLow) + pivotHigh) + t)
  ⟨high, zLow - (((high - t) - pivotHigh) - zHigh)⟩

/-- Two to the power of a sum that is neither too great nor too small. -/
def expTwo (high low : Float) : Float :=
  let z := low + high
  let n := if 0x3FE00000 < upper z.abs then (coarse z.abs + 0.5).floor else 0.0
  let n := if isNegative z then -n else n
  let high := high - n
  let t := coarse (low + high)
  let u := t * 6.93147182464599609375e-1
  let v := (low - (t - high)) * 6.93147180559945286227e-1 + t * -1.90465429995776804525e-9
  let z := u + v
  let w := v - (z - u)
  let t := z * z
  let t1 := z - t * (1.66666666666666019037e-1 + t * (-2.77777777770155933842e-3 +
    t * (6.61375632143793436117e-5 + t * (-1.65339022054652515390e-6 +
    t * 4.13813679705723846039e-8))))
  let r := (z * t1) / ((t1 - 2.0) - (w + z * w))
  (1.0 - (r - z)).scaleB ((toInt? n).getD 0)

/-- The greatest excess over 1024 of an exponent of two whose power still rounds to a number. -/
def excess : Float := 8.0085662595372944372e-17

/-- Two to the product of a logarithm and an exponent; infinity or zero when that is out of
range. -/
def expProduct (log : Split) (y : Float) : Float :=
  let yHigh := coarse y
  let low := (y - yHigh) * log.high + y * log.low
  let high := yHigh * log.high
  let z := low + high
  if z > 1024.0 || (z == 1024.0 && low + excess > z - high) then infinity
  else if z < -1075.0 || (z == -1075.0 && low <= z - high) then 0.0
  else expTwo high low

/-- A power of a positive number that is neither infinite nor one. -/
def positivePower (x y : Float) : Float :=
  if 0x41E00000 < upper y.abs then
    if upper x < 0x3FEFFFFF then (if y < 0.0 then infinity else 0.0)
    else if 0x3FF00000 < upper x then (if y > 0.0 then infinity else 0.0)
    else expProduct (logNearOne x) y
  else expProduct (logTwo x) y

/-- Whether a number is whole and odd. -/
def isOdd (x : Float) : Bool := isWhole x && (toInt? x).any (· % 2 != 0)

/-- A power of zero, of one, or of infinity, of either sign. -/
def trivialPower (x y : Float) : Float :=
  let z := if y < 0.0 then 1.0 / x.abs else x.abs
  if !isNegative x then z
  else if x == -1.0 && !isWhole y then nan
  else if isOdd y then -z
  else z

/-- The power of a number. One to an infinite power is not a number, nor is anything to a power
that is none; a negative number has only whole powers. -/
def power (x y : Float) : Float :=
  if y == 0.0 then 1.0
  else if x.isNaN || y.isNaN then nan
  else if y.isInf then
    if x.abs == 1.0 then nan else if (1.0 < x.abs) == (0.0 < y) then infinity else 0.0
  else if y == 1.0 then x
  else if y == -1.0 then 1.0 / x
  else if y == 2.0 then x * x
  else if y == 0.5 && !isNegative x then x.sqrt
  else if x == 0.0 || x.isInf || x.abs == 1.0 then trivialPower x y
  else if !isNegative x then positivePower x y
  else if !isWhole y then nan
  else if isOdd y then -positivePower x.abs y
  else positivePower x.abs y

end Number

end PageTemplate
