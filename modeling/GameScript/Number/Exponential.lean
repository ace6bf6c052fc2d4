import GameScript.Number.Double

/-!
# Exponential, logarithm and powers

The functions are approximated by fixed schemes in double precision, so that every result is determined
to its last bit.

* `exp` takes out the nearest power of two, sums seven terms of the series at a sixteenth of what is
  left, and squares four times.
* `log` takes out a power of two such that the rest `1 + f` lies near one, and evaluates a series in
  `f / (2 + f)`.
* `pow` multiplies by repeated squaring for the whole part of the exponent; only its fraction goes
  through `exp` and `log`.
-/

namespace GameScript.Double

/-! ### The exponential function -/

/-- The number nearest to an integer, as that integer; an exact half goes to the even neighbour. -/
def nearestInt (x : Double) : Int :=
  let n := if x.exponent ≥ 0 then x.significand * twoTo x.exponent.toNat
    else divideToEven x.significand (twoTo (-x.exponent).toNat)
  if x.sign then -(n : Int) else n

/-- The exponential of a number of magnitude below one half. The series gives `exp t - 1` at a sixteenth
of it, and if `y` is `exp t - 1` then `exp (2 t) - 1` is `y * (y + 2)`; the last of the four steps of
this kind adds the one. -/
def expNearZero (x : Double) : Double :=
  let t := x * 0.0625
  let series := [1.9841269841269841270e-4, 1.3888888888888888889e-3, 8.3333333333333333333e-3,
    4.1666666666666666667e-2, 1.6666666666666666667e-1, 0.5, 1.0].foldl
    (fun sum c => fusedMulAdd sum t c) (2.4801587301587301587e-5 : Double)
  let double (y : Double) : Double := y * (y + 2.0)
  let y := double (double (double (t * series)))
  fusedMulAdd y (y + 2.0) 1.0

/-- The exponential function. It is infinite as soon as the power of two taken out is `2 ^ 1024`. -/
def exp (x : Double) : Double :=
  if x.isNaN then x
  else if x.isInf then (if x.sign then zero else x)
  else if lt 7.09782712893384e+02 x then inf
  else if x.lt (-2000.0) then zero
  else
    let k := (x * 1.4426950408889634073599246810018920).nearestInt
    if 1024 ≤ k then inf
    else
      let whole := ofInt k
      let rest := fusedMulAdd (-0.69314718055966295651160180568695068359375) whole x
      let rest := fusedMulAdd (-0.28235290563031577122588448175013436025525412068e-12) whole rest
      (expNearZero rest).scale k

/-! ### The natural logarithm -/

/-- The logarithm of a positive finite number from its two fields: a fraction `1 + f` between
`sqrt 2 / 2` and `sqrt 2` and a power of two. Below the least normal number the fields are read as if
they were those of a normal one. -/
def logOfFields (x : Double) : Double :=
  let half : Double := ⟨0x3FE0000000000000 + x.fractionField.toUInt64⟩
  let k := (x.exponentField : Int) - 1022
  let (fraction, k) :=
    if half.le 7.07106781186547524401e-01 then (half * 2.0, k - 1) else (half, k)
  let f := fraction - 1.0
  let s := f / (f + 2.0)
  let s2 := s * s
  let s4 := s2 * s2
  let odd := s2 * polynomial s4 [1.479819860511658591e-01, 1.818357216161805012e-01,
    2.857142874366239149e-01, 6.666666666666735130e-01]
  let even := s4 * polynomial s4 [1.531383769920937332e-01, 2.222219843214978396e-01,
    3.999999999940941908e-01]
  let square := 0.5 * f * f
  let k := ofInt k
  k * 6.93147180369123816490e-01 -
    ((square - (s * (square + (odd + even)) + k * 1.90821492927058770002e-10)) - f)

/-- The natural logarithm. Of anything with a minus sign except zero it is undefined. -/
def log (x : Double) : Double :=
  if x.isZero then inf.neg
  else if x.sign then nan
  else if !x.isFinite then x
  else x.logOfFields

/-! ### Powers -/

/-- Whether a number is an odd integer. -/
def isOddInteger (x : Double) : Bool :=
  x.isFinite && (let (n, cut) := x.magnitude; !cut && n % 2 = 1)

/-- The binary digits of a number, the lowest first. -/
def binaryDigits (n : Nat) : List Bool :=
  (List.range (if n = 0 then 0 else n.log2 + 1)).map n.testBit

/-- A number `fraction * 2 ^ exponent` whose exponent has no bounds. -/
structure Wide where
  fraction : Double
  exponent : Int

/-- Multiplies `acc` by the powers of `base` for the binary digits of an exponent, squaring `base` from
digit to digit. Once the exponent of `base` is beyond that of every double, the product is too. -/
def Wide.multiply (acc base : Wide) : List Bool → Wide
  | [] => acc
  | digit :: digits =>
    if base.exponent < -4096 || 4096 < base.exponent then
      { acc with exponent := acc.exponent + base.exponent }
    else
      let acc := if digit then
          ⟨acc.fraction * base.fraction, acc.exponent + base.exponent⟩
        else acc
      let square := base.fraction * base.fraction
      if square.lt 0.5 then multiply acc ⟨square + square, 2 * base.exponent - 1⟩ digits
      else multiply acc ⟨square, 2 * base.exponent⟩ digits

/-- `x` to the power `y`, for a finite `x` that is neither zero nor one and a finite `y` that is not
zero. -/
def finitePow (x y : Double) : Double :=
  let whole := y.abs.magnitude.1
  let part := y.abs - ofInt whole
  if !part.isZero && x.sign then nan
  else if twoTo 63 ≤ whole then
    if x.eq (-1.0) then one else if x.abs.lt 1.0 = zero.lt y then zero else inf
  else
    let up := lt 0.5 part
    let whole := if up then whole + 1 else whole
    let part := if up then part - 1.0 else part
    let start : Double := if part.isZero then one else exp (part * log x)
    let (fraction, exponent) := x.parts
    let result := Wide.multiply ⟨start, 0⟩ ⟨fraction, exponent⟩ (binaryDigits whole)
    if y.sign then (1.0 / result.fraction).scale (-result.exponent)
    else result.fraction.scale result.exponent

/-- A zero, with the sign of `x`, to the power `y`. -/
def zeroPow (x y : Double) : Double :=
  let negative := x.sign && y.isOddInteger
  withSign negative (if y.sign then inf else zero)

/-- `x` to the power `y`. -/
def pow (x y : Double) : Double :=
  if y.isZero || x.eq 1.0 then one
  else if y.eq 1.0 then x
  else if x.isNaN || y.isNaN then nan
  else if x.isZero then zeroPow x y
  else if y.isInf then
    if x.eq (-1.0) then one else if x.abs.lt 1.0 = !y.sign then zero else inf
  else if x.isInf then
    if x.sign then zeroPow zero.neg y.neg else if y.sign then zero else inf
  else if y.eq 0.5 then x.sqrt
  else if y.eq (-0.5) then 1.0 / x.sqrt
  else finitePow x y

end GameScript.Double
