import GameScript.Number.Power

/-!
# Double-precision numbers

A double is its 64 bits: a sign, an exponent of eleven bits and a fraction of 52. Keeping the bits makes
equality decidable and tells `-0.0` from `0.0` and one NaN from another. Comparison, rounding to
integers, remainders and conversions are computed exactly from the significand and the exponent.
-/

namespace GameScript

/-- A **double** is an IEEE 754 binary64 number, given by its bits. -/
structure Double where
  bits : UInt64
deriving DecidableEq, Inhabited

namespace Double

def ofFloat (x : Float) : Double := ⟨x.toBits⟩

def toFloat (x : Double) : Float := Float.ofBits x.bits

/-- Whether the sign bit is set. -/
def sign (x : Double) : Bool := x.bits ≥ 0x8000000000000000

/-- The biased exponent. -/
def exponentField (x : Double) : Nat := (x.bits >>> 52).toNat % 2048

def fractionField (x : Double) : Nat := x.bits.toNat % twoTo 52

def isNaN (x : Double) : Bool := x.exponentField = 2047 && x.fractionField ≠ 0

def isInf (x : Double) : Bool := x.exponentField = 2047 && x.fractionField = 0

def isFinite (x : Double) : Bool := x.exponentField ≠ 2047

/-- The magnitude of a finite double is `significand * 2 ^ exponent`. -/
def significand (x : Double) : Nat :=
  if x.exponentField = 0 then x.fractionField else twoTo 52 + x.fractionField

def exponent (x : Double) : Int :=
  if x.exponentField = 0 then -1074 else (x.exponentField : Int) - 1075

def zero : Double := ⟨0⟩

def one : Double := ⟨0x3FF0000000000000⟩

/-- Positive infinity. -/
def inf : Double := ⟨0x7FF0000000000000⟩

/-- The NaN that stands for an undefined number in tables of constants. -/
def nan : Double := ⟨0x7FF8000000000001⟩

/-- The NaN that an operation on numbers yields when it has no value. -/
def invalid : Double := ⟨0xFFF8000000000000⟩

/-- The ratio of the circumference of a circle to its diameter. -/
def pi : Double := ⟨0x400921FB54442D18⟩

/-- The number with the opposite sign. -/
def neg (x : Double) : Double := ⟨x.bits ^^^ 0x8000000000000000⟩

def abs (x : Double) : Double := ⟨x.bits &&& 0x7FFFFFFFFFFFFFFF⟩

/-- `x` with the sign bit set as given. -/
def withSign (s : Bool) (x : Double) : Double := if s then x.abs.neg else x.abs

/-! ### Order -/

/-- The place of a number that is no NaN among all of them; both zeros have the same. -/
def rank (x : Double) : Int :=
  if x.sign then -(x.abs.bits.toNat : Int) else x.abs.bits.toNat

/-- Numerical equality: no NaN equals anything, and the two zeros are equal. -/
def eq (x y : Double) : Bool := !x.isNaN && !y.isNaN && x.rank = y.rank

def lt (x y : Double) : Bool := !x.isNaN && !y.isNaN && x.rank < y.rank

def le (x y : Double) : Bool := !x.isNaN && !y.isNaN && x.rank ≤ y.rank

def isZero (x : Double) : Bool := x.eq zero

/-! ### Exact rounding -/

/-- `n / d` rounded to the nearest natural number, an exact half to the even one. -/
def divideToEven (n d : Nat) : Nat :=
  let q := n / d
  let r := n % d
  if 2 * r < d then q else if d < 2 * r then q + 1 else if q % 2 = 0 then q else q + 1

/-- The double of a significand below `2 ^ 53` and an exponent not below -1074. -/
def pack (m : Nat) (e : Int) : Double :=
  if m < twoTo 52 then ⟨m.toUInt64⟩
  else if 971 < e then inf
  else ⟨((e + 1075).toNat * twoTo 52 + (m - twoTo 52)).toUInt64⟩

/-- The double nearest to the ratio `n / d`, an exact half going to the even significand; infinity if
it is too large. -/
def ofRatio (n d : Nat) : Double :=
  if n = 0 || d = 0 then zero
  else
    let guess : Int := (n.log2 : Int) - d.log2 - 52
    let scale (e : Int) : Nat × Nat := (n * twoTo (-e).toNat, d * twoTo e.toNat)
    let e := let (a, b) := scale guess; if a / b < twoTo 52 then guess - 1 else guess
    let e := max e (-1074)
    let (a, b) := scale e
    let m := divideToEven a b
    if m = twoTo 53 then pack (twoTo 52) (e + 1) else pack m e

/-- The double nearest to an integer. -/
def ofInt (i : Int) : Double := withSign (i < 0) (ofRatio i.natAbs 1)

def ofInt64 (i : Int64) : Double := ofInt i.toInt

/-! ### Rounding to integers -/

/-- The integer part of the magnitude of a finite number, and whether a fraction was cut off. -/
def magnitude (x : Double) : Nat × Bool :=
  if x.exponent ≥ 0 then (x.significand * twoTo x.exponent.toNat, false)
  else
    let d := twoTo (-x.exponent).toNat
    (x.significand / d, x.significand % d ≠ 0)

/-- Whether the fraction of the magnitude of a finite number is at least one half. -/
def fractionAtLeastHalf (x : Double) : Bool :=
  if x.exponent ≥ 0 then false
  else let d := twoTo (-x.exponent).toNat; 2 * (x.significand % d) ≥ d

/-- Rounds to an integer: `up` says whether the magnitude of a number with a fraction grows. Numbers
without one, infinities and NaNs stay as they are, and the sign is kept. -/
def toIntegral (up : Double → Bool) (x : Double) : Double :=
  if !x.isFinite || x.exponent ≥ 0 then x
  else
    let (n, cut) := x.magnitude
    if cut then withSign x.sign (ofInt (if up x then n + 1 else n)) else x

def floor : Double → Double := toIntegral sign

def ceil : Double → Double := toIntegral (!·.sign)

/-- To the nearest integer, an exact half away from zero. -/
def round : Double → Double := toIntegral fractionAtLeastHalf

/-- The integer part of a number that is in the range of 64-bit integers, and the least of these for
all others. -/
def truncate (x : Double) : Int64 :=
  if !x.isFinite then Int64.minValue
  else
    let n := x.magnitude.1
    if x.sign then (if n ≤ twoTo 63 then Int64.ofInt (-(n : Int)) else Int64.minValue)
    else if n < twoTo 63 then Int64.ofInt n else Int64.minValue

/-- The integer part, cut to the range of 64-bit integers; zero for a NaN. -/
def saturate (x : Double) : Int64 :=
  if x.isNaN then 0
  else if x.isInf then (if x.sign then Int64.minValue else Int64.maxValue)
  else
    let n := x.magnitude.1
    if x.sign then (if n ≤ twoTo 63 then Int64.ofInt (-(n : Int)) else Int64.minValue)
    else if n < twoTo 63 then Int64.ofInt n else Int64.maxValue

/-! ### Arithmetic -/

/-- The NaN with its quiet bit set. -/
def quiet (x : Double) : Double := ⟨x.bits ||| 0x0008000000000000⟩

/-- The result of a binary operation: the first NaN among the operands, or the computed number. -/
def combine (f : Float → Float → Float) (x y : Double) : Double :=
  if x.isNaN then x.quiet else if y.isNaN then y.quiet
  else let z := ofFloat (f x.toFloat y.toFloat); if z.isNaN then invalid else z

def add : Double → Double → Double := combine (· + ·)

def sub : Double → Double → Double := combine (· - ·)

def mul : Double → Double → Double := combine (· * ·)

def div : Double → Double → Double := combine (· / ·)

instance : Add Double := ⟨add⟩
instance : Sub Double := ⟨sub⟩
instance : Mul Double := ⟨mul⟩
instance : Div Double := ⟨div⟩
instance : Neg Double := ⟨neg⟩

/-- The smaller of two numbers; a NaN if there is one, and `-0.0` is below `0.0`. -/
def min (x y : Double) : Double :=
  if (x.isInf && x.sign) || (y.isInf && y.sign) then inf.neg
  else if x.isNaN || y.isNaN then nan
  else if x.isZero && y.isZero then (if x.sign then x else y)
  else if x.lt y then x else y

/-- The larger of two numbers; a NaN if there is one, and `-0.0` is below `0.0`. -/
def max (x y : Double) : Double :=
  if (x.isInf && !x.sign) || (y.isInf && !y.sign) then inf
  else if x.isNaN || y.isNaN then nan
  else if x.isZero && y.isZero then (if x.sign then y else x)
  else if y.lt x then x else y

/-- The exact remainder of the division of `x` by `y`, with the sign of `x`. -/
def mod (x y : Double) : Double :=
  if y.isZero || x.isInf || x.isNaN || y.isNaN then nan
  else if y.isInf then x
  else
    let e := if x.exponent ≤ y.exponent then x.exponent else y.exponent
    let a := x.significand * twoTo (x.exponent - e).toNat
    let b := y.significand * twoTo (y.exponent - e).toNat
    let r := a % b
    withSign x.sign (if e ≥ 0 then ofRatio (r * twoTo e.toNat) 1 else ofRatio r (twoTo (-e).toNat))

/-- The sign of a number as a number: 1, -1, or 0 for the zeros and NaNs. -/
def signum (x : Double) : Double :=
  if zero.lt x then one else if x.lt zero then one.neg else zero

def sqrt (x : Double) : Double :=
  if x.isNaN then x.quiet else let z := ofFloat x.toFloat.sqrt; if z.isNaN then invalid else z

/-! ### Decimal literals -/

/-- The double nearest to the decimal `n * 10 ^ e`, or to `n * 10 ^ -e`. -/
def ofDecimal (n : Nat) (negative : Bool) (e : Nat) : Double :=
  if negative then ofRatio n (tenTo e) else ofRatio (n * tenTo e) 1

instance : OfScientific Double := ⟨ofDecimal⟩

/-! ### Scaling by powers of two -/

/-- The double nearest to `m * 2 ^ e`, with a sign. -/
def ofScaled (negative : Bool) (m : Nat) (e : Int) : Double :=
  withSign negative (ofRatio (m * twoTo e.toNat) (twoTo (-e).toNat))

/-- The double nearest to `x * 2 ^ k`. -/
def scale (x : Double) (k : Int) : Double :=
  if x.isFinite then ofScaled x.sign x.significand (x.exponent + k) else x

/-- A finite number other than zero as a fraction, whose magnitude is at least one half and below one,
and a power of two; any other number as itself. -/
def parts (x : Double) : Double × Int :=
  if !x.isFinite || x.isZero then (x, 0)
  else
    let length := x.significand.log2 + 1
    (ofScaled x.sign x.significand (-(length : Int)), x.exponent + length)

/-- The significand of a finite number with its sign, counted in units of `2 ^ e`, where `e` is not
above its exponent. -/
def unitsAt (x : Double) (e : Int) : Int :=
  let n : Int := x.significand * twoTo (x.exponent - e).toNat
  if x.sign then -n else n

/-- `x * y + z`, rounded only once. -/
def fusedMulAdd (x y z : Double) : Double :=
  if !x.isFinite || !y.isFinite || !z.isFinite then x * y + z
  else
    let product := x.exponent + y.exponent
    let e := if product ≤ z.exponent then product else z.exponent
    let p : Int := x.unitsAt x.exponent * y.unitsAt y.exponent * twoTo (product - e).toNat
    let n := p + z.unitsAt e
    if n = 0 then x * y + z else ofScaled (n < 0) n.natAbs e

/-- The value at `x` of the polynomial with the given coefficients, the highest first. -/
def polynomial (x : Double) : List Double → Double
  | [] => zero
  | c :: cs => cs.foldl (fun sum c => sum * x + c) c

end Double

end GameScript
