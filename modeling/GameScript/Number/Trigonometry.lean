import GameScript.Number.Double

/-!
# Trigonometric functions

The functions are approximated by fixed schemes in double precision, so that every result is determined
to its last bit. An angle is split into a number of eighths of a turn and a rest of magnitude at most
`pi / 4`, on which a polynomial or a ratio of two is evaluated; the arc functions all go through that
of the tangent between zero and `tan (pi / 8)`.
-/

namespace GameScript.Double

/-! ### Eighths of a turn -/

/-- An angle as an even number of eighths of a turn, below eight, and a rest. -/
structure Angle where
  eighths : Nat
  rest : Double

/-- The first words of `4 / pi`: sixty-four bits each, the first of them before the point. -/
def fourOverPi : List Nat :=
  [0x1, 0x45f306dc9c882a53, 0xf84eafa3ea69bb81, 0xb6c52b3278872083,
    0xfca2c757bd778ac3, 0x6e48dc74849ba5c0, 0x0c925dd413a32439, 0xfc3bd63962534e7d,
    0xd1046bea5d768909, 0xd338e04d68befc82, 0x7323ac7306a673e9, 0x3908bf177bf25076,
    0x3ff12fffbc0b301f, 0xde5e2316b414da3e, 0xda6cfd9e4f96136e, 0x9e8c7ecd3cbfd45a,
    0xea4f758fd7cbe2f6, 0x7a0e73ef14a525d4, 0xd7f6bf623f1aba10, 0xac06608df8f6d757]

/-- Splits a positive angle that is not too large: `pi / 4` is taken off in three pieces, so that little
is lost. -/
def splitSmall (x : Double) : Angle :=
  let n := (x * 1.2732395447351628).magnitude.1
  let n := if n % 2 = 1 then n + 1 else n
  let y := ofInt n
  ⟨n % 8, x - y * 7.85398125648498535156e-1 - y * 3.77489470793079817668e-8 -
    y * 2.69515142907905952645e-15⟩

/-- The fraction whose first 64 bits are `hi` as a double, cut off after 52 bits behind the first one
set. Where these go beyond `hi` they are taken from the upper end of `lo`. -/
def ofFractionBits (hi lo : Nat) : Double :=
  let length := if hi = 0 then 0 else hi.log2 + 1
  let taken := 65 - length
  let bits := (hi * twoTo taken % twoTo 64) ||| (if taken ≤ 64 then lo / twoTo (64 - taken) else 0)
  ⟨((1023 - taken) * twoTo 52 + bits / twoTo 12).toUInt64⟩

/-- Splits a large positive angle: its product with `4 / pi` is computed from the three words that hold
the bits around the point. -/
def splitLarge (x : Double) : Angle :=
  let shift := (x.exponent + 61).toNat
  let digits := fourOverPi.foldl (fun n w => n * twoTo 64 + w) 0
  let window := digits / twoTo (1088 - shift) % twoTo 192
  let product := window * x.significand / twoTo 64 % twoTo 128
  let hi := product / twoTo 64
  let lo := product % twoTo 64
  let n := hi / twoTo 61
  let z := ofFractionBits (hi * 8 % twoTo 64 + lo / twoTo 61) lo
  let quarter : Double := 0.785398163397448309615660845819875721
  if n % 2 = 1 then ⟨(n + 1) % 8, (z - 1.0) * quarter⟩ else ⟨n, z * quarter⟩

/-- Splits a positive angle. -/
def split (x : Double) : Angle := if x.lt 536870912.0 then splitSmall x else splitLarge x

/-! ### Sine, cosine and tangent -/

/-- The sine of an angle of magnitude at most `pi / 4`. -/
def sinNearZero (z : Double) : Double :=
  let zz := z * z
  z + z * zz * polynomial zz [1.58962301576546568060e-10, -2.50507477628578072866e-8,
    2.75573136213857245213e-6, -1.98412698295895385996e-4, 8.33333333332211858878e-3,
    -1.66666666666666307295e-1]

/-- The cosine of an angle of magnitude at most `pi / 4`. -/
def cosNearZero (z : Double) : Double :=
  let zz := z * z
  1.0 - 0.5 * zz + zz * zz * polynomial zz [-1.13585365213876817300e-11, 2.08757008419747316778e-9,
    -2.75573141792967388112e-7, 2.48015872888517045348e-5, -1.38888888888730564116e-3,
    4.16666666666665929218e-2]

/-- `x`, with the opposite sign if asked for. -/
def negateIf (b : Bool) (x : Double) : Double := if b then x.neg else x

/-- The sine: half a turn changes the sign, and a quarter of a turn makes it a cosine. -/
def sin (x : Double) : Double :=
  if x.isZero || x.isNaN then x
  else if x.isInf then nan
  else
    let a := x.abs.split
    negateIf (xor x.sign (a.eighths > 3))
      (if a.eighths % 4 = 2 then cosNearZero a.rest else sinNearZero a.rest)

/-- The cosine: half a turn changes the sign, and a quarter of a turn makes it a sine. -/
def cos (x : Double) : Double :=
  if !x.isFinite then nan
  else
    let a := x.abs.split
    negateIf (xor (a.eighths > 3) (a.eighths % 4 > 1))
      (if a.eighths % 4 = 2 then sinNearZero a.rest else cosNearZero a.rest)

/-- The tangent of an angle of magnitude at most `pi / 4`. -/
def tanNearZero (z : Double) : Double :=
  let zz := z * z
  if lt 1e-14 zz then
    z + z * (zz * polynomial zz [-1.30936939181383734205e4, 1.15351664838587416140e6,
        -1.79565251976484877988e7] /
      polynomial zz [1.0, 1.36812963470692954678e4, -1.32089234440210967447e6,
        2.50083801823357915839e7, -5.38695755929454629881e7])
  else z

/-- The tangent: a quarter of a turn makes it the negated cotangent. -/
def tan (x : Double) : Double :=
  if x.isZero || x.isNaN then x
  else if x.isInf then nan
  else
    let a := x.abs.split
    let y := tanNearZero a.rest
    negateIf x.sign (if a.eighths % 4 = 2 then -1.0 / y else y)

/-! ### Arc functions -/

/-- The arc tangent of a number of magnitude at most 0.66. -/
def atanNearZero (x : Double) : Double :=
  let z := x * x
  let z := z * polynomial z [-8.750608600031904122785e-01, -1.615753718733365076637e+01,
      -7.500855792314704667340e+01, -1.228866684490136173410e+02, -6.485021904942025371773e+01] /
    polynomial z [1.0, 2.485846490142306297962e+01, 1.650270098316988542046e+02,
      4.328810604912902668951e+02, 4.853903996359136964868e+02, 1.945506571482613964425e+02]
  x * z + x

/-- `pi / 2`. -/
def halfPi : Double := pi / 2.0

/-- `pi / 4`. -/
def quarterPi : Double := pi / 4.0

/-- What the double next to `pi / 2` lacks. -/
def halfPiRest : Double := 6.123233995736765886130e-17

/-- The arc tangent of a positive number: beyond `tan (3 pi / 8)` through its inverse, and between that
and 0.66 through the difference to one eighth of a turn. -/
def atanPositive (x : Double) : Double :=
  if x.le 0.66 then atanNearZero x
  else if lt 2.41421356237309504880 x then halfPi - atanNearZero (1.0 / x) + halfPiRest
  else quarterPi + atanNearZero ((x - 1.0) / (x + 1.0)) + 0.5 * halfPiRest

def atan (x : Double) : Double :=
  if x.isZero then x else if zero.lt x then atanPositive x else (atanPositive x.neg).neg

/-- The arc sine, undefined beyond one. -/
def asin (x : Double) : Double :=
  if x.isZero then x
  else
    let negative := x.lt zero
    let x := negateIf negative x
    if lt 1.0 x then nan
    else
      let c := (1.0 - x * x).sqrt
      negateIf negative (if lt 0.7 x then halfPi - atanPositive (c / x) else atanPositive (x / c))

def acos (x : Double) : Double := halfPi - asin x

/-- The angle at which the point with the coordinates `x` and `y` is seen. -/
def atan2 (y x : Double) : Double :=
  if x.isNaN || y.isNaN then nan
  else if y.isZero then withSign y.sign (if x.sign then pi else zero)
  else if x.isZero then withSign y.sign halfPi
  else if x.isInf then
    withSign y.sign (if y.isInf then (if x.sign then 2.356194490192344928846982537459627163147877 else
      quarterPi) else if x.sign then pi else zero)
  else if y.isInf then withSign y.sign halfPi
  else
    let q := atan (y / x)
    if x.sign then (if q.le zero then q + pi else q - pi) else q

end GameScript.Double
