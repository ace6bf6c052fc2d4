import GameScript.Number.Double
import GameScript.Text.Basic

/-!
# Numbers as text

The notation of floats in values and listings, and the notation with six places of format strings.
-/

namespace GameScript

/-! ## Shortest decimals

The fewest decimal digits that read back as a given double, and among those the decimal nearest to it.
All comparisons are made on exact integers: a double stands for the interval of reals that round to it,
whose ends belong to it iff its significand is even.
-/

/-- The decimal `0.d₁d₂…dₙ * 10 ^ point`, where `digits` has the `count` digits `d₁…dₙ`. -/
structure Decimal where
  digits : Nat
  count : Nat
  point : Int
deriving DecidableEq, Inhabited

namespace Decimal

/-- The number of decimal digits of a positive number, counted up to `fuel`. -/
def lengthFrom : Nat → Nat → Nat
  | 0, _ => 0
  | fuel + 1, n => if n < 10 then 1 else 1 + lengthFrom fuel (n / 10)

/-- The number of decimal digits of a natural number. -/
def length (n : Nat) : Nat := lengthFrom (n.log2 + 1) n

/-- The least `k ≤ fuel` with `d ≤ n * 10 ^ k`, counted from `k`. -/
def zerosFrom : Nat → Nat → Nat → Nat
  | 0, _, _ => 0
  | fuel + 1, n, d => if d ≤ n then 0 else 1 + zerosFrom fuel (n * 10) d

/-- The `p` with `10 ^ (p - 1) ≤ n / d < 10 ^ p`, for positive `n` and `d`. -/
def pointOf (n d : Nat) : Int :=
  if d ≤ n then length (n / d) else 1 - (zerosFrom (d.log2 + 1) n d : Int)

/-- Drops trailing zeros of the digits; the value stays the same. -/
def trimFrom : Nat → Decimal → Decimal
  | 0, x => x
  | fuel + 1, x =>
    if x.count > 1 && x.digits % 10 = 0 then
      trimFrom fuel { x with digits := x.digits / 10, count := x.count - 1 }
    else x

/-- `digits` on the grid of decimals with `count` digits below `10 ^ point`; a carry into one digit
more moves the point. -/
def ofGrid (digits count : Nat) (point : Int) : Decimal :=
  if digits = tenTo count then ⟨1, 1, point + 1⟩ else trimFrom count ⟨digits, count, point⟩

end Decimal

namespace Double

/-- The interval of reals that round to a positive finite double, in units of `1 / unit`. -/
structure Neighbourhood where
  low : Nat
  value : Nat
  high : Nat
  unit : Nat
  closed : Bool

/-- The numbers that round to `x`. Below a power of two the spacing is half of that above. -/
def neighbourhood (x : Double) : Neighbourhood :=
  let m := x.significand
  let e := x.exponent - 2
  let half : Nat := if m = twoTo 52 && x.exponent > -1074 then 1 else 2
  let up := twoTo e.toNat
  { low := (4 * m - half) * up
    value := 4 * m * up
    high := (4 * m + 2) * up
    unit := twoTo (-e).toNat
    closed := m % 2 = 0 }

/-- Whether the real `a / b` rounds to the double of the neighbourhood. -/
def Neighbourhood.holds (h : Neighbourhood) (a b : Nat) : Bool :=
  if h.closed then h.low * b ≤ a * h.unit && a * h.unit ≤ h.high * b
  else h.low * b < a * h.unit && a * h.unit < h.high * b

/-- The decimal with `count` digits, if there is one, that reads back and is nearest. -/
def onGrid? (h : Neighbourhood) (point : Int) (count : Nat) : Option Decimal :=
  let e := point - count
  let b := tenTo (-e).toNat
  let step := tenTo e.toNat
  let down := h.value * b / (h.unit * step)
  let real (d : Nat) : Nat := d * step
  let downHolds := h.holds (real down) b
  let upHolds := h.holds (real (down + 1)) b
  let belowBy := h.value * b - real down * h.unit
  let aboveBy := real (down + 1) * h.unit - h.value * b
  let takeUp := if belowBy = aboveBy then down % 2 = 1 else aboveBy < belowBy
  if downHolds && !(upHolds && takeUp) then some (Decimal.ofGrid down count point)
  else if upHolds then some (Decimal.ofGrid (down + 1) count point)
  else none

/-- The shortest decimal that reads back, starting with `count` digits. -/
def shortestFrom (h : Neighbourhood) (point : Int) : Nat → Nat → Decimal
  | 0, count => (onGrid? h point count).getD default
  | fuel + 1, count => (onGrid? h point count).getD (shortestFrom h point fuel (count + 1))

/-- The shortest decimal that reads back as the magnitude of a finite double other than zero. -/
def shortest (x : Double) : Decimal :=
  let h := x.neighbourhood
  shortestFrom h (Decimal.pointOf h.value h.unit) 17 1

end Double

/-! ## Numbers as text -/

/-- The choices of a decimal notation: which decimal exponents are written positionally, and the least
number of digits of an exponent. -/
structure Notation where
  leastPositional : Int
  exponentFrom : Int
  exponentDigits : Nat

/-- Floats are written positionally from `1e-4` up to below `1e6`, and otherwise with an exponent of at
least two digits. -/
def Notation.value : Notation := ⟨-4, 6, 2⟩

namespace Decimal

/-- The digits of a decimal. -/
def digitBytes (d : Decimal) : List UInt8 :=
  let ds := (Nat.repr d.digits).toUTF8.data.toList
  List.replicate (d.count - ds.length) 48 ++ ds

/-- `d` with a decimal point and no exponent. -/
def positional (d : Decimal) : Text :=
  let ds := d.digitBytes
  if d.point ≤ 0 then ⟨[48, 46] ++ List.replicate (-d.point).toNat 48 ++ ds⟩
  else
    let n := d.point.toNat
    if ds.length ≤ n then ⟨ds ++ List.replicate (n - ds.length) 48⟩
    else ⟨ds.take n ++ [46] ++ ds.drop n⟩

/-- `d` with one digit before the point and an exponent of at least `width` digits. -/
def scientific (width : Nat) (d : Decimal) : Text :=
  let e := d.point - 1
  let es := (Nat.repr e.natAbs).toUTF8.data.toList
  let exponent := [101, if e < 0 then 45 else 43] ++ List.replicate (width - es.length) 48 ++ es
  match d.digitBytes with
  | [] => ⟨exponent⟩
  | [c] => ⟨c :: exponent⟩
  | c :: cs => ⟨c :: 46 :: cs ++ exponent⟩

def write (n : Notation) (d : Decimal) : Text :=
  if n.leastPositional < d.point && d.point ≤ n.exponentFrom then d.positional
  else d.scientific n.exponentDigits

end Decimal

namespace Double

/-- The text of a float: always with a point or an exponent, or one of `inf`, `-inf` and `nan`. -/
def text (x : Double) : Text :=
  if x.isNaN then "nan"
  else
    let sign : Text := if x.sign then "-" else ""
    if x.isInf then sign ++ "inf"
    else
      let s : Text := if x.isZero then "0" else x.shortest.write Notation.value
      sign ++ (if s.contains "." || s.contains "e" then s else s ++ ".0")

/-- A float with six places, an exact half going to the even digit. -/
def fixedText (x : Double) : Text :=
  if x.isNaN then "NaN"
  else if x.isInf then (if x.sign then "-Inf" else "+Inf")
  else
    let scaled :=
      if x.exponent ≥ 0 then x.significand * twoTo x.exponent.toNat * 1000000
      else divideToEven (x.significand * 1000000) (twoTo (-x.exponent).toNat)
    let places := (Nat.repr (scaled % 1000000)).toUTF8.data.toList
    (if x.sign then "-" else "") ++ Text.ofNat (scaled / 1000000) ++ "." ++
      (⟨List.replicate (6 - places.length) 48 ++ places⟩ : Text)

end Double

end GameScript
