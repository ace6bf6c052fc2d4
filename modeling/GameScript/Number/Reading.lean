import GameScript.Number.Double
import GameScript.Text.Literal

/-!
# Reading numbers

Numbers in source files and in strings. Underscores may separate digits; a number in a string may have
a sign, and its base may be given by a leading `0x`, `0o`, `0b` or `0`.
-/

namespace GameScript

namespace Text

def isDigit (b : UInt8) : Bool := 48 ≤ b && b ≤ 57

/-- The number that digits of a base spell, if they all are such digits. -/
def numberIn? (base : Nat) (bs : List UInt8) : Option Nat :=
  bs.foldlM (fun n b => (hexDigit? b).bind fun d => if d < base then some (n * base + d) else none) 0

/-- `bs` without underscores. -/
def withoutUnderscores (bs : List UInt8) : List UInt8 := bs.filter (· ≠ 95)

/-- What a byte of a number is to a neighbouring underscore. -/
inductive NumberPart where
  | start | digit | underscore | other
deriving DecidableEq

/-- Whether underscores stand only between digits, after `last`. -/
def underscoresSeparate (hex : Bool) : NumberPart → List UInt8 → Bool
  | last, [] => last ≠ .underscore
  | last, b :: bs =>
    if isDigit b || (hex && (hexDigit? b).isSome) then underscoresSeparate hex .digit bs
    else if b = 95 then last = .digit && underscoresSeparate hex .underscore bs
    else last ≠ .underscore && underscoresSeparate hex .other bs

/-- The number without its sign. -/
def unsigned : List UInt8 → Bool × List UInt8
  | 43 :: bs => (false, bs)
  | 45 :: bs => (true, bs)
  | bs => (false, bs)

/-- Whether the underscores of a number stand only between digits, where the letters of a base count as
one. -/
def underscoresOk (bs : List UInt8) : Bool :=
  match (unsigned bs).2 with
  | 48 :: b :: rest =>
    let l := if 65 ≤ b && b ≤ 90 then b + 32 else b
    if l = 98 || l = 111 || l = 120 then underscoresSeparate (l = 120) .digit rest
    else underscoresSeparate false .start (48 :: b :: rest)
  | bs => underscoresSeparate false .start bs

/-! ### Integers -/

/-- The base of an integer in a string, and its digits. -/
def basePart (bs : List UInt8) : Nat × List UInt8 :=
  match bs with
  | 48 :: b :: rest =>
    let l := if 65 ≤ b && b ≤ 90 then b + 32 else b
    if rest ≠ [] && l = 98 then (2, rest) else if rest ≠ [] && l = 111 then (8, rest)
    else if rest ≠ [] && l = 120 then (16, rest) else (8, b :: rest)
  | _ => (10, bs)

/-- The 64-bit integer that a string spells. -/
def integer? (t : Text) : Option Int64 :=
  let (negative, body) := unsigned t.bytes
  if body = [] then none
  else
    let (base, digits) := basePart body
    let plain := withoutUnderscores digits
    if plain = [] || (plain ≠ digits && !underscoresOk t.bytes) then none
    else match numberIn? base plain with
      | none => none
      | some n =>
        if negative then (if n ≤ twoTo 63 then some (Int64.ofInt (-(n : Int))) else none)
        else if n < twoTo 63 then some (Int64.ofInt n) else none

/-! ### Floats -/

/-- The parts of a number with a fraction: its digits, how many of them stand after the point, and what
follows. -/
structure Mantissa where
  digits : List UInt8
  places : Nat
  rest : List UInt8

/-- Reads digits, underscores and at most one point. -/
def readMantissa (isDigit : UInt8 → Bool) (seenPoint : Bool) : List UInt8 → Mantissa
  | [] => ⟨[], 0, []⟩
  | b :: bs =>
    if b = 95 then readMantissa isDigit seenPoint bs
    else if b = 46 && !seenPoint then readMantissa isDigit true bs
    else if isDigit b then
      let m := readMantissa isDigit seenPoint bs
      { m with digits := b :: m.digits, places := m.places + (if seenPoint then 1 else 0) }
    else ⟨[], 0, b :: bs⟩

/-- The number that decimal digits spell, if they all are such digits. Once it has five of them, no more
are taken in: it is beyond every exponent of a double. -/
def exponentDigits? (bs : List UInt8) : Option Nat :=
  bs.foldlM (fun n b =>
    if !isDigit b then none else some (if n < 10000 then n * 10 + (b - 48).toNat else n)) 0

/-- Reads an exponent after its letter: all of `bs` must be a signed run of digits and underscores. -/
def readExponent? (bs : List UInt8) : Option Int :=
  let (negative, body) := unsigned bs
  match body with
  | b :: _ =>
    if !isDigit b then none
    else (exponentDigits? (withoutUnderscores body)).map fun n => if negative then -(n : Int) else n
  | [] => none

/-- The double nearest to `n * base ^ e`, unless it is too large. Exponents far outside the range of
doubles are settled by the number of binary digits alone: as `base` is at least two, the power is at
least `2 ^ e` for a positive `e` and at most that for a negative one. -/
def scaled? (base n : Nat) (e : Int) : Option Double :=
  if n = 0 then some .zero
  else if 0 ≤ e && 1100 < (n.log2 : Int) + e then none
  else if e < 0 && (n.log2 : Int) + e < -1100 then some .zero
  else
    let x := Double.ofRatio (n * Nat.pow base e.toNat) (Nat.pow base (-e).toNat)
    if x.isInf then none else some x

/-- The decimal or hexadecimal float that bytes without a sign spell. -/
def magnitude? (bs : List UInt8) : Option Double :=
  match bs with
  | 48 :: x :: rest =>
    if (x = 120 || x = 88) && rest ≠ [] then
      let m := readMantissa (fun b => (hexDigit? b).isSome) false rest
      match m.rest with
      | p :: es =>
        if (p = 112 || p = 80) && m.digits ≠ [] then do
          let e ← readExponent? es
          let n ← numberIn? 16 m.digits
          scaled? 2 n (e - 4 * m.places)
        else none
      | [] => none
    else decimal?
  | _ => decimal?
where
  decimal? : Option Double :=
    let m := readMantissa isDigit false bs
    if m.digits = [] then none
    else do
      let n ← numberIn? 10 m.digits
      match m.rest with
      | [] => scaled? 10 n (-m.places)
      | e :: es =>
        if e = 101 || e = 69 then
          scaled? 10 n ((← readExponent? es) - m.places)
        else none

/-- The words for numbers that have no digits. -/
def specialNumber? (bs : List UInt8) : Option Double :=
  let word : Text := ⟨bs.map fun b => if 65 ≤ b && b ≤ 90 then b + 32 else b⟩
  if word = "inf" || word = "infinity" then some .inf else none

/-- The float that a string spells, unless it is too large. -/
def float? (t : Text) : Option Double :=
  let (negative, body) := unsigned t.bytes
  match specialNumber? body with
  | some x => some (x.withSign negative)
  | none =>
    if t.bytes.map (fun b => if 65 ≤ b && b ≤ 90 then b + 32 else b) = (Text.ofString "nan").bytes then
      some .nan
    else if t.bytes.contains 95 && !underscoresOk t.bytes then none
    else (magnitude? body).map (·.withSign negative)

/-! ### Blanks around numbers -/

/-- Whether a code point is white space. -/
def isBlank (c : Nat) : Bool :=
  (9 ≤ c && c ≤ 13) || c = 32 || c = 0x85 || c = 0xA0 || c = 0x1680 || (0x2000 ≤ c && c ≤ 0x200A) ||
    c = 0x2028 || c = 0x2029 || c = 0x202F || c = 0x205F || c = 0x3000

/-- Drops the white space in front of bytes, at most `fuel` code points of it. -/
def dropBlanks : Nat → List UInt8 → List UInt8
  | 0, bs => bs
  | _, [] => []
  | fuel + 1, b :: bs =>
    let (r, extra) := readRune b bs
    if isBlank r.code then dropBlanks fuel (bs.drop extra) else b :: bs

/-- The bytes up to the last code point that is no white space. -/
def dropTrailingBlanks (t : Text) : Text :=
  let step (acc : List UInt8 × List UInt8) (r : Rune × List UInt8) : List UInt8 × List UInt8 :=
    if isBlank r.1.code then (acc.1, acc.2 ++ r.2) else (acc.1 ++ acc.2 ++ r.2, [])
  let rec pieces (skip : Nat) : List UInt8 → List (Rune × List UInt8)
    | [] => []
    | b :: bs =>
      match skip with
      | n + 1 => pieces n bs
      | 0 => let (r, extra) := readRune b bs; (r, b :: bs.take extra) :: pieces extra bs
  ⟨((pieces 0 t.bytes).foldl step ([], [])).1⟩

/-- The text without the white space around it. -/
def trim (t : Text) : Text := dropTrailingBlanks ⟨dropBlanks t.size t.bytes⟩

end Text

end GameScript
