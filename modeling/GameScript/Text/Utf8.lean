import GameScript.Text.Basic

/-!
# UTF-8

Reading code points from bytes and writing them. A byte that starts no well-formed sequence is read
by itself, as the replacement character U+FFFD, so reading never gets stuck and never loses a byte.
-/

namespace GameScript.Text

/-- The code point that stands for bytes which are no UTF-8. -/
def replacement : Nat := 0xFFFD

/-- The value of a continuation byte between two bounds. -/
def continuation? (lo hi : UInt8) (b : UInt8) : Option Nat :=
  if lo ≤ b && b ≤ hi then some (b.toNat % 64) else none

/-- The range of the second byte of a sequence, by its first byte: it excludes overlong forms,
surrogates and code points above U+10FFFF. -/
def secondByteRange (b : UInt8) : UInt8 × UInt8 :=
  if b = 0xE0 then (0xA0, 0xBF) else if b = 0xED then (0x80, 0x9F)
  else if b = 0xF0 then (0x90, 0xBF) else if b = 0xF4 then (0x80, 0x8F) else (0x80, 0xBF)

/-- The code point of a well-formed sequence of more than one byte at the start of `bs`, with the
number of bytes it takes beyond the first. -/
def multibyte? (b : UInt8) (bs : List UInt8) : Option (Nat × Nat) :=
  let (lo, hi) := secondByteRange b
  if 0xC2 ≤ b && b ≤ 0xDF then
    match bs with
    | c :: _ => (continuation? lo hi c).map fun y => (b.toNat % 32 * 64 + y, 1)
    | _ => none
  else if 0xE0 ≤ b && b ≤ 0xEF then
    match bs with
    | c :: d :: _ => do
      let y ← continuation? lo hi c
      let z ← continuation? 0x80 0xBF d
      return (b.toNat % 16 * 4096 + y * 64 + z, 2)
    | _ => none
  else if 0xF0 ≤ b && b ≤ 0xF4 then
    match bs with
    | c :: d :: e :: _ => do
      let y ← continuation? lo hi c
      let z ← continuation? 0x80 0xBF d
      let w ← continuation? 0x80 0xBF e
      return (b.toNat % 8 * 262144 + y * 4096 + z * 64 + w, 3)
    | _ => none
  else none

/-- A code point read from bytes, and whether its bytes were well-formed. -/
structure Rune where
  code : Nat
  wellFormed : Bool := true
deriving DecidableEq, Inhabited

/-- Reads the code point at `b :: bs`, with the number of bytes it takes beyond the first. -/
def readRune (b : UInt8) (bs : List UInt8) : Rune × Nat :=
  if b < 0x80 then (⟨b.toNat, true⟩, 0)
  else match multibyte? b bs with
    | some (code, extra) => (⟨code, true⟩, extra)
    | none => (⟨replacement, false⟩, 0)

/-- Splits bytes into code points; `skip` bytes belong to one that was already read. -/
def runesFrom (skip : Nat) : List UInt8 → List Rune
  | [] => []
  | b :: bs =>
    match skip with
    | n + 1 => runesFrom n bs
    | 0 => let (r, extra) := readRune b bs; r :: runesFrom extra bs

/-- The code points of a text. -/
def runes (t : Text) : List Rune := runesFrom 0 t.bytes

/-- The code points of a text, U+FFFD for each byte that is no UTF-8. -/
def codes (t : Text) : List Nat := t.runes.map Rune.code

/-- The number of code points. -/
def runeCount (t : Text) : Nat := t.runes.length

/-- Whether the text is well-formed UTF-8. -/
def isUtf8 (t : Text) : Bool := t.runes.all Rune.wellFormed

/-- The UTF-8 bytes of a code point; a number that is no code point is written as U+FFFD. -/
def encodeRune (c : Nat) : List UInt8 :=
  if c < 0x80 then [c.toUInt8]
  else if c < 0x800 then [(0xC0 + c / 64).toUInt8, (0x80 + c % 64).toUInt8]
  else if (0xD800 ≤ c && c ≤ 0xDFFF) || 0x10FFFF < c then [0xEF, 0xBF, 0xBD]
  else if c < 0x10000 then
    [(0xE0 + c / 4096).toUInt8, (0x80 + c / 64 % 64).toUInt8, (0x80 + c % 64).toUInt8]
  else
    [(0xF0 + c / 262144).toUInt8, (0x80 + c / 4096 % 64).toUInt8, (0x80 + c / 64 % 64).toUInt8,
      (0x80 + c % 64).toUInt8]

/-- The text of one code point. -/
def ofRune (c : Nat) : Text := ⟨encodeRune c⟩

/-- The text of a list of code points. -/
def ofCodes (cs : List Nat) : Text := ⟨cs.flatMap encodeRune⟩

end GameScript.Text
