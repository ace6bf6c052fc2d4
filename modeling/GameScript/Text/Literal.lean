import GameScript.Text.Unicode
import GameScript.Text.Utf8

/-!
# String literals of the language, and texts shown in messages

A string literal stands between single or double quotes, or between three of them, in which case it
may span lines. A backslash starts an escape sequence; each line break, however it is spelled, stands
for one line feed; a backslash before a line feed joins the two lines.

Messages and listings show a text between quotes, with every code point that cannot be printed as an
escape sequence and every byte that is no UTF-8 by its number.
-/

namespace GameScript.Text

/-- Why a text is no string literal. -/
inductive LiteralError where
  | tooShort
  | invalidQuotes
  | truncatedEscape (sequence : Text)
  | invalidEscape (sequence : Text)
deriving DecidableEq

def LiteralError.message : LiteralError → Text
  | .tooShort => "string literal too short"
  | .invalidQuotes => "string literal has invalid quotes"
  | .truncatedEscape s => "truncated escape sequence " ++ s
  | .invalidEscape s => "invalid escape sequence " ++ s

/-- The byte named by a one-letter escape sequence. -/
def unescape? (b : UInt8) : Option UInt8 :=
  if b = 97 then some 7          -- \a
  else if b = 98 then some 8     -- \b
  else if b = 102 then some 12   -- \f
  else if b = 110 then some 10   -- \n
  else if b = 114 then some 13   -- \r
  else if b = 116 then some 9    -- \t
  else if b = 118 then some 11   -- \v
  else if b = 92 || b = 39 || b = 34 then some b
  else none

/-- The letter of the escape sequence that a written literal uses for a byte. -/
def escape? (b : UInt8) : Option UInt8 :=
  if b = 7 then some 97 else if b = 8 then some 98 else if b = 12 then some 102
  else if b = 10 then some 110 else if b = 13 then some 114 else if b = 9 then some 116
  else if b = 11 then some 118 else if b = 92 then some 92 else if b = 34 then some 34
  else none

/-- The value of a hexadecimal digit. -/
def hexDigit? (b : UInt8) : Option Nat :=
  if 48 ≤ b && b ≤ 57 then some (b.toNat - 48)
  else if 97 ≤ b && b ≤ 102 then some (b.toNat - 87)
  else if 65 ≤ b && b ≤ 70 then some (b.toNat - 55)
  else none

/-- The number that a list of hexadecimal digits spells. -/
def hexNumber? (bs : List UInt8) : Option Nat :=
  bs.foldlM (fun n b => (hexDigit? b).map (n * 16 + ·)) 0

/-- The lower-case hexadecimal digit of a number below sixteen. -/
def hexDigit (n : Nat) : UInt8 := if n < 10 then (48 + n).toUInt8 else (87 + n).toUInt8

/-- The lowest `width` hexadecimal digits of a number. -/
def hexDigits : Nat → Nat → List UInt8
  | 0, _ => []
  | width + 1, n => hexDigits width (n / 16) ++ [hexDigit (n % 16)]

/-- The code point of an escape sequence with `digits`, which include the two leading bytes. -/
def codePoint? (sequence : List UInt8) : Except LiteralError Nat :=
  match hexNumber? (sequence.drop 2) with
  | some n => if n ≤ 0x10FFFF then .ok n else .error (.invalidEscape ⟨sequence⟩)
  | none => .error (.invalidEscape ⟨sequence⟩)

/-- The bytes that the inside of a literal denotes. A `verbatim` literal has no escape sequences. -/
def decodeInside (verbatim : Bool) : List UInt8 → Except LiteralError (List UInt8)
  | [] => .ok []
  | b :: rest =>
    if b = 13 then
      match rest with
      | c :: rest' => do
        if c = 10 then return 10 :: (← decodeInside verbatim rest')
        else return 10 :: (← decodeInside verbatim (c :: rest'))
      | [] => .ok [10]
    else if b = 92 && !verbatim then
      match rest with
      | [] => .error (.truncatedEscape "\\")
      | c :: rest' =>
        if c = 10 then decodeInside verbatim rest'
        else match unescape? c with
          | some e => return e :: (← decodeInside verbatim rest')
          | none =>
            if c = 117 then
              match rest' with
              | d1 :: d2 :: d3 :: d4 :: rest'' => do
                let n ← codePoint? [b, c, d1, d2, d3, d4]
                return encodeRune n ++ (← decodeInside verbatim rest'')
              | _ => .error (.truncatedEscape ⟨b :: c :: rest'⟩)
            else if c = 85 then
              match rest' with
              | d1 :: d2 :: d3 :: d4 :: d5 :: d6 :: rest'' => do
                let n ← codePoint? [b, c, d1, d2, d3, d4, d5, d6]
                return encodeRune n ++ (← decodeInside verbatim rest'')
              | _ => .error (.truncatedEscape ⟨b :: c :: rest'⟩)
            else .error (.invalidEscape ("\\" ++ ofRune c.toNat))
    else return b :: (← decodeInside verbatim rest)

/-- The value of a string literal, and whether it is triple-quoted. A leading `r` makes it verbatim. -/
def unquote (literal : Text) : Except LiteralError (Text × Bool) := do
  let (verbatim, quoted) := match literal.bytes with
    | 114 :: rest => (true, rest)
    | bs => (false, bs)
  match quoted with
  | q :: q' :: rest =>
    if (q ≠ 34 && q ≠ 39) || some q ≠ (q' :: rest).getLast? then throw .invalidQuotes
    let triple := quoted.length ≥ 6 && quoted.take 3 = [q, q, q] &&
      quoted.drop (quoted.length - 3) = [q, q, q]
    let inside := if triple then (quoted.drop 3).take (quoted.length - 6)
      else (quoted.drop 1).take (quoted.length - 2)
    return (⟨← decodeInside verbatim inside⟩, triple)
  | _ => throw .tooShort

/-- How a written literal shows one byte: an escape sequence if it has one, its number if it is
another control character, and itself otherwise. -/
def quoteByte (b : UInt8) : List UInt8 :=
  match escape? b with
  | some e => [92, e]
  | none => if b < 32 || b = 127 then [92, 117] ++ hexDigits 4 b.toNat else [b]

/-- A double-quoted literal whose value is the text. -/
def quote (t : Text) : Text := ⟨[34] ++ t.bytes.flatMap quoteByte ++ [34]⟩

/-! ### Texts shown in messages -/

/-- The letter of the escape sequence that shows a control character. -/
def controlEscape? (c : Nat) : Option UInt8 :=
  if c = 7 then some 97 else if c = 8 then some 98 else if c = 12 then some 102
  else if c = 10 then some 110 else if c = 13 then some 114 else if c = 9 then some 116
  else if c = 11 then some 118 else none

/-- How a code point is shown between quotes of the kind `q`. -/
def showCode (q c : Nat) : List UInt8 :=
  if c = q || c = 92 then [92, c.toUInt8]
  else if isPrintable c then encodeRune c
  else match controlEscape? c with
    | some e => [92, e]
    | none =>
      if c < 32 || c = 127 then [92, 120] ++ hexDigits 2 c
      else if c < 0x10000 then [92, 117] ++ hexDigits 4 c
      else [92, 85] ++ hexDigits 8 c

/-- Shows the code points of bytes; `skip` bytes belong to one that was already shown. -/
def showBytes (skip : Nat) : List UInt8 → List UInt8
  | [] => []
  | b :: bs =>
    match skip with
    | n + 1 => showBytes n bs
    | 0 =>
      let (r, extra) := readRune b bs
      (if r.wellFormed then showCode 34 r.code else [92, 120] ++ hexDigits 2 b.toNat) ++
        showBytes extra bs

/-- A text between double quotes. -/
def display (t : Text) : Text := ⟨[34] ++ showBytes 0 t.bytes ++ [34]⟩

/-- A code point between single quotes. -/
def displayRune (c : Nat) : Text := ⟨[39] ++ showCode 39 c ++ [39]⟩

end GameScript.Text
