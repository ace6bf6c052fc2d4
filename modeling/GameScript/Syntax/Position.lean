import GameScript.Number.Power
import GameScript.Text.Utf8

/-!
# Positions

A place in a file is a line and a column, both counted from 1; columns count code points. A position
for reports also names the file and keeps its numbers as 32-bit words, since a compiled program may
hold any such numbers.
-/

namespace GameScript

/-- A place in some source file. -/
structure Pos where
  line : Nat
  col : Nat
deriving DecidableEq, Inhabited

namespace Pos

/-- Where a file starts. -/
def start : Pos := ⟨1, 1⟩

/-- No place at all. -/
def none : Pos := ⟨0, 0⟩

def text (p : Pos) : Text := Text.ofNat p.line ++ ":" ++ Text.ofNat p.col

/-- Whether `p` comes before `q` in the same file. -/
def before (p q : Pos) : Bool := p.line < q.line || (p.line = q.line && p.col < q.col)

/-- The place after a code point. -/
def afterCode (p : Pos) (c : Nat) : Pos := if c = 10 then ⟨p.line + 1, 1⟩ else ⟨p.line, p.col + 1⟩

/-- The place at the end of a text that starts at `p`. -/
def advance (p : Pos) (t : Text) : Pos := t.codes.foldl afterCode p

/-- The place `n` columns further on. -/
def shift (p : Pos) (n : Nat) : Pos := ⟨p.line, p.col + n⟩

end Pos

/-- A place in a named file. -/
structure Position where
  file : Option Text := none
  line : Int := 0
  col : Int := 0
deriving DecidableEq, Inhabited

namespace Position

/-- The number in the range of signed 32-bit words that agrees with `i` modulo `2 ^ 32`. -/
def word (i : Int) : Int := i.bmod (twoTo 32)

/-- The position of a place in a file. -/
def make (file : Text) (line col : Int) : Position := ⟨some file, word line, word col⟩

/-- A place of the file. -/
def of (file : Text) (p : Pos) : Position := make file p.line p.col

def isValid (p : Position) : Bool := p.file.isSome

/-- The name of the file, the line and the column, as far as they are known. -/
def text (p : Position) : Text :=
  let file := p.file.getD "<invalid>"
  if 0 < p.line then
    let line := file ++ ":" ++ Text.ofInt p.line
    if 0 < p.col then line ++ ":" ++ Text.ofInt p.col else line
  else file

/-- Whether `p` precedes `q`, if both are in the same file. -/
def before (p q : Position) : Bool := p.line < q.line || (p.line = q.line && p.col < q.col)

/-- The position at the end of a text that starts at `p`. -/
def advance (p : Position) (t : Text) : Position :=
  let lines := t.split 10
  let col := if lines.length > 1 then 1 else p.col
  { p with
    line := word (p.line + (lines.length - 1 : Nat))
    col := word (col + ((lines.getLast?).getD t).runeCount) }

end Position

end GameScript
