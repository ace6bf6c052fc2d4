import GameScript.Text.Unicode

/-!
# Spelling

The name that somebody who mistyped another may have meant: the one with the least edit distance, if
that is small. Case and underscores do not count.
-/

namespace GameScript.Text

/-! ### Edit distance -/

/-- The next row of the table of distances. `corner` and `row` are what the previous row has above the
entry to the left and from there on, and `left` is the entry to the left. -/
def nextEntries (b : UInt8) (corner left : Nat) : List UInt8 → List Nat → List Nat
  | c :: cs, above :: row =>
    let substitution := corner + if b = c then 0 else 1
    let entry := min substitution (min (1 + left) (1 + above))
    entry :: nextEntries b above entry cs row
  | _, _ => []

/-- The row of distances after `i` bytes, of which `b` is the last, from the row before. -/
def nextRow (b : UInt8) (i : Nat) (ys : List UInt8) (row : List Nat) : List Nat :=
  i :: nextEntries b (row.headD 0) i ys row.tail

/-- The least entry of a row that starts with `first`. -/
def leastOf (first : Nat) (row : List Nat) : Nat := row.foldl min first

/-- The last entry of the table of distances, or the least entry of the first row that exceeds `bound`
throughout. `i` counts the rows before. -/
def distanceFrom (bound : Nat) (ys : List UInt8) : Nat → List UInt8 → List Nat → Nat
  | _, [], row => row.getLastD 0
  | i, b :: bs, row =>
    let row' := nextRow b (i + 1) ys row
    let best := leastOf (i + 1) row'
    if best > bound then best else distanceFrom bound ys (i + 1) bs row'

/-- Two lists of bytes without their common start. -/
def dropCommon : List UInt8 → List UInt8 → List UInt8 × List UInt8
  | a :: as, b :: bs => if a = b then dropCommon as bs else (a :: as, b :: bs)
  | as, bs => (as, bs)

/-- The **edit distance** of two texts: the least number of bytes to insert, delete or replace. If it
exceeds `bound` the result is some number above `bound`. -/
def editDistance (bound : Nat) (s t : Text) : Nat :=
  let (x, y) := if s.size > t.size then (t.bytes, s.bytes) else (s.bytes, t.bytes)
  let (x, y) := dropCommon x y
  if x.isEmpty then y.length
  else distanceFrom bound y 0 x (List.range (y.length + 1))

/-! ### Nearest names -/

/-- A name without underscores and in lower case. -/
def folded (t : Text) : Text := ofCodes ((t.codes.filter (· ≠ 95)).map lowerRune)

/-- The nearest of some candidates, better than the `best` so far at distance `bound`. A candidate that
differs in case and underscores only ends the search. -/
def nearestFrom (x : Text) (best : Text) (bound : Nat) : List Text → Text
  | [] => best
  | c :: cs =>
    let y := folded c
    if y = x && !c.isEmpty then c
    else
      let d := editDistance bound x y
      if d < bound then nearestFrom x c d cs else nearestFrom x best bound cs

/-- The candidate nearest to a name, of several the least; empty if none is near. About every second
byte may be wrong. -/
def nearest (name : Text) (candidates : List Text) : Text :=
  let x := folded name
  nearestFrom x "" ((x.size + 1) / 2) (sort candidates)

/-- A question to append to a message about an unknown name; empty if no other name is near. -/
def suggestion (name : Text) (candidates : List Text) : Text :=
  let near := nearest name (candidates.filter (· ≠ name))
  if near.isEmpty then "" else " Did you mean \"" ++ near ++ "\"?"

end GameScript.Text
