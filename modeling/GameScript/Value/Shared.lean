import GameScript.Value.Member
import GameScript.Value.Operator

/-!
# Shared containers

A dictionary that can be changed keeps its keys, what they hold and an index apart (`Indexed`). An array
that is stored in a dictionary is the same array: what is appended to it later is seen through the
dictionary too. A `Workspace` is one dictionary and one array over a store of arrays, in which a slot of
the dictionary may refer to a stored array.
-/

namespace GameScript

/-! ### Dictionaries that can be changed -/

/-- A **dictionary that can be changed**, until it is frozen. -/
structure Indexed (α : Type) where
  /-- The keys in the order in which they came. -/
  keys : List Value := []
  /-- What the keys hold, key by key. -/
  held : List α := []
  /-- The place of the key with a hash. -/
  index : List (Text × Nat) := []
  frozen : Bool := false

namespace Indexed

variable {α : Type}

/-- The place of the key with a hash. -/
def place? (d : Indexed α) (hash : Text) : Option Nat := (d.index.find? (·.1 = hash)).map Prod.snd

/-- What a key holds. -/
def get? (d : Indexed α) (key : Value) : Option α := (d.place? key.hash).bind (d.held[·]?)

def has (d : Indexed α) (key : Value) : Bool := (d.place? key.hash).isSome

/-- Makes a key hold `a`: the answer and the dictionary afterwards. A key that is already there keeps its
place and its form. -/
def set (d : Indexed α) (key : Value) (a : α) : Except ValueError Unit × Indexed α :=
  if d.frozen then (.error .frozenDictionary, d)
  else match d.place? key.hash with
    | some i => (.ok (), { d with held := d.held.set i a })
    | none => (.ok (), { d with
        keys := d.keys ++ [key]
        held := d.held ++ [a]
        index := (key.hash, d.keys.length) :: d.index })

def freeze (d : Indexed α) : Indexed α := { d with frozen := true }

end Indexed

/-! ### One dictionary and one array -/

/-- What a key of a dictionary holds: a value of its own or a stored array. -/
inductive Slot where
  | own (v : Value)
  | stored (index : Nat)

/-- One dictionary and one array. -/
structure Workspace where
  /-- Every array there has been. -/
  arrays : List Value := [.ofList []]
  /-- The index of the current array. -/
  current : Nat := 0
  slots : Indexed Slot := {}

namespace Workspace

/-- The stored array at an index. -/
def stored (w : Workspace) (i : Nat) : Value := w.arrays[i]?.getD (.ofList [])

/-- The current array. -/
def array (w : Workspace) : Value := w.stored w.current

def slotValue (w : Workspace) : Slot → Value
  | .own v => v
  | .stored i => w.stored i

/-- The dictionary as a value. -/
def dictionary (w : Workspace) : Value :=
  .dictionary ((w.slots.keys.zip w.slots.held).map fun (k, s) => ⟨k, w.slotValue s⟩) w.slots.frozen

/-- Fills the slot of a key. -/
def set (w : Workspace) (key : Value) (slot : Slot) : Except ValueError Workspace :=
  let (answer, slots) := w.slots.set key slot
  answer.map fun _ => { w with slots }

/-- Stores the current array under a key. -/
def nest (w : Workspace) (key : Value) : Except ValueError Workspace := w.set key (.stored w.current)

def get? (w : Workspace) (key : Value) : Option Value := (w.slots.get? key).map w.slotValue

def freezeDictionary (w : Workspace) : Workspace := { w with slots := w.slots.freeze }

/-- A fresh dictionary with the same slots. -/
def copyDictionary (w : Workspace) : Workspace := { w with slots := { w.slots with frozen := false } }

private def change (w : Workspace) (f : Value → Value) : Workspace :=
  { w with arrays := w.arrays.modify w.current f }

/-- Appends to the current array. -/
def append (w : Workspace) (v : Value) : Except ValueError Workspace :=
  match w.array with
  | .array _ _ _ _ true => .error .frozenArray
  | _ => .ok (w.change fun
    | .array kind element name elements frozen => .array kind element name (elements ++ [v]) frozen
    | a => a)

def freezeArray (w : Workspace) : Workspace :=
  w.change fun
    | .array kind element name elements _ => .array kind element name elements true
    | a => a

/-- Continues with another array. -/
def replace (w : Workspace) (a : Value) : Workspace :=
  { w with arrays := w.arrays ++ [a], current := w.arrays.length }

/-- Converts the current array. A conversion to its own type leaves it the same array. -/
def convertArray (w : Workspace) (t : BuiltinType) : Except ValueError Workspace :=
  if w.array.type = t then .ok w
  else do return w.replace (← w.array.convert t)

/-- Continues with the current array followed by another one. -/
def concat (w : Workspace) (v : Value) : Except ValueError Workspace := do
  return w.replace (← Value.binary .add w.array v)

end Workspace

end GameScript
