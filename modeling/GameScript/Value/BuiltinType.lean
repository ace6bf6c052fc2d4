import GameScript.Text.Basic

/-!
# Builtin types

The types whose values the language itself knows. They are numbered in the order in which they are
listed here; scripts see these numbers, and compiled programs store them.
-/

namespace GameScript

/-- A **builtin type** is the tag of a value. -/
inductive BuiltinType where
  | nil | bool | int | float | string
  | vector2 | vector2i | vector3 | vector3i | color
  | stringName | nodePath | object | callable | signal | dictionary | array
  | packedByteArray | packedInt32Array | packedInt64Array
  | packedFloat32Array | packedFloat64Array | packedStringArray
deriving DecidableEq, Inhabited

namespace BuiltinType

/-- All builtin types in the order of their numbers. -/
def all : List BuiltinType :=
  [nil, bool, int, float, string, vector2, vector2i, vector3, vector3i, color, stringName, nodePath,
    object, callable, signal, dictionary, array, packedByteArray, packedInt32Array,
    packedInt64Array, packedFloat32Array, packedFloat64Array, packedStringArray]

/-- How many builtin types there are. -/
def count : Nat := all.length

/-- The number of a type. -/
def number (t : BuiltinType) : Nat := all.idxOf t

/-- The type with a number. -/
def ofNumber? (n : Nat) : Option BuiltinType := all[n]?

theorem mem_all (t : BuiltinType) : t ∈ all := by cases t <;> decide

theorem ofNumber?_number (t : BuiltinType) : ofNumber? t.number = some t := by cases t <;> rfl

/-- The name of a type in listings and messages. -/
def name : BuiltinType → Text
  | nil => "Nil"
  | bool => "bool"
  | int => "int"
  | float => "float"
  | string => "String"
  | vector2 => "Vector2"
  | vector2i => "Vector2i"
  | vector3 => "Vector3"
  | vector3i => "Vector3i"
  | color => "Color"
  | stringName => "StringName"
  | nodePath => "NodePath"
  | object => "Object"
  | callable => "Callable"
  | signal => "Signal"
  | dictionary => "Dictionary"
  | array => "Array"
  | packedByteArray => "PackedByteArray"
  | packedInt32Array => "PackedInt32Array"
  | packedInt64Array => "PackedInt64Array"
  | packedFloat32Array => "PackedFloat32Array"
  | packedFloat64Array => "PackedFloat64Array"
  | packedStringArray => "PackedStringArray"

/-- The type that a name in a script denotes. The type of `null` has no such name. -/
def ofName? (name : Text) : Option BuiltinType := (all.drop 1).find? (·.name = name)

/-- The name that stands for a number which may belong to no type. -/
def numberName (n : Nat) : Text :=
  match ofNumber? n with
  | some t => t.name
  | none => "Type(" ++ Text.ofNat n ++ ")"

/-- Whether values are shared by reference, so that changing a copy changes all of them. -/
def isShared : BuiltinType → Bool
  | object | array | dictionary => true
  | _ => false

/-- Whether the type is an array of elements of one fixed type. -/
def isPacked : BuiltinType → Bool
  | packedByteArray | packedInt32Array | packedInt64Array | packedFloat32Array
  | packedFloat64Array | packedStringArray => true
  | _ => false

/-- The packed array types in order. -/
def packed : List BuiltinType := all.filter isPacked

/-- The element type of a packed array. -/
def packedElement : BuiltinType → BuiltinType
  | packedByteArray | packedInt32Array | packedInt64Array => int
  | packedFloat32Array | packedFloat64Array => float
  | packedStringArray => string
  | _ => nil

def isNumeric (t : BuiltinType) : Bool := t = int || t = float

/-- Whether values are texts that compare by content. -/
def isStringLike (t : BuiltinType) : Bool := t = string || t = stringName

def isVector : BuiltinType → Bool
  | vector2 | vector2i | vector3 | vector3i => true
  | _ => false

/-- The vector type with float components. -/
def floatVector : BuiltinType → BuiltinType
  | vector2i => vector2
  | vector3i => vector3
  | t => t

/-- Whether values are indexed by arbitrary keys, so that the type of a key is not checked. -/
def isKeyed (t : BuiltinType) : Bool := t = dictionary || t = object

end BuiltinType

end GameScript
