import GameScript.Number.Notation
import GameScript.Text.Literal
import GameScript.Value.BuiltinType

/-!
# Values

The values that can be known without running a program: constants, and what operators, conversions
and functions make of them. Arrays and dictionaries are values here; where several names refer to one
container, `Value.Shared` says which.
-/

namespace GameScript

mutual

/-- A **value**. -/
inductive Value where
  | nil
  | bool (b : Bool)
  | int (i : Int64)
  | float (x : Double)
  | string (t : Text)
  | stringName (t : Text)
  | nodePath (t : Text)
  | vector2 (x y : Double)
  | vector2i (x y : Int64)
  | vector3 (x y z : Double)
  | vector3i (x y z : Int64)
  | color (r g b a : Double)
  /-- A reference to the resource at `path`. Two references are the same object iff they have the
  same `identity`. -/
  | resource (path cls : Text) (identity : Nat)
  /-- A mapping in the order of insertion. A frozen one cannot be changed. -/
  | dictionary (entries : List Entry) (frozen : Bool)
  /-- A sequence: an `array`, whose elements are of type `element` unless that is `nil`, or a packed
  array of the given `kind`. -/
  | array (kind element : BuiltinType) (elementName : Text) (elements : List Value) (frozen : Bool)

/-- One key of a dictionary and its value. -/
inductive Entry where
  | mk (key value : Value)

end

instance : Inhabited Value := ⟨.nil⟩
instance : Inhabited Entry := ⟨⟨.nil, .nil⟩⟩

def Entry.key : Entry → Value
  | ⟨k, _⟩ => k

def Entry.value : Entry → Value
  | ⟨_, v⟩ => v

namespace Value

/-- An untyped array. -/
def ofList (vs : List Value) : Value := .array .array .nil "" vs false

/-- The empty dictionary. -/
def emptyDictionary : Value := .dictionary [] false

/-- The type of a value. -/
def type : Value → BuiltinType
  | nil => .nil
  | bool _ => .bool
  | int _ => .int
  | float _ => .float
  | string _ => .string
  | stringName _ => .stringName
  | nodePath _ => .nodePath
  | vector2 .. => .vector2
  | vector2i .. => .vector2i
  | vector3 .. => .vector3
  | vector3i .. => .vector3i
  | color .. => .color
  | resource .. => .object
  | dictionary .. => .dictionary
  | array kind .. => kind

/-! ### Text of values -/

/-- Texts between parentheses. -/
def tuple (ts : List Text) : Text := "(" ++ Text.join ", " ts ++ ")"

def intText (i : Int64) : Text := Text.ofInt i.toInt

def boolText (b : Bool) : Text := if b then "true" else "false"

mutual

/-- A value as it would be written in a script; listings and messages show it so. -/
def repr : Value → Text
  | nil => "null"
  | bool b => boolText b
  | int i => intText i
  | float x => x.text
  | string t => t.display
  | stringName t => "&" ++ t.display
  | nodePath t => "^" ++ t.display
  | vector2 x y => tuple [x.text, y.text]
  | vector2i x y => tuple [intText x, intText y]
  | vector3 x y z => tuple [x.text, y.text, z.text]
  | vector3i x y z => tuple [intText x, intText y, intText z]
  | color r g b a => tuple [r.text, g.text, b.text, a.text]
  | resource path cls _ => "<" ++ cls ++ "#" ++ path ++ ">"
  | dictionary entries _ => "\x7b" ++ Text.join ", " (reprEntries entries) ++ "\x7d"
  | array _ _ _ elements _ => "[" ++ Text.join ", " (reprs elements) ++ "]"

def reprs : List Value → List Text
  | [] => []
  | v :: vs => v.repr :: reprs vs

def reprEntries : List Entry → List Text
  | [] => []
  | ⟨k, v⟩ :: es => (k.repr ++ ": " ++ v.repr) :: reprEntries es

end

/-- A value as the conversion to a string shows it. -/
def text : Value → Text
  | nil => "<null>"
  | string t | stringName t | nodePath t => t
  | v => v.repr

/-- Equal keys of a dictionary have equal hashes: a string and a string name with the same text are
one key, and every other value is a key by its type and its written form. -/
def hash : Value → Text
  | string t | stringName t => "s" ++ t
  | int i => "i" ++ intText i
  | v => v.type.name ++ ":" ++ v.repr

/-- The value that a key has among entries. -/
def lookup? (key : Value) (entries : List Entry) : Option Value :=
  (entries.find? (·.key.hash = key.hash)).map Entry.value

/-- Associates a key with a value. A key that is already there keeps its place and its form. -/
def insertEntry (key value : Value) : List Entry → List Entry
  | [] => [⟨key, value⟩]
  | e :: es =>
    if e.key.hash = key.hash then ⟨e.key, value⟩ :: es else e :: insertEntry key value es

/-- The dictionary of a list of keys and values, the last value of a key winning. -/
def ofEntries (es : List Entry) (frozen : Bool) : Value :=
  .dictionary (es.foldl (fun acc e => insertEntry e.key e.value acc) []) frozen

/-! ### Defaults and truth -/

/-- The default value of a type. -/
def zero : BuiltinType → Value
  | .bool => bool false
  | .int => int 0
  | .float => float .zero
  | .string => string ""
  | .stringName => stringName ""
  | .nodePath => nodePath ""
  | .vector2 => vector2 .zero .zero
  | .vector2i => vector2i 0 0
  | .vector3 => vector3 .zero .zero .zero
  | .vector3i => vector3i 0 0 0
  | .color => color .zero .zero .zero .one
  | .array => ofList []
  | .dictionary => emptyDictionary
  | .packedByteArray => array .packedByteArray .nil "" [] false
  | .packedInt32Array => array .packedInt32Array .nil "" [] false
  | .packedInt64Array => array .packedInt64Array .nil "" [] false
  | .packedFloat32Array => array .packedFloat32Array .nil "" [] false
  | .packedFloat64Array => array .packedFloat64Array .nil "" [] false
  | .packedStringArray => array .packedStringArray .nil "" [] false
  | .nil | .object | .callable | .signal => nil

/-- Whether a condition with this value holds. -/
def truth : Value → Bool
  | nil => false
  | bool b => b
  | int i => i ≠ 0
  | float x => !x.isZero
  | string t | stringName t | nodePath t => !t.isEmpty
  | vector2 x y => !(x.isZero && y.isZero)
  | vector2i x y => x ≠ 0 || y ≠ 0
  | vector3 x y z => !(x.isZero && y.isZero && z.isZero)
  | vector3i x y z => x ≠ 0 || y ≠ 0 || z ≠ 0
  | color r g b a => !(r.isZero && g.isZero && b.isZero && a.isZero)
  | resource .. => true
  | dictionary entries _ => !entries.isEmpty
  | array _ _ _ elements _ => !elements.isEmpty

/-- The number of an int or a float. -/
def number? : Value → Option Double
  | int i => some (.ofInt64 i)
  | float x => some x
  | _ => none

/-! ### Equality and order -/

mutual

/-- Whether two values are equal: numbers by value, strings and string names by content, containers by
their elements, and resources by identity. -/
def equal : Value → Value → Bool
  | nil, nil => true
  | bool a, bool b => a = b
  | int a, int b => a = b
  | int a, float b => (Double.ofInt64 a).eq b
  | float a, int b => a.eq (.ofInt64 b)
  | float a, float b => a.eq b
  | string a, string b | string a, stringName b | stringName a, string b
  | stringName a, stringName b | nodePath a, nodePath b => a = b
  | vector2 a b, vector2 c d => a.eq c && b.eq d
  | vector2i a b, vector2i c d => a = c && b = d
  | vector3 a b c, vector3 d e f => a.eq d && b.eq e && c.eq f
  | vector3i a b c, vector3i d e f => a = d && b = e && c = f
  | color a b c d, color e f g h => a.eq e && b.eq f && c.eq g && d.eq h
  | resource _ _ a, resource _ _ b => a = b
  | dictionary as _, dictionary bs _ => as.length = bs.length && equalEntries as bs
  | array _ _ _ as _, array _ _ _ bs _ => as.length = bs.length && equalElements as bs
  | _, _ => false

/-- Whether the elements of two lists are equal as far as the shorter one goes. -/
def equalElements : List Value → List Value → Bool
  | a :: as, b :: bs => a.equal b && equalElements as bs
  | _, _ => true

/-- Whether each key has an equal value among the entries `bs`. -/
def equalEntries : List Entry → List Entry → Bool
  | [], _ => true
  | ⟨k, v⟩ :: es, bs =>
    (match lookup? k bs with
      | some w => v.equal w
      | none => false) && equalEntries es bs

end

/-- The order in which `lt` is below and anything else that differs is above. -/
def orderOf (lt gt : Bool) : Ordering := if lt then .lt else if gt then .gt else .eq

mutual

/-- The order of two values, if they have one: numbers, booleans, strings of one type, vectors by their
components, arrays by the first elements that differ. A NaN is neither below nor above. -/
def compare? : Value → Value → Option Ordering
  | int a, int b => some (orderOf (a < b) (b < a))
  | int a, float b => let a := Double.ofInt64 a; some (orderOf (a.lt b) (b.lt a))
  | float a, int b => let b := Double.ofInt64 b; some (orderOf (a.lt b) (b.lt a))
  | float a, float b => some (orderOf (a.lt b) (b.lt a))
  | bool a, bool b => some (orderOf (!a && b) (a && !b))
  | string a, string b | stringName a, stringName b => some (a.compare b)
  | vector2 a b, vector2 c d =>
    some (if !a.eq c then orderOf (a.lt c) true else orderOf (b.lt d) (d.lt b))
  | vector2i a b, vector2i c d =>
    some (if a ≠ c then orderOf (a < c) true else orderOf (b < d) (d < b))
  | vector3 a b c, vector3 d e f =>
    some (if !a.eq d then orderOf (a.lt d) true else if !b.eq e then orderOf (b.lt e) true
      else orderOf (c.lt f) (f.lt c))
  | vector3i a b c, vector3i d e f =>
    some (if a ≠ d then orderOf (a < d) true else if b ≠ e then orderOf (b < e) true
      else orderOf (c < f) (f < c))
  | array _ _ _ as _, array _ _ _ bs _ => compareElements? as bs
  | _, _ => none

def compareElements? : List Value → List Value → Option Ordering
  | [], [] => some .eq
  | [], _ :: _ => some .lt
  | _ :: _, [] => some .gt
  | a :: as, b :: bs => if a.equal b then compareElements? as bs else a.compare? b

end

end Value

end GameScript
