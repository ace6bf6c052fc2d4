import GameScript.Value.Convert

/-!
# Members of builtin types

The properties, methods and constants of builtin types, and access to parts of values by name and by
index.
-/

namespace GameScript

namespace BuiltinType

open Property

private def method (name : Text) (returns : DeclaredType) (params : List Property := [])
    (defaults : List Value := []) : Signature :=
  { name, params, defaults, returns }

private def variadic (name : Text) (returns : DeclaredType) : Signature :=
  { name, returns, vararg := true }

private def nameless : Property := anyArg ""

/-- The methods of strings and string names. -/
def stringMethods : List Signature := [
  method "length" (.of int),
  method "is_empty" (.of bool),
  method "to_upper" (.of string),
  method "to_lower" (.of string),
  method "begins_with" (.of bool) [arg "text" string],
  method "ends_with" (.of bool) [arg "text" string],
  method "contains" (.of bool) [arg "what" string],
  method "find" (.of int) [arg "what" string, arg "from" int] [.int 0],
  method "substr" (.of string) [arg "from" int, arg "len" int] [.int (-1)],
  method "split" (.of packedStringArray) [arg "delimiter" string, arg "allow_empty" bool]
    [.string "", .bool true],
  method "replace" (.of string) [arg "what" string, arg "forwhat" string],
  method "repeat" (.of string) [arg "count" int],
  method "strip_edges" (.of string) [arg "left" bool, arg "right" bool] [.bool true, .bool true],
  method "to_int" (.of int),
  method "to_float" (.of float),
  method "is_valid_int" (.of bool),
  method "format" (.of string) [anyArg "values", arg "placeholder" string]
    [.string "\x7b_\x7d"]]

def nodePathMethods : List Signature := [
  method "is_empty" (.of bool),
  method "is_absolute" (.of bool),
  method "get_name_count" (.of int),
  method "get_name" (.of stringName) [arg "idx" int]]

/-- The methods that both vectors of floats have. -/
def floatVectorMethods (t : BuiltinType) : List Signature := [
  method "length" (.of float),
  method "length_squared" (.of float),
  method "normalized" (.of t),
  method "abs" (.of t),
  method "dot" (.of float) [arg "with" t],
  method "distance_to" (.of float) [arg "to" t],
  method "lerp" (.of t) [arg "to" t, arg "weight" float],
  method "is_normalized" (.of bool)]

/-- The methods that both vectors of integers have. -/
def intVectorMethods (t : BuiltinType) : List Signature := [
  method "length" (.of float),
  method "length_squared" (.of int),
  method "abs" (.of t),
  method "sign" (.of t)]

def colorMethods : List Signature := [
  method "lightened" (.of color) [arg "amount" float],
  method "darkened" (.of color) [arg "amount" float],
  method "inverted" (.of color),
  method "to_html" (.of string) [arg "with_alpha" bool] [.bool true],
  method "get_luminance" (.of float)]

def arrayMethods : List Signature := [
  method "size" (.of int),
  method "is_empty" (.of bool),
  method "clear" .void,
  method "append" .void [nameless],
  method "push_back" .void [nameless],
  method "push_front" .void [nameless],
  method "pop_back" .any,
  method "pop_front" .any,
  method "front" .any,
  method "back" .any,
  method "has" (.of bool) [nameless],
  method "erase" .void [nameless],
  method "insert" (.of int) [arg "position" int, nameless],
  method "find" (.of int) [nameless, arg "from" int] [.int 0],
  method "count" (.of int) [nameless],
  method "resize" (.of int) [arg "size" int],
  method "sort" .void,
  method "reverse" .void,
  method "duplicate" (.of array) [arg "deep" bool] [.bool false],
  method "is_read_only" (.of bool),
  method "is_typed" (.of bool),
  method "filter" (.of array) [arg "method" callable],
  method "map" (.of array) [arg "method" callable],
  method "reduce" .any [arg "method" callable, anyArg "accum"] [.nil],
  method "any" (.of bool) [arg "method" callable],
  method "all" (.of bool) [arg "method" callable],
  method "max" .any,
  method "min" .any]

def dictionaryMethods : List Signature := [
  method "size" (.of int),
  method "is_empty" (.of bool),
  method "clear" .void,
  method "has" (.of bool) [anyArg "key"],
  method "has_all" (.of bool) [arg "keys" array],
  method "erase" (.of bool) [anyArg "key"],
  method "keys" (.of array),
  method "values" (.of array),
  method "get" .any [anyArg "key", anyArg "default"] [.nil],
  method "merge" .void [arg "dictionary" dictionary, arg "overwrite" bool] [.bool false],
  method "duplicate" (.of dictionary) [arg "deep" bool] [.bool false],
  method "is_read_only" (.of bool)]

def packedMethods (t : BuiltinType) : List Signature :=
  let value := arg "value" t.packedElement
  [method "size" (.of int),
    method "is_empty" (.of bool),
    method "clear" .void,
    method "append" (.of bool) [value],
    method "push_back" (.of bool) [value],
    method "has" (.of bool) [value],
    method "resize" (.of int) [arg "new_size" int],
    method "reverse" .void,
    method "sort" .void,
    method "duplicate" (.of t)]

def callableMethods : List Signature := [
  variadic "call" .any,
  variadic "call_deferred" .void,
  method "callv" .any [arg "arguments" array],
  variadic "bind" (.of callable),
  method "is_valid" (.of bool),
  method "is_null" (.of bool),
  method "get_method" (.of stringName),
  method "get_object" (.object "Object")]

def signalMethods : List Signature := [
  variadic "emit" .void,
  method "connect" (.of int) [arg "callable" callable, arg "flags" int] [.int 0],
  method "disconnect" .void [arg "callable" callable],
  method "is_connected" (.of bool) [arg "callable" callable],
  method "get_name" (.of stringName),
  method "get_object" (.object "Object")]

/-- The names of the methods that change a container. -/
def mutators : List Text :=
  ["clear", "append", "push_back", "push_front", "pop_back", "pop_front", "erase", "insert", "resize",
    "sort", "reverse", "merge"]

/-- The methods of a type as they are declared. -/
def declaredMethods : BuiltinType → List Signature
  | string | stringName => stringMethods
  | nodePath => nodePathMethods
  | vector2 =>
    floatVectorMethods vector2 ++
      [method "angle" (.of float), method "rotated" (.of vector2) [arg "angle" float]]
  | vector3 => floatVectorMethods vector3 ++ [method "cross" (.of vector3) [arg "with" vector3]]
  | vector2i => intVectorMethods vector2i
  | vector3i => intVectorMethods vector3i
  | color => colorMethods
  | array => arrayMethods
  | dictionary => dictionaryMethods
  | callable => callableMethods
  | signal => signalMethods
  | packedStringArray =>
    packedMethods packedStringArray ++
      [method "join" (.of string) [arg "delimiter" string] [.string ""]]
  | t => if t.isPacked then packedMethods t else []

/-- The methods of a type. Those that change a container have an effect. -/
def methods (t : BuiltinType) : List Signature :=
  t.declaredMethods.map fun s => { s with isConst := !mutators.contains s.name }

def method? (t : BuiltinType) (name : Text) : Option Signature :=
  t.methods.find? (·.name = name)

def properties : BuiltinType → List Property
  | vector2 => [arg "x" float, arg "y" float]
  | vector2i => [arg "x" int, arg "y" int]
  | vector3 => [arg "x" float, arg "y" float, arg "z" float]
  | vector3i => [arg "x" int, arg "y" int, arg "z" int]
  | color => [arg "r" float, arg "g" float, arg "b" float, arg "a" float]
  | _ => []

def property? (t : BuiltinType) (name : Text) : Option Property :=
  t.properties.find? (·.name = name)

/-- The constants of a type, such as `Vector2.ZERO`. -/
def constants : BuiltinType → List (Text × Value)
  | vector2 =>
    [("ZERO", .vector2 z z), ("ONE", .vector2 o o), ("LEFT", .vector2 (-o) z),
      ("RIGHT", .vector2 o z), ("UP", .vector2 z (-o)), ("DOWN", .vector2 z o)]
  | vector2i =>
    [("ZERO", .vector2i 0 0), ("ONE", .vector2i 1 1), ("LEFT", .vector2i (-1) 0),
      ("RIGHT", .vector2i 1 0), ("UP", .vector2i 0 (-1)), ("DOWN", .vector2i 0 1)]
  | vector3 =>
    [("ZERO", .vector3 z z z), ("ONE", .vector3 o o o), ("UP", .vector3 z o z),
      ("DOWN", .vector3 z (-o) z), ("FORWARD", .vector3 z z (-o)), ("BACK", .vector3 z z o)]
  | vector3i => [("ZERO", .vector3i 0 0 0), ("ONE", .vector3i 1 1 1)]
  | color => Value.namedColors.map fun (n, c) => (⟨n.bytes.map Text.upperByte⟩, c)
  | _ => []
where
  o : Double := .one
  z : Double := .zero

def constant? (t : BuiltinType) (name : Text) : Option Value :=
  (t.constants.find? (·.1 = name)).map Prod.snd

/-- The sorted names of the methods, properties and constants of a type. -/
def memberNames (t : BuiltinType) : List Text :=
  Text.sort (t.methods.map Signature.name ++ t.properties.map Property.name ++
    t.constants.map Prod.fst)

/-- The type of an element of a value of type `t` at a key of type `key`, if it can be indexed so. -/
def indexType? (t key : BuiltinType) : Option DeclaredType :=
  let number := key = int || key = float
  match t with
  | string => if number then some (.of string) else none
  | array => if number then some .any else none
  | dictionary | object => some .any
  | vector2 | vector3 | color =>
    if key = int || key.isStringLike then some (.of float) else none
  | vector2i | vector3i => if key = int || key.isStringLike then some (.of int) else none
  | t => if t.isPacked && number then some (.of t.packedElement) else none

end BuiltinType

namespace Value

/-- The component of a vector or a color, or the value of a dictionary, with a name. -/
def component? (name : Text) : Value → Option Value
  | vector2 x y => pick [("x", float x), ("y", float y)]
  | vector2i x y => pick [("x", int x), ("y", int y)]
  | vector3 x y z => pick [("x", float x), ("y", float y), ("z", float z)]
  | vector3i x y z => pick [("x", int x), ("y", int y), ("z", int z)]
  | color r g b a => pick [("r", float r), ("g", float g), ("b", float b), ("a", float a)]
  | dictionary entries _ => lookup? (string name) entries
  | _ => none
where
  pick (parts : List (Text × Value)) : Option Value :=
    (parts.find? (·.1 = name)).map Prod.snd

/-- The named part of a value. -/
def getNamed (v : Value) (name : Text) : Except ValueError Value :=
  match v.component? name with
  | some x => .ok x
  | none => .error (.invalidAccess name v.type)

/-- The element of a list at an index; a negative one counts from the end. -/
def elementAt (vs : List Value) (i : Int64) : Except ValueError Value :=
  let n := vs.length
  let j := if i < 0 then i.toInt + n else i.toInt
  if j < 0 then .error (.outOfRange i n)
  else match vs[j.toNat]? with
    | some v => .ok v
    | none => .error (.outOfRange i n)

/-- The element of a container, or the character of a string, at a key. -/
def getIndexed (v key : Value) : Except ValueError Value :=
  match v, key with
  | array _ _ _ elements _, int i => elementAt elements i
  | array .., key => .error (.invalidIndexType key.type v.type)
  | string s, int i => elementAt (s.codes.map fun c => string (Text.ofRune c)) i
  | string _, key => .error (.invalidIndexType key.type .string)
  | dictionary entries _, key =>
    match lookup? key entries with
    | some x => .ok x
    | none => .error (.invalidKey key.repr)
  | v, string s | v, stringName s => v.getNamed s
  | v, _ => .error (.cannotIndex v.type)

end Value

end GameScript
