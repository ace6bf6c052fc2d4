import GameScript.Number.Reading
import GameScript.Text.Unicode
import GameScript.Value.Error
import GameScript.Value.Signature

/-!
# Conversions and constructors

Which types convert to which, implicitly or by a cast, and the values that conversions and constructor
calls make.
-/

namespace GameScript

namespace BuiltinType

/-- Whether values of type `source` convert implicitly to `target`. -/
def convertsStrictly (source target : BuiltinType) : Bool :=
  if source = target then true
  else if source = nil then target = object
  else match target with
    | bool => source = int || source = float
    | int => source = bool || source = float
    | float => source = bool || source = int
    | string => source = stringName || source = nodePath
    | stringName => source = string
    | nodePath => source = string || source = stringName
    | vector2 => source = vector2i
    | vector2i => source = vector2
    | vector3 => source = vector3i
    | vector3i => source = vector3
    | array => source.isPacked
    | target => target.isPacked && source = array

/-- Whether values of type `source` convert to `target` by a cast. -/
def converts (source target : BuiltinType) : Bool :=
  convertsStrictly source target || match target with
    | bool => source = string || source = object
    | int | float => source = string
    | string => true
    | color => source = string || source = int
    | _ => false

end BuiltinType

namespace Value

/-- Converts a value to a type whose elements are no containers. -/
def convertScalar (v : Value) (t : BuiltinType) : Except ValueError Value :=
  if v.type = t then .ok v
  else match t, v with
    | .bool, v => .ok (bool v.truth)
    | .int, bool b => .ok (int (if b then 1 else 0))
    | .int, float x => .ok (int x.saturate)
    | .int, string s => .ok (int (s.trim.integer?.getD 0))
    | .float, bool b => .ok (float (if b then .one else .zero))
    | .float, int i => .ok (float (.ofInt64 i))
    | .float, string s => .ok (float (s.trim.float?.getD .zero))
    | .string, v => .ok (string v.text)
    | .stringName, string s => .ok (stringName s)
    | .nodePath, string s | .nodePath, stringName s => .ok (nodePath s)
    | .vector2, vector2i x y => .ok (vector2 (.ofInt64 x) (.ofInt64 y))
    | .vector2i, vector2 x y => .ok (vector2i x.saturate y.saturate)
    | .vector3, vector3i x y z => .ok (vector3 (.ofInt64 x) (.ofInt64 y) (.ofInt64 z))
    | .vector3i, vector3 x y z => .ok (vector3i x.saturate y.saturate z.saturate)
    | t, v => .error (.cannotConvert v.type t)

/-- Converts a value as an implicit conversion does. An array becomes a packed one by converting its
elements; a packed array becomes an untyped array as it is. -/
def convert (v : Value) (t : BuiltinType) : Except ValueError Value :=
  match v with
  | array kind _ _ elements _ =>
    if kind = t then .ok v
    else if t = .array then .ok (ofList elements)
    else if t.isPacked then do
      return array t .nil "" (← elements.mapM (convertScalar · t.packedElement)) false
    else convertScalar v t
  | v => convertScalar v t

/-! ### Constructors -/

open Property in
/-- The lists of arguments that the constructors of a type accept. -/
def constructors : BuiltinType → List (List Property)
  | .nil | .object => []
  | .bool => [[], [arg "from" .bool], [arg "from" .int], [arg "from" .float]]
  | .int => [[], [arg "from" .int], [arg "from" .bool], [arg "from" .float], [arg "from" .string]]
  | .float => [[], [arg "from" .float], [arg "from" .bool], [arg "from" .int], [arg "from" .string]]
  | .string => [[], [arg "from" .string], [arg "from" .stringName], [arg "from" .nodePath]]
  | .stringName => [[], [arg "from" .stringName], [arg "from" .string]]
  | .nodePath => [[], [arg "from" .nodePath], [arg "from" .string]]
  | .vector2 =>
    [[], [arg "from" .vector2], [arg "from" .vector2i], [arg "x" .float, arg "y" .float]]
  | .vector2i => [[], [arg "from" .vector2i], [arg "from" .vector2], [arg "x" .int, arg "y" .int]]
  | .vector3 =>
    [[], [arg "from" .vector3], [arg "from" .vector3i],
      [arg "x" .float, arg "y" .float, arg "z" .float]]
  | .vector3i =>
    [[], [arg "from" .vector3i], [arg "from" .vector3], [arg "x" .int, arg "y" .int, arg "z" .int]]
  | .color =>
    [[], [arg "from" .color], [arg "from" .color, arg "alpha" .float],
      [arg "r" .float, arg "g" .float, arg "b" .float],
      [arg "r" .float, arg "g" .float, arg "b" .float, arg "a" .float], [arg "code" .string]]
  | .callable => [[], [arg "from" .callable], [⟨"", .object "Object"⟩, arg "method" .stringName]]
  | .signal => [[], [arg "from" .signal], [⟨"", .object "Object"⟩, arg "signal" .stringName]]
  | .dictionary => [[], [arg "from" .dictionary]]
  | .array => [] :: (BuiltinType.array :: BuiltinType.packed).map fun t => [arg "from" t]
  | t => [[], [arg "from" t], [arg "from" .array]]

/-- The colors that have a name. -/
def namedColors : List (Text × Value) :=
  let o := Double.one
  let z := Double.zero
  [("black", color z z z o), ("white", color o o o o), ("red", color o z z o),
    ("green", color z o z o), ("blue", color z z o o), ("yellow", color o o z o),
    ("magenta", color o z o o), ("cyan", color z o o o)]

/-- The color of a name in any case or of six or eight hexadecimal digits, which may follow a `#`. -/
def parseColor (code : Text) : Except ValueError Value :=
  match namedColors.find? (·.1 = code.lower) with
  | some (_, c) => .ok c
  | none =>
    let hex := (code.trimStart "#").bytes
    let part (n : Nat) : Double := Double.ofInt (n % 256) / Double.ofInt 255
    if hex.length ≠ 6 && hex.length ≠ 8 then .error (.invalidColor code)
    else match Text.hexNumber? hex with
      | none => .error (.invalidColor code)
      | some n =>
        let n := if hex.length = 6 then n * 256 + 255 else n
        .ok (color (part (n / twoTo 24)) (part (n / twoTo 16)) (part (n / twoTo 8)) (part n))

/-- The numbers among arguments, which are counted from `i`. -/
def numberArguments (t : BuiltinType) (i : Nat) : List Value → Except ValueError (List Double)
  | [] => .ok []
  | v :: vs =>
    match v.number? with
    | none => .error (.notANumber t i v.type)
    | some x => return x :: (← numberArguments t (i + 1) vs)

/-- The value of a constructor call with one argument. A container is copied. -/
def constructFrom (t : BuiltinType) (v : Value) : Except ValueError Value :=
  if v.type = t then
    .ok (match v with
      | array kind element name elements _ => array kind element name elements false
      | dictionary entries _ => dictionary entries false
      | v => v)
  else match t, v with
    | .color, string s => parseColor s
    | .string, v => .ok (string v.text)
    | t, v => if v.type.converts t then convert v t else .error (.noConstructor t v.type)

/-- The value of a constructor call. -/
def construct (t : BuiltinType) (args : List Value) : Except ValueError Value :=
  let none : Except ValueError Value := .error (.noConstructorOf t args.length)
  match args with
  | [] => .ok (zero t)
  | [v] => constructFrom t v
  | v :: _ =>
    let n := args.length
    if (t = .vector2 && n = 2) || (t = .vector2i && n = 2) || (t = .vector3 && n = 3) ||
        (t = .vector3i && n = 3) then do
      match t, ← numberArguments t 1 args with
      | .vector2, [x, y] => .ok (vector2 x y)
      | .vector2i, [x, y] => .ok (vector2i x.saturate y.saturate)
      | .vector3, [x, y, z] => .ok (vector3 x y z)
      | .vector3i, [x, y, z] => .ok (vector3i x.saturate y.saturate z.saturate)
      | _, _ => none
    else if t = .color then
      match v, args with
      | color r g b _, [_, alpha] =>
        match alpha.number? with
        | some a => .ok (color r g b a)
        | Option.none => none
      | _, _ =>
        if n = 3 || n = 4 then do
          match ← numberArguments t 1 args with
          | [r, g, b] => .ok (color r g b .one)
          | [r, g, b, a] => .ok (color r g b a)
          | _ => none
        else none
    else none

end Value

end GameScript
