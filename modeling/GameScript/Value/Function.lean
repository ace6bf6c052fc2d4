import GameScript.Number.Trigonometry
import GameScript.Value.Operator
import GameScript.Value.Member

/-!
# Global functions

The functions that scripts call without an object: those of the engine and those of the language
itself. A function whose result depends on nothing but its arguments has a rule to evaluate it.
-/

namespace GameScript

/-- A rule that evaluates a call on the values of its arguments. -/
abbrev Rule := List Value → Except ValueError Value

/-- A **global function**. -/
structure GlobalFunction where
  signature : Signature
  eval : Option Rule := none

namespace GlobalFunction

open Property

def name (f : GlobalFunction) : Text := f.signature.name

/-! ### Rules on numbers -/

def onFloat (f : Double → Double) : Rule
  | x :: _ =>
    match x.number? with
    | some a => .ok (.float (f a))
    | none => .error (.expectedNumber x.type)
  | [] => .error .missingArgument

def onFloats (f : Double → Double → Double) : Rule
  | x :: y :: _ =>
    match x.number?, y.number? with
    | some a, some b => .ok (.float (f a b))
    | _, _ => .error (.expectedNumbers x.type y.type)
  | _ => .error .missingArgument

/-- Rounds a float by `f` and makes it an integer. -/
def onFloatToInt (f : Double → Double) : Rule
  | x :: _ =>
    match x.number? with
    | some a => .ok (.int (f a).saturate)
    | none => .error (.expectedNumber x.type)
  | [] => .error .missingArgument

/-- The arguments as floats, counted from `i`. -/
def floats (i : Nat) : List Value → Except ValueError (List Double)
  | [] => .ok []
  | v :: vs =>
    match v.number? with
    | some x => return x :: (← floats (i + 1) vs)
    | none => .error (.expectedNumberAt i v.type)

/-- The arguments as integers, counted from `i`. -/
def ints (i : Nat) : List Value → Except ValueError (List Int64)
  | [] => .ok []
  | v :: vs =>
    match v with
    | .int x => return x :: (← ints (i + 1) vs)
    | v => .error (.expectedIntAt i v.type)

def onThreeFloats (f : Double → Double → Double → Double) : Rule := fun args => do
  match ← floats 1 args with
  | x :: y :: z :: _ => .ok (.float (f x y z))
  | _ => .error .missingArgument

def onInt (f : Int64 → Int64) : Rule := fun args => do
  match ← ints 1 args with
  | x :: _ => .ok (.int (f x))
  | _ => .error .missingArgument

def onInts (f : Int64 → Int64 → Except ValueError Int64) : Rule := fun args => do
  match ← ints 1 args with
  | x :: y :: _ => return .int (← f x y)
  | _ => .error .missingArgument

/-- The remainder with the sign of the divisor. -/
def positiveModulo (x y : Double) : Double :=
  let r := x.mod y
  if (r.lt .zero && Double.zero.lt y) || (Double.zero.lt r && y.lt .zero) then r + y else r

/-- The remainder with the sign of the divisor. -/
def positiveIntModulo (x y : Int64) : Except ValueError Int64 :=
  if y = 0 then .error .zeroPosmod
  else
    let r := x % y
    .ok (if (r < 0 && 0 < y) || (0 < r && y < 0) then r + y else r)

def interpolate (x y weight : Double) : Double := x + (y - x) * weight

def intAbs (x : Int64) : Int64 := if x < 0 then -x else x

def intSign (x : Int64) : Int64 := if 0 < x then 1 else if x < 0 then -1 else 0

/-! ### Rules on values of any type -/

/-- A rule with one case for integers and one for floats. -/
def onNumber (name : Text) (f : Int64 → Int64) (g : Double → Double) : Rule
  | .int x :: _ => .ok (.int (f x))
  | .float x :: _ => .ok (.float (g x))
  | v :: _ => .error (.unsupportedArgument name v.type)
  | [] => .error .missingArgument

/-- The first of the values that is extreme: no other one compares to it as `order`. -/
def extreme (name : Text) (order : Ordering) (best : Value) : List Value → Except ValueError Value
  | [] => .ok best
  | v :: vs =>
    match v.compare? best with
    | none => .error (.incomparable name v.type best.type)
    | some o => extreme name order (if o == order then v else best) vs

def extremeOf (name : Text) (order : Ordering) : Rule
  | v :: vs => extreme name order v vs
  | [] => .error .missingArgument

/-- `v` cut to the values from `lo` to `hi`, as far as they compare. -/
def clamp (v lo hi : Value) : Value :=
  let v := if v.compare? lo == some .lt then lo else v
  if v.compare? hi == some .gt then hi else v

/-- The name of the type with a number, of which only the lowest byte counts. -/
def typeString (v : Value) : Text :=
  match v with
  | .int i =>
    if i < 0 then "<invalid type>"
    else match BuiltinType.ofNumber? (i.toInt.toNat % 256) with
      | some t => t.name
      | none => "<invalid type>"
  | _ => "<invalid type>"

def one (f : Value → Except ValueError Value) : Rule
  | v :: _ => f v
  | [] => .error .missingArgument

/-! ### Functions of the engine -/

def function (name : Text) (returns : DeclaredType) (params : List Property) (eval : Rule) :
    GlobalFunction :=
  { signature := { name, params, returns, isConst := true }, eval := some eval }

/-- A function with an effect, or one whose result is not known in advance. -/
def effect (name : Text) (returns : DeclaredType) (params : List Property := []) :
    GlobalFunction :=
  { signature := { name, params, returns } }

def variadic (f : GlobalFunction) : GlobalFunction :=
  { f with signature := { f.signature with vararg := true } }

def float (name : Text) (params : List Text) (eval : Rule) : GlobalFunction :=
  function name (.of .float) (params.map (arg · .float)) eval

def int (name : Text) (params : List Text) (eval : Rule) : GlobalFunction :=
  function name (.of .int) (params.map (arg · .int)) eval

/-- The functions of the engine. -/
def utilities : List GlobalFunction := [
  float "sin" ["angle_rad"] (onFloat .sin),
  float "cos" ["angle_rad"] (onFloat .cos),
  float "tan" ["angle_rad"] (onFloat .tan),
  float "asin" ["x"] (onFloat .asin),
  float "acos" ["x"] (onFloat .acos),
  float "atan" ["x"] (onFloat .atan),
  float "atan2" ["y", "x"] (onFloats .atan2),
  float "sqrt" ["x"] (onFloat .sqrt),
  float "exp" ["x"] (onFloat .exp),
  float "log" ["x"] (onFloat .log),
  float "pow" ["base", "exp"] (onFloats .pow),
  float "fmod" ["x", "y"] (onFloats .mod),
  float "fposmod" ["x", "y"] (onFloats positiveModulo),
  float "floorf" ["x"] (onFloat .floor),
  float "ceilf" ["x"] (onFloat .ceil),
  float "roundf" ["x"] (onFloat .round),
  function "floori" (.of .int) [arg "x" .float] (onFloatToInt .floor),
  function "ceili" (.of .int) [arg "x" .float] (onFloatToInt .ceil),
  function "roundi" (.of .int) [arg "x" .float] (onFloatToInt .round),
  float "absf" ["x"] (onFloat .abs),
  float "signf" ["x"] (onFloat .signum),
  float "deg_to_rad" ["deg"] (onFloat fun x => x * .pi / .ofInt 180),
  float "rad_to_deg" ["rad"] (onFloat fun x => x * .ofInt 180 / .pi),
  float "lerpf" ["from", "to", "weight"] (onThreeFloats interpolate),
  float "clampf" ["value", "min", "max"] (onThreeFloats fun x lo hi => lo.max (hi.min x)),
  float "minf" ["a", "b"] (onFloats .min),
  float "maxf" ["a", "b"] (onFloats .max),
  function "is_nan" (.of .bool) [arg "x" .float]
    (one fun v => .ok (.bool (v.number?.any Double.isNaN))),
  function "is_inf" (.of .bool) [arg "x" .float]
    (one fun v => .ok (.bool (v.number?.any Double.isInf))),
  int "absi" ["x"] (onInt intAbs),
  int "signi" ["x"] (onInt intSign),
  int "posmod" ["x", "y"] (onInts positiveIntModulo),
  int "mini" ["a", "b"] (onInts fun a b => .ok (if b < a then b else a)),
  int "maxi" ["a", "b"] (onInts fun a b => .ok (if a < b then b else a)),
  int "clampi" ["value", "min", "max"] (fun args => do
    match ← ints 1 args with
    | v :: lo :: hi :: _ =>
      let v := if v < lo then lo else v
      .ok (.int (if hi < v then hi else v))
    | _ => .error .missingArgument),
  function "abs" .any [anyArg "x"] (onNumber "abs" intAbs .abs),
  function "sign" .any [anyArg "x"] (onNumber "sign" intSign .signum),
  function "floor" .any [anyArg "x"] (onNumber "floor" id .floor),
  function "ceil" .any [anyArg "x"] (onNumber "ceil" id .ceil),
  function "round" .any [anyArg "x"] (onNumber "round" id .round),
  variadic (function "min" .any [] (extremeOf "min" .lt)),
  variadic (function "max" .any [] (extremeOf "max" .gt)),
  function "clamp" .any [anyArg "value", anyArg "min", anyArg "max"] (fun
    | v :: lo :: hi :: _ => .ok (clamp v lo hi)
    | _ => .error .missingArgument),
  function "lerp" .any [anyArg "from", anyArg "to", arg "weight" .float]
    (onThreeFloats interpolate),
  function "typeof" (.of .int) [anyArg "variable"]
    (one fun v => .ok (.int (Int64.ofNat v.type.number))),
  function "type_string" (.of .string) [arg "type" .int] (one fun v => .ok (.string (typeString v))),
  variadic (function "str" (.of .string) []
    (fun args => .ok (.string (Text.concat (args.map Value.text))))),
  function "var_to_str" (.of .string) [anyArg "variable"] (one fun v => .ok (.string v.repr)),
  effect "is_same" (.of .bool) [anyArg "a", anyArg "b"],
  variadic (effect "print" .void),
  variadic (effect "prints" .void),
  variadic (effect "printt" .void),
  variadic (effect "printerr" .void),
  variadic (effect "print_rich" .void),
  variadic (effect "push_error" .void),
  variadic (effect "push_warning" .void),
  effect "randi" (.of .int),
  effect "randf" (.of .float),
  effect "randomize" .void,
  effect "randi_range" (.of .int) [arg "from" .int, arg "to" .int],
  effect "randf_range" (.of .float) [arg "from" .float, arg "to" .float],
  effect "instance_from_id" (.object "Object") [arg "instance_id" .int],
  effect "is_instance_valid" (.of .bool) [anyArg "instance"]]

def utility? (name : Text) : Option GlobalFunction := utilities.find? (·.name = name)

def utilityNames : List Text := Text.sort (utilities.map GlobalFunction.name)

/-! ### Functions of the language -/

/-- The arguments of a color of bytes as floats, counted from `i`. There is room for four. -/
def colorBytes (i : Nat) : List Value → Except ValueError (List Double)
  | [] => .ok []
  | v :: vs =>
    match v with
    | .int x =>
      if 4 < i then .error .noRoom
      else return Double.ofInt64 x / .ofInt 255 :: (← colorBytes (i + 1) vs)
    | v => .error (.badArgument "Color8" i "int" v.type)

/-- The color of components from 0 to 255. One without an alpha component is opaque. -/
def colorOfBytes : Rule := fun args => do
  let cs ← colorBytes 1 args
  let part (i : Nat) (d : Double) : Double := cs[i]?.getD d
  return .color (part 0 .zero) (part 1 .zero) (part 2 .zero) (part 3 .one)

/-- The number of characters, elements or keys of a value. -/
def length (v : Value) : Except ValueError Value :=
  let count (n : Nat) : Except ValueError Value := .ok (.int (Int64.ofNat n))
  match v with
  | .string t | .stringName t => count t.runeCount
  | .array _ _ _ elements _ => count elements.length
  | .dictionary entries _ => count entries.length
  | v => .error (.noLength v.type)

/-- A bound of a range. -/
def bound? : Value → Option Int64
  | .int x => some x
  | .float x => some x.truncate
  | _ => none

/-- The arguments of a range as integers, counted from `i`. There is room for three, even though a range
may be given more. -/
def rangeInts (i : Nat) : List Value → Except ValueError (List Int64)
  | [] => .ok []
  | v :: vs =>
    match bound? v with
    | none => .error (.badArgument "range" i "a number" v.type)
    | some x => if 3 < i then .error .noRoom else return x :: (← rangeInts (i + 1) vs)

/-- Whether `i` comes before `stop` in the direction of `step`. -/
def comesBefore (stop step i : Int64) : Bool := (0 < step && i < stop) || (step < 0 && stop < i)

/-- Collects the numbers from `i` on by steps of `step`, at most `fuel` of them, up to the first that
does not come before `stop`. The steps wrap around as all sums of 64-bit integers do. -/
def collectRange (stop step : Int64) : Nat → Int64 → Array Int64 → Array Int64
  | 0, _, found => found
  | fuel + 1, i, found =>
    if comesBefore stop step i then collectRange stop step fuel (i + step) (found.push i) else found

/-- The numbers from `start` by steps of `step` up to the first that does not come before `stop`. As
there are `2 ^ 64` integers, a walk of more steps would never end. -/
def rangeNumbers (start stop step : Int64) : List Int64 :=
  (collectRange stop step (twoTo 64) start #[]).toList

def range : Rule := fun args => do
  let bounds (start stop step : Int64) : Except ValueError Value :=
    if step = 0 then .error .zeroRangeStep
    else .ok (.ofList ((rangeNumbers start stop step).map .int))
  match ← rangeInts 1 args with
  | [stop] => bounds 0 stop 1
  | [start, stop] => bounds start stop 1
  | [start, stop, step] => bounds start stop step
  | xs => .error (.rangeArguments xs.length)

/-- The string of one character. Only the lowest 32 bits of its code count. -/
def character (v : Value) : Except ValueError Value :=
  match v with
  | .int i =>
    let code := i.toInt.bmod (twoTo 32)
    .ok (.string (Text.ofRune (if code < 0 then Text.replacement else code.toNat)))
  | v => .error (.badCharacter v.type)

/-- Converts a value to the type with a number, of which only the lowest byte counts. -/
def convertTo (v type : Value) : Except ValueError Value :=
  match type with
  | .int i =>
    if i < 0 then .error .invalidTypeNumber
    else match BuiltinType.ofNumber? (i.toInt.toNat % 256) with
      | none => .error .invalidTypeNumber
      | some t =>
        if !v.type.converts t then .error (.cannotConvertTo v.type t)
        else if t = .string then .ok (.string v.text)
        else v.convert t
  | _ => .error .invalidTypeNumber

/-- The functions of the language itself. -/
def languageFunctions : List GlobalFunction := [
  { signature :=
      { name := "Color8", returns := .of .color, isConst := true
        params := [arg "r8" .int, arg "g8" .int, arg "b8" .int, arg "a8" .int]
        defaults := [.int 255] }
    eval := some colorOfBytes },
  variadic (effect "print_debug" .void),
  effect "print_stack" .void,
  effect "get_stack" (.of .array),
  effect "inst_to_dict" (.of .dictionary) [⟨"instance", .object "Object"⟩],
  effect "dict_to_inst" (.object "Object") [arg "dictionary" .dictionary],
  function "len" (.of .int) [anyArg "var"] (one length),
  variadic (function "range" (.of .array) [] range),
  effect "load" (.object "Resource") [arg "path" .string],
  effect "is_instance_of" (.of .bool) [anyArg "value", anyArg "type"],
  effect "type_exists" (.of .bool) [arg "type" .stringName],
  function "char" (.of .string) [arg "char" .int] (one character),
  function "convert" .any [anyArg "what", ⟨"type", .enum "Variant.Type"⟩] (fun
    | v :: t :: _ => convertTo v t
    | _ => .error .missingArgument)]

def language? (name : Text) : Option GlobalFunction := languageFunctions.find? (·.name = name)

def languageNames : List Text := Text.sort (languageFunctions.map GlobalFunction.name)

end GlobalFunction

end GameScript
