import GameScript.Number.Exponential
import GameScript.Value.Error

/-!
# Operators

The operators of expressions on values, and the type of their result by the types of the operands.
-/

namespace GameScript

/-- An **operator** of one or two operands. -/
inductive Operator where
  | equal | notEqual | less | lessEqual | greater | greaterEqual
  | add | subtract | multiply | divide | negate | positive | modulo | power
  | shiftLeft | shiftRight | bitAnd | bitOr | bitXor | bitNegate
  | and | or | xor | not | within
deriving DecidableEq, Inhabited

namespace Operator

/-- All operators in the order of their numbers, which compiled programs store. -/
def all : List Operator :=
  [equal, notEqual, less, lessEqual, greater, greaterEqual, add, subtract, multiply, divide, negate,
    positive, modulo, power, shiftLeft, shiftRight, bitAnd, bitOr, bitXor, bitNegate, and, or, xor,
    not, within]

def number (op : Operator) : Nat := all.idxOf op

def ofNumber? (n : Nat) : Option Operator := all[n]?

def name : Operator → Text
  | equal => "=="
  | notEqual => "!="
  | less => "<"
  | lessEqual => "<="
  | greater => ">"
  | greaterEqual => ">="
  | add => "+"
  | subtract => "-"
  | multiply => "*"
  | divide => "/"
  | negate => "unary-"
  | positive => "unary+"
  | modulo => "%"
  | power => "**"
  | shiftLeft => "<<"
  | shiftRight => ">>"
  | bitAnd => "&"
  | bitOr => "|"
  | bitXor => "^"
  | bitNegate => "~"
  | and => "and"
  | or => "or"
  | xor => "xor"
  | not => "not"
  | within => "in"

def ofName? (name : Text) : Option Operator := all.find? (·.name = name)

/-- The name that stands for a number which may belong to no operator. -/
def numberName (n : Nat) : Text :=
  match ofNumber? n with
  | some op => op.name
  | none => "Operator(" ++ Text.ofNat n ++ ")"

/-- Whether the operator takes a single operand. -/
def isUnary : Operator → Bool
  | negate | positive | bitNegate | not => true
  | _ => false

/-- The type of an arithmetic result. -/
def numericResult (a b : BuiltinType) : BuiltinType :=
  if a = .int && b = .int then .int else .float

/-- Whether values of a type have components that are combined one by one. -/
def isTuple (t : BuiltinType) : Bool := t.isVector || t = .color

/-- The type of the result for operands of types `a` and `b`, if the operation is defined at all. A
unary operator ignores `b`. -/
def resultType? (op : Operator) (a b : BuiltinType) : Option BuiltinType :=
  let numeric := a.isNumeric && b.isNumeric
  match op with
  | and | or | xor | not => some .bool
  | equal | notEqual =>
    if a = b || a = .nil || b = .nil || numeric || (a.isStringLike && b.isStringLike) then some .bool
    else none
  | less | lessEqual | greater | greaterEqual =>
    if numeric then some .bool
    else if a = b && [.bool, .string, .stringName, .vector2, .vector2i, .vector3, .vector3i,
        .array].contains a then some .bool
    else none
  | add =>
    if numeric then some (numericResult a b)
    else if a.isStringLike && b.isStringLike then some .string
    else if a = b && (isTuple a || a = .array || a.isPacked) then some a
    else none
  | subtract =>
    if numeric then some (numericResult a b) else if a = b && isTuple a then some a else none
  | multiply | divide =>
    if numeric then some (numericResult a b)
    else if a = b && isTuple a then some a
    else if isTuple a && b.isNumeric then some (if b = .float then a.floatVector else a)
    else if op = multiply && a.isNumeric && isTuple b then
      some (if a = .float then b.floatVector else b)
    else none
  | modulo =>
    if a = .int && b = .int then some .int
    else if a = .string then some .string
    else if (a = .vector2i || a = .vector3i) && (b = a || b = .int) then some a
    else none
  | power => if numeric then some (numericResult a b) else none
  | shiftLeft | shiftRight | bitAnd | bitOr | bitXor =>
    if a = .int && b = .int then some .int else none
  | bitNegate => if a = .int then some .int else none
  | negate | positive =>
    if a.isNumeric || a.isVector || (op = negate && a = .color) then some a else none
  | within =>
    if b = .array || b = .dictionary || b.isPacked then some .bool
    else if (b = .string || b = .object) && a.isStringLike then some .bool
    else none

end Operator

namespace Value

/-! ### Unary operators -/

/-- The value of a unary operator. -/
def unary (op : Operator) (x : Value) : Except ValueError Value :=
  match op, x with
  | .not, x => .ok (bool !x.truth)
  | .negate, int i => .ok (int (-i))
  | .negate, float f => .ok (float (-f))
  | .negate, vector2 x y => .ok (vector2 (-x) (-y))
  | .negate, vector2i x y => .ok (vector2i (-x) (-y))
  | .negate, vector3 x y z => .ok (vector3 (-x) (-y) (-z))
  | .negate, vector3i x y z => .ok (vector3i (-x) (-y) (-z))
  | .negate, color r g b a => .ok (color (.one - r) (.one - g) (.one - b) (.one - a))
  | .positive, int i => .ok (int i)
  | .positive, float f => .ok (float f)
  | .positive, vector2 x y => .ok (vector2 x y)
  | .positive, vector2i x y => .ok (vector2i x y)
  | .positive, vector3 x y z => .ok (vector3 x y z)
  | .positive, vector3i x y z => .ok (vector3i x y z)
  | .bitNegate, int i => .ok (int (~~~i))
  | _, _ => .error (.invalidOperand x.type op.name)

/-! ### Formatting -/

/-- The hexadecimal digits of a natural number, at most `fuel` of them. -/
def hexText : Nat → Nat → List UInt8
  | 0, _ => []
  | fuel + 1, n => (if n < 16 then [] else hexText fuel (n / 16)) ++ [Text.hexDigit (n % 16)]

/-- One argument of a format string as its verb asks. -/
def formatArgument (verb : UInt8) (v : Value) : Except ValueError (List UInt8) :=
  if verb = 115 then .ok v.text.bytes                     -- s
  else if verb = 100 then                                 -- d
    match v.number? with
    | some x => .ok (intText x.truncate).bytes
    | none => .error .numberRequired
  else if verb = 102 then                                 -- f
    match v.number? with
    | some x => .ok x.fixedText.bytes
    | none => .error .numberRequired
  else if verb = 120 || verb = 88 then                    -- x, X
    match v with
    | int i =>
      let digits := hexText 16 i.toInt.natAbs
      .ok ((if i < 0 then [45] else []) ++ if verb = 88 then digits.map Text.upperByte else digits)
    | _ => .error .integerRequired
  else .error (.unsupportedFormat verb)

/-- A format string with its arguments filled in. -/
def formatBytes : List UInt8 → List Value → Except ValueError (List UInt8)
  | [], [] => .ok []
  | [], _ :: _ => .error .tooManyFormatArguments
  | c :: cs, args =>
    if c ≠ 37 then return c :: (← formatBytes cs args)
    else match cs with
      | [] => .error .incompleteFormat
      | verb :: cs =>
        if verb = 37 then return 37 :: (← formatBytes cs args)
        else match args with
          | [] => .error .tooFewFormatArguments
          | a :: args => return (← formatArgument verb a) ++ (← formatBytes cs args)

/-- A format string applied to a value; the elements of an array are its arguments. -/
def format (f : Text) (v : Value) : Except ValueError Value := do
  let args := match v with
    | array .array _ _ elements _ => elements
    | v => [v]
  return string ⟨← formatBytes f.bytes args⟩

/-! ### Arithmetic -/

/-- `x` to the power `n` on words, by repeated squaring; `n` is below `2 ^ bits`. -/
def powerOf : Nat → Int64 → Nat → Int64
  | 0, _, _ => 1
  | bits + 1, x, n => (if n % 2 = 1 then x else 1) * powerOf bits (x * x) (n / 2)

/-- An integer power. A negative exponent goes through floats and is cut to an integer. -/
def intPower (x y : Int64) : Int64 :=
  if y < 0 then ((Double.ofInt64 x).pow (.ofInt64 y)).truncate else powerOf 63 x y.toInt.toNat

/-- A shift to the left; all bits are gone after 64. -/
def shiftLeft (x y : Int64) : Int64 := if y < 64 then x <<< y else 0

/-- A shift to the right that repeats the sign. -/
def shiftRight (x y : Int64) : Int64 := if y < 64 then x >>> y else if x < 0 then -1 else 0

/-- Combines floats component by component. -/
def mapFloats (f : Double → Double → Double) : Value → Value → Option Value
  | vector2 a b, vector2 c d => some (vector2 (f a c) (f b d))
  | vector3 a b c, vector3 d e g => some (vector3 (f a d) (f b e) (f c g))
  | color a b c d, color e g h i => some (color (f a e) (f b g) (f c h) (f d i))
  | _, _ => none

/-- Combines integers component by component. -/
def mapInts (f : Int64 → Int64 → Int64) : Value → Value → Option Value
  | vector2i a b, vector2i c d => some (vector2i (f a c) (f b d))
  | vector3i a b c, vector3i d e g => some (vector3i (f a d) (f b e) (f c g))
  | _, _ => none

/-- Combines each component with one number; a vector of integers stays one only with an integer. -/
def scale (f : Double → Double → Double) (g : Int64 → Int64 → Int64) (x y : Value) : Option Value :=
  match x, y with
  | vector2i a b, int n => some (vector2i (g a n) (g b n))
  | vector3i a b c, int n => some (vector3i (g a n) (g b n) (g c n))
  | vector2i a b, float n => some (vector2 (f (.ofInt64 a) n) (f (.ofInt64 b) n))
  | vector3i a b c, float n =>
    some (vector3 (f (.ofInt64 a) n) (f (.ofInt64 b) n) (f (.ofInt64 c) n))
  | x, y => do
    let n ← y.number?
    match x with
    | vector2 a b => some (vector2 (f a n) (f b n))
    | vector3 a b c => some (vector3 (f a n) (f b n) (f c n))
    | color a b c d => some (color (f a n) (f b n) (f c n) (f d n))
    | _ => none

/-- Combines two numbers, as integers if both are. -/
def mapNumbers (f : Double → Double → Double) (g : Int64 → Int64 → Int64) (x y : Value) :
    Option Value :=
  match x, y with
  | int a, int b => some (int (g a b))
  | x, y => do return float (f (← x.number?) (← y.number?))

/-- The components of a vector of integers, or an integer by itself. -/
def integers : Value → List Int64
  | int i => [i]
  | vector2i x y => [x, y]
  | vector3i x y z => [x, y, z]
  | _ => []

def addValues (x y : Value) : Option Value :=
  match x, y with
  | string a, string b | string a, stringName b | stringName a, string b
  | stringName a, stringName b => some (string (a ++ b))
  | array k _ _ as _, array l _ _ bs _ => if k = l then some (array k .nil "" (as ++ bs) false) else none
  | x, y => mapNumbers (· + ·) (· + ·) x y <|> mapFloats (· + ·) x y <|> mapInts (· + ·) x y

def subtractValues (x y : Value) : Option Value :=
  mapNumbers (· - ·) (· - ·) x y <|> mapFloats (· - ·) x y <|> mapInts (· - ·) x y

/-- Multiplication with the number, if there is one, on the right. -/
def multiplyRight (x y : Value) : Option Value :=
  mapNumbers (· * ·) (· * ·) x y <|> mapFloats (· * ·) x y <|> mapInts (· * ·) x y <|>
    scale (· * ·) (· * ·) x y

def multiplyValues (x y : Value) : Option Value :=
  multiplyRight x y <|> if x.type.isNumeric then multiplyRight y x else none

/-- Division; `none` if it is not defined for these types. -/
def divideValues (x y : Value) : Option (Except ValueError Value) :=
  match mapNumbers (· / ·) (· / ·) x y <|> mapFloats (· / ·) x y <|> mapInts (· / ·) x y <|>
      scale (· / ·) (· / ·) x y with
  | some v =>
    if !(integers x).isEmpty && (integers y).contains 0 then some (.error .divisionByZero)
    else some (.ok v)
  | none => none

/-- Remainders of integers, with the sign of the dividend; `none` if they are not defined. -/
def moduloValues (x y : Value) : Option (Except ValueError Value) :=
  let r : Option Value := match x, y with
    | int a, int b => some (int (a % b))
    | vector2i a b, int n => some (vector2i (a % n) (b % n))
    | vector3i a b c, int n => some (vector3i (a % n) (b % n) (c % n))
    | x, y => mapInts (· % ·) x y
  r.map fun v => if (integers y).contains 0 then .error .moduloByZero else .ok v

/-! ### Comparison and membership -/

/-- The relation of two numbers that a relational operator asks for; it never holds of a NaN. -/
def relateNumbers? (op : Operator) (x y : Value) : Option Bool :=
  match x, y with
  | int a, int b =>
    some (match op with
      | .less => a < b
      | .lessEqual => a ≤ b
      | .greater => b < a
      | _ => b ≤ a)
  | x, y => do
    let a ← x.number?
    let b ← y.number?
    return match op with
      | .less => a.lt b
      | .lessEqual => a.le b
      | .greater => b.lt a
      | _ => b.le a

/-- The relation of two values that a relational operator asks for. -/
def relate? (op : Operator) (x y : Value) : Option Bool :=
  relateNumbers? op x y <|> (compare? x y).map fun o =>
    match op with
    | .less => o == .lt
    | .lessEqual => o != .gt
    | .greater => o == .gt
    | _ => o != .lt

/-- Whether `x` is an element, a key or a part of `y`. -/
def isWithin? (x y : Value) : Option Bool :=
  match y, x with
  | array _ _ _ elements _, x => some (elements.any x.equal)
  | dictionary entries _, x => some (lookup? x entries).isSome
  | string t, string part | string t, stringName part => some (t.contains part)
  | _, _ => none

/-! ### Binary operators -/

/-- The value of a binary operator. -/
def binary (op : Operator) (x y : Value) : Except ValueError Value :=
  let invalid : Except ValueError Value :=
    .error (if op.isUnary then .invalidOperand x.type op.name
      else .invalidOperands x.type y.type op.name)
  let orInvalid (r : Option Value) : Except ValueError Value :=
    match r with
    | some v => .ok v
    | none => invalid
  match op with
  | .and => .ok (bool (x.truth && y.truth))
  | .or => .ok (bool (x.truth || y.truth))
  | .xor => .ok (bool (x.truth != y.truth))
  | .equal => if (op.resultType? x.type y.type).isSome then .ok (bool (x.equal y)) else invalid
  | .notEqual => if (op.resultType? x.type y.type).isSome then .ok (bool !(x.equal y)) else invalid
  | .less | .lessEqual | .greater | .greaterEqual => orInvalid ((relate? op x y).map bool)
  | .add => orInvalid (addValues x y)
  | .subtract => orInvalid (subtractValues x y)
  | .multiply => orInvalid (multiplyValues x y)
  | .divide => (divideValues x y).getD invalid
  | .modulo =>
    match x with
    | string f => format f y
    | x => (moduloValues x y).getD invalid
  | .power => orInvalid (mapNumbers Double.pow intPower x y)
  | .shiftLeft | .shiftRight =>
    match x, y with
    | int a, int b =>
      if b < 0 then .error .negativeShift
      else .ok (int (if op = .shiftLeft then shiftLeft a b else shiftRight a b))
    | _, _ => invalid
  | .bitAnd =>
    match x, y with
    | int a, int b => .ok (int (a &&& b))
    | _, _ => invalid
  | .bitOr =>
    match x, y with
    | int a, int b => .ok (int (a ||| b))
    | _, _ => invalid
  | .bitXor =>
    match x, y with
    | int a, int b => .ok (int (a ^^^ b))
    | _, _ => invalid
  | .within => orInvalid ((isWithin? x y).map bool)
  | .negate | .positive | .bitNegate | .not => invalid

end Value

end GameScript
