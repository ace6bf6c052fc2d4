import GameScript.Value.Basic

/-!
# Errors of values

Why an operator, a conversion, a constructor, an access or a function has no value.
-/

namespace GameScript

/-- Why something that was asked of values failed. -/
inductive ValueError where
  | invalidOperand (x : BuiltinType) (operator : Text)
  | invalidOperands (x y : BuiltinType) (operator : Text)
  | divisionByZero
  | moduloByZero
  | negativeShift
  | incompleteFormat
  | tooFewFormatArguments
  | tooManyFormatArguments
  | numberRequired
  | integerRequired
  | unsupportedFormat (verb : UInt8)
  | cannotConvert (source target : BuiltinType)
  | noConstructor (t source : BuiltinType)
  | noConstructorOf (t : BuiltinType) (arguments : Nat)
  | notANumber (t : BuiltinType) (argument : Nat) (given : BuiltinType)
  | invalidColor (code : Text)
  | invalidAccess (name : Text) (base : BuiltinType)
  | invalidIndexType (key base : BuiltinType)
  | outOfRange (index : Int64) (size : Nat)
  | invalidKey (key : Text)
  | cannotIndex (base : BuiltinType)
  | frozenArray
  | frozenDictionary
  | expectedNumber (given : BuiltinType)
  | expectedNumbers (x y : BuiltinType)
  | expectedNumberAt (argument : Nat) (given : BuiltinType)
  | expectedIntAt (argument : Nat) (given : BuiltinType)
  | unsupportedArgument (function : Text) (given : BuiltinType)
  | incomparable (function : Text) (x y : BuiltinType)
  | zeroPosmod
  | badArgument (function : Text) (argument : Nat) (expected : Text) (given : BuiltinType)
  | noLength (given : BuiltinType)
  | rangeArguments (given : Nat)
  | zeroRangeStep
  | badCharacter (given : BuiltinType)
  | invalidTypeNumber
  | cannotConvertTo (source target : BuiltinType)
  | missingArgument
  | noRoom

namespace ValueError

/-- Whether evaluation did not fail but break off: it looked at an argument that is not there, or had no
room for one that is. No one reports such an error, as the program stops with it. -/
def isFault : ValueError → Bool
  | missingArgument | noRoom => true
  | _ => false

private def quoted (t : Text) : Text := "'" ++ t ++ "'"

def message : ValueError → Text
  | invalidOperand x op => "invalid operand " ++ quoted x.name ++ " for " ++ quoted op ++ " operator"
  | invalidOperands x y op =>
    "invalid operands " ++ quoted x.name ++ " and " ++ quoted y.name ++ " for " ++ quoted op ++
      " operator"
  | divisionByZero => "division by zero error in operator '/'"
  | moduloByZero => "modulo by zero error in operator '%'"
  | negativeShift => "invalid operands for bit shifting: negative shift count"
  | incompleteFormat => "incomplete format"
  | tooFewFormatArguments => "not enough arguments for format string"
  | tooManyFormatArguments => "not all arguments converted during string formatting"
  | numberRequired => "a number is required"
  | integerRequired => "an integer is required"
  | unsupportedFormat verb => "unsupported format character " ++ quoted (Text.ofRune verb.toNat)
  | cannotConvert s t => "cannot convert " ++ s.name ++ " to " ++ t.name
  | noConstructor t s => "no constructor of " ++ t.name ++ " accepts " ++ s.name
  | noConstructorOf t n =>
    "no constructor of " ++ t.name ++ " takes " ++ Text.ofNat n ++ " arguments"
  | notANumber t n given =>
    "invalid argument " ++ Text.ofNat n ++ " to " ++ t.name ++ " constructor: " ++ given.name ++
      " is not a number"
  | invalidColor code => "invalid color code: " ++ code.display
  | invalidAccess name base =>
    "invalid access to property or key " ++ name.display ++ " on a base object of type " ++ base.name
  | invalidIndexType key base =>
    "invalid index type " ++ key.name ++ " for a base of type " ++ base.name
  | outOfRange i n =>
    "index " ++ Value.intText i ++ " out of range (size " ++ Text.ofNat n ++ ")"
  | invalidKey key => "invalid key " ++ key
  | cannotIndex base => "cannot index a value of type " ++ base.name
  | frozenArray => "array is read-only"
  | frozenDictionary => "dictionary is read-only"
  | expectedNumber given => "expected a number, got " ++ given.name
  | expectedNumbers x y => "expected numbers, got " ++ x.name ++ " and " ++ y.name
  | expectedNumberAt n given =>
    "argument " ++ Text.ofNat n ++ ": expected a number, got " ++ given.name
  | expectedIntAt n given => "argument " ++ Text.ofNat n ++ ": expected int, got " ++ given.name
  | unsupportedArgument f given => f ++ ": unsupported argument type " ++ given.name
  | incomparable f x y => f ++ ": cannot compare " ++ x.name ++ " and " ++ y.name
  | zeroPosmod => "division by zero in posmod"
  | badArgument f n expected given =>
    f ++ ": argument " ++ Text.ofNat n ++ ": expected " ++ expected ++ ", got " ++ given.name
  | noLength given => "len: value of type " ++ quoted given.name ++ " can't provide a length"
  | rangeArguments n => "range: expected 1 to 3 arguments, got " ++ Text.ofNat n
  | zeroRangeStep => "range: step argument is zero"
  | badCharacter given => "char: expected int, got " ++ given.name
  | invalidTypeNumber => "convert: invalid type argument"
  | cannotConvertTo s t => "convert: cannot convert " ++ s.name ++ " to " ++ t.name
  | missingArgument => "missing argument"
  | noRoom => "no room for an argument"

end ValueError

end GameScript
