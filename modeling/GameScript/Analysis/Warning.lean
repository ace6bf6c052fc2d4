import GameScript.Syntax.Position
import GameScript.Value.Basic

/-!
# Warnings

What the analysis warns about without rejecting a file. Each kind of warning has a name by which a file
or the user can turn it off.
-/

namespace GameScript

/-- The kinds of warnings. -/
inductive WarningCode where
  | unassignedVariable | unassignedVariableOpAssign | unusedVariable | unusedLocalConstant
  | unusedParameter | unusedSignal | shadowedVariable | shadowedVariableBaseClass
  | shadowedGlobalIdentifier | unreachableCode | unreachablePattern | standaloneExpression
  | standaloneTernary | incompatibleTernary | uncheckedProperty | uncheckedMethod
  | uncheckedCast | uncheckedArgument | returnValueDiscarded | staticCalledOnInstance
  | redundantAwait | assertAlwaysTrue | assertAlwaysFalse | integerDivision
  | narrowingConversion | intAsEnumWithoutCast | intAsEnumWithoutMatch
  | enumVariableWithoutDefault | emptyFile | inferenceOnVariant | nativeMethodOverride
  | onreadyWithExport
deriving DecidableEq, Inhabited

namespace WarningCode

/-- All kinds in the order of their numbers. -/
def all : List WarningCode := [
  unassignedVariable, unassignedVariableOpAssign, unusedVariable, unusedLocalConstant,
  unusedParameter, unusedSignal, shadowedVariable, shadowedVariableBaseClass,
  shadowedGlobalIdentifier, unreachableCode, unreachablePattern, standaloneExpression,
  standaloneTernary, incompatibleTernary, uncheckedProperty, uncheckedMethod, uncheckedCast,
  uncheckedArgument, returnValueDiscarded, staticCalledOnInstance, redundantAwait,
  assertAlwaysTrue, assertAlwaysFalse, integerDivision, narrowingConversion,
  intAsEnumWithoutCast, intAsEnumWithoutMatch, enumVariableWithoutDefault, emptyFile,
  inferenceOnVariant, nativeMethodOverride, onreadyWithExport]

def name : WarningCode → Text
  | unassignedVariable => "UNASSIGNED_VARIABLE"
  | unassignedVariableOpAssign => "UNASSIGNED_VARIABLE_OP_ASSIGN"
  | unusedVariable => "UNUSED_VARIABLE"
  | unusedLocalConstant => "UNUSED_LOCAL_CONSTANT"
  | unusedParameter => "UNUSED_PARAMETER"
  | unusedSignal => "UNUSED_SIGNAL"
  | shadowedVariable => "SHADOWED_VARIABLE"
  | shadowedVariableBaseClass => "SHADOWED_VARIABLE_BASE_CLASS"
  | shadowedGlobalIdentifier => "SHADOWED_GLOBAL_IDENTIFIER"
  | unreachableCode => "UNREACHABLE_CODE"
  | unreachablePattern => "UNREACHABLE_PATTERN"
  | standaloneExpression => "STANDALONE_EXPRESSION"
  | standaloneTernary => "STANDALONE_TERNARY"
  | incompatibleTernary => "INCOMPATIBLE_TERNARY"
  | uncheckedProperty => "UNSAFE_PROPERTY_ACCESS"
  | uncheckedMethod => "UNSAFE_METHOD_ACCESS"
  | uncheckedCast => "UNSAFE_CAST"
  | uncheckedArgument => "UNSAFE_CALL_ARGUMENT"
  | returnValueDiscarded => "RETURN_VALUE_DISCARDED"
  | staticCalledOnInstance => "STATIC_CALLED_ON_INSTANCE"
  | redundantAwait => "REDUNDANT_AWAIT"
  | assertAlwaysTrue => "ASSERT_ALWAYS_TRUE"
  | assertAlwaysFalse => "ASSERT_ALWAYS_FALSE"
  | integerDivision => "INTEGER_DIVISION"
  | narrowingConversion => "NARROWING_CONVERSION"
  | intAsEnumWithoutCast => "INT_AS_ENUM_WITHOUT_CAST"
  | intAsEnumWithoutMatch => "INT_AS_ENUM_WITHOUT_MATCH"
  | enumVariableWithoutDefault => "ENUM_VARIABLE_WITHOUT_DEFAULT"
  | emptyFile => "EMPTY_FILE"
  | inferenceOnVariant => "INFERENCE_ON_VARIANT"
  | nativeMethodOverride => "NATIVE_METHOD_OVERRIDE"
  | onreadyWithExport => "ONREADY_WITH_EXPORT"

/-- The number of the kind. -/
def number (c : WarningCode) : Nat := all.idxOf c

theorem mem_all (c : WarningCode) : c ∈ all := by cases c <;> decide

def ofName? (name : Text) : Option WarningCode := all.find? (·.name = name)

/-- The name of the kind with a number, or a description of a number that has none. -/
def numberName (n : Nat) : Text :=
  match all[n]? with
  | some c => c.name
  | none => "WarningCode(" ++ Text.ofNat n ++ ")"

/-- Whether the warning is about an operation on values of unknown type. -/
def isUnchecked : WarningCode → Bool
  | uncheckedProperty | uncheckedMethod | uncheckedCast | uncheckedArgument => true
  | _ => false

/-- The kinds that are off unless asked for. -/
def disabledByDefault : List WarningCode := all.filter isUnchecked

end WarningCode

/-- What a warning says. Types are given as messages show them. -/
inductive Caution where
  | unusedVariable (name : Text)
  | unusedConstant (name : Text)
  | unusedParameter (name function : Text)
  | unusedSignal (name : Text)
  | unassigned (name : Text)
  | unassignedOperation (name : Text)
  | unreachableCode (function : Text)
  | unreachablePattern
  | standaloneTernary
  | standaloneExpression
  | narrowing
  | integerDivision
  | incompatibleTernary
  | assertTrue
  | assertFalse
  | shadowsGlobal (what name global : Text)
  | shadowsMember (what name kind : Text) (line : Nat)
  | shadowsNative (what name kind cls : Text)
  | discardedResult (name : Text)
  | staticOnInstance (name type : Text)
  | uncheckedMethod (name type : Text)
  | uncheckedArgument (index : Nat) (name param arg : Text)
  | uncheckedProperty (name type : Text)
  | uncheckedCast (type : Text)
  | redundantAwait
  | onreadyExport
  | enumWithoutDefault (name : Text)
  | intAsEnum
  | intOutsideEnum (value : Int64) (type : Text)
  | nativeOverride (name cls : Text)
deriving DecidableEq, Inhabited

namespace Caution

/-- The kind of the warning. -/
def code : Caution → WarningCode
  | unusedVariable _ => .unusedVariable
  | unusedConstant _ => .unusedLocalConstant
  | unusedParameter .. => .unusedParameter
  | unusedSignal _ => .unusedSignal
  | unassigned _ => .unassignedVariable
  | unassignedOperation _ => .unassignedVariableOpAssign
  | unreachableCode _ => .unreachableCode
  | unreachablePattern => .unreachablePattern
  | standaloneTernary => .standaloneTernary
  | standaloneExpression => .standaloneExpression
  | narrowing => .narrowingConversion
  | integerDivision => .integerDivision
  | incompatibleTernary => .incompatibleTernary
  | assertTrue => .assertAlwaysTrue
  | assertFalse => .assertAlwaysFalse
  | shadowsGlobal .. => .shadowedGlobalIdentifier
  | shadowsMember .. => .shadowedVariable
  | shadowsNative .. => .shadowedVariableBaseClass
  | discardedResult _ => .returnValueDiscarded
  | staticOnInstance .. => .staticCalledOnInstance
  | uncheckedMethod .. => .uncheckedMethod
  | uncheckedArgument .. => .uncheckedArgument
  | uncheckedProperty .. => .uncheckedProperty
  | uncheckedCast _ => .uncheckedCast
  | redundantAwait => .redundantAwait
  | onreadyExport => .onreadyWithExport
  | enumWithoutDefault _ => .enumVariableWithoutDefault
  | intAsEnum => .intAsEnumWithoutCast
  | intOutsideEnum .. => .intAsEnumWithoutMatch
  | nativeOverride .. => .nativeMethodOverride

/-- The advice for names that are not used. -/
def underscoreAdvice (name : Text) : Text :=
  " If this is intended, prefix it with an underscore: \"_" ++ name ++ "\"."

def message : Caution → Text
  | unusedVariable n =>
    "The local variable \"" ++ n ++ "\" is declared but never used in the block." ++
      underscoreAdvice n
  | unusedConstant n =>
    "The local constant \"" ++ n ++ "\" is declared but never used in the block." ++
      underscoreAdvice n
  | unusedParameter n f =>
    "The parameter \"" ++ n ++ "\" is never used in the function \"" ++ f ++ "()\"." ++
      underscoreAdvice n
  | unusedSignal n => "The signal \"" ++ n ++ "\" is declared but never emitted."
  | unassigned n => "The variable \"" ++ n ++ "\" was used but never assigned a value."
  | unassignedOperation n =>
    "Using assignment with operation but the variable \"" ++ n ++
      "\" was not previously assigned a value."
  | unreachableCode f =>
    "Unreachable code (statement after return) in function \"" ++ f ++ "()\"."
  | unreachablePattern => "Unreachable pattern (pattern after wildcard or bind)."
  | standaloneTernary =>
    "Standalone ternary conditional operator: the return value is being discarded."
  | standaloneExpression => "Standalone expression (the line has no effect)."
  | narrowing => "Narrowing conversion (float is converted to int and loses precision)."
  | integerDivision => "Integer division, decimal part will be discarded."
  | incompatibleTernary => "Values of the ternary conditional are not mutually compatible."
  | assertTrue => "Assert statement is redundant because the expression is always true."
  | assertFalse => "Assert statement will raise an error because the expression is always false."
  | shadowsGlobal what n g =>
    "The " ++ what ++ " \"" ++ n ++ "\" has the same name as a " ++ g ++ "."
  | shadowsMember what n k line =>
    "The local " ++ what ++ " \"" ++ n ++ "\" is shadowing an already-declared " ++ k ++
      " at line " ++ Text.ofNat line ++ "."
  | shadowsNative what n k c =>
    "The local " ++ what ++ " \"" ++ n ++ "\" is shadowing an already-declared " ++ k ++
      " at the base class \"" ++ c ++ "\"."
  | discardedResult n =>
    "The function \"" ++ n ++ "()\" returns a value that will be discarded if not used."
  | staticOnInstance n t =>
    "The function \"" ++ n ++ "()\" is a static function but was called from an instance. " ++
      "Instead, it should be directly called from the type: \"" ++ t ++ "." ++ n ++ "()\"."
  | uncheckedMethod n t =>
    "The method \"" ++ n ++ "()\" is not present on the inferred type \"" ++ t ++
      "\" (but may be present on a subtype)."
  | uncheckedArgument i n p a =>
    "The argument " ++ Text.ofNat i ++ " of the function \"" ++ n ++
      "()\" requires a subtype \"" ++ p ++ "\" but the supertype \"" ++ a ++ "\" was provided."
  | uncheckedProperty n t =>
    "The property \"" ++ n ++ "\" is not present on the inferred type \"" ++ t ++
      "\" (but may be present on a subtype)."
  | uncheckedCast t => "Casting \"Variant\" to \"" ++ t ++ "\" is unsafe."
  | redundantAwait => "\"await\" keyword not needed here."
  | onreadyExport =>
    "\"@onready\" will set the default value after \"@export\" takes effect and will override it."
  | enumWithoutDefault n =>
    "The variable \"" ++ n ++ "\" has an enum type and does not set an explicit default value. " ++
      "The default will be set to \"0\"."
  | intAsEnum =>
    "Integer used when an enum value is expected. " ++
      "If this is intended cast the integer to the enum type."
  | intOutsideEnum v t =>
    "Cannot assign " ++ Value.intText v ++ " as Enum \"" ++ t ++
      "\": no enum member has matching value."
  | nativeOverride n c =>
    "The method \"" ++ n ++ "()\" overrides a method from native class \"" ++ c ++
      "\". This won't be called by the engine and may not work as expected."

end Caution

/-- A warning about a place. -/
structure Warning where
  pos : Pos
  caution : Caution
deriving DecidableEq, Inhabited

end GameScript
