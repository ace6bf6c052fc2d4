import GameScript.Text.Basic

/-!
# Operation codes

An instruction of compiled code is a number that says what to do, followed by operands. The shape of an
operation says what its operands are.
-/

namespace GameScript

/-- What an operand of an instruction is. -/
inductive OperandKind where
  | address
  /-- The number of an operator. -/
  | operator
  /-- The number of a builtin type. -/
  | type
  /-- An index into the names of the program. -/
  | name
  /-- An index into the functions of the program. -/
  | function
  | number
  /-- Where to go on: a label at first, a place in the code in the end. -/
  | label
  /-- A count and as many addresses; always the last one. -/
  | list
deriving DecidableEq, Inhabited

/-- What an instruction does. -/
inductive Opcode where
  | nop | breakpoint | end
  /-- Enters the function after the defaults that the caller has supplied. -/
  | jumpToDefArgument
  | line
  -- destination, source and, for a checked assignment, a type
  | assign | assignConvert | assignNative | assignScript
  /-- Destination, operator, two operands. -/
  | operator
  /-- The same for operands whose types are known to be valid. -/
  | operatorValidated
  | typeTestBuiltin | typeTestNative | typeTestScript
  /-- A type test for which numbers match each other, and so do strings and string names. -/
  | matchType
  | castBuiltin | castNative | castScript
  | construct | constructArray | constructTypedArray | constructDictionary
  | getNamed | setNamed
  -- properties of the native base
  | getMember | setMember
  | getIndexed | setIndexed
  /-- A native class, a singleton or a script known everywhere. -/
  | getGlobal
  | jump | jumpIf | jumpIfNot
  /-- Jumps if the value is shared by reference. -/
  | jumpIfShared
  | call | callAsync | callMethodBind | callPtrcall | callBuiltinMethod | callStatic
  | callSelf | callSelfAsync | callSuper | callSuperAsync | callUtility | callLanguageUtility
  | createLambda | createSelfLambda | await
  -- counter, container, variable, and where to go on after the last element
  | iterateBegin | iterate
  | return | assert
deriving DecidableEq, Inhabited

namespace Opcode

/-- All operations in the order of their numbers. -/
def all : List Opcode :=
  [nop, breakpoint, .end, jumpToDefArgument, line, assign, assignConvert, assignNative, assignScript,
    operator, operatorValidated, typeTestBuiltin, typeTestNative, typeTestScript, matchType,
    castBuiltin, castNative, castScript, construct, constructArray, constructTypedArray,
    constructDictionary, getNamed, setNamed, getMember, setMember, getIndexed, setIndexed, getGlobal,
    jump, jumpIf, jumpIfNot, jumpIfShared, call, callAsync, callMethodBind, callPtrcall,
    callBuiltinMethod, callStatic, callSelf, callSelfAsync, callSuper, callSuperAsync, callUtility,
    callLanguageUtility, createLambda, createSelfLambda, await, iterateBegin, iterate, .return, assert]

/-- How many operations there are. -/
def count : Nat := all.length

def number (op : Opcode) : Nat := all.idxOf op

def ofNumber? (n : Nat) : Option Opcode := all[n]?

theorem ofNumber?_number (op : Opcode) : ofNumber? op.number = some op := by cases op <;> rfl

/-- The name of an operation in listings. -/
def name : Opcode → Text
  | nop => "nop"
  | breakpoint => "breakpoint"
  | .end => "end"
  | jumpToDefArgument => "jump_to_def_argument"
  | line => "line"
  | assign => "assign"
  | assignConvert => "assign_convert"
  | assignNative => "assign_native"
  | assignScript => "assign_script"
  | operator => "operator"
  | operatorValidated => "operator_validated"
  | typeTestBuiltin => "type_test_builtin"
  | typeTestNative => "type_test_native"
  | typeTestScript => "type_test_script"
  | matchType => "match_type"
  | castBuiltin => "cast_builtin"
  | castNative => "cast_native"
  | castScript => "cast_script"
  | construct => "construct"
  | constructArray => "construct_array"
  | constructTypedArray => "construct_typed_array"
  | constructDictionary => "construct_dictionary"
  | getNamed => "get_named"
  | setNamed => "set_named"
  | getMember => "get_member"
  | setMember => "set_member"
  | getIndexed => "get_indexed"
  | setIndexed => "set_indexed"
  | getGlobal => "get_global"
  | jump => "jump"
  | jumpIf => "jump_if"
  | jumpIfNot => "jump_if_not"
  | jumpIfShared => "jump_if_shared"
  | call => "call"
  | callAsync => "call_async"
  | callMethodBind => "call_method_bind"
  | callPtrcall => "call_ptrcall"
  | callBuiltinMethod => "call_builtin_method"
  | callStatic => "call_static"
  | callSelf => "call_self"
  | callSelfAsync => "call_self_async"
  | callSuper => "call_super"
  | callSuperAsync => "call_super_async"
  | callUtility => "call_utility"
  | callLanguageUtility => "call_language_utility"
  | createLambda => "create_lambda"
  | createSelfLambda => "create_self_lambda"
  | await => "await"
  | iterateBegin => "iterate_begin"
  | iterate => "iterate"
  | .return => "return"
  | assert => "assert"

def ofName? (name : Text) : Option Opcode := all.find? (·.name = name)

/-- The name that stands for a number which may belong to no operation. -/
def numberName (n : Nat) : Text :=
  match ofNumber? n with
  | some op => op.name
  | none => "illegal op (" ++ Text.ofNat n ++ ")"

/-- The operands of an operation. -/
def shape : Opcode → List OperandKind
  | nop | breakpoint | .end | jumpToDefArgument => []
  | line => [.number]
  | assign | await | assert => [.address, .address]
  | assignConvert | typeTestBuiltin | matchType | castBuiltin => [.address, .address, .type]
  | assignNative | typeTestNative | castNative | getNamed => [.address, .address, .name]
  | assignScript | typeTestScript | castScript | getIndexed | setIndexed =>
    [.address, .address, .address]
  | operator | operatorValidated => [.address, .operator, .address, .address]
  | construct => [.address, .type, .list]
  | constructArray | constructDictionary => [.address, .list]
  | constructTypedArray => [.address, .type, .name, .list]
  | setNamed => [.address, .name, .address]
  | getMember | getGlobal => [.address, .name]
  | setMember => [.name, .address]
  | jump => [.label]
  | jumpIf | jumpIfNot | jumpIfShared => [.address, .label]
  | call | callAsync | callMethodBind | callPtrcall | callBuiltinMethod | callStatic =>
    [.address, .address, .name, .list]
  | callSelf | callSelfAsync | callSuper | callSuperAsync | callUtility | callLanguageUtility =>
    [.address, .name, .list]
  | createLambda | createSelfLambda => [.address, .function, .list]
  | iterateBegin | iterate => [.address, .address, .address, .label]
  | .return => [.address]

/-- Whether the operation may go on elsewhere. -/
def isJump (op : Opcode) : Bool := op.shape.contains .label

/-- Whether the operation may suspend the function. -/
def isAsync : Opcode → Bool
  | callAsync | callSelfAsync | callSuperAsync | await => true
  | _ => false

end Opcode

end GameScript
