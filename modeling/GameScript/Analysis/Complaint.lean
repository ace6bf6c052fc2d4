import GameScript.Analysis.Warning
import GameScript.Value.Error

/-!
# Errors of the analysis

Why a file is rejected. Types are given as messages show them.
-/

namespace GameScript

/-- The declarations that bind a name to a value. -/
inductive BinderKind where
  | var | const | param
deriving DecidableEq, Inhabited

def BinderKind.name : BinderKind → Text
  | var => "variable"
  | const => "constant"
  | param => "parameter"

/-- What an error says. -/
inductive Complaint where
  -- classes
  | cyclicInheritance
  | hidesBuiltinType (cls : Text)
  | hidesNativeClass (cls : Text)
  | hidesGlobalClass (cls : Text)
  | hidesAutoload (cls : Text)
  | superPath (path : Text)
  | superInheritance (name : Text)
  | unknownBase (name : Text)
  -- written types
  | elementOfNonArray
  | nestedElement
  | voidType
  | nestedInVariant
  | nestedInBuiltin
  | nestedInEnum
  | unknownNestedType (name base : Text)
  | notAType (name base : Text)
  | memberWithoutType (name kind : Text)
  | unparsedGlobalClass (name path : Text)
  | unknownType (name : Text)
  -- members
  | duplicateMember (title name kind : Text)
  | memberOfParent (name parent : Text)
  | memberOfNative (name native : Text)
  | memberShadowsClass (name : Text)
  | memberNamedAsType (name : Text)
  | cyclicMember (name : Text)
  | exportWithoutType
  | onreadyOutsideNode
  | enumNotConstant
  | enumNotInteger
  | getterMissing (name : Text)
  | getterSignature (name : Text)
  | getterType (result type : Text)
  | setterMissing (name : Text)
  | setterSignature (name : Text)
  | setterType (param type : Text)
  | accessorTypes (getter setter : Text)
  -- declarations
  | notConstant (kind : BinderKind) (name : Text)
  | inferUnset (kind : BinderKind) (name : Text)
  | inferVariant (kind : BinderKind) (name : Text)
  | inferNull (kind : BinderKind) (name : Text)
  | unresolvedInitial (kind : BinderKind) (name : Text)
  | initialType (value : Text) (kind : BinderKind) (name type : Text)
  | untyped (kind : BinderKind) (name : Text)
  | listElement (type element : Text)
  -- functions
  | cyclicFunction (name : Text)
  | constructorReturnType
  | untypedFunction (name : Text)
  | overrideSignature (parent : Text)
  | missingReturn
  -- statements
  | standaloneLambda
  | constantAssigned
  | assignmentOperands (target value : Text)
  | assignmentType (value target : Text)
  | constructorReturn
  | voidReturn
  | returnType (value type : Text)
  | assertMessage
  | iterationType (value type : Text)
  | iterateObject (type : Text)
  | iterateValue (type : Text)
  | rangeEmpty
  | rangeTooMany (count : Nat)
  | rangeArgument (index : Nat) (type : Text)
  | patternNotConstant
  | patternKeyNotConstant
  -- names
  | selfInStatic
  | enumElementEarly
  | fromStatic (what name function : Text)
  | typeAsName
  | globalClassLoad (name path : Text)
  | autoloadLoad (name path : Text)
  | functionAsName (name : Text)
  | unknownName (name suggestion : Text)
  -- expressions
  | repeatedKey (key : Text) (line : Nat)
  | value (e : ValueError)
  | propertyOfEnumValue
  | unknownMember (name base : Text)
  | unknownConstant (name type : Text)
  | propertyOfNull (name : Text)
  | unknownProperty (name base : Text)
  | constantIndex (key base : Text)
  | indexType (key base : Text)
  | indexNotString (base key : Text)
  | notIndexable (base : Text)
  | unaryOperand (type operator : Text)
  | constantOperands (operator left right : Text)
  | operands (left right operator : Text)
  | impossibleTest (type test : Text)
  | castOutsideEnum (type : Text) (value : Int64)
  | invalidCast (source target : Text)
  | preloadPath
  | preloadMissing (path : Text)
  | preloadFailed (path : Text)
  -- calls
  | superInLambda
  | callOnExpression
  | callOnEnumValue
  | nonStaticFromStatic (name function : Text)
  | nonStaticOnClass (name cls : Text)
  | voidResult (name : Text)
  | missingAwait (name : Text)
  | enumMethod (name enum : Text)
  | callableName (name : Text)
  | notAFunction (name type : Text)
  | unknownFunction (name place suggestion : Text)
  | unknownStatic (name cls : Text)
  | abstractNative (cls : Text)
  | abstractBase (cls native : Text)
  | noConstructor (type signature : Text)
  | invalidCall (name : Text) (e : ValueError)
  | tooFewArguments (name : Text) (least given : Nat)
  | tooManyArguments (name : Text) (most given : Nat)
  | argumentType (name : Text) (index : Nat) (param arg : Text)
  /-- A warning that counts as an error. -/
  | caution (c : Caution)

namespace Complaint

/-- The text between double quotes. -/
def quoted (t : Text) : Text := "\"" ++ t ++ "\""

/-- A function's name with parentheses, between double quotes. -/
def calling (f : Text) : Text := "\"" ++ f ++ "()\""

/-- Messages about classes, written types and members. -/
def declarationMessage : Complaint → Text
  | cyclicInheritance => "Cyclic inheritance."
  | hidesBuiltinType c => "Class " ++ quoted c ++ " hides a built-in type."
  | hidesNativeClass c => "Class " ++ quoted c ++ " hides a native class."
  | hidesGlobalClass c => "Class " ++ quoted c ++ " hides a global script class."
  | hidesAutoload c => "Class " ++ quoted c ++ " hides an autoload singleton."
  | superPath p => "Could not resolve super class path " ++ quoted p ++ "."
  | superInheritance n => "Could not resolve super class inheritance from " ++ quoted n ++ "."
  | unknownBase n => "Could not find base class " ++ quoted n ++ "."
  | elementOfNonArray => "Only arrays can specify the collection element type."
  | nestedElement => "Nested typed collections are not supported."
  | voidType => "\"void\" is only allowed for a function return type."
  | nestedInVariant => "Variant doesn't contain nested types."
  | nestedInBuiltin => "Built-in types don't contain nested types."
  | nestedInEnum => "Enums cannot contain nested types."
  | unknownNestedType n b => "Could not find type " ++ quoted n ++ " under base " ++ quoted b ++ "."
  | notAType n b => "Member " ++ quoted n ++ " under base " ++ quoted b ++ " is not a valid type."
  | memberWithoutType n k => quoted n ++ " is a " ++ k ++ " but does not have a type."
  | unparsedGlobalClass n p => "Could not parse global class " ++ quoted n ++ " from " ++ quoted p ++ "."
  | unknownType n => "Could not find type " ++ quoted n ++ " in the current scope."
  | duplicateMember title n k =>
    title ++ " " ++ quoted n ++ " has the same name as a previously declared " ++ k ++ "."
  | memberOfParent n p => "The member " ++ quoted n ++ " already exists in parent class " ++ p ++ "."
  | memberOfNative n c =>
    "Member " ++ quoted n ++ " redefined (original in native class '" ++ c ++ "')"
  | memberShadowsClass n => "The member " ++ quoted n ++ " shadows a native class."
  | memberNamedAsType n =>
    "The member " ++ quoted n ++ " cannot have the same name as a builtin type."
  | cyclicMember n => "Could not resolve member " ++ quoted n ++ ": Cyclic reference."
  | exportWithoutType =>
    "Cannot use simple \"@export\" annotation with variable without type or initializer, " ++
      "since type can't be inferred."
  | onreadyOutsideNode => "\"@onready\" can only be used in classes that inherit \"Node\"."
  | enumNotConstant => "Enum values must be constant."
  | enumNotInteger => "Enum values must be integers."
  | getterMissing n => "Getter " ++ quoted n ++ " not found."
  | getterSignature n =>
    "Function " ++ quoted n ++ " cannot be used as getter because of its signature."
  | getterType r t =>
    "Function with return type " ++ quoted r ++
      " cannot be used as getter for a property of type " ++ quoted t ++ "."
  | setterMissing n => "Setter " ++ quoted n ++ " not found."
  | setterSignature n =>
    "Function " ++ quoted n ++ " cannot be used as setter because of its signature."
  | setterType p t =>
    "Function with argument type " ++ quoted p ++
      " cannot be used as setter for a property of type " ++ quoted t ++ "."
  | accessorTypes g s =>
    "Getter with type " ++ quoted g ++ " cannot be used along with setter of type " ++ quoted s ++ "."
  | notConstant k n =>
    "Assigned value for " ++ k.name ++ " " ++ quoted n ++ " isn't a constant expression."
  | inferUnset k n =>
    "Cannot infer the type of " ++ quoted n ++ " " ++ k.name ++
      " because the value doesn't have a set type."
  | inferVariant k n =>
    "Cannot infer the type of " ++ quoted n ++ " " ++ k.name ++
      " because the value is Variant. Use explicit \"Variant\" type if this is intended."
  | inferNull k n =>
    "Cannot infer the type of " ++ quoted n ++ " " ++ k.name ++ " because the value is \"null\"."
  | unresolvedInitial k n => "Could not resolve type for " ++ k.name ++ " " ++ quoted n ++ "."
  | initialType v k n t =>
    "Cannot assign a value of type " ++ v ++ " to " ++ k.name ++ " " ++ quoted n ++
      " with specified type " ++ t ++ "."
  | untyped k n => k.name.capitalize ++ " " ++ quoted n ++ " has no static type."
  | listElement t e =>
    "Cannot have an element of type " ++ quoted t ++ " in an array of type \"Array[" ++ e ++ "]\"."
  | cyclicFunction n => "Could not resolve function " ++ quoted n ++ ": Cyclic reference."
  | constructorReturnType => "Constructor cannot have an explicit return type."
  | untypedFunction n => "Function " ++ calling n ++ " has no static return type."
  | overrideSignature p =>
    "The function signature doesn't match the parent. Parent signature is " ++ quoted p ++ "."
  | _ => ""

/-- Messages about statements and names. -/
def statementMessage : Complaint → Text
  | missingReturn => "Not all code paths return a value."
  | standaloneLambda =>
    "Standalone lambdas cannot be accessed. Consider assigning it to a variable."
  | constantAssigned => "Cannot assign a new value to a constant."
  | assignmentOperands t v =>
    "Invalid operands " ++ quoted t ++ " and " ++ quoted v ++ " for assignment operator."
  | assignmentType v t =>
    "Value of type " ++ quoted v ++ " cannot be assigned to a variable of type " ++ quoted t ++ "."
  | constructorReturn => "Constructor cannot return a value."
  | voidReturn => "A void function cannot return a value."
  | returnType v t =>
    "Cannot return value of type " ++ quoted v ++ " because the function return type is " ++
      quoted t ++ "."
  | assertMessage => "Expected string for assert error message."
  | iterationType v t =>
    "Unable to iterate on value of type " ++ quoted v ++ " with variable of type " ++ quoted t ++ "."
  | iterateObject t => "Unable to iterate on object of type " ++ quoted t ++ "."
  | iterateValue t => "Unable to iterate on value of type " ++ quoted t ++ "."
  | rangeEmpty =>
    "Invalid call for \"range()\" function. Expected at least 1 argument, none given."
  | rangeTooMany n =>
    "Invalid call for \"range()\" function. Expected at most 3 arguments, " ++ Text.ofNat n ++
      " given."
  | rangeArgument i t =>
    "Invalid argument for \"range()\" call. Argument " ++ Text.ofNat i ++
      " should be int or float but " ++ quoted t ++ " was given."
  | patternNotConstant => "Expression in match pattern must be a constant."
  | patternKeyNotConstant => "Expression in dictionary pattern key must be a constant."
  | selfInStatic => "Cannot use \"self\" inside a static function."
  | enumElementEarly => "Cannot use another enum element before it was declared."
  | fromStatic what n f =>
    "Cannot access " ++ what ++ " " ++ quoted n ++ " from the static function " ++ calling f ++ "."
  | typeAsName => "Builtin type cannot be used as a name on its own."
  | globalClassLoad n p => "Could not load global class " ++ quoted n ++ " from " ++ quoted p ++ "."
  | autoloadLoad n p => "Could not load autoload " ++ quoted n ++ " from " ++ quoted p ++ "."
  | functionAsName n => "Built-in function " ++ quoted n ++ " cannot be used as an identifier."
  | unknownName n s => "Identifier " ++ quoted n ++ " not declared in the current scope." ++ s
  | c => c.declarationMessage

/-- Messages about expressions. -/
def expressionMessage : Complaint → Text
  | repeatedKey k line =>
    "Key " ++ quoted k ++ " was already used in this dictionary (at line " ++ Text.ofNat line ++ ")."
  | value e => e.message.capitalize ++ "."
  | propertyOfEnumValue => "Cannot get property from enum value."
  | unknownMember n b => "Cannot find member " ++ quoted n ++ " in base " ++ quoted b ++ "."
  | unknownConstant n t => "Cannot find constant " ++ quoted n ++ " on type " ++ quoted t ++ "."
  | propertyOfNull n => "Invalid get index " ++ quoted n ++ " on base Nil"
  | unknownProperty n b => "Cannot find property " ++ quoted n ++ " on base " ++ quoted b ++ "."
  | constantIndex k b => "Cannot get index " ++ quoted k ++ " from " ++ quoted b ++ "."
  | indexType k b =>
    "Invalid index type " ++ quoted k ++ " for a base of type " ++ quoted b ++ "."
  | indexNotString b k =>
    "Only String or StringName can be used as index for type " ++ quoted b ++
      ", but received a " ++ quoted k ++ "."
  | notIndexable b => "Cannot use subscript operator on a base of type " ++ quoted b ++ "."
  | unaryOperand t op =>
    "Invalid operand of type " ++ quoted t ++ " for unary operator " ++ quoted op ++ "."
  | constantOperands op l r => "Invalid operands to operator " ++ op ++ ", " ++ l ++ " and " ++ r ++ "."
  | operands l r op =>
    "Invalid operands " ++ quoted l ++ " and " ++ quoted r ++ " for " ++ quoted op ++ " operator."
  | impossibleTest t u =>
    "Expression is of type " ++ quoted t ++ " so it can't be of type " ++ quoted u ++ "."
  | castOutsideEnum t v =>
    "Invalid cast. Enum " ++ quoted t ++ " does not have enum value " ++ Value.intText v ++ "."
  | invalidCast s t =>
    "Invalid cast. Cannot convert from " ++ quoted s ++ " to " ++ quoted t ++ "."
  | preloadPath => "Preloaded path must be a constant string."
  | preloadMissing p => "Preload file " ++ quoted p ++ " does not exist."
  | preloadFailed p => "Could not preload resource script " ++ quoted p ++ "."
  | c => c.statementMessage

def message : Complaint → Text
  | superInLambda => "Cannot use \"super()\" inside a lambda."
  | callOnExpression => "Cannot call on an expression. Use \".call()\" if it's a Callable."
  | callOnEnumValue => "Cannot call function on enum value."
  | nonStaticFromStatic n f =>
    "Cannot call non-static function " ++ calling n ++ " from static function " ++ calling f ++ "."
  | nonStaticOnClass n c =>
    "Cannot call non-static function " ++ calling n ++ " on the class " ++ quoted c ++
      " directly. Make an instance instead."
  | voidResult n =>
    "Cannot get return value of call to " ++ calling n ++ " because it returns \"void\"."
  | missingAwait n =>
    "Function " ++ calling n ++ " is a coroutine, so it must be called with \"await\"."
  | enumMethod n e =>
    "Enums only have Dictionary built-in methods. Function " ++ calling n ++
      " does not exist for enum " ++ quoted e ++ "."
  | callableName n =>
    "Name " ++ quoted n ++ " is a Callable. You can call it with \"" ++ n ++ ".call()\" instead."
  | notAFunction n t => "Name " ++ quoted n ++ " called as a function but is a " ++ quoted t ++ "."
  | unknownFunction n place s => "Function " ++ calling n ++ " not found in base " ++ place ++ "." ++ s
  | unknownStatic n c => "Static function " ++ calling n ++ " not found in base " ++ quoted c ++ "."
  | abstractNative c => "Native class " ++ quoted c ++ " cannot be constructed as it is abstract."
  | abstractBase c n =>
    "Class " ++ quoted c ++ " cannot be constructed as it is based on abstract native class " ++
      quoted n ++ "."
  | noConstructor t s =>
    "No constructor of " ++ quoted t ++ " matches the signature " ++ quoted s ++ "."
  | invalidCall n e => "Invalid call for function " ++ quoted n ++ ": " ++ e.message ++ "."
  | tooFewArguments n least given =>
    "Too few arguments for " ++ calling n ++ " call. Expected at least " ++ Text.ofNat least ++
      " but received " ++ Text.ofNat given ++ "."
  | tooManyArguments n most given =>
    "Too many arguments for " ++ calling n ++ " call. Expected at most " ++ Text.ofNat most ++
      " but received " ++ Text.ofNat given ++ "."
  | argumentType n i p a =>
    "Invalid argument for " ++ calling n ++ " function: argument " ++ Text.ofNat i ++
      " should be " ++ quoted p ++ " but is " ++ quoted a ++ "."
  | caution c => c.message
  | c => c.expressionMessage

/-- Whether an evaluation broke off instead of failing, and the analysis with it. -/
def isFault : Complaint → Bool
  | invalidCall _ e => e.isFault
  | _ => false

end Complaint

/-- An error about a place. -/
structure AnalysisError where
  pos : Pos
  complaint : Complaint

/-- Sorts by place and keeps the order of what stands at one place. -/
def sortByPlace (pos : α → Pos) (xs : List α) : List α :=
  xs.mergeSort fun a b => !(pos b).before (pos a)

end GameScript
