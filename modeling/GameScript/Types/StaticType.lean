import GameScript.Syntax.Position
import GameScript.Value.Signature

/-!
# Static types

What the analysis knows about the values of an expression. A type refers to classes and compiled
scripts by identifiers, so that types are plain data however classes refer to each other.
-/

namespace GameScript

/-- A declaration: the number of the file that holds it and the place of its name there. The class that
a file as a whole declares is at no place. -/
structure DeclId where
  unit : Nat
  pos : Pos
deriving DecidableEq, Inhabited

/-- How a type was determined, from the weakest to the strictest way. -/
inductive TypeSource where
  /-- No type is known. -/
  | undetected
  /-- Inferred from usage. -/
  | inferred
  /-- Declared by an initial value. -/
  | fromInitial
  /-- Written in the source. -/
  | explicit
deriving DecidableEq, Inhabited

def TypeSource.number : TypeSource → Nat
  | undetected => 0
  | inferred => 1
  | fromInitial => 2
  | explicit => 3

/-- A named value of an enumeration. -/
structure EnumEntry where
  name : Text
  value : Int64
deriving DecidableEq, Inhabited

/-- The **shape** of a type: what its values are. -/
inductive Shape where
  | unresolved
  /-- Being determined; to meet it again means a cycle. -/
  | resolving
  /-- Any value. -/
  | variant
  | builtin (t : BuiltinType)
  /-- Instances of a native class. -/
  | native (cls : Text)
  /-- Instances of a script that is known only in compiled form. -/
  | script (id : Nat)
  /-- Instances of a class declared in source, with its native ancestor if that was known. -/
  | cls (id : DeclId) (ancestor : Text)
  /-- Values of an enumeration of the named native class or, if that is empty, of none. -/
  | enum (name owner : Text) (entries : List EnumEntry)
deriving DecidableEq, Inhabited

/-- A **static type**. -/
structure StaticType where
  shape : Shape := .unresolved
  source : TypeSource := .undetected
  /-- The type of the elements of a typed array. -/
  element : Option StaticType := none
  /-- Whether the expression denotes the type itself and not an instance. -/
  isMeta : Bool := false
  /-- Whether the expression denotes a constant declaration. -/
  isConst : Bool := false
  /-- Whether a call yields the value only when it is awaited. -/
  isCoroutine : Bool := false
deriving Inhabited

namespace StaticType

/-- Anything at all. -/
def variant : StaticType := { shape := .variant }

def ofBuiltin (t : BuiltinType) : StaticType := { shape := .builtin t, source := .explicit }

def ofNative (cls : Text) : StaticType := { shape := .native cls, source := .explicit }

def ofEnum (name owner : Text) (entries : List EnumEntry) : StaticType :=
  { shape := .enum name owner entries, source := .explicit }

/-- The type of what is declared with a type of the engine. -/
def ofDeclared : DeclaredType → StaticType
  | .any => variant
  | .object cls => if cls.isEmpty then ofBuiltin .object else ofNative cls
  | d => ofBuiltin d.tag

/-- The type of instances of a class declared in source. -/
def ofClass (id : DeclId) (ancestor : Text) : StaticType :=
  { shape := .cls id ancestor, source := .explicit }

/-- The type of instances of a compiled script. -/
def ofScript (id : Nat) : StaticType := { shape := .script id, source := .explicit }

def isSet (t : StaticType) : Bool :=
  match t.shape with
  | .unresolved => false
  | _ => true

/-- Whether the type says nothing about values. -/
def isVariant (t : StaticType) : Bool :=
  match t.shape with
  | .variant | .unresolved => true
  | _ => false

/-- Whether the type was declared and not merely inferred. -/
def isHard (t : StaticType) : Bool := t.isSet && t.source.number > TypeSource.inferred.number

def isBuiltin (t : StaticType) (b : BuiltinType) : Bool :=
  match t.shape with
  | .builtin c => b = c
  | _ => false

/-- Whether there is no value at all. -/
def isVoid (t : StaticType) : Bool := t.isBuiltin .nil

def isEnum (t : StaticType) : Bool :=
  match t.shape with
  | .enum .. => true
  | _ => false

/-- Whether values are objects. -/
def isObject (t : StaticType) : Bool :=
  match t.shape with
  | .native _ | .script _ | .cls .. => true
  | .builtin b => b = .object
  | _ => false

/-- The type of elements; anything if they are not declared. -/
def elementType (t : StaticType) : StaticType := t.element.getD variant

def withElement (t element : StaticType) : StaticType := { t with element := some element }

def withSource (t : StaticType) (s : TypeSource) : StaticType := { t with source := s }

/-- The type of the type itself used as a value. -/
def asMeta (t : StaticType) : StaticType := { t with isMeta := true }

/-- The type of an instance. -/
def asInstance (t : StaticType) : StaticType := { t with isMeta := false, isConst := false }

/-- The type that a name of a type has. -/
def named (t : StaticType) : StaticType := { t with isMeta := true, isConst := true }

/-- The builtin type of values; `nil` if they may have any. -/
def tag (t : StaticType) : BuiltinType :=
  match t.shape with
  | .builtin b => b
  | .native _ | .script _ | .cls .. => .object
  | .enum .. => if t.isMeta then .dictionary else .int
  | _ => .nil

/-- The builtin type of what an expression of the type denotes, if that is known. -/
def builtin? (t : StaticType) : Option BuiltinType :=
  match t.shape with
  | .builtin b => some (if t.isMeta then .object else b)
  | .enum .. => some (if t.isMeta then .dictionary else .int)
  | .native _ | .script _ | .cls .. => some .object
  | _ => none

/-- The entries of an enumeration. -/
def entries (t : StaticType) : List EnumEntry :=
  match t.shape with
  | .enum _ _ es => es
  | _ => []

/-- The value of a name in an enumeration. -/
def enumValue? (t : StaticType) (name : Text) : Option Int64 :=
  (t.entries.find? (·.name = name)).map EnumEntry.value

/-- The dictionary that an enumeration is as a value. -/
def enumDictionary (t : StaticType) : Value :=
  .ofEntries (t.entries.map fun e => ⟨.string e.name, .int e.value⟩) true

/-- The type of a constant value. -/
def ofValue : Value → StaticType
  | .resource _ cls _ => ofNative cls
  | v => ofBuiltin v.type

/-- Whether values are numbers. -/
def isNumeric (t : StaticType) : Bool :=
  match t.shape with
  | .builtin b => b.isNumeric
  | .enum .. => !t.isMeta
  | _ => false

/-- The declared type of the elements of a container, for a typed or a packed array. -/
def elementTypeOf (t : StaticType) : StaticType :=
  match t.element, t.shape with
  | some e, _ => e
  | none, .builtin b => if b.isPacked then ofBuiltin b.packedElement else variant
  | none, _ => variant

/-- The name of the kind of the type. -/
def kindName (t : StaticType) : Text :=
  match t.shape with
  | .unresolved => "unresolved"
  | .resolving => "resolving"
  | .variant => "variant"
  | .builtin _ => "builtin"
  | .native _ => "native"
  | .script _ => "script"
  | .cls .. => "class"
  | .enum .. => "enum"

end StaticType

end GameScript
