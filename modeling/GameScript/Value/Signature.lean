import GameScript.Value.Basic

/-!
# Signatures

How properties, arguments and functions are declared: by the type of what they hold, take and return.
-/

namespace GameScript

/-- The declared type of a property, an argument or a result. -/
inductive DeclaredType where
  /-- Anything at all. -/
  | any
  /-- Nothing; only for results. -/
  | void
  | builtin (t : BuiltinType)
  /-- An instance of a native class. -/
  | object (cls : Text)
  /-- An integer that is a value of the named enumeration. -/
  | enum (name : Text)
deriving DecidableEq, Inhabited

namespace DeclaredType

/-- The declared type of values of a builtin type; `nil` stands for nothing. -/
def of (t : BuiltinType) : DeclaredType := if t = .nil then void else builtin t

/-- The builtin type of such values; `nil` if it is not known or there are none. -/
def tag : DeclaredType → BuiltinType
  | any | void => .nil
  | builtin t => t
  | object _ => .object
  | enum _ => .int

def name : DeclaredType → Text
  | any => "Variant"
  | void => "void"
  | builtin t => t.name
  | object cls => if cls.isEmpty then "Object" else cls
  | enum name => name

end DeclaredType

/-- A named thing with a declared type: a property or an argument. -/
structure Property where
  name : Text
  type : DeclaredType
deriving DecidableEq, Inhabited

namespace Property

/-- An argument of a builtin type. -/
def arg (name : Text) (t : BuiltinType) : Property := ⟨name, .of t⟩

/-- An argument of any type. -/
def anyArg (name : Text) : Property := ⟨name, .any⟩

/-- The property as it is declared. -/
def declaration (p : Property) : Text := p.name ++ ": " ++ p.type.name

end Property

/-- How a function or a method is called. -/
structure Signature where
  name : Text
  params : List Property := []
  /-- The values of the last arguments if they are left out. -/
  defaults : List Value := []
  returns : DeclaredType := .void
  /-- Whether more arguments may follow. -/
  vararg : Bool := false
  isStatic : Bool := false
  /-- Whether a call has no effects. -/
  isConst : Bool := false
  /-- Whether scripts are meant to override it. -/
  isVirtual : Bool := false
deriving Inhabited

namespace Signature

/-- The number of arguments that cannot be left out. -/
def minArgs (s : Signature) : Nat := s.params.length - s.defaults.length

/-- Parameters as they are declared, where `required` more of them have no default. -/
def paramTexts : Nat → List Property → List Value → List Text
  | _, [], _ => []
  | required + 1, p :: ps, ds => p.declaration :: paramTexts required ps ds
  | 0, p :: ps, d :: ds => (p.declaration ++ " = " ++ d.repr) :: paramTexts 0 ps ds
  | 0, p :: ps, [] => p.declaration :: paramTexts 0 ps []

/-- The function as it is declared. -/
def declaration (s : Signature) : Text :=
  let dots : List Text := if s.vararg then ["..."] else []
  let params := paramTexts s.minArgs s.params s.defaults ++ dots
  s.name ++ "(" ++ Text.join ", " params ++ ") -> " ++ s.returns.name

end Signature

end GameScript
