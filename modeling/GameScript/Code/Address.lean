import GameScript.Types.StaticType

/-!
# Addresses

An operand of an instruction says where a value is: a variable, a constant of the program, or a slot of
the stack of temporaries. In the code an address is one number: the index times eight plus the mode.
-/

namespace GameScript

/-- Where the value of an address is. -/
inductive Mode where
  /-- The instance that runs the function. -/
  | self
  /-- The script of the function. -/
  | cls
  /-- Null; what is stored there is lost. -/
  | nil
  | member | parameter | localVar | temporary | constant
deriving DecidableEq, Inhabited

namespace Mode

/-- All modes in the order of their numbers. -/
def all : List Mode := [self, cls, nil, member, parameter, localVar, temporary, constant]

def number (m : Mode) : Nat := all.idxOf m

/-- The mode in the three lowest bits of a number. -/
def ofNumber (n : Nat) : Mode := all.getD (n % 8) self

theorem ofNumber_number (m : Mode) : ofNumber m.number = m := by cases m <;> rfl

def name : Mode → Text
  | self => "self"
  | cls => "class"
  | nil => "nil"
  | member => "member"
  | parameter => "parameter"
  | localVar => "local"
  | temporary => "temporary"
  | constant => "constant"

end Mode

/-- Where to read or to write a value, and its static type. -/
structure Address where
  mode : Mode
  index : Nat := 0
  type : StaticType := {}
deriving Inhabited

namespace Address

def self : Address := ⟨.self, 0, {}⟩

def cls : Address := ⟨.cls, 0, {}⟩

def nil : Address := ⟨.nil, 0, {}⟩

/-- The address as an operand. -/
def encode (a : Address) : Nat := a.index * 8 + a.mode.number

def isTemporary (a : Address) : Bool := a.mode = .temporary

end Address

end GameScript
