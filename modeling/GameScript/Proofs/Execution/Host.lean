import GameScript.Proofs.Running.Machine
import Mathlib.Logic.Relation

/-!
# Machines with a host

The code of a function says how values move between its variables, its temporaries and the variables of
the instance, and where it goes on. What values are, and what an operation makes of them, is up to a
host, so that a property of the code can be stated for whatever a program runs in.

* `Host` — values, and the operations on them and on the world they are in;
* `HostMachine.step` — one instruction;
* `HostMachine.Reaches` — what instructions lead to.
-/

namespace GameScript

/-! ### Hosts -/

/-- An operand as an operation gets it: a value, a name, or any other number of the code. -/
inductive Operand (V : Type) where
  | value (v : V)
  | name (n : Text)
  | number (n : Nat)
deriving DecidableEq

/-- What an operation does to the address that is its first operand. -/
inductive Target where
  /-- The first operand is as the others, and there is no result. -/
  | none
  /-- The result is stored there. -/
  | written
  /-- The value there is an operand, and the result replaces it. -/
  | updated
deriving DecidableEq

/-- The target of an operation of the host. Instructions that only copy a value or say where to go on are
none. -/
def Opcode.target? : Opcode → Option Target
  | nop | breakpoint | .end | jumpToDefArgument | line | assign | jump | jumpIf | jumpIfNot | jumpIfShared
  | iterateBegin | iterate | .return => none
  | setMember | assert => some .none
  | setNamed | setIndexed => some .updated
  | _ => some .written

/-- What code runs in: values of `V` in a world of `W`. -/
structure Host (V W : Type) where
  /-- A constant of the program. -/
  constant : Value → V
  nil : V
  self : V
  cls : V
  truth : V → Bool
  /-- Whether a value is shared by reference, so that a copy of it is the same object. -/
  isShared : V → Bool
  /-- The variable of the instance with a number. -/
  slot : W → Nat → Option V
  setSlot : W → Nat → V → Option W
  /-- The result of an operation and the world afterwards. -/
  act : Opcode → List (Operand V) → W → Option (V × W)

/-- When a conditional jump is taken. -/
def Host.takes? {V W : Type} (H : Host V W) : Opcode → Option (V → Bool)
  | .jumpIf => some H.truth
  | .jumpIfNot => some fun v => !H.truth v
  | .jumpIfShared => some H.isShared
  | _ => none

/-- The variables and temporaries of a call. -/
structure Cells (V : Type) where
  params : List V
  locals : List V
  temps : List V

/-- Where a call is, with its cells and the world. -/
structure Moment (V W : Type) where
  pc : Nat
  cells : Cells V
  world : W

/-- A function of a program with certain names, in a host. -/
structure HostMachine (V W : Type) extends Machine where
  names : List Text
  host : Host V W

namespace HostMachine

variable {V W : Type} (M : HostMachine V W)

/-! ### Instructions -/

def load (m : Cells V) (w : W) (x : Nat) : Option V :=
  let i := x / 8
  match Mode.ofNumber x with
  | .self => some M.host.self
  | .cls => some M.host.cls
  | .nil => some M.host.nil
  | .member => M.host.slot w i
  | .parameter => m.params[i]?
  | .localVar => m.locals[i]?
  | .temporary => m.temps[i]?
  | .constant => (M.constants[i]?).map M.host.constant

/-- Stores a value; what is stored to an address that is no variable is lost. -/
def store (m : Cells V) (w : W) (x : Nat) (v : V) : Option (Cells V × W) :=
  let i := x / 8
  match Mode.ofNumber x with
  | .self | .cls | .nil | .constant => some (m, w)
  | .member => (M.host.setSlot w i v).map (m, ·)
  | .parameter => if i < m.params.length then some ({ m with params := m.params.set i v }, w) else none
  | .localVar => if i < m.locals.length then some ({ m with locals := m.locals.set i v }, w) else none
  | .temporary => if i < m.temps.length then some ({ m with temps := m.temps.set i v }, w) else none

def operand (m : Cells V) (w : W) : OperandKind × Nat → Option (Operand V)
  | (.address, x) => (M.load m w x).map .value
  | (.name, n) => M.names[n]?.map .name
  | (_, n) => some (.number n)

/-- The operands that an operation gets. -/
def operands (m : Cells V) (w : W) (t : Target) (i : Instruction) : Option (List (Operand V)) :=
  (if t = .written then i.operands.drop 1 else i.operands).mapM (M.operand m w)

/-- Has an operation done by the host and goes on at `next`. -/
def operate (next : Nat) (t : Target) (i : Instruction) (m : Cells V) (w : W) : Option (Moment V W) := do
  let (v, w) ← M.host.act i.op (← M.operands m w t i) w
  if t = .none then return ⟨next, m, w⟩
  let (m, w) ← M.store m w (i.args.headD Address.nil.encode) v
  return ⟨next, m, w⟩

/-- Does what an instruction says; the next one is at `next`. There is nothing behind a return. -/
def perform (next : Nat) (i : Instruction) (m : Cells V) (w : W) : Option (Moment V W) :=
  match i.op.target? with
  | some t => M.operate next t i m w
  | none =>
    match i.op, i.args with
    | .nop, _ | .line, _ | .breakpoint, _ => some ⟨next, m, w⟩
    | .assign, [d, x] => do
      let (m, w) ← M.store m w d (← M.load m w x)
      return ⟨next, m, w⟩
    | .jump, [l] => some ⟨l, m, w⟩
    | op, [x, l] => do
      let taken ← M.host.takes? op
      return ⟨if taken (← M.load m w x) then l else next, m, w⟩
    | _, _ => none

/-- One instruction. -/
def step (c : Moment V W) : Option (Moment V W) :=
  match M.fetch c.pc with
  | .ok (i, next) => M.perform next i c.cells c.world
  | .error _ => none

/-- Goes from one moment to another in any number of steps. -/
def Reaches : Moment V W → Moment V W → Prop := Relation.ReflTransGen fun c c' => M.step c = some c'

variable {M} {c c₁ c₂ : Moment V W}

theorem Reaches.refl (c : Moment V W) : M.Reaches c c := Relation.ReflTransGen.refl

theorem Reaches.trans (h : M.Reaches c c₁) (h₁ : M.Reaches c₁ c₂) : M.Reaches c c₂ :=
  Relation.ReflTransGen.trans h h₁

theorem Reaches.single (h : M.step c = some c₁) : M.Reaches c c₁ := Relation.ReflTransGen.single h

end HostMachine

/-! ### Cells -/

namespace Cells

variable {V : Type}

/-- The value at the address of a variable. -/
def stored? (m : Cells V) (a : Address) : Option V :=
  match a.mode with
  | .parameter => m.params[a.index]?
  | .localVar => m.locals[a.index]?
  | _ => none

def setTemp (m : Cells V) (i : Nat) (v : V) : Cells V := { m with temps := m.temps.set i v }

/-- The temporaries below `d` are the same. -/
structure Agree (d : Nat) (m m' : Cells V) : Prop where
  length : m'.temps.length = m.temps.length
  temps : ∀ i < d, m'.temps[i]? = m.temps[i]?

/-- The variables and the temporaries below `d` are the same. -/
structure Same (d : Nat) (m m' : Cells V) : Prop extends Agree d m m' where
  params : m'.params = m.params
  locals : m'.locals = m.locals

variable {d e : Nat} {m m₁ m₂ : Cells V}

theorem Agree.refl (d : Nat) (m : Cells V) : Agree d m m := ⟨rfl, fun _ _ => rfl⟩

theorem Agree.trans (h₁ : Agree d m m₁) (h₂ : Agree d m₁ m₂) : Agree d m m₂ :=
  ⟨h₂.length.trans h₁.length, fun i hi => (h₂.temps i hi).trans (h₁.temps i hi)⟩

theorem Agree.mono (h : Agree e m m₁) (hde : d ≤ e) : Agree d m m₁ :=
  ⟨h.length, fun i hi => h.temps i (by omega)⟩

theorem Same.refl (d : Nat) (m : Cells V) : Same d m m := ⟨.refl d m, rfl, rfl⟩

theorem Same.trans (h₁ : Same d m m₁) (h₂ : Same d m₁ m₂) : Same d m m₂ :=
  ⟨h₁.toAgree.trans h₂.toAgree, h₂.params.trans h₁.params, h₂.locals.trans h₁.locals⟩

theorem Same.mono (h : Same e m m₁) (hde : d ≤ e) : Same d m m₁ :=
  ⟨h.toAgree.mono hde, h.params, h.locals⟩

theorem same_setTemp (m : Cells V) {d i : Nat} (h : d ≤ i) (v : V) : Same d m (m.setTemp i v) := by
  refine ⟨⟨by simp [setTemp], fun j hj => ?_⟩, rfl, rfl⟩
  simp only [setTemp]
  rw [List.getElem?_set_ne (by omega)]

end Cells

end GameScript
