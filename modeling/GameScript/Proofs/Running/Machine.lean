import GameScript.Code.Listing

/-!
# A machine for compiled code

The machine runs the code of one function that neither calls nor constructs anything. It reads one
instruction after another from the bytes of the code.

* `Machine.step` — one instruction;
* `Function.run` — a call, given up after a number of instructions;
* `Machine.Reaches`, `Machine.Stops`, `Machine.Lasts` — what becomes of a configuration: it gets to
  another one, it ends with a result, or it goes on for a number of steps.
-/

namespace GameScript

/-! ### Calls -/

/-- The variables and temporaries of a call. -/
structure Memory where
  params : List Value
  locals : List Value
  temps : List Value
deriving Inhabited

/-- Why a call has no value. -/
inductive RunFault where
  | argumentCount (given : Nat) (least most : Int)
  /-- There is no instruction at a place. -/
  | endOfCode (pc : Nat)
  | code (f : CodeFault)
  | unsupported (pc : Nat) (op : Opcode)
  /-- An operand is beyond the variables, the constants or the entries that there are. -/
  | noSuchPlace
  /-- An operator has no value for its operands. -/
  | operation (e : ValueError)

/-- Where a call is, and its variables and temporaries. -/
structure Config where
  pc : Nat
  memory : Memory
deriving Inhabited

/-- What follows an instruction. -/
inductive StepResult where
  | next (c : Config)
  | done (r : Except RunFault Value)

/-- A function with the constants of its program and the number of arguments it is called with. -/
structure Machine where
  function : Function
  constants : List Value
  arguments : Nat

/-- Stores a value; what is stored to an address that is no variable is lost. -/
def Memory.store (m : Memory) (x : Nat) (v : Value) : Option Memory :=
  let i := x / 8
  match Mode.ofNumber x with
  | .parameter => if i < m.params.length then some { m with params := m.params.set i v } else none
  | .localVar => if i < m.locals.length then some { m with locals := m.locals.set i v } else none
  | .temporary => if i < m.temps.length then some { m with temps := m.temps.set i v } else none
  | _ => some m

/-- Whether a value of a type may equal a pattern of another type. -/
def BuiltinType.mayEqual (t u : BuiltinType) : Bool :=
  t = u || (t.isNumeric && u.isNumeric) || (t.isStringLike && u.isStringLike)

namespace Machine

variable (M : Machine)

def load (m : Memory) (x : Nat) : Option Value :=
  let i := x / 8
  match Mode.ofNumber x with
  | .parameter => m.params[i]?
  | .localVar => m.locals[i]?
  | .temporary => m.temps[i]?
  | .constant => M.constants[i]?
  | _ => some .nil

/-- The value of an operator; it is unary if its second operand is the address of null. -/
def operate (m : Memory) (op x y : Nat) : Except RunFault Value :=
  match Operator.ofNumber? op, M.load m x, M.load m y with
  | some op, some v, some w =>
    (if Mode.ofNumber y = .nil then Value.unary op v else Value.binary op v w).mapError .operation
  | _, _, _ => .error .noSuchPlace

/-- Goes on with something that exists. -/
def withSome {α : Type} (x : Option α) (k : α → StepResult) : StepResult :=
  match x with
  | some a => k a
  | none => .done (.error .noSuchPlace)

/-- Goes on at `pc` after storing a value. -/
def put (m : Memory) (pc x : Nat) (v : Value) : StepResult :=
  withSome (m.store x v) fun m => .next ⟨pc, m⟩

/-- Does what an instruction says; the next one is at `next`. -/
def perform (pc next : Nat) (i : Instruction) (m : Memory) : StepResult :=
  match i.op, i.args with
  | .nop, _ | .line, _ => .next ⟨next, m⟩
  | .jumpToDefArgument, _ =>
    withSome M.function.entries[((M.arguments : Int) - M.function.minArgs).toNat]? fun pc =>
      .next ⟨pc, m⟩
  | .assign, [d, x] => withSome (M.load m x) (put m next d)
  | .matchType, [d, x, t] => withSome (M.load m x) fun v =>
    put m next d (.bool ((BuiltinType.ofNumber? t).any v.type.mayEqual))
  | .typeTestBuiltin, [d, x, t] =>
    withSome (M.load m x) fun v => put m next d (.bool (v.type.number = t))
  | .operator, [d, op, x, y] | .operatorValidated, [d, op, x, y] =>
    match M.operate m op x y with
    | .ok v => put m next d v
    | .error e => .done (.error e)
  | .jump, [l] => .next ⟨l, m⟩
  | .jumpIf, [x, l] => withSome (M.load m x) fun v => .next ⟨if v.truth then l else next, m⟩
  | .jumpIfNot, [x, l] => withSome (M.load m x) fun v => .next ⟨if v.truth then next else l, m⟩
  | .return, [x] => withSome (M.load m x) fun v => .done (.ok v)
  | op, _ => .done (.error (.unsupported pc op))

/-- Reads the instruction at a place, and the place of the next one. -/
def fetch (pc : Nat) : Except RunFault (Instruction × Nat) :=
  match M.function.code.drop pc with
  | [] => .error (.endOfCode pc)
  | b :: bytes =>
    match Instruction.decode pc b bytes with
    | .ok (i, rest) => .ok (i, M.function.code.length - rest.length)
    | .error f => .error (.code f)

/-- One instruction. -/
def step (c : Config) : StepResult :=
  match M.fetch c.pc with
  | .ok (i, next) => M.perform c.pc next i c.memory
  | .error f => .done (.error f)

/-- The result of at most `fuel` instructions, if they are enough. -/
def runFrom : Nat → Config → Option (Except RunFault Value)
  | 0, _ => none
  | fuel + 1, c =>
    match M.step c with
    | .next c' => runFrom fuel c'
    | .done r => some r

end Machine

/-- The memory at the start of a call. -/
def Function.memory (f : Function) (args : List Value) : Memory where
  params := (args ++ List.replicate f.params.length Value.nil).take f.params.length
  locals := List.replicate f.locals.length .nil
  temps := List.replicate f.maxTemps.toNat .nil

/-- The result of a call, if it takes at most `fuel` instructions. -/
def Function.run (f : Function) (constants args : List Value) (fuel : Nat) :
    Option (Except RunFault Value) :=
  if (args.length : Int) < f.minArgs || f.maxArgs < args.length then
    some (.error (.argumentCount args.length f.minArgs f.maxArgs))
  else Machine.runFrom ⟨f, constants, args.length⟩ fuel ⟨0, f.memory args⟩

namespace Machine

variable {M : Machine} {c c₁ c₂ : Config} {r : Except RunFault Value} {n : Nat}

/-! ### What becomes of a configuration -/

/-- Goes from a configuration to another one in any number of steps. -/
inductive Reaches (M : Machine) : Config → Config → Prop
  | refl (c : Config) : Reaches M c c
  | step {c c₁ c₂ : Config} : M.step c = .next c₁ → Reaches M c₁ c₂ → Reaches M c c₂

/-- Ends with a result. -/
def Stops (M : Machine) (c : Config) (r : Except RunFault Value) : Prop :=
  ∃ c', M.Reaches c c' ∧ M.step c' = .done r

/-- Goes on for at least `n` steps. -/
def Lasts (M : Machine) (n : Nat) (c : Config) : Prop := M.runFrom n c = none

theorem Reaches.trans (h₁ : M.Reaches c c₁) (h₂ : M.Reaches c₁ c₂) : M.Reaches c c₂ := by
  induction h₁ with
  | refl => exact h₂
  | step hs _ ih => exact .step hs (ih h₂)

theorem Reaches.single (h : M.step c = .next c₁) : M.Reaches c c₁ := .step h (.refl c₁)

theorem Reaches.stops (h : M.Reaches c c₁) (hs : M.Stops c₁ r) : M.Stops c r := by
  obtain ⟨c', hc, hd⟩ := hs
  exact ⟨c', h.trans hc, hd⟩

theorem stops_of_step (h : M.step c = .done r) : M.Stops c r := ⟨c, .refl c, h⟩

theorem lasts_zero (c : Config) : M.Lasts 0 c := rfl

/-- One step more before a configuration that lasts. -/
theorem Lasts.succ (h : M.Lasts n c₁) (hs : M.step c = .next c₁) : M.Lasts (n + 1) c := by
  unfold Lasts runFrom
  rw [hs]
  exact h

theorem Lasts.of_succ (h : M.Lasts (n + 1) c) : M.Lasts n c := by
  induction n generalizing c with
  | zero => rfl
  | succ n ih =>
    unfold Lasts runFrom at h ⊢
    cases hs : M.step c with
    | next c' =>
      rw [hs] at h
      exact ih h
    | done r => simp [hs] at h

theorem Lasts.mono {k : Nat} (h : M.Lasts n c) (hk : k ≤ n) : M.Lasts k c := by
  induction hk with
  | refl => exact h
  | step _ ih => exact ih h.of_succ

theorem Reaches.lasts (h : M.Reaches c c₁) (hl : M.Lasts n c₁) : M.Lasts n c := by
  induction h with
  | refl => exact hl
  | step hs _ ih => exact ((ih hl).succ hs).of_succ

theorem Stops.runFrom (h : M.Stops c r) : ∃ n, M.runFrom n c = some r := by
  obtain ⟨c', hc, hd⟩ := h
  induction hc with
  | refl c => exact ⟨1, by simp only [Machine.runFrom, hd]⟩
  | step hs _ ih =>
    obtain ⟨n, hn⟩ := ih hd
    exact ⟨n + 1, by simp only [Machine.runFrom, hs, hn]⟩

/-- A configuration has at most one result. -/
theorem Stops.eq_of_runFrom {r' : Except RunFault Value} (h : M.Stops c r)
    (hn : M.runFrom n c = some r') : r' = r := by
  obtain ⟨c', hc, hd⟩ := h
  induction hc generalizing n with
  | refl c =>
    cases n with
    | zero => simp [Machine.runFrom] at hn
    | succ n =>
      simp only [Machine.runFrom, hd, Option.some.injEq] at hn
      exact hn.symm
  | step hs _ ih =>
    cases n with
    | zero => simp [Machine.runFrom] at hn
    | succ n =>
      simp only [Machine.runFrom, hs] at hn
      exact ih hn hd

end Machine

end GameScript
