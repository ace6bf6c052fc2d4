import GameScript.Code.Address
import GameScript.Code.Program
import GameScript.Types.Relation

/-!
# Generators

A generator collects the instructions of one function. It allocates temporaries on a stack: they are
released in the reverse order, each before the statement that needs it is complete. Operations that
stop as soon as their result is decided are built by matched sequences of steps, each construct with a
frame of two labels.

The names, constants and functions of the program are pools that all functions share.
-/

namespace GameScript

/-! ### Pools -/

/-- What the functions of a program share. -/
structure Pool where
  names : List Text := []
  /-- The constants, each with the text by which it is told from the others. -/
  constants : List (Text × Value) := []
  functions : List Function := []
deriving Inhabited

namespace Pool

/-- The text by which a constant is told from others: its type and what a listing shows of it. -/
def key (v : Value) : Text :=
  Text.ofNat v.type.number ++ ":" ++
    match v with
    | .resource path cls _ => cls ++ "#" ++ path
    | v => v.repr

/-- The index of a name, which is added if it is new. -/
def name (p : Pool) (n : Text) : Nat × Pool :=
  match p.names.findIdx? (· = n) with
  | some i => (i, p)
  | none => (p.names.length, { p with names := p.names ++ [n] })

/-- The index of a constant, which is added if it is new. -/
def constant (p : Pool) (v : Value) : Nat × Pool :=
  let k := key v
  match p.constants.findIdx? (·.1 = k) with
  | some i => (i, p)
  | none => (p.constants.length, { p with constants := p.constants ++ [(k, v)] })

/-- Adds a function and returns its index. -/
def add (p : Pool) (f : Function) : Nat × Pool :=
  (p.functions.length, { p with functions := p.functions ++ [f] })

end Pool

/-! ### Generators -/

/-- The constructs with a frame. -/
inductive FrameKind where
  | and | or | ternary
deriving DecidableEq, Inhabited

def FrameKind.name : FrameKind → Text
  | and => "and"
  | or => "or"
  | ternary => "ternary"

/-- A construct that has been begun, with its labels. -/
structure Frame where
  kind : FrameKind
  skip : Nat
  done : Nat
deriving DecidableEq, Inhabited

/-- Ways in which the compiler contradicts itself or the analysis. -/
inductive InternalFault where
  | tooFewOperands (op : Opcode) (got least : Nat)
  | operandCount (op : Opcode) (got want : Nat)
  | boundTwice (label : Nat)
  | unbound (label : Nat)
  | releaseOrder (mode : Mode) (live : Nat)
  | unmatched (kind : FrameKind)
  | unterminated (kind : FrameKind)
  | unbalanced (function : Text) (line : Int) (live want : Nat)
  | liveAtEnd (function : Text) (live : Nat)
  | notAnalyzed (place kind : Text)
  | noAddress (place source name : Text)
  | notInTable (place : Option Text) (name script : Text)
  | identifierKind (place name source : Text)
  | notAScript (type : Text)
  | castTo (type : Text)
  | callOf (place kind : Text)
  | outsideMatch (place : Text)
  | outsideLoop (place word : Text)
  | assignmentTo (place what : Text)
  | baseNotCompiled (name : Text)
deriving DecidableEq, Inhabited

namespace InternalFault

def operandText (op : Opcode) (got : Nat) (want : Text) : Text :=
  op.name ++ ": got " ++ Text.ofNat got ++ " operands, want " ++ want

def details : InternalFault → Text
  | tooFewOperands op got least => operandText op got ("at least " ++ Text.ofNat least)
  | operandCount op got want => operandText op got (Text.ofNat want)
  | boundTwice l => "label " ++ Text.ofNat l ++ " bound twice"
  | unbound l => "label " ++ Text.ofNat l ++ " not bound"
  | releaseOrder m live =>
    "temporary " ++ m.name ++ " released out of order (" ++ Text.ofNat live ++ " live)"
  | unmatched k => "unmatched " ++ k.name ++ " construct"
  | unterminated k => "unterminated " ++ k.name ++ " construct"
  | unbalanced f line live want =>
    f ++ ": line " ++ Text.ofInt line ++ ": " ++ Text.ofNat live ++
      " temporaries live after statement, want " ++ Text.ofNat want
  | liveAtEnd f live =>
    f ++ ": " ++ Text.ofNat live ++ " temporaries live at end of function"
  | notAnalyzed p k => p ++ ": expression " ++ k ++ " was not analyzed"
  | noAddress p s n => p ++ ": " ++ s ++ " " ++ n ++ " has no address"
  | notInTable (some p) n s => p ++ ": member " ++ n ++ " not in the table of " ++ s
  | notInTable none n s => "member " ++ n ++ " not in the table of " ++ s
  | identifierKind p n s => p ++ ": identifier " ++ n ++ " of kind " ++ s
  | notAScript t => t ++ " is not a script type"
  | castTo t => "cast to " ++ t
  | callOf p k => p ++ ": call of " ++ k
  | outsideMatch p => p ++ ": continue outside match"
  | outsideLoop p w => p ++ ": " ++ w ++ " outside loop"
  | assignmentTo p w => p ++ ": assignment to " ++ w
  | baseNotCompiled n => "base class " ++ n ++ " was not compiled"

def message (f : InternalFault) : Text := "internal compiler error: " ++ f.details

end InternalFault

/-- The instructions of a function so far. -/
structure Generator where
  pool : Pool := {}
  instructions : List SourceInstruction := []
  /-- For each label, the number of instructions before the place it is bound to. -/
  binds : List (Option Nat) := []
  /-- The line of the instructions that follow. -/
  line : Int := 0
  /-- The types of the live temporaries, the innermost first. -/
  temps : List StaticType := []
  maxTemps : Nat := 0
  allocated : Nat := 0
  released : Nat := 0
  /-- The constructs that have been begun, the innermost first. -/
  frames : List Frame := []
deriving Inhabited

/-- A step of generation. What a step has done before it fails stays done. -/
abbrev Gen := ExceptT InternalFault (StateM Generator)

namespace Gen

/-! ### Instructions and labels -/

/-- Adds an instruction whose operands have to fit its shape. -/
def emit (op : Opcode) (args : List Nat) : Gen Unit := do
  let least := op.shape.length
  if op.shape.getLast? = some .list && args.length < least then
    throw (.tooFewOperands op args.length least)
  let want := Instruction.arity op args
  if args.length ≠ want then throw (.operandCount op args.length want)
  modify fun g => { g with instructions := g.instructions ++ [⟨⟨op, args⟩, g.line⟩] }

/-- Adds an instruction that ends with a list of addresses. -/
def emitList (op : Opcode) (list : List Address) (args : List Nat) : Gen Unit :=
  emit op (args ++ list.length :: list.map Address.encode)

def newLabel : Gen Nat := do
  let g ← get
  set { g with binds := g.binds ++ [none] }
  return g.binds.length

/-- Binds a label to the next instruction, once. -/
def bind (l : Nat) : Gen Unit := do
  let g ← get
  if (g.binds.getD l none).isSome then throw (.boundTwice l)
  set { g with binds := g.binds.set l (some g.instructions.length) }

def jump (l : Nat) : Gen Unit := emit .jump [l]

def jumpIf (cond : Address) (l : Nat) : Gen Unit := emit .jumpIf [cond.encode, l]

def jumpIfNot (cond : Address) (l : Nat) : Gen Unit := emit .jumpIfNot [cond.encode, l]

def setLine (line : Int) : Gen Unit := modify fun g => { g with line }

/-! ### Temporaries -/

/-- Allocates a temporary. -/
def addTemporary (t : StaticType) : Gen Address := do
  let g ← get
  let live := g.temps.length
  set { g with
    temps := t :: g.temps
    allocated := g.allocated + 1
    maxTemps := max g.maxTemps (live + 1) }
  return ⟨.temporary, live, t⟩

/-- Releases the innermost temporary, which has to be the given one. -/
def popTemporary (a : Address) : Gen Unit := do
  let g ← get
  let live := g.temps.length
  if a.mode ≠ .temporary || live ≠ a.index + 1 then throw (.releaseOrder a.mode live)
  set { g with temps := g.temps.drop 1, released := g.released + 1 }

/-- Releases an address if it is a temporary. -/
def release (a : Address) : Gen Unit := if a.isTemporary then popTemporary a else pure ()

/-- Releases the temporaries of a list, the last one first. -/
def releaseAll (list : List Address) : Gen Unit := list.reverse.forM release

/-! ### Names and constants -/

def name (n : Text) : Gen Nat := do
  let g ← get
  let (i, pool) := g.pool.name n
  set { g with pool }
  return i

def constant (v : Value) : Gen Address := do
  let g ← get
  let (i, pool) := g.pool.constant v
  set { g with pool }
  return ⟨.constant, i, .ofValue v⟩

def boolean (b : Bool) : Gen Address := constant (.bool b)

/-! ### Constructs that stop early -/

def pushFrame (kind : FrameKind) : Gen Unit := do
  let skip ← newLabel
  let done ← newLabel
  modify fun g => { g with frames := ⟨kind, skip, done⟩ :: g.frames }

/-- The innermost construct, which has to be of a kind. -/
def topFrame (kind : FrameKind) : Gen Frame := do
  match (← get).frames with
  | f :: _ => if f.kind = kind then return f else throw (.unmatched kind)
  | [] => throw (.unmatched kind)

def popFrame (kind : FrameKind) : Gen Frame := do
  let f ← topFrame kind
  modify fun g => { g with frames := g.frames.drop 1 }
  return f

/-- Stores a boolean at the end of a construct, the other one if an operand has decided it. -/
def endLogical (kind : FrameKind) (target : Address) (last : Bool) : Gen Unit := do
  let f ← popFrame kind
  emit .assign [target.encode, (← boolean last).encode]
  jump f.done
  bind f.skip
  emit .assign [target.encode, (← boolean (!last)).encode]
  bind f.done

def beginAnd : Gen Unit := pushFrame .and

/-- Ends the construct with false unless the operand is true. -/
def andOperand (x : Address) : Gen Unit := do jumpIfNot x (← topFrame .and).skip

def endAnd (target : Address) : Gen Unit := endLogical .and target true

def beginOr : Gen Unit := pushFrame .or

/-- Ends the construct with true if the operand is true. -/
def orOperand (x : Address) : Gen Unit := do jumpIf x (← topFrame .or).skip

def endOr (target : Address) : Gen Unit := endLogical .or target false

def beginTernary : Gen Unit := pushFrame .ternary

/-- Skips the first branch unless the condition is true. -/
def ternaryCondition (cond : Address) : Gen Unit := do
  jumpIfNot cond (← topFrame .ternary).skip

/-- Ends the first branch and begins the second. -/
def ternaryElse : Gen Unit := do
  let f ← topFrame .ternary
  jump f.done
  bind f.skip

def endTernary : Gen Unit := do bind (← popFrame .ternary).done

/-! ### The code -/

/-- The code of the instructions. All constructs have to be ended and all labels in use bound. -/
def machineCode : Gen MachineCode := do
  let g ← get
  match g.frames with
  | f :: _ => throw (.unterminated f.kind)
  | [] =>
    let a : Assembly := ⟨g.instructions, g.binds⟩
    match a.unbound? with
    | some l => throw (.unbound l)
    | none => return a.machineCode

end Gen

end GameScript
