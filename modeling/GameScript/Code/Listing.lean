import GameScript.Code.Address
import GameScript.Code.Program
import GameScript.Value.Operator

/-!
# Listings

Reads code back into instructions and shows them, with names instead of numbers where the program has
them.
-/

namespace GameScript

/-- Why code cannot be read. -/
inductive CodeFault where
  | illegalOpcode (pc : Nat) (byte : UInt8)
  | badOperand (pc : Nat) (op : Opcode)
deriving DecidableEq, Inhabited

def CodeFault.message : CodeFault → Text
  | illegalOpcode pc b => "pc " ++ Text.ofNat pc ++ ": illegal opcode " ++ Text.ofNat b.toNat
  | badOperand pc op => "pc " ++ Text.ofNat pc ++ ": bad operand of " ++ op.name

namespace Instruction

/-- Reads an operand, which has at most 32 bits. -/
def decodeOperand (bytes : List UInt8) : Option (Nat × List UInt8) :=
  match Varint.decode bytes with
  | .ok (n, rest) => if n < twoTo 32 then some (n, rest) else none
  | .error _ => none

/-- Reads `n` operands. -/
def decodeOperands : Nat → List UInt8 → Option (List Nat × List UInt8)
  | 0, bytes => some ([], bytes)
  | n + 1, bytes => do
    let (a, bytes) ← decodeOperand bytes
    let (as, bytes) ← decodeOperands n bytes
    return (a :: as, bytes)

/-- Reads the operands of a shape. Every operand takes a byte at least, so a list that is longer than
what is left of the code cannot be read. -/
def decodeShape : List OperandKind → List UInt8 → Option (List Nat × List UInt8)
  | [], bytes => some ([], bytes)
  | k :: ks, bytes => do
    let (a, bytes) ← decodeOperand bytes
    let (members, bytes) ← if k = .list then
        if bytes.length < a then none else decodeOperands a bytes
      else some ([], bytes)
    let (as, bytes) ← decodeShape ks bytes
    return (a :: members ++ as, bytes)

/-- Reads the instruction at the start of bytes, which are the code from `pc` on. -/
def decode (pc : Nat) (byte : UInt8) (bytes : List UInt8) :
    Except CodeFault (Instruction × List UInt8) :=
  match Opcode.ofNumber? byte.toNat with
  | none => .error (.illegalOpcode pc byte)
  | some op =>
    match decodeShape op.shape bytes with
    | none => .error (.badOperand pc op)
    | some (args, rest) => .ok (⟨op, args⟩, rest)

/-- Reads at most `fuel` instructions, each with its place, up to the end of the code or a fault. -/
def decodeFrom : Nat → Nat → List UInt8 → List (Nat × Instruction) × Option CodeFault
  | _, _, [] | 0, _, _ => ([], none)
  | fuel + 1, pc, byte :: bytes =>
    match decode pc byte bytes with
    | .error f => ([], some f)
    | .ok (i, rest) =>
      let (is, fault) := decodeFrom fuel (pc + (bytes.length + 1 - rest.length)) rest
      ((pc, i) :: is, fault)

/-- The instructions of code with their places, up to the first fault. -/
def decodeAll (code : List UInt8) : List (Nat × Instruction) × Option CodeFault :=
  decodeFrom code.length 0 code

end Instruction

/-- The names that a listing shows instead of numbers. -/
structure Symbols where
  names : List Text := []
  constants : List Value := []
  functions : List Text := []
  members : List Text := []
  params : List Text := []
  locals : List Text := []
deriving Inhabited

namespace Symbols

/-- An address by what it refers to. -/
def address (s : Symbols) (n : Nat) : Text :=
  let i := n / 8
  let mode := Mode.ofNumber n
  let known : Option Text := match mode with
    | .self => some "self"
    | .cls => some "class"
    | .nil => some "null"
    | .member => (s.members[i]?).map fun m => "self." ++ m
    | .parameter => s.params[i]?
    | .localVar => s.locals[i]?
    | .temporary => some ("%" ++ Text.ofNat i)
    | .constant => (s.constants[i]?).map Value.repr
  known.getD (mode.name ++ "#" ++ Text.ofNat i)

def name (s : Symbols) (n : Nat) : Text := (s.names[n]?).getD ("name#" ++ Text.ofNat n)

def function (s : Symbols) (n : Nat) : Text :=
  match s.functions[n]? with
  | some f => "func " ++ f
  | none => "func #" ++ Text.ofNat n

/-- The operands of a shape. -/
def operands (s : Symbols) : List OperandKind → List Nat → List Text
  | k :: ks, a :: as =>
    match k with
    | .address => s.address a :: operands s ks as
    | .operator => Operator.numberName (a % 256) :: operands s ks as
    | .type => BuiltinType.numberName (a % 256) :: operands s ks as
    | .name => s.name a :: operands s ks as
    | .function => s.function a :: operands s ks as
    | .number => Text.ofNat a :: operands s ks as
    | .label => ("->" ++ Text.ofNat a) :: operands s ks as
    | .list => ("(" ++ Text.join ", " ((as.take a).map s.address) ++ ")") :: operands s ks (as.drop a)
  | _, _ => []

/-- An instruction without its place. -/
def instruction (s : Symbols) (i : Instruction) : Text :=
  if i.op.shape.isEmpty then i.op.name
  else i.op.name ++ " " ++ Text.join ", " (s.operands i.op.shape i.args)

end Symbols

namespace Program

/-- What the numbers in the code of a function mean. -/
def symbols (p : Program) (f : Function) : Symbols :=
  { names := p.names
    constants := p.constants
    functions := p.functions.map Function.name
    members := match f.script.bind fun i => p.scripts[i]? with
      | some s => s.members.map MemberSlot.name
      | none => []
    params := f.params.map VarSlot.name
    locals := f.locals.map VarSlot.name }

/-- The parameters of a function in the head of its listing; captured variables are marked. -/
def paramTexts (captures : Int) : List VarSlot → List Text
  | [] => []
  | s :: ss =>
    (if 0 < captures then "^" ++ s.name else s.name ++ ": " ++ s.type.text) ::
      paramTexts (captures - 1) ss

/-- The head of the listing of a function. -/
def heading (p : Program) (f : Function) : Text :=
  "function " ++ p.functionText f ++ "(" ++ Text.join ", " (paramTexts f.captures f.params) ++
    ") -> " ++ f.returns.text

/-- The lines of the listing of a function, and what is wrong with its code. -/
def listing (p : Program) (f : Function) : List Text × Option CodeFault :=
  let symbols := p.symbols f
  let entries : List Text := if f.entries.isEmpty then []
    else ["\tdefaults [" ++ Text.join " " (f.entries.map Text.ofNat) ++ "]"]
  let (instructions, fault) := Instruction.decodeAll f.code
  let lines := instructions.map fun (pc, i) => "\t" ++ Text.ofNat pc ++ "\t" ++ symbols.instruction i
  let last : List Text := match fault with
    | some e => ["\t" ++ e.message]
    | none => []
  (p.heading f :: entries ++ lines ++ last, fault)

end Program

end GameScript
