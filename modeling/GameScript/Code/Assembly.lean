import GameScript.Code.Opcode
import GameScript.Number.Power
import GameScript.Text.Basic

/-!
# Assembly

Instructions refer to places in the code by labels, and a label is bound to an instruction. To write
the code, labels are replaced by places. How many bytes the number of a place takes depends on the
place itself, so the places are computed again and again, starting from zero, until they stay the same.
They only grow, and each time some number takes more bytes, so this ends.
-/

namespace GameScript

/-! ## Numbers as bytes

A number is written in base 128, the lowest digit first, with the high bit set in every byte but the
last. A word of 64 bits takes at most ten bytes. Signed numbers are folded into natural ones first, so
that small ones stay short.
-/

/-- Why bytes cannot be read. -/
inductive WireFault where
  /-- The bytes end too early. -/
  | truncated
  /-- A number has more than 64 bits. -/
  | overflow
  | fieldNumber
  | reservedType
  | endGroup
  | depth
deriving DecidableEq, Inhabited

def WireFault.message : WireFault → Text
  | truncated => "unexpected EOF"
  | overflow => "proto: variable length integer overflow"
  | fieldNumber => "proto: invalid field number"
  | reservedType => "proto: cannot parse reserved wire type"
  | endGroup => "proto: mismatching end group marker"
  | depth => "proto: parse error"

namespace Varint

/-- The bytes of a number, with at most `k` bytes before the last. -/
def encodeUpTo : Nat → Nat → List UInt8
  | 0, n => [n.toUInt8]
  | k + 1, n =>
    if n < 128 then [n.toUInt8] else (n % 128 + 128).toUInt8 :: encodeUpTo k (n / 128)

/-- The bytes of a number below `2 ^ 64`. -/
def encode (n : Nat) : List UInt8 := encodeUpTo 9 n

/-- How many bytes a number takes. -/
def size (n : Nat) : Nat := (encode n).length

/-- Reads a number that has at most `k` bytes before the last. The last of ten bytes holds a single
bit. -/
def decodeUpTo : Nat → List UInt8 → Except WireFault (Nat × List UInt8)
  | _, [] => .error .truncated
  | 0, b :: bs => if b < 2 then .ok (b.toNat, bs) else .error .overflow
  | k + 1, b :: bs =>
    if b < 128 then .ok (b.toNat, bs)
    else do
      let (n, rest) ← decodeUpTo k bs
      return (b.toNat - 128 + 128 * n, rest)

/-- Reads a number and returns what follows it. -/
def decode (bytes : List UInt8) : Except WireFault (Nat × List UInt8) := decodeUpTo 9 bytes

/-- A signed number as a natural one: 0, -1, 1, -2, 2 become 0, 1, 2, 3, 4. -/
def fold (i : Int) : Nat := if 0 ≤ i then (2 * i).toNat else (-2 * i - 1).toNat

/-- The signed number that a natural one stands for. -/
def unfold (n : Nat) : Int := if n % 2 = 0 then n / 2 else -(n / 2 : Int) - 1

end Varint

/-! ## Assembly -/

/-- An instruction: the operation and its operands, where a list is given by its length and its
addresses. -/
structure Instruction where
  op : Opcode
  args : List Nat
deriving DecidableEq, Inhabited

namespace Instruction

/-- Each operand with what it is. -/
def operandsFrom : List OperandKind → List Nat → List (OperandKind × Nat)
  | k :: ks, a :: as => (k, a) :: operandsFrom ks as
  | [], as => as.map (OperandKind.address, ·)
  | _ :: _, [] => []

/-- Each operand with what it is; the members of the list at the end are addresses. -/
def operands (i : Instruction) : List (OperandKind × Nat) := operandsFrom i.op.shape i.args

/-- How many operands an operation takes, given the operands: more with a list. The number is exact
unless the length of the list is missing. -/
def arity (op : Opcode) (args : List Nat) : Nat :=
  match op.shape.getLast? with
  | some .list => op.shape.length + args.getD (op.shape.length - 1) 0
  | _ => op.shape.length

/-- The labels that an instruction refers to. -/
def labels (i : Instruction) : List Nat :=
  (i.operands.filter (·.1 = .label)).map Prod.snd

/-- The instruction with its labels replaced by places. -/
def resolve (target : Nat → Nat) (i : Instruction) : Instruction :=
  { i with args := i.operands.map fun (k, a) => if k = .label then target a else a }

/-- The bytes of an instruction without labels. -/
def encode (i : Instruction) : List UInt8 :=
  i.op.number.toUInt8 :: i.args.flatMap Varint.encode

/-- How many bytes an instruction without labels takes. -/
def size (i : Instruction) : Nat := 1 + total (i.args.map Varint.size)

end Instruction

/-- An instruction and the line of the source that it comes from. -/
structure SourceInstruction where
  instruction : Instruction
  line : Int
deriving DecidableEq, Inhabited

/-- The instructions from a place in the code on come from a line. -/
structure LineEntry where
  pc : Nat
  line : Int
deriving DecidableEq, Inhabited

/-- The code of a function before its labels are resolved. -/
structure Assembly where
  instructions : List SourceInstruction := []
  /-- For each label, the number of instructions before the place it is bound to. -/
  binds : List (Option Nat) := []
deriving Inhabited

/-- The code of a function. -/
structure MachineCode where
  code : List UInt8
  lines : List LineEntry
  /-- The place of each label. -/
  labels : List Nat
deriving DecidableEq, Inhabited

namespace Assembly

/-- Where each instruction starts if the given numbers of bytes follow each other, and where they end. -/
def starts (pc : Nat) : List Nat → List Nat
  | [] => [pc]
  | n :: ns => pc :: starts (pc + n) ns

/-- The place of a label, given where the instructions start. -/
def target (a : Assembly) (pcs : List Nat) (label : Nat) : Nat :=
  match a.binds.getD label none with
  | some i => pcs.getD i 0
  | none => 0

/-- The instructions with labels replaced by places. -/
def resolved (a : Assembly) (pcs : List Nat) : List Instruction :=
  a.instructions.map fun s => s.instruction.resolve (a.target pcs)

/-- Where the instructions start if labels have the given places. -/
def layout (a : Assembly) (pcs : List Nat) : List Nat :=
  starts 0 ((a.resolved pcs).map Instruction.size)

/-- Repeats the layout at most `fuel` times, until it stays the same. -/
def settle (a : Assembly) : Nat → List Nat → List Nat
  | 0, pcs => pcs
  | fuel + 1, pcs =>
    let next := a.layout pcs
    if next = pcs then pcs else settle a fuel next

/-- How many operands there are. Each layout but the last two makes one of them longer by a byte. -/
def operandCount (a : Assembly) : Nat := total (a.instructions.map (·.instruction.args.length))

/-- Where each instruction starts, and where the code ends. -/
def places (a : Assembly) : List Nat :=
  a.settle (10 * a.operandCount + 3) (List.replicate (a.instructions.length + 1) 0)

/-- The first label that is used but not bound. -/
def unbound? (a : Assembly) : Option Nat :=
  (a.instructions.flatMap (·.instruction.labels)).find? fun l => (a.binds.getD l none).isNone

/-- An entry for each place where the line changes. -/
def lineTable (line : Int) : List (Nat × SourceInstruction) → List LineEntry
  | [] => []
  | (pc, s) :: rest =>
    if s.line = line then lineTable line rest else ⟨pc, s.line⟩ :: lineTable s.line rest

/-- The code, the lines of its parts, and the place of each label. -/
def machineCode (a : Assembly) : MachineCode :=
  let pcs := a.places
  { code := (a.resolved pcs).flatMap Instruction.encode
    lines := lineTable (-1) (pcs.zip a.instructions)
    labels := (List.range a.binds.length).map (a.target pcs) }

end Assembly

end GameScript
