import GameScript.Code.Program

/-!
# Programs as bytes

A compiled program is stored as a mark, a version, and a message. A message is a sequence of fields,
and a field is a tag, made of its number and of how its content is written, and the content: a number,
eight bytes, or a length and as many bytes. A field whose content is empty or zero is left out.

Of the base of a script only one in the same program is recorded.
-/

namespace GameScript

namespace Wire

/-- The mark at the start of a compiled program. -/
def mark : List UInt8 := [103, 100, 99, 0]

def version : Nat := 1

/-! ### Fields -/

/-- A number follows. -/
def varintType : Nat := 0
/-- Eight bytes follow. -/
def fixed64Type : Nat := 1
/-- A length and as many bytes follow. -/
def bytesType : Nat := 2
def startGroupType : Nat := 3
def endGroupType : Nat := 4
/-- Four bytes follow. -/
def fixed32Type : Nat := 5

/-- The start of a field. -/
def tag (num type : Nat) : List UInt8 := Varint.encode (num * 8 + type)

/-- A field of bytes; it is written even if there are none. -/
def bytesField (num : Nat) (data : List UInt8) : List UInt8 :=
  tag num bytesType ++ Varint.encode data.length ++ data

def textField (num : Nat) (t : Text) : List UInt8 :=
  if t.isEmpty then [] else bytesField num t.bytes

def numberField (num n : Nat) : List UInt8 :=
  if n = 0 then [] else tag num varintType ++ Varint.encode n

def flagField (num : Nat) (b : Bool) : List UInt8 := numberField num (if b then 1 else 0)

/-- Many numbers in one field. -/
def packedField (num : Nat) (ns : List Nat) : List UInt8 :=
  if ns.isEmpty then [] else bytesField num (ns.flatMap Varint.encode)

/-- The lowest `k` bytes of a number, the lowest first. -/
def littleEndian : Nat → Nat → List UInt8
  | 0, _ => []
  | k + 1, n => n.toUInt8 :: littleEndian k (n / 256)

/-- A word of 64 bits that agrees with a signed number. -/
def word (i : Int) : Nat := (i % (twoTo 64 : Nat)).toNat

/-- The number of an optional reference: one more than its index. -/
def reference (num : Nat) (i : Option Nat) : List UInt8 := numberField num ((i.map (· + 1)).getD 0)

/-! ### Constants -/

def floatField (x : Double) : List UInt8 := tag 3 fixed64Type ++ littleEndian 8 x.bits.toNat

def intField (i : Int64) : List UInt8 := tag 4 varintType ++ Varint.encode (Varint.fold i.toInt)

mutual

/-- The fields of a constant after its type. -/
def constantFields : Value → List UInt8
  | .nil => []
  | .bool b => flagField 8 b
  | .int i => intField i
  | .float x => floatField x
  | .string t | .stringName t | .nodePath t => bytesField 2 t.bytes
  | .vector2 x y => floatField x ++ floatField y
  | .vector2i x y => intField x ++ intField y
  | .vector3 x y z => floatField x ++ floatField y ++ floatField z
  | .vector3i x y z => intField x ++ intField y ++ intField z
  | .color r g b a => floatField r ++ floatField g ++ floatField b ++ floatField a
  | .array _ element elementName elements _ =>
    numberField 6 element.number ++ textField 7 elementName ++ elementFields elements
  | .dictionary entries _ => entryFields entries
  | .resource path cls _ => bytesField 2 path.bytes ++ textField 7 cls

def elementFields : List Value → List UInt8
  | [] => []
  | v :: vs =>
    bytesField 5 (tag 1 varintType ++ Varint.encode v.type.number ++ constantFields v) ++
      elementFields vs

/-- Keys and values alternate. -/
def entryFields : List Entry → List UInt8
  | [] => []
  | ⟨k, v⟩ :: es =>
    bytesField 5 (tag 1 varintType ++ Varint.encode k.type.number ++ constantFields k) ++
      bytesField 5 (tag 1 varintType ++ Varint.encode v.type.number ++ constantFields v) ++
      entryFields es

end

/-- A constant. -/
def constant (v : Value) : List UInt8 :=
  tag 1 varintType ++ Varint.encode v.type.number ++ constantFields v

/-! ### Functions and scripts -/

def runtimeType : RuntimeType → List UInt8
  | ⟨kind, builtin, native, script, element⟩ =>
    numberField 1 kind.toNat ++ numberField 2 builtin.toNat ++ textField 3 native ++
      textField 4 script ++
      match element with
      | some e => bytesField 5 (runtimeType e)
      | none => []

def slot (s : VarSlot) : List UInt8 :=
  textField 1 s.name ++ numberField 2 (word s.place.line) ++ numberField 3 (word s.place.col) ++
    bytesField 4 (runtimeType s.type)

def lineNumbers (e : LineEntry) : List Nat := [e.pc, Varint.fold e.line]

def function (f : Function) : List UInt8 :=
  textField 1 f.name ++ reference 2 f.script ++ numberField 3 (word f.place.line) ++
    numberField 4 (word f.place.col) ++ bytesField 5 f.code ++
    f.params.flatMap (fun s => bytesField 6 (slot s)) ++
    f.locals.flatMap (fun s => bytesField 7 (slot s)) ++
    numberField 8 (word f.captures) ++ numberField 9 (word f.minArgs) ++
    numberField 10 (word f.maxArgs) ++ packedField 11 f.entries ++
    numberField 12 (word f.maxTemps) ++ bytesField 13 (runtimeType f.returns) ++
    flagField 14 f.isStatic ++ flagField 15 f.isCoroutine ++
    packedField 16 (f.lines.flatMap lineNumbers)

def member (m : MemberSlot) : List UInt8 :=
  textField 1 m.name ++ numberField 2 (word m.index) ++ textField 3 m.getter ++
    textField 4 m.setter ++ bytesField 5 (runtimeType m.type)

def namedConstant (c : NamedConstant) : List UInt8 :=
  textField 1 c.name ++ bytesField 2 (constant (c.value.getD .nil))

def signal (s : SignalInfo) : List UInt8 :=
  textField 1 s.name ++ s.params.flatMap fun p => bytesField 2 p.bytes

/-- The place of the base of a script in the same program. -/
def ownBase? (s : Script) : Option Nat :=
  match s.base with
  | some (.own i) => some i
  | _ => none

def script (s : Script) : List UInt8 :=
  textField 1 s.name ++ textField 2 s.fullName ++ textField 3 s.path ++ textField 4 s.native ++
    reference 5 (ownBase? s) ++ reference 6 s.outer ++ flagField 7 s.isTool ++
    flagField 8 s.isValid ++ s.members.flatMap (fun m => bytesField 9 (member m)) ++
    s.constants.flatMap (fun c => bytesField 10 (namedConstant c)) ++
    s.signals.flatMap (fun x => bytesField 11 (signal x)) ++ packedField 12 s.subclasses ++
    packedField 13 s.methods ++ reference 14 s.init ++ reference 15 s.ready

end Wire

/-- A program as bytes. -/
def Program.encode (p : Program) : List UInt8 :=
  Wire.mark ++ Varint.encode Wire.version ++ Wire.bytesField 1 p.buildId ++ Wire.textField 2 p.path ++
    p.names.flatMap (fun n => Wire.bytesField 3 n.bytes) ++
    p.constants.flatMap (fun c => Wire.bytesField 4 (Wire.constant c)) ++
    p.functions.flatMap (fun f => Wire.bytesField 5 (Wire.function f)) ++
    p.scripts.flatMap (fun s => Wire.bytesField 6 (Wire.script s))

end GameScript
