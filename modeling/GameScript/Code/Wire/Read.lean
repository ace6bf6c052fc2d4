import GameScript.Code.Wire.Write
import GameScript.Value.Member

/-!
# Programs from bytes

Reads what `Program.encode` writes, and any other sequence of fields that makes sense. Fields may come
in any order and unknown ones are skipped. A field that cannot be read counts as zero for the rest of
its step, and the message ends there; a fault that a step finds itself comes before it.
-/

namespace GameScript

/-- Why a part of a program cannot be read. -/
inductive DecodeFault where
  | wire (f : WireFault)
  | wireType (got want : Nat)
  | buildId (size : Nat)
  | malformedConstant (type : Nat)
  | unknownConstant (type : Nat)
  | scriptIndex (i : Nat)
  | functionIndex (i : Nat)
  | lineTable
  | inConstant (name : Text) (f : DecodeFault)
deriving DecidableEq, Inhabited

def DecodeFault.message : DecodeFault → Text
  | wire f => f.message
  | wireType got want => "wire type " ++ Text.ofNat got ++ ", want " ++ Text.ofNat want
  | buildId n => "build id has " ++ Text.ofNat n ++ " bytes"
  | malformedConstant t => "malformed " ++ BuiltinType.numberName t ++ " constant"
  | unknownConstant t => "cannot decode constant of type " ++ BuiltinType.numberName t
  | scriptIndex i => "script index " ++ Text.ofNat i ++ " out of range"
  | functionIndex i => "function index " ++ Text.ofNat i ++ " out of range"
  | lineTable => "malformed line table"
  | inConstant name f => "constant " ++ name ++ ": " ++ f.message

/-- Why a program cannot be read. -/
inductive ProgramFault where
  | notCompiled
  | version (n : Nat)
  | inProgram (f : DecodeFault)
  | inFunction (i : Nat) (f : DecodeFault)
  | inScript (i : Nat) (f : DecodeFault)
deriving DecidableEq, Inhabited

namespace ProgramFault

def message : ProgramFault → Text
  | notCompiled => "not a compiled script"
  | version n =>
    "compiled script has version " ++ Text.ofNat n ++ ", want " ++ Text.ofNat Wire.version
  | inProgram f => "decoding compiled script: " ++ f.message
  | inFunction i f => "decoding function " ++ Text.ofNat i ++ ": " ++ f.message
  | inScript i f => "decoding script " ++ Text.ofNat i ++ ": " ++ f.message

/-- Whether the fault is that of a part. -/
def isNested : ProgramFault → Bool
  | notCompiled | version _ => false
  | _ => true

end ProgramFault

namespace Wire

/-! ### Contents -/

/-- The first `n` bytes and the rest. -/
def splitBytes (n : Nat) (bytes : List UInt8) : Except WireFault (List UInt8 × List UInt8) :=
  if bytes.length < n then .error .truncated else .ok (bytes.take n, bytes.drop n)

/-- A length and as many bytes. -/
def readBytes (bytes : List UInt8) : Except WireFault (List UInt8 × List UInt8) := do
  let (n, rest) ← Varint.decode bytes
  splitBytes n rest

/-- The number of bytes, the lowest first. -/
def ofLittleEndian : List UInt8 → Nat
  | [] => 0
  | b :: bs => b.toNat + 256 * ofLittleEndian bs

def readFixed64 (bytes : List UInt8) : Except WireFault (Nat × List UInt8) := do
  let (data, rest) ← splitBytes 8 bytes
  return (ofLittleEndian data, rest)

/-- The start of a field: its number and how its content is written. -/
def readTag (bytes : List UInt8) : Except WireFault ((Nat × Nat) × List UInt8) := do
  let (n, rest) ← Varint.decode bytes
  if n / 8 = 0 || twoTo 31 ≤ n / 8 then .error .fieldNumber else .ok ((n / 8, n % 8), rest)

/-- How deep groups of fields may be nested. -/
def maxDepth : Nat := 10001

mutual

/-- What follows the content of a field; at most `fuel` contents and tags are read. -/
def skipContent : (fuel depth num type : Nat) → List UInt8 → Except WireFault (List UInt8)
  | 0, _, _, _, _ => .error .depth
  | fuel + 1, depth, num, type, bytes =>
    if type = varintType then (Varint.decode bytes).map Prod.snd
    else if type = fixed64Type then (splitBytes 8 bytes).map Prod.snd
    else if type = bytesType then (readBytes bytes).map Prod.snd
    else if type = fixed32Type then (splitBytes 4 bytes).map Prod.snd
    else if type = startGroupType then
      if depth = 0 then .error .depth else skipGroup fuel (depth - 1) num bytes
    else if type = endGroupType then .error .endGroup
    else .error .reservedType

/-- What follows the end of the group with a number. -/
def skipGroup : (fuel depth num : Nat) → List UInt8 → Except WireFault (List UInt8)
  | 0, _, _, _ => .error .depth
  | fuel + 1, depth, num, bytes =>
    match readTag bytes with
    | .error f => .error f
    | .ok ((num', type), rest) =>
      if type = endGroupType then if num' = num then .ok rest else .error .endGroup
      else
        match skipContent fuel depth num' type rest with
        | .error f => .error f
        | .ok rest => skipGroup fuel depth num rest

end

/-! ### Messages -/

/-- The rest of a message, and the first fault found in it. -/
structure Cursor where
  rest : List UInt8
  fault : Option DecodeFault := none

/-- A step in reading a message. A fault that is thrown ends the message at once. -/
abbrev Reading := ExceptT DecodeFault (StateM Cursor)

namespace Reading

/-- Notes a fault, unless there is one already. -/
def note (f : DecodeFault) : Reading Unit :=
  modify fun c => { c with fault := c.fault <|> some f }

/-- Reads the content of a field that has to be written in a certain way. -/
def content (read : List UInt8 → Except WireFault (α × List UInt8)) (zero : α) (want type : Nat) :
    Reading α := do
  let c ← get
  if c.fault.isSome then return zero
  if type ≠ want then
    note (.wireType type want)
    return zero
  match read c.rest with
  | .ok (a, rest) =>
    set { c with rest }
    return a
  | .error f =>
    note (.wire f)
    return zero

def number (type : Nat) : Reading Nat := content Varint.decode 0 varintType type

def flag (type : Nat) : Reading Bool := return (← number type) ≠ 0

def fixed64 (type : Nat) : Reading Nat := content readFixed64 0 fixed64Type type

def bytes (type : Nat) : Reading (List UInt8) := content readBytes [] bytesType type

def text (type : Nat) : Reading Text := return ⟨← bytes type⟩

/-- All numbers in bytes, at most `fuel` of them. -/
def numbersFrom : Nat → List UInt8 → Except WireFault (List Nat)
  | _, [] | 0, _ => .ok []
  | fuel + 1, b :: bs => do
    let (n, rest) ← Varint.decode (b :: bs)
    return n :: (← numbersFrom fuel rest)

def packed (type : Nat) : Reading (List Nat) := do
  let data ← bytes type
  match numbersFrom data.length data with
  | .ok ns => return ns
  | .error f =>
    note (.wire f)
    return []

def skip (num type : Nat) : Reading Unit := do
  let c ← get
  match skipContent (2 * c.rest.length + 2) maxDepth num type c.rest with
  | .ok rest => set { c with rest }
  | .error f => note (.wire f)

/-- The number and the type of the next field; none at the end or after a fault. -/
def next : Reading (Option (Nat × Nat)) := do
  let c ← get
  if c.fault.isSome || c.rest.isEmpty then return none
  match readTag c.rest with
  | .ok (t, rest) =>
    set { c with rest }
    return some t
  | .error f =>
    note (.wire f)
    return none

/-- Takes a step for each field, at most `fuel` times. -/
def fieldsFrom (step : Nat → Nat → σ → Reading σ) : Nat → σ → Reading σ
  | 0, s => return s
  | fuel + 1, s => do
    match ← next with
    | none => return s
    | some (num, type) => fieldsFrom step fuel (← step num type s)

end Reading

open Reading

/-- Reads a whole message. -/
def readMessage (step : Nat → Nat → σ → Reading σ) (init : σ) (bytes : List UInt8) :
    Except DecodeFault σ :=
  match (fieldsFrom step bytes.length init).run { rest := bytes } with
  | (.error f, _) => .error f
  | (.ok s, c) =>
    match c.fault with
    | some f => .error f
    | none => .ok s

/-- A fault of a part ends the whole. -/
def ofPart (r : Except DecodeFault α) : Reading α :=
  match r with
  | .ok a => return a
  | .error f => throw f

/-- The signed number of so many bits that agrees with a number. -/
def signed (bits : Nat) (i : Int) : Int := i.bmod (twoTo bits)

/-! ### Constants -/

/-- What the fields of a constant hold. -/
structure ConstantFields where
  type : Nat := 0
  text : Text := ""
  floats : List Double := []
  ints : List Int64 := []
  elements : List Value := []
  element : Nat := 0
  cls : Text := ""
  flag : Bool := false

/-- Each key with the value that follows it. -/
def pairUp : List Value → List Entry
  | k :: v :: rest => ⟨k, v⟩ :: pairUp rest
  | _ => []

/-- The value that the fields of a constant describe. -/
def ConstantFields.value (c : ConstantFields) : Except DecodeFault Value :=
  let malformed : Except DecodeFault Value := .error (.malformedConstant c.type)
  match BuiltinType.ofNumber? c.type with
  | none => .error (.unknownConstant c.type)
  | some t =>
    match t, c.floats, c.ints with
    | .nil, _, _ => .ok .nil
    | .bool, _, _ => .ok (.bool c.flag)
    | .string, _, _ => .ok (.string c.text)
    | .stringName, _, _ => .ok (.stringName c.text)
    | .nodePath, _, _ => .ok (.nodePath c.text)
    | .object, _, _ => .ok (.resource c.text c.cls 0)
    | .callable, _, _ | .signal, _, _ => .error (.unknownConstant c.type)
    | .dictionary, _, _ =>
      if c.elements.length % 2 = 0 then .ok (.ofEntries (pairUp c.elements) true) else malformed
    | .int, [], [i] => .ok (.int i)
    | .float, [x], [] => .ok (.float x)
    | .vector2, [x, y], [] => .ok (.vector2 x y)
    | .vector2i, [], [x, y] => .ok (.vector2i x y)
    | .vector3, [x, y, z], [] => .ok (.vector3 x y z)
    | .vector3i, [], [x, y, z] => .ok (.vector3i x y z)
    | .color, [r, g, b, a], [] => .ok (.color r g b a)
    | t, _, _ =>
      if t = .array || t.isPacked then
        let element := (BuiltinType.ofNumber? c.element).getD .nil
        .ok (.array t element c.cls c.elements true)
      else malformed

/-- Reads a field of a constant; `part` reads an element. -/
def constantStep (part : List UInt8 → Except DecodeFault Value) (num type : Nat) (c : ConstantFields) :
    Reading ConstantFields := do
  match num with
  | 1 => return { c with type := (← number type) % 256 }
  | 2 => return { c with text := ← text type }
  | 3 => return { c with floats := c.floats ++ [⟨(← fixed64 type).toUInt64⟩] }
  | 4 => return { c with ints := c.ints ++ [Int64.ofInt (Varint.unfold (← number type))] }
  | 5 => return { c with elements := c.elements ++ [← ofPart (part (← bytes type))] }
  | 6 => return { c with element := (← number type) % 256 }
  | 7 => return { c with cls := ← text type }
  | 8 => return { c with flag := ← flag type }
  | _ =>
    skip num type
    return c

/-- Reads a constant; containers are nested at most `fuel` deep. -/
def readConstant : Nat → List UInt8 → Except DecodeFault Value
  | 0, _ => .error (.wire .depth)
  | fuel + 1, data => do (← readMessage (constantStep (readConstant fuel)) {} data).value

/-- Reads a constant. -/
def constantOf (data : List UInt8) : Except DecodeFault Value := readConstant (data.length + 1) data

/-! ### Types and variables -/

/-- Reads a type; element types are nested at most `fuel` deep. -/
def readRuntimeType : Nat → List UInt8 → Except DecodeFault RuntimeType
  | 0, _ => .error (.wire .depth)
  | fuel + 1, data =>
    let step (num type : Nat) (t : RuntimeType) : Reading RuntimeType := do
      match num with
      | 1 => return { t with kind := (← number type).toUInt8 }
      | 2 => return { t with builtin := (← number type).toUInt8 }
      | 3 => return { t with native := ← text type }
      | 4 => return { t with script := ← text type }
      | 5 => return { t with element := some (← ofPart (readRuntimeType fuel (← bytes type))) }
      | _ =>
        skip num type
        return t
    readMessage step {} data

def runtimeTypeOf (data : List UInt8) : Except DecodeFault RuntimeType :=
  readRuntimeType (data.length + 1) data

def slotOf (data : List UInt8) : Except DecodeFault VarSlot :=
  let step (num type : Nat) (s : VarSlot) : Reading VarSlot := do
    match num with
    | 1 => return { s with name := ← text type }
    | 2 => return { s with place := { s.place with line := signed 32 (← number type) } }
    | 3 => return { s with place := { s.place with col := signed 32 (← number type) } }
    | 4 => return { s with type := ← ofPart (runtimeTypeOf (← bytes type)) }
    | _ =>
      skip num type
      return s
  readMessage step {} data

/-! ### Functions -/

/-- The entries of a line table. -/
def lineEntries : List Nat → List LineEntry
  | pc :: line :: rest => ⟨pc % twoTo 32, signed 32 (Varint.unfold line)⟩ :: lineEntries rest
  | _ => []

/-- Reads a function of a program with so many scripts. -/
def functionOf (scripts : Nat) (data : List UInt8) : Except DecodeFault Function :=
  let step (num type : Nat) (f : Function) : Reading Function := do
    match num with
    | 1 => return { f with name := ← text type }
    | 2 =>
      let i ← number type
      if i = 0 || scripts < i then throw (.scriptIndex i)
      return { f with script := some (i - 1) }
    | 3 => return { f with place := { f.place with line := signed 32 (← number type) } }
    | 4 => return { f with place := { f.place with col := signed 32 (← number type) } }
    | 5 => return { f with code := ← bytes type }
    | 6 => return { f with params := f.params ++ [← ofPart (slotOf (← bytes type))] }
    | 7 => return { f with locals := f.locals ++ [← ofPart (slotOf (← bytes type))] }
    | 8 => return { f with captures := signed 64 (← number type) }
    | 9 => return { f with minArgs := signed 64 (← number type) }
    | 10 => return { f with maxArgs := signed 64 (← number type) }
    | 11 => return { f with entries := f.entries ++ (← packed type).map (· % twoTo 32) }
    | 12 => return { f with maxTemps := signed 64 (← number type) }
    | 13 => return { f with returns := ← ofPart (runtimeTypeOf (← bytes type)) }
    | 14 => return { f with isStatic := ← flag type }
    | 15 => return { f with isCoroutine := ← flag type }
    | 16 =>
      let ns ← packed type
      if ns.length % 2 ≠ 0 then throw .lineTable
      return { f with lines := f.lines ++ lineEntries ns }
    | _ =>
      skip num type
      return f
  readMessage step {} data

/-! ### Scripts -/

def memberOf (data : List UInt8) : Except DecodeFault MemberSlot :=
  let step (num type : Nat) (m : MemberSlot) : Reading MemberSlot := do
    match num with
    | 1 => return { m with name := ← text type }
    | 2 => return { m with index := signed 64 (← number type) }
    | 3 => return { m with getter := ← text type }
    | 4 => return { m with setter := ← text type }
    | 5 => return { m with type := ← ofPart (runtimeTypeOf (← bytes type)) }
    | _ =>
      skip num type
      return m
  readMessage step {} data

def namedConstantOf (data : List UInt8) : Except DecodeFault NamedConstant :=
  let step (num type : Nat) (c : NamedConstant) : Reading NamedConstant := do
    match num with
    | 1 => return { c with name := ← text type }
    | 2 =>
      match constantOf (← bytes type) with
      | .ok v => return { c with value := some v }
      | .error f => throw (.inConstant c.name f)
    | _ =>
      skip num type
      return c
  readMessage step {} data

def signalOf (data : List UInt8) : Except DecodeFault SignalInfo :=
  let step (num type : Nat) (s : SignalInfo) : Reading SignalInfo := do
    match num with
    | 1 => return { s with name := ← text type }
    | 2 => return { s with params := s.params ++ [← text type] }
    | _ =>
      skip num type
      return s
  readMessage step {} data

/-- An index that has to be below a bound. -/
def checkIndex (fault : Nat → DecodeFault) (bound i : Nat) : Reading Nat := do
  if bound ≤ i then throw (fault i)
  return i

/-- The index before a number, as a word of 64 bits. -/
def before (n : Nat) : Nat := if n = 0 then twoTo 64 - 1 else n - 1

/-- Reads a script of a program with so many scripts and functions. -/
def scriptOf (scripts functions : Nat) (data : List UInt8) : Except DecodeFault Script :=
  let scriptAt := checkIndex .scriptIndex scripts
  let functionAt := checkIndex .functionIndex functions
  let step (num type : Nat) (s : Script) : Reading Script := do
    match num with
    | 1 => return { s with name := ← text type }
    | 2 => return { s with fullName := ← text type }
    | 3 => return { s with path := ← text type }
    | 4 => return { s with native := ← text type }
    | 5 => return { s with base := some (.own (← scriptAt (before (← number type)))) }
    | 6 => return { s with outer := some (← scriptAt (before (← number type))) }
    | 7 => return { s with isTool := ← flag type }
    | 8 => return { s with isValid := ← flag type }
    | 9 => return { s with members := s.members ++ [← ofPart (memberOf (← bytes type))] }
    | 10 => return { s with constants := s.constants ++ [← ofPart (namedConstantOf (← bytes type))] }
    | 11 =>
      match signalOf (← bytes type) with
      | .ok x => return { s with signals := s.signals ++ [x] }
      | .error f =>
        note f
        return s
    | 12 => return { s with subclasses := s.subclasses ++ (← (← packed type).mapM scriptAt) }
    | 13 => return { s with methods := s.methods ++ (← (← packed type).mapM functionAt) }
    | 14 => return { s with init := some (← functionAt (before (← number type))) }
    | 15 => return { s with ready := some (← functionAt (before (← number type))) }
    | _ =>
      skip num type
      return s
  readMessage step {} data

/-! ### Programs -/

/-- A program whose functions and scripts have not been read yet. -/
structure Parts where
  program : Program := {}
  functions : List (List UInt8) := []
  scripts : List (List UInt8) := []

def partsOf (data : List UInt8) : Except DecodeFault Parts :=
  let step (num type : Nat) (p : Parts) : Reading Parts := do
    let program := p.program
    match num with
    | 1 =>
      let id ← bytes type
      if id.length ≠ 16 then
        note (.buildId id.length)
        return p
      return { p with program := { program with buildId := id } }
    | 2 => return { p with program := { program with path := ← text type } }
    | 3 => return { p with program := { program with names := program.names ++ [← text type] } }
    | 4 =>
      match constantOf (← bytes type) with
      | .ok v => return { p with program := { program with constants := program.constants ++ [v] } }
      | .error f =>
        note f
        return p
    | 5 => return { p with functions := p.functions ++ [← bytes type] }
    | 6 => return { p with scripts := p.scripts ++ [← bytes type] }
    | _ =>
      skip num type
      return p
  readMessage step {} data

/-- Reads the elements of a list, counted from `i`. -/
def readAll (read : List UInt8 → Except DecodeFault α) (fault : Nat → DecodeFault → ProgramFault) :
    Nat → List (List UInt8) → Except ProgramFault (List α)
  | _, [] => .ok []
  | i, data :: rest =>
    match read data with
    | .error f => .error (fault i f)
    | .ok a => do return a :: (← readAll read fault (i + 1) rest)

end Wire

/-- Reads a program. -/
def Program.decode (data : List UInt8) : Except ProgramFault Program := do
  if !Wire.mark.isPrefixOf data then throw .notCompiled
  match Varint.decode (data.drop Wire.mark.length) with
  | .error _ => throw .notCompiled
  | .ok (v, rest) =>
    if v ≠ Wire.version then throw (.version v)
    match Wire.partsOf rest with
    | .error f => throw (.inProgram f)
    | .ok parts =>
      let scripts := parts.scripts.length
      let functions ← Wire.readAll (Wire.functionOf scripts) .inFunction 0 parts.functions
      let all ← Wire.readAll (Wire.scriptOf scripts functions.length) .inScript 0 parts.scripts
      return { parts.program with functions, scripts := all }

end GameScript
