import GameScript.Lowering.Context

/-!
# Code of assignments

An assignment to a part of a value, such as `a.b[i].c = v`, loads each value on the way into a
temporary, sets the last part, and stores each value on the way back into the one before it, since it
may be a copy. A value that is shared by reference needs not be stored back.
-/

namespace GameScript

/-- A value that an assignment stores. For a compound assignment it is computed from the present value of
the target, which has the given type. -/
structure StoredValue where
  /-- The operator of a compound assignment. -/
  op : Option Operator
  /-- The type of the target. -/
  type : StaticType
  rhs : Lower Address
  /-- Whether the value is converted. -/
  converts : Bool

/-- How to get from a value to a part of it. -/
inductive PartKey where
  | named (name : Nat)
  | keyed (key : Address)
deriving Inhabited

/-- A value on the way to the target of an assignment: a part of the value before it. -/
structure LoadedPart where
  key : PartKey
  value : Address
deriving Inhabited

/-- The values on the way to the target of an assignment. -/
structure Route where
  /-- The name at which it starts, if that is a name. -/
  root : Option Ident
  base : Address
  /-- The last one first. -/
  parts : List LoadedPart := []
deriving Inhabited

namespace Lower

/-- The value to be stored; `present` loads the present one. -/
def storedValue (v : StoredValue) (present : Lower Address) : Lower Address := do
  match v.op with
  | none => v.rhs
  | some op =>
    let dst ← Gen.addTemporary v.type
    let x ← present
    let y ← v.rhs
    Gen.emit .operator [dst.encode, op.number, x.encode, y.encode]
    Gen.release y
    Gen.release x
    return dst

/-- Assigns a value to a name. -/
def assignName (id : Ident) (v : StoredValue) : Lower Unit := do
  match id.source with
  | .parameter | .localVariable | .iterator | .bind =>
    let dst ← localVar id
    let src ← storedValue v (name id)
    assign dst src v.converts
    Gen.release src
  | .memberVariable =>
    let m ← member (some id.pos) id.name
    let src ← storedValue v (name id)
    if !m.setter.isEmpty && !(← inAccessor m) then
      Gen.emitList .callSelf [src] [Address.nil.encode, ← Gen.name m.setter]
    else assign ⟨.member, m.index.toNat, id.info.type⟩ src v.converts
    Gen.release src
  | .inherited =>
    let src ← storedValue v (name id)
    Gen.emit .setMember [← Gen.name id.name, src.encode]
    Gen.release src
  | s => contradiction (.assignmentTo (← placeText id.pos) (s.name ++ " " ++ id.name))

/-! ### Parts of values -/

def getPart (dst base : Address) : PartKey → Lower Unit
  | .named n => Gen.emit .getNamed [dst.encode, base.encode, n]
  | .keyed k => Gen.emit .getIndexed [dst.encode, base.encode, k.encode]

def setPart (base : Address) (key : PartKey) (value : Address) : Lower Unit :=
  match key with
  | .named n => Gen.emit .setNamed [base.encode, n, value.encode]
  | .keyed k => Gen.emit .setIndexed [base.encode, k.encode, value.encode]

def releaseKey : PartKey → Lower Unit
  | .named _ => pure ()
  | .keyed k => Gen.release k

/-- The last of some values on a route. -/
def lastValue (base : Address) : List LoadedPart → Address
  | [] => base
  | p :: _ => p.value

/-- Loads one more value on a route. -/
def loadPart (r : Route) (key : PartKey) (t : StaticType) : Lower Route := do
  let value ← Gen.addTemporary t
  getPart value (lastValue r.base r.parts) key
  return { r with parts := ⟨key, value⟩ :: r.parts }

/-- Stores each of the values on a route back into the one before it, unless it is shared. -/
def writeBack (base : Address) : List LoadedPart → Lower Unit
  | [] => pure ()
  | p :: ps => do
    let store := setPart (lastValue base ps) p.key p.value
    match p.value.type.sharing? with
    | some true => pure ()
    | some false => store
    | none =>
      let skip ← Gen.newLabel
      Gen.emit .jumpIfShared [p.value.encode, skip]
      store
      Gen.bind skip
    writeBack base ps

/-- Stores the first value of a route back, if it is a variable of the instance that is read and written
by functions or belongs to the native class. -/
def storeRoot (id : Ident) (value : Address) : Lower Unit := do
  if id.info.type.sharing? = some true then return
  match id.source with
  | .memberVariable =>
    match (← read).script.member? id.name with
    | some m =>
      if !m.setter.isEmpty && !(← inAccessor m) then
        Gen.emitList .callSelf [value] [Address.nil.encode, ← Gen.name m.setter]
    | none => pure ()
  | .inherited => Gen.emit .setMember [← Gen.name id.name, value.encode]
  | _ => pure ()

/-- Releases the values of a route with their keys, the last one first. -/
def releaseParts : List LoadedPart → Lower Unit
  | [] => pure ()
  | p :: ps => do
    Gen.release p.value
    releaseKey p.key
    releaseParts ps

/-- Assigns a value to a part of the last value of a route. -/
def assignPart (r : Route) (key : PartKey) (v : StoredValue) : Lower Unit := do
  let target := lastValue r.base r.parts
  let present : Lower Address := do
    let dst ← Gen.addTemporary v.type
    getPart dst target key
    return dst
  let src ← storedValue v present
  setPart target key src
  Gen.release src
  writeBack r.base r.parts
  r.root.forM (storeRoot · r.base)
  releaseKey key
  releaseParts r.parts
  Gen.release r.base

end Lower

end GameScript
