import GameScript.Analysis.Workspace
import GameScript.Lowering.Generator
import GameScript.Syntax.Dump

/-!
# Lowering of functions

* `Context` — the function being lowered, its class and the findings of the analysis;
* `Lowering` — the code so far, where the locals are, and where to go on from a jump;
* `Lower` — steps of lowering.

Whatever allocates temporaries releases them in the reverse order, except for the one that holds its
result, which its user releases.
-/

namespace GameScript

/-! ## Lowering of functions -/

/-! ### Faults -/

/-- Why a class cannot be compiled although the analysis found no error. -/
inductive CompileFault where
  /-- The compiler contradicts itself or the analysis. -/
  | internal (f : InternalFault)
  | cyclicClass (name : Text)
  | shadowsNative (name : Text)
  /-- The base class cannot be compiled. -/
  | base (name reason : Text)
  /-- An accessor refers to its property in a way that would call it again. -/
  | selfInAccessor (name : Text)
  | unknownName (name : Text)
  | localConstant
deriving DecidableEq, Inhabited

def CompileFault.message : CompileFault → Text
  | internal f => f.message
  | cyclicClass n => "Cyclic class reference for \"" ++ n ++ "\"."
  | shadowsNative n => "The class '" ++ n ++ "' shadows a native class"
  | base n r => "Could not compile base class \"" ++ n ++ "\": " ++ r
  | selfInAccessor n => "Must use '" ++ n ++ "' instead of 'self." ++ n ++ "' in getter/setter."
  | unknownName n => "Identifier not found: " ++ n
  | localConstant => "Local constant must have a constant value as initializer."

/-- A fault and the place it is reported at; without one, it is reported for the file as a whole. -/
structure LowerError where
  pos : Option Pos := none
  fault : CompileFault
deriving DecidableEq, Inhabited

/-! ### Steps -/

/-- What surrounds the code of a function. -/
structure LowerContext where
  /-- The findings of the analysis. -/
  session : Session
  /-- The number of the file. -/
  unit : Nat
  /-- The class of the function. -/
  cls : DeclId
  /-- The script of the class, with its variables. -/
  script : Script
  /-- The number of the script in its program. -/
  scriptIndex : Nat
  /-- The name of the function. -/
  function : Text := ""
  /-- The property whose accessor the function is. -/
  property : Option Text := none

/-- Where to go on from inside of a loop. -/
structure LoopLabels where
  exit : Nat
  next : Nat
deriving DecidableEq, Inhabited

/-- A function that is being lowered. -/
structure Lowering where
  gen : Generator := {}
  /-- Where the parameters and locals are, by the place of their name. -/
  vars : Table Pos Address := {}
  /-- The loops around, the innermost first. -/
  loops : List LoopLabels := []
  /-- For each match around, the innermost first, where the next branch is tested. -/
  cases : List Nat := []
  params : List VarSlot := []
  locals : List VarSlot := []
  /-- Whether some return has a value. -/
  returnsValue : Bool := false
deriving Inhabited

/-- A step of lowering. -/
abbrev Lower := ReaderT LowerContext (ExceptT LowerError (StateM Lowering))

namespace Lower

/-- A step of generation as one of lowering. -/
def ofGen (x : Gen α) : Lower α := fun _ s =>
  match x.run s.gen with
  | (.ok a, gen) => (.ok a, { s with gen })
  | (.error f, gen) => (.error { fault := .internal f }, { s with gen })

instance : MonadLift Gen Lower := ⟨ofGen⟩

/-- The function as lowered so far. -/
def current : Lower Lowering := fun _ s => (.ok s, s)

def update (f : Lowering → Lowering) : Lower Unit := fun _ s => (.ok (), f s)

def contradiction (f : InternalFault) : Lower α := throw { fault := .internal f }

def report (pos : Pos) (f : CompileFault) : Lower α := throw ⟨some pos, f⟩

/-! ### Findings of the analysis -/

/-- What is known about a declaration of the file. -/
def note (p : Pos) : Lower Note := return (← read).session.note ⟨(← read).unit, p⟩

def types : Lower TypeContext := return (← read).session.types

/-- A place of the file in full. -/
def placeText (p : Pos) : Lower Text := return p.textIn ((← read).session.pathOf (← read).unit)

/-- The kind of an expression in messages about a contradiction. -/
def kindText (e : Expr) : Text := "*syntax." ++ (Node.expr e).kindName

/-! ### Lines and temporaries -/

/-- The instructions that follow belong to the line of a place. -/
def setLine (p : Pos) : Lower Unit := do
  if (← current).gen.line ≠ p.line then
    Gen.setLine p.line
    if (← read).session.env.options.debugLines then Gen.emit .line [p.line]

/-- Makes sure that a step releases the temporaries it allocates. -/
def balanced (x : Lower Unit) : Lower Unit := do
  let before := (← current).gen.temps.length
  x
  let g := (← current).gen
  if g.temps.length ≠ before then
    contradiction (.unbalanced (← read).function g.line g.temps.length before)

/-! ### Variables -/

/-- A slot of a function for a variable of the file. -/
def slotOf (name : Text) (pos : Pos) (t : StaticType) : Lower VarSlot :=
  return { name, place := .ofPos pos, type := .ofStatic (← types) t }

/-- Binds the local declared at `anchor` to an address. -/
def bindVar (anchor : Pos) (a : Address) : Lower Unit :=
  update fun s => { s with vars := s.vars.set anchor a }

/-- Adds a parameter, which is the value of the local declared at `anchor`. -/
def addParam (anchor : Pos) (name : Text) (pos : Pos) (t : StaticType) : Lower Unit := do
  let slot ← slotOf name pos t
  bindVar anchor ⟨.parameter, (← current).params.length, t⟩
  update fun s => { s with params := s.params ++ [slot] }

/-- Adds a variable with a slot of its own for a name that is declared in the function. -/
def addLocal (id : Ident) (t : StaticType) : Lower Address := do
  let slot ← slotOf id.name id.pos t
  let a : Address := ⟨.localVar, (← current).locals.length, t⟩
  bindVar id.pos a
  update fun s => { s with locals := s.locals ++ [slot] }
  return a

/-- The variable of the instance with a name. -/
def member (pos : Option Pos) (name : Text) : Lower MemberSlot := do
  let script := (← read).script
  match script.member? name with
  | some m => return m
  | none => contradiction (.notInTable (← pos.mapM placeText) name script.fullName)

/-- Whether the function is an accessor of a variable, which it refers to directly. -/
def inAccessor (m : MemberSlot) : Lower Bool := do
  let f := (← read).function
  return !f.isEmpty && (f = m.getter || f = m.setter)

/-! ### Storing values -/

/-- The constant that denotes the script of a type. -/
def scriptConstant (t : StaticType) : Lower Address := do
  let ctx ← types
  match t.shape with
  | .cls id _ => Gen.constant (.resource (ctx.classes id).fqcn "GDScript" 0)
  | .script id => Gen.constant (.resource (ctx.scripts id).path "GDScript" 0)
  | _ => contradiction (.notAScript (ctx.text t))

/-- Stores a value, after a conversion or a check if `converts` is set and the place has a type. -/
def assign (dst src : Address) (converts : Bool) : Lower Unit := do
  let t := dst.type
  let plain : Lower Unit := Gen.emit .assign [dst.encode, src.encode]
  if !converts || !t.isHard || t.isVariant then plain
  else match t.shape with
    | .builtin _ | .enum .. => Gen.emit .assignConvert [dst.encode, src.encode, t.tag.number]
    | .native cls => Gen.emit .assignNative [dst.encode, src.encode, ← Gen.name cls]
    | .cls .. | .script _ =>
      Gen.emit .assignScript [dst.encode, src.encode, (← scriptConstant t).encode]
    | _ => plain

/-- Stores the first value of a variable that is declared without one: an empty array of its type, the
zero of a builtin type, or null. -/
def storeDefault (dst : Address) (t : StaticType) : Lower Unit := do
  let plain : Lower Unit := do Gen.emit .assign [dst.encode, (← Gen.constant .nil).encode]
  let zero : Lower Unit := Gen.emitList .construct [] [dst.encode, t.tag.number]
  if !t.isHard then plain
  else match t.shape, t.element with
    | .builtin .array, some e =>
      if e.isVariant then zero
      else
        Gen.emitList .constructTypedArray []
          [dst.encode, e.tag.number, ← Gen.name ((← types).nativeOf e)]
    | .builtin .object, _ => plain
    | .builtin _, _ | .enum .., _ => zero
    | _, _ => plain

end Lower

/-! ## Where names are

The value of a name is in a variable, or it is fetched by name from the instance, from its class or from
what is known everywhere.
-/

/-- Whether a name stands for something that exists by that name when a program runs. -/
def Environment.provides (env : Environment) (name : Text) : Bool :=
  env.catalog.hasClass name || (env.catalog.singleton? name).isSome ||
    (env.catalog.global? name).isSome || (env.catalog.globalEnum? name).isSome ||
    env.globalClasses.has name || env.autoloads.has name

namespace Lower

/-- The address of a local. -/
def localVar (id : Ident) : Lower Address := do
  let vars := (← current).vars
  let found := match id.binding with
    | .toLocal r => vars.get? r.anchor
    | _ => none
  match found with
  | some a => return { a with type := id.info.type }
  | none => contradiction (.noAddress (← placeText id.pos) id.source.name id.name)

/-- Fetches a value into a temporary. -/
def fetch (t : StaticType) (op : Opcode) (operands : List Nat) : Lower Address := do
  let dst ← Gen.addTemporary t
  Gen.emit op (dst.encode :: operands)
  return dst

/-- The address of the value of a name. -/
def name (id : Ident) : Lower Address := do
  let t := id.info.type
  match id.source with
  | .parameter | .localVariable | .iterator | .bind | .localConstant => localVar id
  | .memberVariable =>
    let m ← member (some id.pos) id.name
    if !m.getter.isEmpty && !(← inAccessor m) then
      let dst ← Gen.addTemporary t
      Gen.emitList .callSelf [] [dst.encode, ← Gen.name m.getter]
      return dst
    return ⟨.member, m.index.toNat, t⟩
  | .inherited => fetch t .getMember [← Gen.name id.name]
  | .memberFunction | .memberSignal =>
    fetch t .getNamed [Address.self.encode, ← Gen.name id.name]
  | .memberConstant | .memberClass =>
    let isMain : Bool := match id.binding with
      | .toMember .cls c => c.pos = .none
      | _ => false
    if isMain then fetch t .getGlobal [← Gen.name id.name]
    else fetch t .getNamed [Address.cls.encode, ← Gen.name id.name]
  | .undefined =>
    if !t.isMeta && !(← read).session.env.provides id.name then
      report id.pos (.unknownName id.name)
    fetch t .getGlobal [← Gen.name id.name]

end Lower

end GameScript
