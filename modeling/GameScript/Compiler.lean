import GameScript.Lowering.Body

/-!
# Compilation of a project

Files are compiled once, each after the analysis has found no error in it. Before the functions of a
file are lowered, the tables of its classes are drafted: those of a class after those of its base, which
may be in a file that is compiled first.

* `Compiler` — the session, the programs so far and how the compilation of each file has ended;
* `Compiler.compile` — compiles a file.
-/

namespace GameScript

/-- Why a file cannot be compiled. -/
inductive CompileError where
  /-- The analysis found errors. -/
  | analysis (path : Text) (errors : List AnalysisError)
  | fault (path : Text) (pos : Pos) (f : CompileFault)
deriving Inhabited

/-- What the first error says, with its place. -/
def CompileError.message : CompileError → Text
  | analysis path es =>
    match es with
    | e :: _ => e.pos.textIn path ++ ": " ++ e.complaint.message
    | [] => ""
  | fault path pos f => pos.textIn path ++ ": " ++ f.message

/-- How the compilation of a file has ended. -/
inductive Outcome where
  /-- It has not. -/
  | compiling
  | compiled (program : Nat)
  | failed (e : CompileError)
deriving Inhabited

/-- The compilation of the files of a project. -/
structure Compiler where
  session : Session
  library : Library := []
  /-- The compilations that have been begun, by path. -/
  outcomes : Table Text Outcome := {}
  /-- The program and the script of each compiled class. -/
  scripts : Table DeclId (Nat × Nat) := {}
  /-- The program and the script of each script that is known only in compiled form. -/
  origins : List (Nat × Nat) := []
  /-- The tables of classes. -/
  drafts : Table DeclId Script := {}
  /-- The classes whose tables have been begun. -/
  entered : List DeclId := []
  /-- The classes whose tables are being drafted. -/
  drafting : List DeclId := []
  /-- What has been lowered, program by program; the last functions of a faulty one are missing. -/
  trace : List Program := []

/-- A step of compilation. -/
abbrev Compile := ExceptT CompileError (StateM Compiler)

namespace Compile

/-! ### Tables of classes -/

/-- Fails with a fault at a place of a file. -/
def report (unit : Nat) (pos : Pos) (f : CompileFault) : Compile α := do
  throw (.fault ((← get).session.pathOf unit) pos f)

/-- Where the class of a file starts. -/
def startOf (s : Session) (unit : Nat) : Pos := ((s.files[unit]?).map (·.file.cls.pos)).getD .none

/-- The numbers of the classes of a file in their order. -/
def classIds (s : Session) (unit : Nat) : List DeclId :=
  match s.files[unit]? with
  | some r => (classRecords unit none r.path r.file.cls).map Prod.fst
  | none => []

/-- The members of a class. -/
def membersOf (s : Session) (id : DeclId) : List Member :=
  ((s.classes.get? id).map (·.decl.members)).getD []

/-- The variable that a declaration adds to instances. -/
def variableOf (s : Session) (unit : Nat) (d : VarDecl) (index : Nat) : MemberSlot where
  name := d.name.name
  index := index
  getter := if d.getter.isSome then d.getterLabel else (d.getterName.map Ident.name).getD ""
  setter := if d.setter.isSome then d.setterLabel else (d.setterName.map Ident.name).getD ""
  type := .ofStatic s.types (s.note ⟨unit, d.name.pos⟩).type

/-- Adds what a member declares to the tables of its class. -/
def addMember (s : Session) (unit : Nat) (t : Script) : Member → Script
  | .var d => { t with members := t.members ++ [variableOf s unit d t.members.length] }
  | .const d =>
    { t with constants := t.constants ++ [⟨d.name.name, (s.note ⟨unit, d.name.pos⟩).value⟩] }
  | .signal d => { t with signals := t.signals ++ [⟨d.name.name, d.params.map (·.name.name)⟩] }
  | .enum d =>
    match (s.note ⟨unit, d.anchor⟩).value with
    | some v => { t with constants := t.constants ++ [⟨d.nameText, some v⟩] }
    | none => t
  | .enumValue owner i =>
    let m : Member := .enumValue owner i
    let value : Value := .int (s.note ⟨unit, m.anchor⟩).number
    { t with constants := t.constants ++ [⟨m.name, some value⟩] }
  | .cls d =>
    let value : Value := .resource (s.types.classes ⟨unit, d.anchor⟩).fqcn "GDScript" 0
    { t with constants := t.constants ++ [⟨d.nameText, some value⟩] }
  | .func _ | .group _ => t

/-- The tables of a class before its members are added: variables are those of the base. -/
def inherit (t : Script) (ref : ScriptRef) (base : Script) : Script :=
  { t with base := some ref, native := base.native, members := base.members }

/-- The classes inside of a class. -/
def innerIds (s : Session) (id : DeclId) : List DeclId :=
  (membersOf s id).filterMap fun m =>
    match m with
    | .cls d => some ⟨id.unit, d.anchor⟩
    | _ => none

/-- A script of another program. -/
def foreign (number : Nat × Nat) : Compile (ScriptRef × Script) := do
  let ref := ScriptRef.foreign number.1 number.2
  match (← get).library.script? number.1 ref with
  | some (_, s) => return (ref, s)
  | none => return (ref, default)

/-! ### Lowering of a file -/

/-- Lowers the functions of a file whose tables are drafted, as far as there is no fault. -/
def lowerFile (c : Compiler) (unit : Nat) : Program × Option LowerError :=
  let file := c.session.annotated unit
  let main := Session.mainClass unit
  let ctx : LowerContext :=
    { session := c.session, unit, cls := main, script := default, scriptIndex := 0 }
  let ids := classIds c.session unit
  let program (pool : Pool) (scripts : List Script) : Program :=
    { path := file.path
      names := pool.names
      constants := pool.constants.map Prod.snd
      functions := pool.functions
      scripts }
  match Lower.classes c.drafts ids main file.cls ctx {} with
  | (.ok scripts, s) => (program s.gen.pool scripts, none)
  | (.error e, s) =>
    (program s.gen.pool (ids.map fun id => (c.drafts.get? id).getD default), some e)

/-- Adds the program of a file to the library. -/
def addProgram (unit : Nat) (p : Program) : Compile Nat := do
  let c ← get
  let number := c.library.length
  let own := (classIds c.session unit).zipIdx.map fun (id, i) => (id, (number, i))
  set { c with library := c.library ++ [p], scripts := ⟨c.scripts.entries ++ own⟩ }
  return number

/-- Begins the tables of a class. -/
def enter (id : DeclId) (r : ClassRecord) : Compile Unit := do
  let c ← get
  if c.drafting.contains id then report id.unit r.decl.pos (.cyclicClass r.facts.fqcn)
  set { c with drafting := id :: c.drafting, entered := id :: c.entered }
  if let some n := r.decl.name then
    if c.session.env.catalog.hasClass n.name then report id.unit n.pos (.shadowsNative n.name)

/-- The tables of a class without a base. -/
def blank (s : Session) (id : DeclId) (r : ClassRecord) : Script :=
  let ids := classIds s id.unit
  { name := r.decl.nameText
    fullName := r.facts.fqcn
    path := s.pathOf id.unit
    isTool := r.decl.isTool
    outer := r.outer.map ids.idxOf
    subclasses := (innerIds s id).map ids.idxOf }

/-- Adds the members of a class to its tables, and keeps them. -/
def complete (id : DeclId) (r : ClassRecord) (table : Script) : Compile Script := do
  let c ← get
  let table := r.decl.members.foldl (addMember c.session id.unit) table
  set { c with drafts := c.drafts.set id table }
  return table

/-- Adds the program of a file that the analysis has found no error in, after its tables are drafted. -/
def build (unit : Nat) (path : Text) (start : Pos) (draft : Compile Script) : Compile Nat := do
  match ((← get).session.files[unit]?).bind FileRecord.failure with
  | some es => throw (.analysis path es)
  | none =>
    let _ ← draft
    let (p, e) := lowerFile (← get) unit
    modify fun c => { c with trace := c.trace ++ [p] }
    match e with
    | none => addProgram unit p
    | some e => throw (.fault path (e.pos.getD start) e.fault)

mutual

/-- Drafts the tables of a class and of the classes inside of it, after those of its base, with at most
`fuel` classes and files under way. -/
def draft : (fuel : Nat) → DeclId → Compile Script
  | 0, id => report id.unit .none (.cyclicClass "")
  | fuel + 1, id => do
    let c ← get
    match c.drafts.get? id, c.session.classes.get? id with
    | some t, _ => return t
    | none, none => return default
    | none, some r =>
      enter id r
      let blank := blank c.session id r
      let native := c.session.types.nativeOf r.facts.base
      let table ← (match r.facts.base.shape with
        | .cls b _ =>
          if c.session.pathOf b.unit = blank.path then do
            let base ← draft fuel b
            return inherit blank (.own ((classIds c.session id.unit).idxOf b)) base
          else do
            let (ref, base) ← compileBase fuel id.unit r.decl.pos b
            return inherit blank ref base
        | .script b =>
          match c.origins[b]? with
          | some number => do
            let (ref, base) ← foreign number
            return inherit blank ref base
          | none => return { blank with native }
        | _ => return { blank with native } : Compile Script)
      let table ← complete id r table
      (innerIds (← get).session id).forM fun inner => do let _ ← draft fuel inner
      modify fun c => { c with drafting := c.drafting.erase id }
      return table

/-- Compiles the file of a base class and finds the script of the class there. -/
def compileBase : (fuel : Nat) → (unit : Nat) → Pos → DeclId → Compile (ScriptRef × Script)
  | 0, unit, pos, _ => report unit pos (.cyclicClass "")
  | fuel + 1, unit, pos, base => do
    let c ← get
    let name := (c.session.types.classes base).fqcn
    let path := c.session.pathOf base.unit
    let (file, session) := c.session.fetch path
    set { c with session }
    match file with
    | .error f => report unit pos (.base name (f.message path))
    | .ok other =>
      match ← ExceptT.lift (compileFile fuel other) with
      | .error e => report unit pos (.base name e.message)
      | .ok _ =>
        match (← get).scripts.get? base with
        | some number => foreign number
        | none => report unit (startOf c.session unit) (.internal (.baseNotCompiled name))

/-- Analyses and compiles a file, unless that has been done, and records how it ends. -/
def compileFile : (fuel : Nat) → (unit : Nat) → StateM Compiler (Except CompileError Nat)
  | 0, _ => return .error default
  | fuel + 1, unit => do
    let c ← get
    let path := c.session.pathOf unit
    let start := startOf c.session unit
    match c.outcomes.get? path with
    | some (.compiled n) => return .ok n
    | some (.failed e) => return .error e
    | some .compiling => return .error (.fault path start (.cyclicClass path))
    | none =>
      let (_, session) := c.session.raise unit .body
      set { c with session, outcomes := c.outcomes.set path .compiling }
      let r ← (build unit path start (draft fuel (Session.mainClass unit))).run
      let outcome := match r with
        | .ok n => Outcome.compiled n
        | .error e => .failed e
      modify fun c' =>
        { c' with outcomes := c'.outcomes.set path outcome, drafting := c.drafting }
      return r

end

end Compile

namespace Compiler

/-- Compiles a file; the same file again has the same result. -/
def compile (c : Compiler) (unit : Nat) : Except CompileError Nat × Compiler :=
  (Compile.compileFile (c.session.fuel + 4) unit).run c

/-- The full name of the class of a file, if its compilation has been begun. -/
def fullName? (c : Compiler) (unit : Nat) : Option Text :=
  let id := Session.mainClass unit
  if c.entered.contains id then some (c.session.types.classes id).fqcn else none

/-- Forgets which files have been compiled. -/
def reset (c : Compiler) : Compiler :=
  { session := c.session, library := c.library, origins := c.origins }

/-! ### Scripts without a source -/

/-- Makes scripts known to the analysis in compiled form, each after its base; returns the type of the
first one. The list holds a script and its bases. -/
def register (c : Compiler) (native : Text) : List (Nat × Nat) → StaticType × Compiler
  | [] => (.ofNative native, c)
  | number :: bases =>
    match c.origins.findIdx? (· = number) with
    | some i => (.ofScript i, c)
    | none =>
      let (base, c) := c.register native bases
      let script := (c.library[number.1]?).bind fun p => p.scripts[number.2]?
      let facts : ScriptFacts := { path := (script.map Script.fullName).getD "", native, base }
      (.ofScript c.origins.length, { c with
        origins := c.origins ++ [number]
        session := { c.session with scripts := c.session.scripts ++ [facts] } })

/-- A script and its bases by their numbers. -/
def lineageNumbers (l : Library) : Nat → Nat → ScriptRef → List (Nat × Nat)
  | 0, _, _ => []
  | fuel + 1, program, ref =>
    let number := match ref with
      | .own i => (program, i)
      | .foreign p i => (p, i)
    number :: match (l.script? program ref).bind fun (_, s) => s.base with
      | some b => lineageNumbers l fuel number.1 b
      | none => []

/-- Starts again with the script of a program known only in compiled form: nothing is loaded, and no
class is known by name. Compiled scripts stay known by their paths. -/
def keepCompiled (c : Compiler) (program : Nat) : Compiler :=
  let numbers := lineageNumbers c.library c.library.size program (.own 0)
  let main := (c.library[program]?).bind Program.main?
  let (_, c) := c.register ((main.map Script.native).getD "") numbers
  let env := c.session.env
  let path := (main.map Script.path).getD ""
  let id := (c.origins.findIdx? (· = (program, 0))).getD 0
  { session := {
      env := { env with
        globalClasses := {}
        autoloads := {}
        compiled := env.compiled.set path id }
      scripts := c.session.scripts
      loads := c.session.loads }
    library := c.library
    origins := c.origins }

end Compiler

end GameScript
