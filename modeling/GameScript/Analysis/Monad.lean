import GameScript.Analysis.Session
import GameScript.Text.Spelling

/-!
# Steps of analysis

A step works on a session on behalf of one file: the errors it finds are errors of that file. The
parts of a construct are analysed by the steps of a `Steps` record, so that no definition refers to
itself; the record is tied together at the end.
-/

namespace GameScript

/-- A step of the analysis of the file with a given number. -/
abbrev Analysis := ReaderT Nat (StateM Session)

/-- How the source of another script could be used. -/
inductive ScriptUse where
  | ready (t : StaticType)
  /-- The script has errors of its own. -/
  | faulty (t : StaticType)
  /-- The script could not be loaded or parsed. -/
  | unavailable (f : LoadFailure)

/-- The type of the script's class. -/
def ScriptUse.type : ScriptUse → StaticType
  | ready t | faulty t => t
  | unavailable _ => .variant

/-- Whether a file does not want a warning at a place. -/
def File.ignoresWarning (f : File) (pos : Pos) (code : WarningCode) : Bool :=
  f.ignores.any fun i => !pos.before i.start && !i.finish.before pos && i.codes.contains code.name

namespace Analysis

/-- The steps for the parts of a construct. -/
structure Steps where
  /-- Finds the type and the value of an expression; the flag says that its value is not used. -/
  reduce : Bool → Expr → Analysis Expr
  block : Block → Analysis Block
  pattern : StaticType → Pattern → Analysis Pattern
  /-- Analyses the body of a function. -/
  functionBody : Func → Analysis Func
  /-- Determines the type of a member of a class. -/
  member : DeclId → Member → Analysis Unit
  /-- Determines the base of a class and, with the flag, of the classes in it. -/
  inheritance : DeclId → Bool → Analysis Bool
  /-- Determines the types of the members of a class and, with the flag, of the classes in it. -/
  interface : DeclId → Bool → Analysis Unit
  /-- Analyses the functions of a class and, with the flag, of the classes in it. -/
  classBody : DeclId → Bool → Analysis Unit
  /-- Brings the analysis of a file forward and tells whether the file has errors. -/
  raise : Nat → Status → Analysis Bool

instance : Inhabited Steps :=
  ⟨{ reduce := fun _ e => pure e, block := pure, pattern := fun _ => pure, functionBody := pure,
     member := fun _ _ => pure (), inheritance := fun _ _ => pure false,
     interface := fun _ _ => pure (), classBody := fun _ _ => pure (),
     raise := fun _ _ => pure false }⟩

/-! ### The file and its focus -/

/-- Works on behalf of another file. -/
def onBehalfOf (unit : Nat) (step : Analysis α) : Analysis α := fun _ => step unit

def self : Analysis Nat := read

def fileRecord (unit : Nat) : Analysis FileRecord := do
  match (← get).files[unit]? with
  | some r => return r
  | none => return { file := default }

def current : Analysis FileRecord := do fileRecord (← self)

def modifyFile (f : FileRecord → FileRecord) : Analysis Unit := do
  let unit ← self
  modify fun s => { s with files := s.files.modify unit f }

def focus : Analysis Focus := return (← current).focus

def setFocus (f : Focus) : Analysis Unit := modifyFile ({ · with focus := f })

def modifyFocus (f : Focus → Focus) : Analysis Unit :=
  modifyFile fun r => { r with focus := f r.focus }

/-- Takes a step and returns to the place before. -/
def keepingFocus (step : Analysis α) : Analysis α := do
  let saved ← focus
  let a ← step
  setFocus saved
  return a

/-- Takes a step inside a class, outside of any function. -/
def inClass (id : DeclId) (step : Analysis α) : Analysis α :=
  keepingFocus do
    setFocus { cls := some id }
    step

def setStmt (s : Option Span) : Analysis Unit := modifyFocus ({ · with stmt := s })

/-- The class around. -/
def currentClass : Analysis DeclId := return ((← focus).cls).getD (Session.mainClass (← self))

/-- The innermost function around. -/
def currentFunction : Analysis (Option Func) := return (← focus).functions.head?

/-- The function around that is no lambda, if it is static. -/
def staticFunction : Analysis (Option Func) := do
  match (← focus).functions.find? (!·.isLambda) with
  | some f => return if f.isStatic then some f else none
  | none => return none

/-! ### Facts -/

def environment : Analysis Environment := return (← get).env

def catalog : Analysis Catalog := return (← environment).catalog

def types : Analysis TypeContext := return (← get).types

def typeText (t : StaticType) : Analysis Text := return (← types).text t

def nativeOf (t : StaticType) : Analysis Text := return (← types).nativeOf t

def classRecord (id : DeclId) : Analysis ClassRecord :=
  return ((← get).classes.get? id).getD default

def modifyClass (id : DeclId) (f : ClassRecord → ClassRecord) : Analysis Unit :=
  modify fun s =>
    match s.classes.get? id with
    | some c => { s with classes := s.classes.set id (f c) }
    | none => s

def classFacts (id : DeclId) : Analysis ClassFacts := return (← classRecord id).facts

/-- The type of the base of a class. -/
def baseOf (id : DeclId) : Analysis StaticType := return (← classFacts id).base

/-- The type of instances of a class. -/
def classType (id : DeclId) : Analysis StaticType := return (← types).classType id

def note (id : DeclId) : Analysis Note := return (← get).note id

def modifyNote (id : DeclId) (f : Note → Note) : Analysis Unit :=
  modify fun s => { s with notes := s.notes.set id (f (s.note id)) }

/-- Counts a use of a declaration. -/
def use (id : DeclId) : Analysis Unit := modifyNote id fun n => { n with usages := n.usages + 1 }

def setDeclaration (id : DeclId) (d : Declaration) : Analysis Unit :=
  modify fun s => { s with declarations := s.declarations.set id d }

/-- The declaration with a name at a place of the class around. -/
def localId (anchor : Pos) : Analysis DeclId := return ⟨(← currentClass).unit, anchor⟩

/-- A new resource. -/
def newResource (path cls : Text) : Analysis Value := do
  let s ← get
  set { s with resources := s.resources + 1 }
  return .resource path cls s.resources

/-- The constant that denotes a class. -/
def classValue (id : DeclId) : Analysis Value := do
  newResource (← classRecord id).fullName "GDScript"

/-- The file whose analysis a class belongs to. -/
def owner (id : DeclId) : Analysis Nat := do
  let s ← get
  let unit ← self
  let path := s.pathOf id.unit
  if path = s.pathOf unit then return unit
  else match s.cache.get? path with
    | some (.loaded u) => return u
    | _ => return unit

/-- A class and the classes around it, the innermost first; at most `fuel` of them. -/
def enclosingFrom : Nat → DeclId → Analysis (List DeclId)
  | 0, _ => return []
  | fuel + 1, id => do
    match (← classRecord id).outer with
    | some o => return id :: (← enclosingFrom fuel o)
    | none => return [id]

/-- A class and the classes around it, the innermost first. -/
def enclosing (id : DeclId) : Analysis (List DeclId) := do
  enclosingFrom ((← get).classes.entries.length + 1) id

/-- A class and the classes in source that it derives from, at most `fuel` of them. -/
def lineageFrom : Nat → DeclId → Analysis (List DeclId)
  | 0, _ => return []
  | fuel + 1, id => do
    match (← baseOf id).shape with
    | .cls b _ => return id :: (← lineageFrom fuel b)
    | _ => return [id]

/-- A class and the classes in source that it derives from. -/
def lineage (id : DeclId) : Analysis (List DeclId) := do
  lineageFrom ((← get).classes.entries.length + 1) id

/-- The member of a class, or of a class in source that it derives from, and the class that has it. -/
def findMember (id : DeclId) (name : Text) : Analysis (Option (Member × DeclId)) := do
  for c in ← lineage id do
    match (← classRecord c).decl.member? name with
    | some (.group _) | none => pure ()
    | some m => return some (m, c)
  return none

/-! ### Reports -/

/-- Marks the lines of the statement around as unchecked, or those of a span if there is none. -/
def mark (s : Span) : Analysis Unit :=
  modifyFile fun r =>
    let s := r.focus.stmt.getD s
    let lines := (List.range (s.finish.line + 1 - s.start.line)).map (s.start.line + ·)
    { r with uncheckedLines := lines ++ r.uncheckedLines }

/-- Reports an error at the start of a span. -/
def complain (s : Span) (c : Complaint) : Analysis Unit := do
  modifyFile fun r => { r with errors := ⟨s.start, c⟩ :: r.errors }
  mark s

/-- Reports a warning at the start of a span, unless it is not wanted. -/
def warn (s : Span) (c : Caution) : Analysis Unit := do
  if c.code.isUnchecked then mark s
  let options := (← environment).options
  if options.disabled.contains c.code || (← current).file.ignoresWarning s.start c.code then return
  if options.warningsAsErrors then
    modifyFile fun r => { r with errors := ⟨s.start, .caution c⟩ :: r.errors }
  else modifyFile fun r => { r with warnings := ⟨s.start, c⟩ :: r.warnings }

/-! ### Types -/

/-- Whether a value of one type fits another. -/
def fits (implicit : Bool) (target source : StaticType) : Analysis Bool :=
  return (← types).compatible implicit target source

/-- Whether the value of an expression fits a type; warns of a number that stands for an
enumeration value. -/
def accepts (target source : StaticType) (x : Option Expr) : Analysis Bool := do
  let ok ← fits true target source
  match x, source.shape with
  | some x, .builtin _ =>
    if ok && target.isEnum then
      warn x.span .intAsEnum
      match x.value? with
      | some (.int i) =>
        if !target.hasEnumValue i then warn x.span (.intOutsideEnum i (← typeText target))
      | _ => pure ()
  | _, _ => pure ()
  return ok

/-- Whether storing a value loses a fraction. -/
def narrows (target source : StaticType) : Bool := target.isBuiltin .int && source.isBuiltin .float

/-- The expression with a constant value. -/
def constant (v : Value) (info : Info) : Info := { info with value := some v, type := .ofValue v }

/-- The name of a function for messages. -/
def functionName : Option Func → Text
  | some f => (f.name.map Ident.name).getD "<anonymous lambda>"
  | none => "<anonymous lambda>"

/-- The name of a class for messages. -/
def className (id : DeclId) : Analysis Text := do
  let c ← classRecord id
  match c.facts.name, c.outer with
  | some n, _ => return n
  | none, none => return "<main>"
  | none, some _ => return c.facts.fqcn

end Analysis

end GameScript
