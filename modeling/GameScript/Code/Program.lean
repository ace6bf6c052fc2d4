import GameScript.Code.Assembly
import GameScript.Syntax.Position
import GameScript.Types.Relation

/-!
# Compiled programs

A program is the compiled form of one source file: its scripts, one for each class, the functions of
all of them, and the names and constants that the functions refer to by number. Scripts and functions
refer to each other by their places in the program; only the base of a script may be in another program
of the library.
-/

namespace GameScript

/-! ## Runtime types

What a compiled program knows about a static type: enough to check and to convert values when it runs.
A program read from bytes may hold any numbers, so the kind and the builtin type are kept as numbers.
-/

/-- The description of a type in a compiled program. -/
structure RuntimeType where
  /-- What the type is: one of the numbers below. -/
  kind : UInt8 := 0
  /-- The number of a builtin type. -/
  builtin : UInt8 := 0
  /-- The name of a native class, or the native ancestor of a script. -/
  native : Text := ""
  /-- The full name of a script. -/
  script : Text := ""
  /-- The type of the elements of a typed array. -/
  element : Option RuntimeType := none
deriving Inhabited

namespace RuntimeType

def variantKind : UInt8 := 2
def builtinKind : UInt8 := 3
def nativeKind : UInt8 := 4
def scriptKind : UInt8 := 5

/-- Any value. -/
def variant : RuntimeType := { kind := variantKind }

def ofBuiltin (t : BuiltinType) : RuntimeType :=
  { kind := builtinKind, builtin := t.number.toUInt8 }

/-- A type as listings show it. -/
def text : RuntimeType → Text
  | ⟨kind, builtin, native, script, element⟩ =>
    if kind = builtinKind then
      if builtin = 0 then "void"
      else
        let name := BuiltinType.numberName builtin.toNat
        match element with
        | some e => name ++ "[" ++ e.text ++ "]"
        | none => name
    else if kind = nativeKind then native
    else if kind = scriptKind then script
    else "Variant"

/-- The description of a declared type; a type that was only inferred may be anything. -/
def ofStatic (ctx : TypeContext) : StaticType → RuntimeType
  | ⟨shape, source, element, isMeta, isConst, isCoroutine⟩ =>
    let t : StaticType := ⟨shape, source, element, isMeta, isConst, isCoroutine⟩
    if !t.isHard then variant
    else match shape with
      | .builtin b =>
        { ofBuiltin b with
          element := match element with
            | some e => if e.isHard && !e.isVariant then some (ofStatic ctx e) else none
            | none => none }
      | .enum .. => ofBuiltin .int
      | .native cls => { kind := nativeKind, native := cls }
      | .cls id _ => { kind := scriptKind, script := (ctx.classes id).fqcn, native := ctx.nativeOf t }
      | .script id =>
        { kind := scriptKind, script := (ctx.scripts id).path, native := (ctx.scripts id).native }
      | _ => variant

end RuntimeType

/-! ## Compiled programs -/

/-- A place in the source file of a program. -/
structure Place where
  line : Int := 0
  col : Int := 0
deriving DecidableEq, Inhabited

namespace Place

def ofPos (p : Pos) : Place := ⟨p.line, p.col⟩

def text (p : Place) : Text := Text.ofInt p.line ++ ":" ++ Text.ofInt p.col

end Place

/-- A parameter or a local variable of a function. -/
structure VarSlot where
  name : Text := ""
  place : Place := {}
  type : RuntimeType := {}
deriving Inhabited

/-- A compiled function: a method, an accessor, a lambda, or the implicit initializer of a script. -/
structure Function where
  name : Text := ""
  /-- The number of its script. -/
  script : Option Nat := none
  place : Place := {}
  code : List UInt8 := []
  /-- The captured variables of a lambda come first. -/
  params : List VarSlot := []
  locals : List VarSlot := []
  captures : Int := 0
  /-- How many arguments a call must have, without captured variables. -/
  minArgs : Int := 0
  maxArgs : Int := 0
  /-- Where to start if so many optional arguments are supplied; the last one is the body. -/
  entries : List Nat := []
  maxTemps : Int := 0
  returns : RuntimeType := {}
  isStatic : Bool := false
  isCoroutine : Bool := false
  lines : List LineEntry := []
  /-- How many temporaries the compiler has allocated. -/
  allocated : Nat := 0
  /-- How many temporaries the compiler has released. -/
  released : Nat := 0
deriving Inhabited

/-- A variable of the instances of a script. -/
structure MemberSlot where
  name : Text := ""
  index : Int := 0
  /-- The name of the function that reads it; empty if there is none. -/
  getter : Text := ""
  /-- The name of the function that writes it; empty if there is none. -/
  setter : Text := ""
  type : RuntimeType := {}
deriving Inhabited

/-- A constant of a script: a declared constant, an enumeration or one of its values, or a class. -/
structure NamedConstant where
  name : Text := ""
  /-- No value is known in a damaged program. -/
  value : Option Value := none
deriving Inhabited

structure SignalInfo where
  name : Text := ""
  params : List Text := []
deriving DecidableEq, Inhabited

/-- Where the base of a script is. -/
inductive ScriptRef where
  /-- In the same program. -/
  | own (script : Nat)
  | foreign (program script : Nat)
deriving DecidableEq, Inhabited

/-- A compiled class. -/
structure Script where
  /-- The name of the class; empty for a file without one. -/
  name : Text := ""
  /-- The path of the file and the names of the classes around it and its own. -/
  fullName : Text := ""
  path : Text := ""
  /-- The native class that all instances belong to. -/
  native : Text := ""
  base : Option ScriptRef := none
  /-- The script of the class around. -/
  outer : Option Nat := none
  isTool : Bool := false
  /-- Whether all functions are compiled. -/
  isValid : Bool := false
  /-- The variables of the base come first. -/
  members : List MemberSlot := []
  constants : List NamedConstant := []
  signals : List SignalInfo := []
  subclasses : List Nat := []
  methods : List Nat := []
  /-- Sets the variables of a new instance. -/
  init : Option Nat := none
  /-- Sets the variables that wait for the scene. -/
  ready : Option Nat := none
deriving Inhabited

namespace Script

def member? (s : Script) (name : Text) : Option MemberSlot := s.members.find? (·.name = name)

/-- The value of a constant of the script itself. -/
def constant? (s : Script) (name : Text) : Option NamedConstant := s.constants.find? (·.name = name)

end Script

/-- The compiled form of a source file. -/
structure Program where
  buildId : List UInt8 := List.replicate 16 0
  path : Text := ""
  names : List Text := []
  constants : List Value := []
  functions : List Function := []
  /-- The script of the file first, then those of inner classes, each before the ones inside of it. -/
  scripts : List Script := []
deriving Inhabited

namespace Program

/-- The script of the file. -/
def main? (p : Program) : Option Script := p.scripts.head?

/-- A function by its full name. -/
def functionText (p : Program) (f : Function) : Text :=
  match f.script.bind fun i => p.scripts[i]? with
  | some s => s.fullName ++ "." ++ f.name
  | none => f.name

/-- The position of a place of the source file. -/
def position (p : Program) (place : Place) : Position := .make p.path place.line place.col

end Program

/-- The place of the line that the instruction at `pc` comes from. -/
def Function.placeAt (f : Function) (pc : Nat) : Place :=
  (f.lines.takeWhile (·.pc ≤ pc)).foldl (fun _ e => ⟨e.line, 1⟩) f.place

/-- The programs of a project. -/
abbrev Library := List Program

namespace Library

/-- A script and the number of its program. -/
def script? (l : Library) (program : Nat) : ScriptRef → Option (Nat × Script)
  | .own i => do return (program, ← (← l[program]?).scripts[i]?)
  | .foreign p i => do return (p, ← (← l[p]?).scripts[i]?)

/-- How many scripts there are. -/
def size (l : Library) : Nat := total (l.map (·.scripts.length))

/-- A script and its bases, at most `fuel` of them, each with the number of its program. -/
def lineageFrom (l : Library) : Nat → Nat → ScriptRef → List (Nat × Script)
  | 0, _, _ => []
  | fuel + 1, program, ref =>
    match l.script? program ref with
    | none => []
    | some (p, s) =>
      (p, s) :: match s.base with
        | some b => lineageFrom l fuel p b
        | none => []

/-- A script and its bases. -/
def lineage (l : Library) (program : Nat) (ref : ScriptRef) : List (Nat × Script) :=
  l.lineageFrom l.size program ref

/-- The function of a script or of the nearest of its bases that has one of that name. -/
def method? (l : Library) (program : Nat) (ref : ScriptRef) (name : Text) : Option (Program × Function) :=
  (l.lineage program ref).findSome? fun (p, s) => do
    let program ← l[p]?
    let f ← (s.methods.filterMap fun i => program.functions[i]?).find? (·.name = name)
    return (program, f)

end Library

end GameScript
