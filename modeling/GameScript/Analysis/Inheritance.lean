import GameScript.Analysis.Monad
import GameScript.Project

/-!
# Inheritance

Determines the base of each class from its `extends` clause. To meet a class again whose base is being
determined means that classes derive from themselves; such classes are reported once each and then have
no known base.
-/

namespace GameScript.Analysis

/-- The type of the class of the script at a path, with the analysis of its file brought forward. -/
def loadScript (sub : Steps) (path : Text) (status : Status) : Analysis ScriptUse := do
  let unit ← self
  let s ← get
  if path = s.pathOf unit then return .ready (← classType (Session.mainClass unit))
  match s.env.compiled.get? path with
  | some id => return .ready (.ofScript id)
  | none =>
    let (r, s) := s.fetch path
    set s
    match r with
    | .error f => return .unavailable f
    | .ok other =>
      let faulty ← sub.raise other status
      let t ← classType (Session.mainClass other)
      return if faulty then .faulty t else .ready t

/-- The name of the class of the current file, if it has that name. -/
def mainClassNamed (name : Text) : Analysis Bool := do
  return (← classFacts (Session.mainClass (← self))).name = some name

/-- Reports each class whose base depends on `id`, which is being resolved, as cyclic. -/
def reportCycle (id : DeclId) : Analysis Unit := do
  let stack := (← get).inheriting
  let involved := if stack.contains id then stack.takeWhile (· ≠ id) ++ [id] else stack.take 1
  for c in involved.reverse do
    if !(← get).cyclic.contains c then
      modify fun s => { s with cyclic := c :: s.cyclic }
      let d := (← classRecord c).decl
      let span := (d.base.map Extends.span).getD d.span
      onBehalfOf (← owner c) (complain span .cyclicInheritance)

/-- Reports a class whose name hides another global name. -/
def checkClassName (id : Ident) (isMain : Bool) : Analysis Unit := do
  let env ← environment
  let name := id.name
  let path := (← current).path
  if (BuiltinType.ofName? name).isSome || name = "Variant" then
    complain id.span (.hidesBuiltinType name)
  else if env.catalog.hasClass name then complain id.span (.hidesNativeClass name)
  else
    let isElsewhere (p : Text) : Bool := !isMain || p ≠ path
    if ((env.globalClasses.get? name).map isElsewhere).getD false then
      complain id.span (.hidesGlobalClass name)
    else if ((env.autoloads.get? name).map fun a => isElsewhere a.path).getD false then
      complain id.span (.hidesAutoload name)

/-- The path of the script that a name stands for everywhere. -/
def scriptNamed (anyAutoload : Bool) (name : Text) : Analysis (Option Text) := do
  let env ← environment
  match env.globalClasses.get? name with
  | some p => return some p
  | none =>
    match env.autoloads.get? name with
    | some a => return if anyAutoload || a.isSingleton then some a.path else none
    | none => return none

/-- Whether a class is known to derive from itself. -/
def isCyclic (id : DeclId) : Analysis Bool := return (← get).cyclic.contains id

/-- The class in source that a name denotes inside the classes around a class. -/
def outerClassNamed (name : Text) : List DeclId → Analysis (Option StaticType)
  | [] => return none
  | o :: os => do
    match ← findMember o name with
    | some (.cls d, c) => return some (← classType ⟨c.unit, (Member.cls d).anchor⟩)
    | _ => outerClassNamed name os

/-- The class that the first name of an `extends` clause denotes. -/
def baseNamed (sub : Steps) (cls : DeclId) (id : Ident) : Analysis (Option StaticType) := do
  let name := id.name
  if ← mainClassNamed name then return some (← classType (Session.mainClass (← self)))
  match ← scriptNamed false name with
  | some path =>
    match ← loadScript sub path .inheritance with
    | .ready t => return some t
    | _ =>
      if !(← isCyclic cls) then complain id.span (.superInheritance name)
      return none
  | none =>
    if (← catalog).hasClass name then return some (.ofNative name)
    match ← outerClassNamed name ((← enclosing cls).drop 1) with
    | some t => return some t
    | none =>
      complain id.span (.unknownBase name)
      return none

/-- The class inside another that further names of an `extends` clause denote. -/
def innerBase (base : StaticType) : List Ident → Analysis (Option StaticType)
  | [] => return some base
  | id :: ids => do
    let inner? ← match base.shape with
      | .cls c _ =>
        match ← findMember c id.name with
        | some (.cls d, o) => pure (some (DeclId.mk o.unit (Member.cls d).anchor))
        | _ => pure none
      | _ => pure none
    match inner? with
    | some inner => innerBase (← classType inner) ids
    | none =>
      complain id.span (.unknownBase id.name)
      return none

/-- The class at the path of an `extends` clause. -/
def baseAt (sub : Steps) (cls : DeclId) (path : Literal) : Analysis (Option StaticType) := do
  let raw := match path.value with
    | .string t => t
    | _ => ""
  match ← loadScript sub (Text.resolvePath (← current).path raw) .inheritance with
  | .ready t => return some t
  | r =>
    if !(← isCyclic cls) then
      match r with
      | .unavailable _ => complain path.span (.superPath raw)
      | _ => complain path.span (.superInheritance raw)
    return none

/-- The type that the `extends` clause of a class denotes. A class without one is reference-counted. -/
def extendsType (sub : Steps) (cls : DeclId) (base : Option Extends) :
    Analysis (Option StaticType) := do
  match base with
  | none => return some (.ofNative "RefCounted")
  | some e =>
    let t? ← match e.path, e.names with
      | some p, names => do
        match ← baseAt sub cls p with
        | some t => innerBase t names
        | none => pure none
      | none, first :: names => do
        match ← baseNamed sub cls first with
        | some t => innerBase t names
        | none => pure none
      | none, [] => pure none
    match t? with
    | none => return none
    | some t =>
      match t.shape with
      | .cls c _ =>
        if ← onBehalfOf (← owner c) (sub.inheritance c false) then
          return some (← classFacts c).type
        else return none
      | _ => return some t

def setFacts (id : DeclId) (f : ClassFacts → ClassFacts) : Analysis Unit :=
  modifyClass id fun c => { c with facts := f c.facts }

/-- Determines the base of a class that has none yet. -/
def resolveBase (sub : Steps) (id : DeclId) (c : ClassRecord) : Analysis Unit := do
  setFacts id fun f => { f with fqcn := c.fullName, type := .ofClass id "" }
  match c.decl.name with
  | some n => checkClassName n c.outer.isNone
  | none => pure ()
  setFacts id fun f => { f with base := { f.base with shape := .resolving } }
  modify fun s => { s with inheriting := id :: s.inheriting }
  let base? ← inClass id (extendsType sub id c.decl.base)
  modify fun s => { s with inheriting := s.inheriting.drop 1 }
  let base := if ← isCyclic id then .variant else base?.getD .variant
  setFacts id fun f => { f with base }
  let ancestor ← nativeOf base
  setFacts id fun f => { f with type := { f.type with shape := .cls id ancestor } }

/-- The classes declared directly in a class. -/
def innerClasses (id : DeclId) (c : ClassRecord) : List DeclId :=
  c.decl.members.filterMap fun m =>
    match m with
    | .cls _ => some ⟨id.unit, m.anchor⟩
    | _ => none

/-- Determines the base of a class and, with the flag, of the classes in it. Tells whether the base of
the class itself is known. -/
def resolveInheritance (sub : Steps) (id : DeclId) (recursive : Bool) : Analysis Bool := do
  let c ← classRecord id
  match c.facts.base.shape with
  | .resolving =>
    reportCycle id
    return false
  | _ =>
    if !c.facts.base.isSet then resolveBase sub id c
    if recursive then
      for inner in innerClasses id c do
        let _ ← sub.inheritance inner true
    match (← baseOf id).shape with
    | .resolving => return false
    | _ => return !(← isCyclic id)

end GameScript.Analysis
