import GameScript.Analysis.Stmt

/-!
# Passes over a file

A file is analysed in three passes, and the analysis of one file can ask for that of another. The
status of a file rises before a pass runs, so that a request made meanwhile is answered at once with
what is known so far. A file whose pass finds errors goes no further.
-/

/-! ## Bodies of functions

Analyses the functions of a class after those of its base, and warns of signals that are never emitted.
-/

namespace GameScript.Analysis

/-- Analyses the signature and the body of a function, once. -/
def resolveFunctionBody (sub : Steps) (f : Func) : Analysis Func := do
  let id ← localId f.anchor
  if (← note id).hasBody then return f
  modifyNote id ({ · with hasBody := true })
  let f ← resolveSignature sub f
  let before ← focus
  modifyFocus fun x => { x with functions := functionsInside f x.functions }
  for p in f.params do
    setStmt (some p.span)
    checkShadowing p.name .parameter
  setStmt none
  let body ← sub.block f.body
  setFocus before
  let f := { f with body }
  let t := (← note id).type
  if t.isHard && !t.isVariant && !t.isVoid && !f.isConstructor && !body.returns then
    complain f.span .missingReturn
  return f

/-- Analyses the functions of a class, after those of its base, and with the flag those of the classes
inside of it. -/
def resolveClassBody (sub : Steps) (id : DeclId) (recursive : Bool) : Analysis Unit := do
  let c ← classRecord id
  if !c.hasBody then
    modifyClass id ({ · with hasBody := true })
    sub.interface id false
    match (← baseOf id).shape with
    | .cls b _ =>
      let o ← owner b
      if o ≠ (← self) then
        let _ ← sub.raise o .body
      onBehalfOf o (sub.classBody b false)
    | _ => pure ()
    inClass id do
      for m in c.decl.members do
        match m with
        | .func f => resolveStoredBody sub f
        | .var d =>
          d.setter.forM (resolveStoredBody sub)
          d.getter.forM (resolveStoredBody sub)
        | _ => pure ()
  if recursive then
    for inner in innerClasses id c do
      sub.classBody inner true

/-- Warns of the signals of a file that are never emitted. -/
def checkSignals (unit : Nat) : Analysis Unit := do
  for (id, c) in (← get).classes.entries do
    if id.unit = unit then
      for m in c.decl.members do
        match m with
        | .signal d =>
          if (← note ⟨unit, d.name.pos⟩).usages = 0 && !isPrivate d.name.name then
            warn d.span (.unusedSignal d.name.name)
        | _ => pure ()

end GameScript.Analysis

/-! ## Passes over a file -/

namespace GameScript

namespace Analysis

/-- Runs the pass that leads to a status. -/
def runPass (sub : Steps) (unit : Nat) (s : Status) : Analysis Unit := do
  let main := Session.mainClass unit
  modifyFile fun r => { r with passes := r.passes ++ [s] }
  match s with
  | .parsed => pure ()
  | .inheritance =>
    let _ ← sub.inheritance main true
  | .interface => sub.interface main true
  | .body =>
    sub.classBody main true
    checkSignals unit

/-- Runs at most `count` passes until a file has a status or errors; tells whether it has errors. -/
def raiseFrom (sub : Steps) (unit : Nat) (target : Status) : Nat → Analysis Bool
  | 0 => return (← fileRecord unit).failure.isSome
  | count + 1 => do
    let r ← fileRecord unit
    if r.failure.isSome then return true
    if target.number ≤ r.status.number then return false
    onBehalfOf unit do
      let next := r.status.next
      modifyFile ({ · with status := next })
      runPass sub unit next
      modifyFile fun r =>
        if r.errors.isEmpty then r else { r with failure := some r.sortedErrors }
    raiseFrom sub unit target count

/-- Brings the analysis of a file forward to a status; tells whether it has errors. -/
def raise (sub : Steps) (unit : Nat) (target : Status) : Analysis Bool :=
  raiseFrom sub unit target 4

/-- The steps of analysis, nested at most `fuel` deep. -/
def steps : Nat → Steps
  | 0 => default
  | fuel + 1 =>
    { reduce := fun root e unit s => reduce (steps fuel) root e unit s
      block := fun b unit s => resolveBlock (steps fuel) b unit s
      pattern := fun t p unit s => resolvePattern (steps fuel) t p unit s
      functionBody := fun f unit s => resolveFunctionBody (steps fuel) f unit s
      member := fun id m unit s => resolveMember (steps fuel) id m unit s
      inheritance := fun id rec unit s => resolveInheritance (steps fuel) id rec unit s
      interface := fun id rec unit s => resolveInterface (steps fuel) id rec unit s
      classBody := fun id rec unit s => resolveClassBody (steps fuel) id rec unit s
      raise := fun other status unit s => raise (steps fuel) other status unit s }

end Analysis

namespace Session

/-- How deep steps can be nested: each one enters a part of a tree, or a declaration that has not been
entered before. -/
def fuel (s : Session) : Nat :=
  16 * (s.env.extent + total (s.files.map (·.file.extent))) + 1000

/-- Brings the analysis of a file forward to a status; tells whether it has errors. -/
def raise (s : Session) (unit : Nat) (target : Status) : Bool × Session :=
  ((Analysis.steps s.fuel).raise unit target unit).run s

/-! ### Annotated trees -/

/-- A method or an accessor with what was found in it. -/
def annotatedFunc (s : Session) (unit : Nat) (f : Func) : Func :=
  match s.declarations.get? ⟨unit, f.anchor⟩ with
  | some (.func g) => g
  | _ => f

def annotatedVar (s : Session) (unit : Nat) (d : VarDecl) : VarDecl :=
  let found := match s.declarations.get? ⟨unit, d.name.pos⟩ with
    | some (.var e) => e
    | _ => d
  { found with
    setter := d.setter.map (s.annotatedFunc unit)
    getter := d.getter.map (s.annotatedFunc unit) }

def annotatedConst (s : Session) (unit : Nat) (d : ConstDecl) : ConstDecl :=
  match s.declarations.get? ⟨unit, d.name.pos⟩ with
  | some (.const e) => e
  | _ => d

def annotatedSignal (s : Session) (unit : Nat) (d : SignalDecl) : SignalDecl :=
  match s.declarations.get? ⟨unit, d.name.pos⟩ with
  | some (.signal e) => e
  | _ => d

def annotatedEnum (s : Session) (unit : Nat) (d : EnumDecl) : EnumDecl :=
  { d with
    values := d.values.map fun v =>
      match s.declarations.get? ⟨unit, v.name.pos⟩ with
      | some (.enumInit x) => { v with init := some x }
      | _ => v }

mutual

/-- A class with what was found in it. -/
def annotatedClass (s : Session) (unit : Nat) : ClassDecl → ClassDecl
  | ⟨pos, name, base, members, isTool, usesOnready, finish⟩ =>
    ⟨pos, name, base, annotatedMembers s unit members, isTool, usesOnready, finish⟩

def annotatedMembers (s : Session) (unit : Nat) : List Member → List Member
  | [] => []
  | m :: ms => annotatedMember s unit m :: annotatedMembers s unit ms

def annotatedMember (s : Session) (unit : Nat) : Member → Member
  | .var d => .var (s.annotatedVar unit d)
  | .const d => .const (s.annotatedConst unit d)
  | .signal d => .signal (s.annotatedSignal unit d)
  | .enum d => .enum (s.annotatedEnum unit d)
  | .enumValue owner i => .enumValue (s.annotatedEnum unit owner) i
  | .func f => .func (s.annotatedFunc unit f)
  | .cls d => .cls (annotatedClass s unit d)
  | .group d => .group d

end

/-- A file with what was found in it. -/
def annotated (s : Session) (unit : Nat) : File :=
  match s.files[unit]? with
  | some r => { r.file with cls := s.annotatedClass unit r.file.cls }
  | none => default

end Session

end GameScript
