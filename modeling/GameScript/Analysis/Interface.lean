import GameScript.Analysis.Function

/-!
# Members of classes

Determines the types of the members of a class without entering the bodies of functions. Members are
resolved when they are needed, in any order; one that needs itself is an error.
-/

namespace GameScript.Analysis

/-! ### Accessors -/

/-- The method that a property names as its setter or getter, with its signature resolved. -/
def accessorNamed (sub : Steps) (name : Text) : Analysis (Option (Func × FunctionType)) := do
  match ← findMember (← currentClass) name with
  | some (.func f, o) =>
    sub.member o (.func f)
    return some (f, (← get).functionType o.unit f)
  | _ => return none

/-- Checks the method that a property names as its getter; returns what it returns if it can be one. -/
def checkGetter (sub : Steps) (d : VarDecl) (type : StaticType) (id : Ident) :
    Analysis (Option StaticType) := do
  match ← accessorNamed sub id.name with
  | none =>
    complain d.span (.getterMissing id.name)
    return none
  | some (f, t) =>
    if !f.params.isEmpty then
      complain d.span (.getterSignature id.name)
      return none
    else if !(← accepts type t.result none) then
      complain d.span (.getterType (← typeText t.result) (← typeText type))
      return none
    else
      if narrows type t.result then warn d.span .narrowing
      return some t.result

/-- Checks the method that a property names as its setter; returns what it takes if it can be one. -/
def checkSetter (sub : Steps) (d : VarDecl) (type : StaticType) (id : Ident) :
    Analysis (Option StaticType) := do
  match ← accessorNamed sub id.name with
  | none =>
    complain d.span (.setterMissing id.name)
    return none
  | some (_, t) =>
    match t.params with
    | [p] =>
      if !(← accepts type p none) then
        complain d.span (.setterType (← typeText p) (← typeText type))
        return none
      else
        if narrows type p then warn d.span .narrowing
        return some p
    | _ =>
      complain d.span (.setterSignature id.name)
      return none

/-- Resolves the setter and the getter of a property and checks them against its type. -/
def resolveAccessors (sub : Steps) (d : VarDecl) (type : StaticType) : Analysis Unit := do
  let plain := { type with isConst := false }
  match d.setter with
  | some f =>
    resolveStored sub f
    match f.params with
    | p :: _ =>
      if p.spec.isNone then modifyNote (← localId p.name.pos) ({ · with type := plain })
    | [] => pure ()
    modifyNote (← localId f.anchor) ({ · with type := .ofBuiltin .nil })
  | none => pure ()
  match d.getter with
  | some f =>
    resolveStored sub f
    modifyNote (← localId f.anchor) ({ · with type := plain })
  | none => pure ()
  let getter ← match d.getterName with
    | some id => checkGetter sub d type id
    | none => pure none
  let setter ← match d.setterName with
    | some id => checkSetter sub d type id
    | none => pure none
  match getter, setter with
  | some g, some s =>
    if type.isVariant then
      if !(← accepts g s none) then
        complain d.span (.accessorTypes (← typeText g) (← typeText s))
  | _, _ => pure ()

/-! ### Variables, signals and enumerations -/

/-- Checks the markers of a member variable. -/
def checkMarkers (d : VarDecl) (type : StaticType) : Analysis Unit := do
  if d.isExport && d.spec.isNone && d.init.isNone then complain d.span .exportWithoutType
  if d.onready then
    if d.isExport then warn d.span .onreadyExport
    let native ← nativeOf (← classFacts (← currentClass)).type
    if !(← catalog).isSubclass native "Node" then complain d.span .onreadyOutsideNode
  if type.isEnum && d.init.isNone then warn d.span (.enumWithoutDefault d.name.name)

/-- Resolves a member variable, unless that is done. -/
def resolveVar (sub : Steps) (d : VarDecl) : Analysis Unit := do
  let id ← localId d.name.pos
  let n ← note id
  if n.type.isSet then return
  if n.isBusy then
    complain d.name.span (.cyclicMember d.name.name)
    return
  modifyNote id ({ · with isBusy := true })
  setStmt (some d.span)
  let r ← resolveBinder sub ⟨.var, d.name, d.spec, d.infer, d.init⟩
  modifyNote id fun n =>
    { n with type := r.type, converts := r.converts, isInitialized := d.init.isSome }
  if d.hasAccessors then resolveAccessors sub d r.type
  checkMarkers d r.type
  setDeclaration id (.var { d with spec := r.spec, init := r.init })
  modifyNote id ({ · with isBusy := false })

/-- Resolves the parameters of a signal, unless that is done. -/
def resolveSignal (sub : Steps) (d : SignalDecl) : Analysis Unit := do
  let id ← localId d.name.pos
  if (← note id).type.isSet then return
  setStmt (some d.span)
  let params ← d.params.mapM fun p => do
    let spec ← match p.spec with
      | some s => some <$> resolveType sub false s
      | none => pure none
    let type := (spec.map TypeSpec.type).getD .variant
    modifyNote (← localId p.name.pos) ({ · with type })
    return { p with spec }
  setDeclaration id (.signal { d with params })
  modifyNote id ({ · with type := .ofBuiltin .signal })

/-- Computes the initial value of an enumeration value. -/
def enumInitial (sub : Steps) (e : EnumDecl) (v : EnumValue) (x : Expr) : Analysis (Option Int64) := do
  let before ← focus
  modifyFocus ({ · with enum := some e, stmt := some v.span })
  let x ← sub.reduce false x
  modifyFocus ({ · with enum := before.enum, stmt := before.stmt })
  setDeclaration (← localId v.name.pos) (.enumInit x)
  match x.value? with
  | some (.int i) => return some i
  | some _ =>
    complain x.span .enumNotInteger
    return none
  | none =>
    complain x.span .enumNotConstant
    return none

/-- Computes an enumeration value, unless that is done: its initial value, or one more than the value
before, which `previous` computes. -/
def enumValueStep (sub : Steps) (e : EnumDecl) (v : EnumValue) (previous : Option (Analysis Int64)) :
    Analysis Unit := do
  let id ← localId v.name.pos
  let n ← note id
  if n.isResolved then return
  if n.isBusy then
    complain v.name.span (.cyclicMember v.name.name)
    return
  modifyNote id ({ · with isBusy := true })
  match previous with
  | some p =>
    let i ← p
    modifyNote id ({ · with value := some (.int (i + 1)) })
  | none => pure ()
  match v.init with
  | some x =>
    match ← enumInitial sub e v x with
    | some i => modifyNote id ({ · with value := some (.int i) })
    | none => pure ()
  | none => pure ()
  modifyNote id ({ · with isResolved := true, isBusy := false })

/-- The value at an index of an enumeration. -/
def enumValueAt (e : EnumDecl) (i : Nat) : EnumValue := e.values[i]?.getD default

/-- Computes the enumeration value at an index. -/
def resolveEnumValue (sub : Steps) (e : EnumDecl) : Nat → Analysis Unit
  | 0 => enumValueStep sub e (enumValueAt e 0) none
  | i + 1 =>
    enumValueStep sub e (enumValueAt e (i + 1)) <| some do
      resolveEnumValue sub e i
      return (← note (← localId (enumValueAt e i).name.pos)).number

/-- The name of the type of an enumeration of a class. -/
def enumTypeName (cls : DeclId) (name : Text) : Analysis Text := do
  if (← classRecord cls).outer.isNone then return name
  else return (← className cls) ++ "." ++ name

/-- Resolves an enumeration and its values, unless that is done. -/
def resolveEnum (sub : Steps) (e : EnumDecl) : Analysis Unit := do
  let id ← localId e.anchor
  if (← note id).type.isSet then return
  let entries ← (List.range e.values.length).mapM fun i => do
    resolveEnumValue sub e i
    let v := enumValueAt e i
    return (⟨v.name.name, (← note (← localId v.name.pos)).number⟩ : EnumEntry)
  match e.name with
  | none => modifyNote id ({ · with type := .ofBuiltin .int })
  | some n =>
    let t := (StaticType.ofEnum (← enumTypeName (← currentClass) n.name) "" entries).named
    modifyNote id ({ · with type := t, value := some t.enumDictionary })

/-! ### Members -/

/-- Determines the type of a member of a class. -/
def resolveMember (sub : Steps) (cls : DeclId) (m : Member) : Analysis Unit := do
  onBehalfOf (← owner cls) <| inClass cls do
    match m with
    | .var d => resolveVar sub d
    | .const d =>
      let id ← localId d.name.pos
      if !(← note id).type.isSet then
        let d ← resolveConst sub d
        if (← note id).type.isSet then setDeclaration id (.const d)
    | .signal d => resolveSignal sub d
    | .enum d => resolveEnum sub d
    | .enumValue owner i => resolveEnumValue sub owner i
    | .func f => resolveStored sub f
    | .cls _ =>
      let _ ← sub.inheritance ⟨cls.unit, m.anchor⟩ false
    | .group _ => pure ()

/-- Checks that a member has a name of its own. -/
def checkMemberName (cls : DeclId) (m : Member) : Analysis Unit := do
  let name := m.name
  if name.isEmpty || m.kind = .group then return
  let c ← classRecord cls
  let span := m.span
  match c.decl.member? name with
  | some first =>
    if first.anchor ≠ m.anchor then
      complain span (.duplicateMember m.kind.name.capitalize name first.kind.name)
      return
  | none => pure ()
  match c.facts.base.shape with
  | .cls b _ =>
    match ← findMember b name with
    | some (previous, o) =>
      if previous.kind ≠ .func || m.kind ≠ .func then
        complain span (.memberOfParent name (← typeText (← classFacts o).type))
        return
    | none => pure ()
  | _ => pure ()
  let db ← catalog
  let native ← nativeOf c.facts.type
  if !native.isEmpty then
    if (db.signal? native name).isSome || (db.property? native name).isSome ||
        (db.constant? native name).isSome || name = "script" then
      complain span (.memberOfNative name native)
      return
  if m.kind ≠ .cls && db.hasClass name then complain span (.memberShadowsClass name)
  else if (BuiltinType.ofName? name).isSome then complain span (.memberNamedAsType name)

/-- Determines the types of the members of a class, after those of its base, and with the flag also in
the classes inside of it. -/
def resolveInterface (sub : Steps) (id : DeclId) (recursive : Bool) : Analysis Unit := do
  let c ← classRecord id
  if !c.hasInterface then
    modifyClass id ({ · with hasInterface := true })
    if !(← sub.inheritance id false) then return
    match (← baseOf id).shape with
    | .cls b _ =>
      let o ← owner b
      if o ≠ (← self) then
        let _ ← sub.raise o .interface
      onBehalfOf o (sub.interface b false)
    | _ => pure ()
    for m in c.decl.members do
      sub.member id m
      checkMemberName id m
  if recursive then
    for inner in innerClasses id c do
      sub.interface inner true

end GameScript.Analysis
