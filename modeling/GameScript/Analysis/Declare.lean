import GameScript.Analysis.Lookup

/-!
# Declarations of values

Variables, constants and parameters: the type that a declaration gives to a name, from the written type
and the initial value.
-/

namespace GameScript.Analysis

/-- The type of a list and its value, once its elements are known to be of a type. -/
def typedList (elements : List Value) (element : StaticType) : Value :=
  let convert (v : Value) : Value :=
    match element.shape with
    | .builtin b =>
      if v.type ≠ b then
        match v.convert b with
        | .ok c => c
        | .error _ => v
      else v
    | _ => v
  .array .array .nil "" (elements.map convert) true

/-- Whether all elements of a list fit a type; reports the first that does not. -/
def checkElements (element : StaticType) : List Expr → Analysis Bool
  | [] => return true
  | e :: es => do
    if e.type.isVariant || !e.type.isHard then
      mark e.span
      checkElements element es
    else if ← accepts element e.type (some e) then checkElements element es
    else
      complain e.span (.listElement (← typeText e.type) (← typeText element))
      return false

/-- Gives the type of a typed array to a list; other expressions stay as they are. -/
def updateList (t : StaticType) (x : Expr) : Analysis Expr := do
  match x, t.element with
  | .list pos items close info, some element =>
    if ← checkElements element items then
      let type := { t with source := .explicit, isConst := false, isMeta := false }
      let value := match info.value with
        | some (.array _ _ _ elements _) => some (typedList elements element)
        | v => v
      return .list pos items close { info with type, value }
    else return x
  | _, _ => return x

/-- A declaration that binds a name to a value. -/
structure Binder where
  kind : BinderKind
  name : Ident
  spec : Option TypeSpec
  infer : Bool
  init : Option Expr

/-- What a declaration is found to be. -/
structure Bound where
  type : StaticType
  /-- Whether the initial value is converted when it is assigned. -/
  converts : Bool := false
  spec : Option TypeSpec
  init : Option Expr

/-- Checks that a type can be taken from the initial value. -/
def checkInitial (b : Binder) (x : Expr) : Analysis Unit := do
  let name := b.name.name
  let t := x.type
  if b.kind = .const && !x.isConstant then complain x.span (.notConstant b.kind name)
  if b.infer then
    if !t.isSet then complain x.span (.inferUnset b.kind name)
    else if t.isVariant && !t.isHard then complain x.span (.inferVariant b.kind name)
    else if t.isVoid && b.kind ≠ .const then complain x.span (.inferNull b.kind name)
  else if !t.isSet then complain x.span (.unresolvedInitial b.kind name)

/-- The type of a declaration that takes it from its initial value. -/
def inferredType (b : Binder) (t : StaticType) : StaticType :=
  if b.infer || b.kind = .const then
    let t := if !t.isSet || (t.isVoid && b.kind ≠ .const) then .variant else t
    t.withSource .fromInitial
  else .variant

/-- Checks an initial value against the written type and tells whether it is converted. -/
def checkAgainst (b : Binder) (specified : StaticType) (x : Expr) : Analysis Bool := do
  let t := x.type
  if specified.isVariant then return false
  else if t.isVariant || !t.isHard then
    mark x.span
    return true
  else if ← accepts specified t (some x) then
    if narrows specified t then warn x.span .narrowing
    return specified.needsConversion t
  else
    let isDowncast ← fits true t specified
    if b.kind ≠ .const && isDowncast then
      mark x.span
      return true
    else
      complain x.span
        (.initialType (← typeText t) b.kind b.name.name (← typeText specified))
      return false

/-- The type of a declaration. One with neither a type nor an inferred one is untyped, whatever its
initial value; a constant has the type of its value. -/
def resolveBinder (sub : Steps) (b : Binder) : Analysis Bound := do
  let spec ← match b.spec with
    | some s => some <$> resolveType sub false s
    | none => pure none
  let specified := spec.map TypeSpec.type
  let mut type := specified.getD .variant
  let mut converts := false
  let mut init := b.init
  match b.init with
  | none => pure ()
  | some x =>
    let x ← sub.reduce false x
    let x ← updateList (specified.getD {}) x
    init := some x
    checkInitial b x
    match specified with
    | none => type := inferredType b x.type
    | some s => converts ← checkAgainst b s x
  if b.spec.isNone && !b.infer && b.kind ≠ .const && !(← environment).options.allowUntyped then
    complain b.name.span (.untyped b.kind b.name.name)
  return { type := { type with isConst := b.kind = .const }, converts, spec, init }

/-- The value of a constant of a declared type. -/
def declaredValue (t : StaticType) (v : Value) : Value :=
  match t.shape with
  | .builtin b =>
    if !t.isMeta && v.type ≠ b then
      match v.convert b with
      | .ok c => c
      | .error _ => v
    else v
  | _ => v

/-- Resolves a constant, unless that is done; one that needs itself is an error. -/
def resolveConst (sub : Steps) (d : ConstDecl) : Analysis ConstDecl := do
  let id ← localId d.name.pos
  let n ← note id
  if n.type.isSet then return d
  if n.isBusy then
    complain d.name.span (.cyclicMember d.name.name)
    return d
  modifyNote id ({ · with isBusy := true })
  setStmt (some d.span)
  let r ← resolveBinder sub ⟨.const, d.name, d.spec, d.infer, some d.init⟩
  let init := r.init.getD d.init
  modifyNote id fun n =>
    { n with
      isBusy := false
      type := r.type
      value := match init.value? with
        | some v => some (declaredValue r.type v)
        | none => n.value }
  return { d with spec := r.spec, init }

end GameScript.Analysis
