import GameScript.Analysis.Declare

/-!
# Signatures of functions

The types of parameters and results, and whether a method agrees with the one that it overrides.
-/

namespace GameScript

/-- What a call or an overriding method has to agree with. -/
structure FunctionType where
  params : List StaticType := []
  /-- How many of the last parameters may be left out. -/
  defaults : Nat := 0
  /-- Whether more arguments may follow. -/
  vararg : Bool := false
  result : StaticType := {}
  isStatic : Bool := false
  /-- The signature of a function that is not declared in source. -/
  method : Option Signature := none
  /-- The declaration of a function in source. -/
  declaration : Option DeclId := none

namespace FunctionType

/-- The type of a native, builtin or global function. -/
def ofSignature (db : Catalog) (s : Signature) : FunctionType :=
  { params := s.params.map fun p => db.typeOf p.type
    defaults := s.defaults.length
    vararg := s.vararg
    result := db.typeOf s.returns
    isStatic := s.isStatic
    method := some s }

/-- The types of parameters, with a mark at those that may be left out. -/
def paramTexts (ctx : TypeContext) (required : Nat) : List StaticType → List Text
  | [] => []
  | t :: ts =>
    let name : Text := if t.isVoid then "Variant" else ctx.text t
    (if required = 0 then name ++ " = <default>" else name) ::
      paramTexts ctx (required - 1) ts

/-- A function type as messages show it. -/
def text (ctx : TypeContext) (f : FunctionType) (name : Text) : Text :=
  let result : Text := if f.result.isVariant then "Variant"
    else if f.result.isVoid then "void"
    else ctx.text f.result
  name ++ "(" ++ Text.join ", " (paramTexts ctx (f.params.length - f.defaults) f.params) ++
    ") -> " ++ result

/-- Whether a method may override another. -/
def overrides (ctx : TypeContext) (f parent : FunctionType) : Bool :=
  f.isStatic = parent.isStatic && ctx.equal parent.result f.result &&
    parent.params.length ≤ f.params.length &&
    parent.defaults + (f.params.length - parent.params.length) ≤ f.defaults &&
    (parent.params.zip f.params).all fun (p, q) => ctx.equal p q

end FunctionType

/-- Whether a function initializes the instances of its class. -/
def Func.isConstructor (f : Func) : Bool := f.isMethod && f.nameText = "_init"

/-- The type of a function declared in a file, as far as it is resolved. -/
def Session.functionType (s : Session) (unit : Nat) (f : Func) : FunctionType :=
  { params := f.params.map fun p => (s.note ⟨unit, p.name.pos⟩).type
    defaults := (f.params.filter (·.default.isSome)).length
    result := (s.note ⟨unit, f.anchor⟩).type
    isStatic := f.isStatic
    declaration := some ⟨unit, f.anchor⟩ }

/-- A declared function as messages show it. -/
def Session.signatureText (s : Session) (unit : Nat) (f : Func) : Text :=
  (s.functionType unit f).text s.types (Analysis.functionName (some f))

namespace Analysis

/-- The functions around the place inside a function. -/
def functionsInside (f : Func) (around : List Func) : List Func :=
  if f.isLambda then f :: around else [f]

/-- The method that a method of a class overrides, and the native class of one that the engine does not
call. -/
def parentFunction (sub : Steps) (cls : DeclId) (name : Text) :
    Analysis (Option (FunctionType × Text)) := do
  let base ← baseOf cls
  let declared? ← match base.shape with
    | .cls b _ => findMember b name
    | _ => pure none
  match declared? with
  | some (.func f, o) =>
    sub.member o (.func f)
    return some ((← get).functionType o.unit f, "")
  | some _ => return none
  | none =>
    let native ← nativeOf base
    if native.isEmpty then return none
    match (← catalog).method? native name with
    | some m =>
      return some (.ofSignature (← catalog) m, if m.isVirtual then "" else native)
    | none => return none

/-- Checks that a method agrees with the one that it overrides. -/
def checkOverride (sub : Steps) (f : Func) : Analysis Unit := do
  let cls ← currentClass
  match ← parentFunction sub cls f.nameText with
  | none => pure ()
  | some (parent, native) =>
    let ctx ← types
    if !((← get).functionType cls.unit f).overrides ctx parent then
      complain f.span (.overrideSignature (parent.text ctx f.nameText))
    if !native.isEmpty then warn f.span (.nativeOverride f.nameText native)

/-- Resolves the parameters of a function. -/
def resolveParams (sub : Steps) (f : Func) : Analysis (List Param) := do
  let before ← focus
  modifyFocus fun x =>
    { x with
      functions := functionsInside f x.functions
      scope := f.body.locals.map Local.name :: x.scope }
  let params ← f.params.mapM fun p => do
    setStmt (some p.span)
    let r ← resolveBinder sub ⟨.param, p.name, p.spec, p.infer, p.default⟩
    modifyNote (← localId p.name.pos) ({ · with type := r.type, converts := r.converts })
    return { p with spec := r.spec, default := r.init }
  setFocus before
  return params

/-- Resolves the written result type of a function, and what it returns. -/
def resolveResult (sub : Steps) (f : Func) : Analysis (Option TypeSpec × StaticType) := do
  if f.isConstructor then
    let t := (← classFacts (← currentClass)).type.asInstance
    match f.returns with
    | none => return (none, t)
    | some r =>
      let r ← resolveType sub true r
      if !r.type.isVoid then complain r.span .constructorReturnType
      return (some r, t)
  else match f.returns with
    | some r =>
      let r ← resolveType sub true r
      return (some r, r.type)
    | none =>
      if f.isMethod && !(← environment).options.allowUntyped then
        complain f.span (.untypedFunction (functionName (some f)))
      return (none, StaticType.variant.withSource .inferred)

/-- Resolves the types of the parameters and of the result of a function, unless that is done. One that
needs itself is an error. -/
def resolveSignature (sub : Steps) (f : Func) : Analysis Func := do
  let id ← localId f.anchor
  let n ← note id
  if n.isResolved then return f
  if n.isBusy then
    complain f.span (.cyclicFunction (functionName (some f)))
    return f
  modifyNote id ({ · with isBusy := true })
  let params ← resolveParams sub f
  let (returns, type) ← resolveResult sub f
  modifyNote id ({ · with type, isResolved := true })
  let f := { f with params, returns }
  if f.isMethod && !f.isConstructor then checkOverride sub f
  modifyNote id ({ · with isBusy := false })
  return f

/-- A method or an accessor as far as it is analysed. -/
def storedFunction (f : Func) : Analysis Func := do
  match (← get).declarations.get? (← localId f.anchor) with
  | some (.func g) => return g
  | _ => return f

/-- Resolves the signature of a method or an accessor. -/
def resolveStored (sub : Steps) (f : Func) : Analysis Unit := do
  let id ← localId f.anchor
  if !(← note id).isResolved then
    let g ← resolveSignature sub (← storedFunction f)
    let latest ← storedFunction f
    setDeclaration id (.func { latest with params := g.params, returns := g.returns })

/-- Analyses the body of a method or an accessor, unless that is done or being done. -/
def resolveStoredBody (sub : Steps) (f : Func) : Analysis Unit := do
  let id ← localId f.anchor
  if !(← note id).hasBody then
    let g ← sub.functionBody (← storedFunction f)
    setDeclaration id (.func g)

end Analysis

end GameScript
