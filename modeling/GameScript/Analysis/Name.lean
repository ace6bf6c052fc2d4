import GameScript.Analysis.Interface
import GameScript.Value.Function

/-!
# Names in expressions

A name denotes, in this order: a value of the enumeration being declared, a local, a member of the
classes around, or something that is known everywhere.
-/

namespace GameScript.Analysis

/-! ### Locals -/

/-- Adds a name to those that a lambda reads, once for each local. -/
def captureIn (lambda : DeclId) (id : Ident) : Analysis Unit :=
  modifyNote lambda fun n =>
    if n.captures.any (·.binding = id.binding) then n
    else { n with captures := n.captures ++ [id] }

/-- The lambdas between the current place and the function that declares a local. -/
def lambdasUpTo (function : Pos) : List Func → List Func
  | [] => []
  | f :: fs => if f.pos ≠ function && f.isLambda then f :: lambdasUpTo function fs else []

/-- A name that refers to a local. A lambda between the use and the declaration captures it. -/
def reduceLocal (id : Ident) (r : LocalRef) : Analysis Ident := do
  let decl ← localId r.anchor
  let n ← note decl
  use decl
  let id := { id with info := { id.info with type := n.type, value := n.value } }
  for f in lambdasUpTo r.function (← focus).functions do
    captureIn (← localId f.anchor) id
  return id

/-! ### Names known everywhere -/

/-- The names that can be meant at the current place. -/
def namesInScope : Analysis (List Text) := do
  let x ← focus
  let env ← environment
  let cls ← currentClass
  let mut names := x.block.flatten
  for c in ← enclosing cls do
    for k in ← lineage c do
      names := names ++ ((← classRecord k).decl.members.map Member.name).filter (!·.isEmpty)
  let native ← nativeOf (← classType cls)
  if !native.isEmpty then names := names ++ env.catalog.memberNames native
  return names ++ env.globalClasses.keys ++
    (env.autoloads.entries.filter (·.2.isSingleton)).map Prod.fst ++ env.catalog.classNames

/-- Whether a path is that of a script. -/
def isScriptPath (path : Text) : Analysis Bool :=
  return (← environment).compiled.has path || path.endsWith ".gd"

/-- What a name means that stands for an enumeration known everywhere. -/
def enumInfo (t : StaticType) : Info := { type := t.named, value := some t.enumDictionary }

/-- What the name of a class known everywhere means. -/
def globalClassInfo (sub : Steps) (id : Ident) (path : Text) : Analysis Info := do
  match ← loadScript sub path .inheritance with
  | .unavailable _ =>
    complain id.span (.globalClassLoad id.name path)
    return {}
  | r =>
    let value ← match r.type.shape with
      | .cls c _ => some <$> classValue c
      | _ => pure none
    return { type := r.type.named, value }

/-- What the name of a singleton script means. -/
def autoloadInfo (sub : Steps) (id : Ident) (path : Text) : Analysis Info := do
  if !(← isScriptPath path) then return { type := .ofNative "Node" }
  match ← loadScript sub path .inheritance with
  | .unavailable _ =>
    complain id.span (.autoloadLoad id.name path)
    return {}
  | r => return { type := r.type }

/-- What a name means that is neither local nor a member. Only in front of a point, an index or a call
may a builtin type stand. -/
def globalInfo (sub : Steps) (id : Ident) (asBase : Bool) : Analysis Info := do
  let name := id.name
  let env ← environment
  let db := env.catalog
  match (BuiltinType.ofName? name).filter (· ≠ .object) with
  | some t =>
    if asBase then return { type := (StaticType.ofBuiltin t).named }
    complain id.span .typeAsName
    return {}
  | none =>
  if db.hasClass name then return { type := (StaticType.ofNative name).named }
  match env.globalClasses.get? name with
  | some path => globalClassInfo sub id path
  | none =>
  match (env.autoloads.get? name).filter Autoload.isSingleton with
  | some a => autoloadInfo sub id a.path
  | none =>
  match db.singleton? name with
  | some cls => return { type := .ofNative cls }
  | none =>
  match db.global? name with
  | some v => return constant v {}
  | none =>
  match db.enumType? name with
  | some t => return enumInfo t
  | none =>
  if (GlobalFunction.utility? name).isSome || (GlobalFunction.language? name).isSome then
    complain id.span (.functionAsName name)
  else complain id.span (.unknownName name (name.suggestion (← namesInScope)))
  return {}

/-! ### Members -/

/-- Reports what a static function cannot use, and notes the use of the instance. -/
def checkInstanceUse (id : Ident) (f : Found) : Analysis Unit := do
  let report (what : Text) : Analysis Unit := do
    match ← staticFunction with
    | some g => complain id.span (.fromStatic what id.name (functionName (some g)))
    | none => pure ()
    useSelf
  match f.kind with
  | .var => report "instance variable"
  | .signal => report "signal"
  | .func => if !f.isStatic then useSelf
  | _ => pure ()

/-- A name that denotes a member of the classes around. Of the outer classes only constants,
enumerations and classes can be seen. -/
def reduceMember (sub : Steps) (inner : DeclId) (id : Ident) : List DeclId → Analysis (Option Ident)
  | [] => return none
  | c :: cs => do
    if (← classFacts c).name = some id.name then
      let _ ← sub.inheritance c false
      return some { id with
        source := .memberClass
        binding := .toMember .cls c
        info := { id.info with type := (← classType c).named, value := some (← classValue c) } }
    let found? ← if c = inner then do
        match ← objectMember sub (← classType c) id.name with
        | .found f => pure (some f)
        | _ => pure none
      else do
        let f? ← classMember sub c id.name
        pure (f?.filter fun f => f.kind ≠ .var && f.kind ≠ .signal && f.kind ≠ .func)
    match found? with
    | none => reduceMember sub inner id cs
    | some f =>
      let id ← useMember id f
      checkInstanceUse id f
      return some id

/-- A name that denotes a value of the enumeration being declared. -/
def reduceEnumValue (id : Ident) (v : EnumValue) : Analysis Ident := do
  let decl ← localId v.name.pos
  let n ← note decl
  if !n.isResolved then complain id.span .enumElementEarly
  return { id with
    source := .memberConstant
    binding := .toMember .enumValue decl
    info := { id.info with
      type := .ofBuiltin .int
      value := if n.isResolved then some (.int n.number) else none } }

/-- Finds what a name denotes. -/
def reduceIdent (sub : Steps) (id : Ident) (asBase : Bool) : Analysis Ident := do
  let enum := (← focus).enum
  match enum.bind fun e => e.values.find? (·.name.name = id.name) with
  | some v => reduceEnumValue id v
  | none =>
    match id.binding with
    | .toLocal r => reduceLocal id r
    | _ =>
      let cls ← currentClass
      match ← reduceMember sub cls id (← enclosing cls) with
      | some id => return id
      | none => return { id with info := ← globalInfo sub id asBase }

end GameScript.Analysis
