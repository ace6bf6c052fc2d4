import GameScript.Analysis.Expr

/-!
# Calls

A call of a name can construct a value of a builtin type or call a global function; any other call is
that of a method of the instance, of the base class, or of what stands in front of the point. Calls of
constructors and of foldable functions with constant arguments are computed in advance.
-/

namespace GameScript

/-- What is called. -/
inductive Callee where
  /-- The method that the current one overrides. -/
  | overridden
  /-- A method of the base class. -/
  | ofBase (id : Ident)
  | name (id : Ident)
  | dotted (x : Expr) (id : Ident) (info : Info)
  | other (x : Expr)

namespace Callee

/-- The called name. -/
def ident? : Callee → Option Ident
  | overridden | other _ => none
  | ofBase id | name id | dotted _ id _ => some id

def withIdent (id : Ident) : Callee → Callee
  | ofBase _ => ofBase id
  | name _ => name id
  | dotted x _ i => dotted x id i
  | c => c

/-- Whether the base class is meant. -/
def isSuper : Callee → Bool
  | overridden | ofBase _ => true
  | _ => false

/-- Whether the called name stands alone. -/
def isName : Callee → Bool
  | ofBase _ | name _ => true
  | _ => false

end Callee

/-- A call with its parts. -/
structure CallNode where
  /-- Where the keyword of a call of the base class stands. -/
  pos : Pos
  callee : Callee
  args : List Expr
  close : Pos
  facts : CallFacts
  info : Info

namespace CallNode

/-- The call that an expression is. -/
def ofExpr? : Expr → Option CallNode
  | .call fn args close facts info =>
    let callee : Callee := match fn with
      | .ident id => .name id
      | .dot x id i => .dotted x id i
      | x => .other x
    some ⟨fn.start, callee, args, close, facts, info⟩
  | .superCall pos fn args close facts info =>
    let callee : Callee := match fn with
      | some id => .ofBase id
      | none => .overridden
    some ⟨pos, callee, args, close, facts, info⟩
  | _ => none

/-- The call as an expression. -/
def toExpr (c : CallNode) : Expr :=
  match c.callee with
  | .overridden => .superCall c.pos none c.args c.close c.facts c.info
  | .ofBase id => .superCall c.pos (some id) c.args c.close c.facts c.info
  | .name id => .call (.ident id) c.args c.close c.facts c.info
  | .dotted x id i => .call (.dot x id i) c.args c.close c.facts c.info
  | .other x => .call x c.args c.close c.facts c.info

/-- The span of the call. -/
def span (c : CallNode) : Span := ⟨c.pos, c.close.shift 1⟩

/-- The span of what is called. -/
def calleeSpan (c : CallNode) : Span :=
  match c.callee with
  | .overridden => c.span
  | .ofBase id | .name id => id.span
  | .dotted x id _ => ⟨x.start, id.finish⟩
  | .other x => x.span

end CallNode

namespace Analysis

/-! ### Arguments -/

/-- Checks one argument against the type of its parameter; tells whether it fits. -/
def checkArgument (c : CallNode) (name : Text) (index : Nat) (param : StaticType) (arg : Expr) :
    Analysis Bool := do
  let t := arg.type
  if t.isVariant then
    mark arg.span
    return true
  else if param.isHard && !(← accepts param t (some arg)) then
    if ← fits false t param then
      warn arg.span (.uncheckedArgument index name (← typeText param) (← typeText t))
      return true
    else
      complain arg.span (.argumentType name index (← typeText param) (← typeText t))
      return false
  else
    if narrows param t then warn c.span .narrowing
    return true

def checkArgumentsFrom (c : CallNode) (name : Text) :
    Nat → List StaticType → List Expr → Analysis Bool
  | i, p :: ps, a :: as => do
    let ok ← checkArgument c name i p a
    let rest ← checkArgumentsFrom c name (i + 1) ps as
    return ok && rest
  | _, _, _ => return true

/-- Checks the arguments of a call; tells whether they are valid. -/
def checkArguments (c : CallNode) (name : Text) (f : FunctionType) : Analysis Bool := do
  let given := c.args.length
  let least := f.params.length - f.defaults
  let enough := least ≤ given
  if !enough then complain c.span (.tooFewArguments name least given)
  let tooMany := if f.vararg then none else c.args[f.params.length]?
  match tooMany with
  | some a => complain a.span (.tooManyArguments name f.params.length given)
  | none => pure ()
  let fitting ← checkArgumentsFrom c name 1 f.params c.args
  return enough && tooMany.isNone && fitting

/-- The arguments of a call, with the lists among them given the types of typed array parameters. -/
def typedArguments : List StaticType → List Expr → Analysis (List Expr)
  | p :: ps, a :: as => do
    let a ← updateList p a
    return a :: (← typedArguments ps as)
  | _, as => return as

/-! ### Constructors of builtin types and global functions -/

/-- A constructor call as messages show it. -/
def constructorText (ctx : TypeContext) (t : BuiltinType) (args : List Expr) : Text :=
  t.name ++ "(" ++ Text.join ", " (args.map fun a => ctx.text a.type) ++ ")"

/-- Whether arguments fit the parameters of a constructor. -/
def fitsConstructor (ctx : TypeContext) (params : List Property) (args : List Expr) : Bool :=
  params.length = args.length &&
    (params.zip args).all fun (p, a) => ctx.compatible true (.ofDeclared p.type) a.type

/-- Checks a constructor call that is not computed in advance. -/
def checkConstructor (c : CallNode) (t : BuiltinType) : Analysis Unit := do
  let ctx ← types
  let isCopy ← match c.args with
    | [a] => do
      if a.type.isVariant then mark a.span
      pure (!a.type.isVariant && a.type.isBuiltin t)
    | _ => pure false
  if isCopy then return
  match (Value.constructors t).find? (fitsConstructor ctx · c.args) with
  | some params =>
    for (p, a) in params.zip c.args do
      let takesInt := match p.type with
        | .builtin b => b = .int
        | .enum _ => true
        | _ => false
      if takesInt && a.type.isBuiltin .float && t ≠ .int then warn c.span .narrowing
  | none => complain c.span (.noConstructor t.name (constructorText ctx t c.args))

/-- A call of the constructor of a builtin type. -/
def reduceConstructor (c : CallNode) (id : Ident) (t : BuiltinType) : Analysis CallNode := do
  let facts := { c.facts with name := id.name }
  if t = .object then
    let id := { id with info := { id.info with reduced := true, type := (StaticType.ofNative "Object").named } }
    let c := { c with callee := .name id, facts, info := { type := .ofNative "Object" } }
    let _ ← checkArguments c id.name {}
    return c
  let id := { id with info := { id.info with reduced := true, type := (StaticType.ofBuiltin t).named } }
  let c := { c with callee := .name id, facts, info := { type := .ofBuiltin t } }
  match (if t.isShared then none else constantValues? c.args) with
  | some vs =>
    match Value.construct t vs with
    | .ok v => return { c with info := { c.info with value := some v } }
    | .error _ =>
      complain c.calleeSpan (.noConstructor t.name (constructorText (← types) t c.args))
      return c
  | none =>
    checkConstructor c t
    return c

/-- A call of a global function. -/
def reduceGlobalCall (c : CallNode) (id : Ident) (f : GlobalFunction) (discarded : Bool) :
    Analysis CallNode := do
  let db ← catalog
  let name := id.name
  let id := { id with info := { id.info with reduced := true, type := .ofBuiltin .callable } }
  let type := FunctionType.ofSignature db f.signature
  if type.result.isVoid && !discarded then complain c.span (.voidResult name)
  let c := { c with
    callee := .name id
    facts := { c.facts with name, method := some f.signature }
    info := { type := type.result } }
  if !(← checkArguments c name type) then return c
  match (if f.signature.isConst then f.eval else none), constantValues? c.args with
  | some rule, some vs =>
    match rule vs with
    | .ok v =>
      let t := c.info.type
      return { c with info := { c.info with
        value := some v
        type := if !t.isHard || t.isVariant then .ofValue v else t } }
    | .error e =>
      complain c.span (.invalidCall name e)
      return c
  | _, _ => return c

/-! ### Methods -/

/-- Analyses the body of a method if its file has come so far, so that it is known whether the method
awaits something. -/
def ensureBody (sub : Steps) (cls : DeclId) (f : Func) : Analysis Unit := do
  if (← note ⟨cls.unit, f.anchor⟩).hasBody then return
  let o ← owner cls
  if (← fileRecord o).status ≠ .body then return
  onBehalfOf o (inClass cls (resolveStoredBody sub f))

/-- The type of a declared function as seen by a caller. -/
def calleeType (cls : DeclId) (f : Func) : Analysis FunctionType := do
  let t := (← get).functionType cls.unit f
  let result := if t.result.isSet then t.result else .variant
  return { t with
    result := { result with isCoroutine := (← note ⟨cls.unit, f.anchor⟩).isCoroutine } }

/-- The method of a builtin type. -/
def builtinMethod (b : BuiltinType) (name : Text) : Analysis (Option FunctionType) := do
  return (b.method? name).map (.ofSignature (← catalog))

/-- The method of the native class of a type. -/
def nativeMethod (t : StaticType) (name : Text) : Analysis (Option FunctionType) := do
  let db ← catalog
  let native ← nativeOf t
  if native.isEmpty then return none
  match db.method? native name with
  | none => return none
  | some m =>
    let f := FunctionType.ofSignature db m
    return some (if (db.singleton? native).isSome && t.isMeta then { f with isStatic := true } else f)

/-- The method of values of a type; none if there is no such method or it is not known. -/
def lookupFunction (sub : Steps) (t : StaticType) (name : Text) : Analysis (Option FunctionType) := do
  match t.shape with
  | .enum .. => if t.isMeta then builtinMethod .dictionary name else nativeMethod t name
  | .builtin b => if b = .object then nativeMethod t name else builtinMethod b name
  | .cls c _ =>
    match ← findMember c name with
    | some (.func f, o) =>
      sub.member o (.func f)
      ensureBody sub o f
      return some (← calleeType o f)
    | some _ => return none
    | none => nativeMethod t name
  | _ => nativeMethod t name

/-- What `new` of a class takes and returns. -/
inductive ConstructorSearch where
  | found (f : FunctionType)
  /-- The type has no constructor. -/
  | absent
  /-- An error has been reported. -/
  | failed

def lookupConstructor (sub : Steps) (c : CallNode) (base : StaticType) :
    Analysis ConstructorSearch := do
  let db ← catalog
  let instanceType := base.asInstance.withSource .explicit
  let plain : FunctionType := { result := instanceType, isStatic := true }
  match base.shape with
  | .native cls =>
    if db.isInstantiable cls then return .found plain
    complain c.span (.abstractNative cls)
    return .failed
  | .cls id _ =>
    let native ← nativeOf instanceType
    if !native.isEmpty && !db.isInstantiable native then
      complain c.span (.abstractBase (← className id) native)
      return .failed
    match ← findMember id "_init" with
    | some (.func f, o) =>
      sub.member o (.func f)
      return .found { ← calleeType o f with result := instanceType, isStatic := true }
    | _ => return .found plain
  | .script _ => return .found { plain with vararg := true }
  | _ => return .absent

/-- The names of the functions that can be called on a type. -/
def functionNames (t : StaticType) : Analysis (List Text) := do
  let db ← catalog
  let ofNative : Analysis (List Text) := do
    let native ← nativeOf t
    if native.isEmpty then return []
    return (db.memberNames native).filter fun n => (db.method? native n).isSome
  match t.shape with
  | .builtin b =>
    if b = .object then ofNative
    else return b.memberNames.filter fun n => (b.method? n).isSome
  | .cls c _ =>
    let mut names := []
    for k in ← lineage c do
      names := names ++ (← classRecord k).decl.members.filterMap fun m =>
        match m with
        | .func f => some f.nameText
        | _ => none
    return names ++ (← ofNative)
  | _ => ofNative

/-- The type of what a called name is instead of a function. -/
def nonFunctionType (sub : Steps) (id : Ident) (base : StaticType) :
    Analysis (Ident × StaticType) := do
  match id.binding with
  | .toLocal r =>
    if id.source.isLocal then
      let id ← reduceLocal id r
      return (id, id.info.type)
    else return (id, {})
  | _ =>
    let ofMember : Analysis StaticType := do
      match ← objectMember sub base.asInstance id.name with
      | .found f => return if f.kind ≠ .func then f.type else {}
      | _ => return {}
    match base.shape with
    | .builtin b =>
      if b ≠ .object && !base.isMeta then
        match b.property? id.name with
        | some p => return (id, (← catalog).typeOf p.type)
        | none => return (id, {})
      else return (id, ← ofMember)
    | _ => return (id, ← ofMember)

/-- Whether a type is a declared builtin type. -/
def isHardBuiltin (t : StaticType) : Bool :=
  t.isHard && match t.shape with
    | .builtin _ => true
    | _ => false

/-- Reports a call of a function that is not there. -/
def reportMissing (sub : Steps) (c : CallNode) (base : StaticType) (name : Text) (isSelf : Bool) :
    Analysis CallNode := do
  match base.shape with
  | .enum enumName _ _ =>
    if base.isMeta then
      complain c.calleeSpan (.enumMethod name enumName)
      return c
  | _ => pure ()
  let mut c := c
  let mut isOther := false
  match (if c.callee.isSuper then none else c.callee.ident?) with
  | some id =>
    let (id, t) ← nonFunctionType sub id base
    c := { c with callee := c.callee.withIdent { id with info := { id.info with reduced := true } } }
    if t.isSet && !t.isVariant then
      isOther := true
      if t.isBuiltin .callable then complain c.calleeSpan (.callableName name)
      else complain c.calleeSpan (.notAFunction name (← typeText t))
    else if !isSelf && !isHardBuiltin base then
      warn c.span (.uncheckedMethod name (← typeText base))
  | none => pure ()
  if isOther then return c
  let isNativeClass := match base.shape with
    | .native _ => base.isMeta && base.isHard
    | _ => false
  if isSelf || isHardBuiltin base then
    let place ← if isSelf && !c.callee.isSuper then pure (Text.ofString "self") else typeText base
    let span := if c.callee.isSuper then c.span else c.calleeSpan
    complain span (.unknownFunction name place (name.suggestion (← functionNames base)))
  else if !c.callee.isSuper && isNativeClass then
    complain c.span (.unknownStatic name ((← types).nativeLabel base))
  else mark c.span
  return c

/-- Counts a use of the signal that a constant argument names. -/
def useSignal (x : Expr) : Analysis Unit := do
  let name? := match x.value? with
    | some (.string t) | some (.stringName t) => some t
    | _ => none
  match name? with
  | none => pure ()
  | some name =>
    match ← findMember (← currentClass) name with
    | some (.signal d, o) => use ⟨o.unit, d.name.pos⟩
    | _ => pure ()

/-- The object of a call: its type, whether it is the instance itself, and the call with the object
analysed. -/
def calledObject (sub : Steps) (c : CallNode) : Analysis (StaticType × Bool × CallNode) := do
  let cls ← currentClass
  match c.callee with
  | .overridden | .ofBase _ => return ((← baseOf cls).asInstance, true, c)
  | .name _ => return (← classType cls, true, c)
  | .dotted x id i =>
    let x ← reduceBase sub x
    let isSelf := match x with
      | .self .. => true
      | _ => false
    let info := { i with reduced := true, type := .ofBuiltin .callable }
    return (x.type, isSelf, { c with callee := .dotted x id info })
  | .other _ => return ({}, false, c)

/-- How a call uses the instance or the class it is made on. -/
def checkReceiver (c : CallNode) (base : StaticType) (name : Text) (isSelf : Bool)
    (f : FunctionType) : Analysis Unit := do
  let static? ← staticFunction
  if isSelf && !f.isStatic && static?.isSome then
    complain c.span (.nonStaticFromStatic name (functionName static?))
  else if !isSelf && base.isMeta && !f.isStatic && !base.isEnum then
    complain c.span (.nonStaticOnClass name (← typeText base.asInstance))
  else if isSelf && !f.isStatic then useSelf

/-- The type to call a static function on. -/
def staticCaller (base : StaticType) : Analysis Text := do
  match base.shape with
  | .native cls => return cls
  | _ => typeText base

/-- Checks what becomes of the result of a call. -/
def checkResult (c : CallNode) (base : StaticType) (name : Text) (isDirect isConstructor root : Bool)
    (f : FunctionType) : Analysis Unit := do
  let result := f.result
  if result.isHard && result.isVoid && !root && !c.facts.isAwaited then
    complain c.span (.voidResult name)
  if root && !result.isVariant && !result.isVoid then warn c.span (.discardedResult name)
  if f.isStatic && !isConstructor && !base.isMeta && !isDirect then
    warn c.span (.staticOnInstance name (← staticCaller base))

/-- A call of a function that has been found. -/
def reduceFoundCall (c : CallNode) (base : StaticType) (name : Text)
    (isSelf isConstructor root : Bool) (f : FunctionType) : Analysis CallNode := do
  let c := { c with args := ← typedArguments f.params c.args }
  let _ ← checkArguments c name f
  checkReceiver c base name isSelf f
  checkResult c base name (isSelf && c.callee.isName) isConstructor root f
  let facts := { c.facts with
    method := f.method, isStatic := base.isMeta || (f.isStatic && isSelf) }
  let mut c := { c with info := { c.info with type := f.result }, facts }
  match c.callee.ident? with
  | some id =>
    let binding := match f.declaration with
      | some d => .toMember .func d
      | none => id.binding
    c := { c with callee := c.callee.withIdent { id with
      source := .memberFunction
      binding
      info := { id.info with reduced := true, type := .ofBuiltin .callable } } }
    match f.declaration with
    | some d => use d
    | none => pure ()
  | none => pure ()
  if f.result.isCoroutine && !c.facts.isAwaited && !root then complain c.span (.missingAwait name)
  match c.args with
  | a :: _ => if name = "emit_signal" && isSelf then useSignal a
  | [] => pure ()
  return c

/-- A call of a method. -/
def reduceMethodCall (sub : Steps) (c : CallNode) (name : Text) (root : Bool) : Analysis CallNode := do
  let (base, isSelf, c) ← calledObject sub c
  let c := { c with facts := { c.facts with name } }
  if base.isEnum && !base.isMeta then
    complain c.calleeSpan .callOnEnumValue
    return c
  if base.isVariant then
    mark c.span
    return c
  let isConstructor := base.isMeta && name = "new"
  let search ← if isConstructor then lookupConstructor sub c base else do
    match ← lookupFunction sub base name with
    | some f => pure (.found f)
    | none => pure .absent
  match search with
  | .failed => return c
  | .found f => reduceFoundCall c base name isSelf isConstructor root f
  | .absent =>
    match c.callee with
    | .overridden =>
      if name = "_init" then
        reduceFoundCall c base name isSelf isConstructor root { result := .ofBuiltin .nil }
      else reportMissing sub c base name isSelf
    | _ => reportMissing sub c base name isSelf

/-- What a called name denotes that is neither a local nor a method. -/
inductive GlobalCallee where
  | constructor (t : BuiltinType)
  | function (f : GlobalFunction)

def globalCallee? (id : Ident) : Option GlobalCallee :=
  if id.source.isLocal then none
  else match BuiltinType.ofName? id.name with
    | some t => some (.constructor t)
    | none =>
      ((GlobalFunction.language? id.name).orElse fun _ => GlobalFunction.utility? id.name).map
        .function

/-- Analyses a call; the flag says that its result is not used. -/
def reduceCall (sub : Steps) (root : Bool) (c : CallNode) : Analysis CallNode := do
  let c := { c with args := ← c.args.mapM (sub.reduce false), info := { type := .variant } }
  let global? := match c.callee with
    | .name id => (globalCallee? id).map (id, ·)
    | _ => none
  match global? with
  | some (id, .constructor t) => reduceConstructor c id t
  | some (id, .function f) => reduceGlobalCall c id f (root || c.facts.isAwaited)
  | none =>
    match c.callee with
    | .overridden =>
      let x ← focus
      if x.functions.isEmpty || !x.lambdas.isEmpty then
        complain c.span .superInLambda
        return c
      reduceMethodCall sub c (functionName x.functions.head?) root
    | .ofBase id | .name id | .dotted _ id _ => reduceMethodCall sub c id.name root
    | .other x =>
      let x ← sub.reduce false x
      complain x.span .callOnExpression
      return { c with callee := .other x }

end Analysis

end GameScript
