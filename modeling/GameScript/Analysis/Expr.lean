import GameScript.Analysis.Name

/-!
# Expressions

The type of an expression and, where it can be computed in advance, its value. Calls are in a module of
their own. An operation on values of unknown type is not checked; it marks its statement instead.
-/

namespace GameScript.Analysis

/-- Analysed, with some type. -/
def done (info : Info) : Info :=
  { info with reduced := true, type := if info.type.isSet then info.type else .variant }

/-- Analyses what stands in front of a point, an index or a call, where a name may be that of a builtin
type. -/
def reduceBase (sub : Steps) (x : Expr) : Analysis Expr := do
  match x with
  | .ident id =>
    if id.info.reduced then return x
    let id ← reduceIdent sub id true
    return .ident { id with info := done id.info }
  | _ => sub.reduce false x

/-! ### Containers -/

/-- The values of expressions that are all constant. -/
def constantValues? (xs : List Expr) : Option (List Value) := xs.mapM Expr.value?

def reduceList (sub : Steps) (items : List Expr) : Analysis (List Expr × Info) := do
  let items ← items.mapM (sub.reduce false)
  let value := (constantValues? items).map fun vs => .array .array .nil "" vs true
  return (items, { type := .ofBuiltin .array, value })

/-- Reports constant keys that occur before; `seen` holds the earlier keys with their lines. -/
def checkKey (seen : List (Value × Nat)) (key : Expr) (v : Value) : Analysis Unit := do
  match seen.find? fun (w, _) => w.type = v.type && w.equal v with
  | some (_, line) => complain key.span (.repeatedKey v.text line)
  | none => pure ()

def reduceEntries (sub : Steps) (seen : List (Value × Nat)) : List DictEntry → Analysis (List DictEntry)
  | [] => return []
  | e :: es => do
    let key ← sub.reduce false e.key
    let value ← sub.reduce false e.value
    match key.value? with
    | some v =>
      checkKey seen key v
      return ⟨key, value⟩ :: (← reduceEntries sub (seen ++ [(v, key.start.line)]) es)
    | none => return ⟨key, value⟩ :: (← reduceEntries sub seen es)

def reduceDict (sub : Steps) (entries : List DictEntry) : Analysis (List DictEntry × Info) := do
  let entries ← reduceEntries sub [] entries
  let pairs? : Option (List Entry) := entries.mapM fun e => do
    return ⟨← e.key.value?, ← e.value.value?⟩
  return (entries, { type := .ofBuiltin .dictionary, value := pairs?.map (Value.ofEntries · true) })

/-! ### Attributes and indices -/

/-- The attribute of a builtin type or of a value of it. -/
def builtinAttribute (id : Ident) (base : StaticType) (b : BuiltinType) : Analysis Info := do
  let name := id.name
  if base.isMeta then
    match b.constant? name with
    | some v => return constant v {}
    | none =>
      complain id.span (.unknownConstant name (← typeText base.asInstance))
      return {}
  else match b with
    | .nil =>
      complain id.span (.propertyOfNull name)
      return {}
    | .dictionary => return {}
    | _ =>
      match b.property? name with
      | some p => return { type := (← catalog).typeOf p.type }
      | none =>
        complain id.span (.unknownProperty name (← typeText base))
        return {}

/-- The attribute of an object or of a class. A class gives access to its constants, enumerations,
classes and static functions only. -/
def objectAttribute (sub : Steps) (id : Ident) (base : StaticType) : Analysis (Ident × Info) := do
  let name := id.name
  let search ← objectMember sub base.asInstance name
  let found? := match search with
    | .found f =>
      let isVisible := !base.isMeta || match f.kind with
        | .var | .signal => false
        | .func => f.isStatic || f.isNative
        | _ => true
      if isVisible then some f else none
    | _ => none
  match found? with
  | some f =>
    let id ← useMember id f
    return (id, { type := f.type, value := f.value })
  | none =>
    let isUnknown := match search with
      | .unknown => true
      | _ => false
    if base.isMeta && !isUnknown then
      complain id.span (.unknownMember name (← typeText base.asInstance))
    else warn id.span (.uncheckedProperty name (← typeText base))
    return (id, {})

/-- The attribute of an enumeration. -/
def enumAttribute (id : Ident) (base : StaticType) : Analysis Info := do
  if !base.isMeta then
    complain id.span .propertyOfEnumValue
    return {}
  else match base.enumValue? id.name with
    | some v => return { type := base.asInstance, value := some (.int v) }
    | none =>
      complain id.span (.unknownMember id.name (← typeText base.asInstance))
      return {}

/-- The attribute of an analysed expression. `span` is that of the whole. -/
def attributeOf (sub : Steps) (span : Span) (x : Expr) (id : Ident) : Analysis (Ident × Info) := do
  let base := x.type
  let constant? := if !base.isMeta && !base.isObject then x.value? else none
  match base.shape, constant? with
  | .enum .., _ => return (id, ← enumAttribute id base)
  | _, some v =>
    match v.getNamed id.name with
    | .ok w => return (id, constant w {})
    | .error _ =>
      complain id.span (.unknownMember id.name (← typeText base))
      return (id, {})
  | shape, none =>
    if base.isVariant || !base.isHard then
      mark span
      return (id, {})
    else match shape with
      | .builtin b =>
        if b = .object then objectAttribute sub id base
        else return (id, ← builtinAttribute id base b)
      | _ => objectAttribute sub id base

def reduceDot (sub : Steps) (span : Span) (x : Expr) (id : Ident) : Analysis Expr := do
  let x ← reduceBase sub x
  let (id, info) ← attributeOf sub span x id
  let info := done info
  return .dot x { id with info } info

/-- Whether a value of a builtin type can have a key of another. -/
def validIndex (base key : BuiltinType) : Bool :=
  match base with
  | .object => key.isStringLike
  | .color => key = .int || key.isStringLike
  | _ =>
    if base = .string || base = .array || base.isPacked then key.isNumeric
    else if base.isVector then key.isNumeric || key.isStringLike
    else true

/-- What a builtin type has inside of it, if the type says so; `none` if it has nothing inside. -/
inductive Inside where
  | nothing
  | anything
  | element
  | of (t : BuiltinType)

def insideOf (b : BuiltinType) : Inside :=
  match b with
  | .nil | .bool | .int | .float | .stringName | .nodePath | .callable | .signal => .nothing
  | .vector2i | .vector3i => .of .int
  | .vector2 | .vector3 => .of .float
  | .string => .of .string
  | .array => .element
  | _ => if b.isPacked then .of b.packedElement else .anything

/-- Reports a key of a type that the base cannot have. -/
def checkIndex (base : StaticType) (key : Expr) (b : BuiltinType) : Analysis Bool := do
  match key.type.builtin? with
  | none => return true
  | some k =>
    let isValue := !base.isMeta && match base.shape with
      | .builtin _ => true
      | _ => false
    if isValue then
      if validIndex b k then return true
      complain key.span (.indexType (← typeText key.type) (← typeText base))
      return false
    else if k.isStringLike then return true
    else
      complain key.span (.indexNotString (← typeText base) (← typeText key.type))
      return false

/-- What an element of an analysed expression is. `span` is that of the whole. -/
def indexInfo (span : Span) (x y : Expr) : Analysis Info := do
  match x.value?, y.value? with
  | some v, some k =>
    match v.getIndexed k with
    | .ok w => return constant w {}
    | .error _ =>
      complain y.span (.constantIndex k.repr v.repr)
      return {}
  | _, _ =>
    let base := x.type
    if base.isVariant then
      mark span
      return {}
    let b := base.builtin?.getD .nil
    if !(← checkIndex base y b) then return {}
    match insideOf b with
    | .nothing =>
      complain x.span (.notIndexable (← typeText base))
      return {}
    | .anything => return {}
    | .element =>
      match base.element with
      | some e => return { type := e.withSource base.source }
      | none =>
        mark span
        return {}
    | .of t =>
      let source := if base.isHard then .fromInitial else .inferred
      return { type := (StaticType.ofBuiltin t).withSource source }

/-! ### Operators -/

/-- The type of the result of an operator; `none` if the types of the operands do not admit it. For a
unary operator the second type is that of null. -/
def operationType (op : Operator) (x y : StaticType) : Option StaticType :=
  if x.isVariant || y.isVariant then some .variant
  else
    (op.resultType? (x.builtin?.getD .nil) (y.builtin?.getD .nil)).map fun t =>
      (StaticType.ofBuiltin t).withSource
        (if x.isHard && y.isHard then .fromInitial else .inferred)

def unaryInfo (span : Span) (op : Operator) (x : Expr) : Analysis Info := do
  match x.value? with
  | some v =>
    match Value.unary op v with
    | .ok w => return constant w {}
    | .error _ =>
      complain span (.unaryOperand v.type.name op.name)
      return {}
  | none =>
    if x.type.isVariant then
      mark span
      return {}
    match operationType op x.type (.ofBuiltin .nil) with
    | some t => return { type := t }
    | none =>
      complain span (.unaryOperand (← typeText x.type) op.name)
      return {}

def binaryInfo (span : Span) (written : BinaryOp) (x y : Expr) : Analysis Info := do
  let op := written.operator
  if op = .divide && x.type.isBuiltin .int && y.type.isBuiltin .int then
    warn span .integerDivision
  match x.value?, y.value? with
  | some v, some w =>
    match Value.binary op v w with
    | .ok r => return constant (if written = .notWithin then .bool (!r.truth) else r) {}
    | .error e =>
      if (op.resultType? v.type w.type).isSome then complain span (.value e)
      else complain span (.constantOperands op.name v.type.name w.type.name)
      return {}
  | _, _ =>
    if x.type.isVariant || y.type.isVariant then
      mark span
      return {}
    match operationType op x.type y.type with
    | some t => return { type := t }
    | none =>
      if x.type.isHard && y.type.isHard then
        complain span (.operands (← typeText x.type) (← typeText y.type) op.name)
      return {}

def condInfo (span : Span) (yes cond no : Expr) : Analysis Info := do
  match cond.value?, yes.value?, no.value? with
  | some c, some x, some y => return constant (if c.truth then x else y) {}
  | _, _, _ =>
    if yes.type.isVariant || no.type.isVariant then return {}
    if ← fits false yes.type no.type then return { type := yes.type }
    if ← fits false no.type yes.type then return { type := no.type }
    warn span .incompatibleTernary
    return {}

/-! ### Type tests and casts -/

def typeTestInfo (span : Span) (x : Expr) (negated : Bool) (test : StaticType) : Analysis Info := do
  let info : Info := { type := .ofBuiltin .bool }
  if test.isVariant then return info
  let possible := (← fits false test x.type) || (← fits false x.type test)
  if !possible then
    if x.type.isHard then complain x.span (.impossibleTest (← typeText x.type) (← typeText test))
    else mark span
    return info
  match x.value?, test.shape with
  | some v, .builtin b =>
    if b = .object then return info
    return constant (.bool ((v.type = b) ≠ negated)) {}
  | _, _ => return info

/-- Whether a cast can succeed; the cast of a constant to an enumeration without its value cannot. -/
def checkCast (span : Span) (x : Expr) (target : TypeSpec) : Analysis Unit := do
  let t := target.type
  let xt := x.type
  let invalid : Analysis Unit := do
    complain target.span (.invalidCast (← typeText xt) (← typeText t))
  if t.isEnum && xt.isNumeric && !xt.isBuiltin .float then
    match x.value? with
    | some (.int i) =>
      if !t.hasEnumValue i then complain target.span (.castOutsideEnum (← typeText t) i)
    | some _ => pure ()
    | none => mark span
  else match t.shape, xt.shape with
    | .builtin b, .builtin c =>
      if t.isMeta || xt.isMeta || !c.converts b then invalid
    | .builtin b, .enum .. =>
      if xt.isMeta || !BuiltinType.int.converts b then invalid
    | .builtin _, _ => invalid
    | _, .builtin _ => invalid
    | _, _ =>
      if !((← fits false t xt) || (← fits false xt t)) then invalid

def castInfo (span : Span) (x : Expr) (target : TypeSpec) : Analysis Info := do
  let t := target.type
  if t.isVariant then mark span
  else if x.type.isVariant then warn span (.uncheckedCast (← typeText t))
  else checkCast span x target
  return { type := t }

/-! ### Awaits, preloads and lambdas -/

/-- The call marked as awaited, if it is one. -/
def awaited : Expr → Expr × Bool
  | .call f as c facts i => (.call f as c { facts with isAwaited := true } i, true)
  | .superCall p f as c facts i => (.superCall p f as c { facts with isAwaited := true } i, true)
  | x => (x, false)

def reduceAwait (sub : Steps) (span : Span) (x : Expr) : Analysis (Expr × Info) := do
  let (x, isCall) := awaited x
  let x ← sub.reduce false x
  match ← currentFunction with
  | some f => modifyNote (← localId f.anchor) ({ · with isCoroutine := true })
  | none => pure ()
  let t := x.type
  let type := if isCall && !t.isBuiltin .signal then { t with isCoroutine := false } else .variant
  if t.source ≠ .undetected && !t.isCoroutine && !t.isBuiltin .signal then warn span .redundantAwait
  return (x, { type, value := x.value? })

def reducePreload (sub : Steps) (path : Literal) : Analysis (Literal × Text × Info) := do
  let path := { path with info := done (constant path.value path.info) }
  match path.value with
  | .string s =>
    let resolved := Text.resolvePath (← current).path s
    if !(← isScriptPath resolved) then
      let value ← newResource resolved "Resource"
      return (path, resolved, { type := .ofNative "Resource", value := some value })
    match ← loadScript sub resolved .interface with
    | .unavailable f =>
      complain path.span
        (if f.isMissing then .preloadMissing resolved else .preloadFailed resolved)
      return (path, resolved, {})
    | r =>
      let value ← newResource resolved "GDScript"
      return (path, resolved, { type := r.type.named, value := some value })
  | _ =>
    complain path.span .preloadPath
    return (path, "", {})

def reduceLambda (sub : Steps) (f : Func) : Analysis Expr := do
  let id ← localId f.anchor
  let before ← focus
  modifyFocus fun x => { x with lambdas := x.lambdas ++ [id] }
  let f ← sub.functionBody f
  setFocus before
  let n ← note id
  let type := (StaticType.ofBuiltin .callable).withSource .fromInitial
  return .lambda f n.captures n.usesSelf { type }

end GameScript.Analysis
