import GameScript.Analysis.Lookup
import GameScript.Analysis.Reduce
import GameScript.Value.Function

/-!
# Loops over values

A loop runs over the elements of a container, the characters of a string, the numbers below a bound, or
what an object yields. A call of `range` makes no array there: constant bounds become an integer or a
vector of them.
-/

namespace GameScript.Analysis

/-! ## Names of locals

Warns of a local that hides another name, and of locals that are never read or never written.
-/

/-- The kinds of locals, as messages call them. -/
inductive LocalKind where
  | parameter | var | const | iterator | bind
deriving DecidableEq, Inhabited

def LocalKind.name : LocalKind → Text
  | parameter => "function parameter"
  | var => "variable"
  | const => "constant"
  | iterator => "\"for\" iterator variable"
  | bind => "pattern bind"

/-- What is known everywhere by a name that a local must not hide. -/
def globalKind? (db : Catalog) (name : Text) : Option Text :=
  if (GlobalFunction.language? name).isSome || (GlobalFunction.utility? name).isSome then
    some "built-in function"
  else if db.hasClass name then some "global class"
  else if (BuiltinType.ofName? name).isSome then some "built-in type"
  else none

/-- The kinds of members of native classes, in the order in which they are looked for. -/
def nativeKinds (db : Catalog) (name : Text) : List (Text × (Text → Bool)) := [
  ("method", fun c => (db.method? c name).isSome),
  ("signal", fun c => (db.signal? c name).isSome),
  ("property", fun c => (db.property? c name).isSome),
  ("constant", fun c => (db.constant? c name).isSome),
  ("enum", fun c => (db.enum? c name).isSome)]

/-- Warns if a local hides a name known everywhere, or a member of the class around or of its bases. -/
def checkShadowing (id : Ident) (kind : LocalKind) : Analysis Unit := do
  let db ← catalog
  let what := kind.name
  match globalKind? db id.name with
  | some g => warn id.span (.shadowsGlobal what id.name g)
  | none =>
    let cls ← currentClass
    match ← findMember cls id.name with
    | some (m, _) =>
      warn id.span (.shadowsMember what id.name m.kind.name m.span.start.line)
    | none =>
      let native ← nativeOf (← classFacts cls).type
      if native.isEmpty then return
      match (nativeKinds db id.name).find? fun (_, has) => has native with
      | some (k, has) =>
        warn id.span (.shadowsNative what id.name k (declaringClass db native has))
      | none => pure ()

/-- Whether a name says that it need not be used. -/
def isPrivate (name : Text) : Bool := name.startsWith "_"

/-- Warns of a local that is not used as it should be. -/
def checkLocal (l : Local) : Analysis Unit := do
  let n ← note (← localId l.ref.anchor)
  let span : Span := ⟨l.ref.start, l.ref.start⟩
  match l.source with
  | .localVariable =>
    if n.usages ≤ 0 then
      if !isPrivate l.name then warn span (.unusedVariable l.name)
    else if !n.isInitialized && n.assignments = 0 then warn span (.unassigned l.name)
  | .localConstant =>
    if n.usages = 0 && !isPrivate l.name then warn span (.unusedConstant l.name)
  | .parameter =>
    if n.usages = 0 && !isPrivate l.name then
      warn span (.unusedParameter l.name (functionName (← currentFunction)))
  | .bind => if n.usages = 0 && !isPrivate l.name then warn span (.unusedVariable l.name)
  | _ => pure ()

/-! ## Loops over values -/

/-- The arguments of a call of `range`, where the name means the function known everywhere. -/
def rangeCall? : Expr → Option (Ident × List Expr × Pos × CallFacts)
  | .call (.ident id) args close facts _ =>
    if id.name = "range" && id.source = .undefined then some (id, args, close, facts) else none
  | _ => none

/-- The bound that an argument of `range` gives; reports one that is no number. -/
def rangeBound (index : Nat) (x : Expr) : Analysis (Option Int64) := do
  let t := x.type
  if t.isHard && !t.isVariant && !t.isNumeric then
    complain x.span (.rangeArgument index (← typeText t))
    return none
  match x.value? with
  | none => return none
  | some (.int i) => return some i
  | some (.float d) => return some d.truncate
  | some v =>
    complain x.span (.rangeArgument index v.type.name)
    return none

def rangeBounds : Nat → List Expr → Analysis (List (Option Int64))
  | _, [] => return []
  | i, x :: xs => do
    let b ← rangeBound i x
    return b :: (← rangeBounds (i + 1) xs)

/-- The bounds of a loop as one value. -/
def rangeValue : List Int64 → Value
  | [a] => .int a
  | [a, b] => .vector2i a b
  | a :: b :: c :: _ => .vector3i a b c
  | [] => .nil

/-- The value of a call of `range` with analysed arguments. -/
def rangeResult (span : Span) (args : List Expr) : Analysis (Option Value) := do
  if args.isEmpty then
    complain span .rangeEmpty
    return none
  match args[3]? with
  | some x =>
    complain x.span (.rangeTooMany args.length)
    return none
  | none => return ((← rangeBounds 1 args).mapM id).map rangeValue

/-- The call of `range` that a loop runs over. -/
def reduceRange (sub : Steps) (span : Span) (id : Ident) (args : List Expr) (close : Pos)
    (facts : CallFacts) : Analysis Expr := do
  let args ← args.mapM (sub.reduce false)
  let id := { id with info := { id.info with reduced := true, type := .ofBuiltin .callable } }
  let method := (GlobalFunction.language? "range").map GlobalFunction.signature
  let facts := { facts with name := "range", method }
  let info ← match ← rangeResult span args with
    | some v => pure (constant v { reduced := true })
    | none => pure { reduced := true, type := .ofBuiltin .array }
  return .call (.ident id) args close facts info

/-- The type of what a builtin type yields. -/
def builtinIterator (t : StaticType) (b : BuiltinType) : Option StaticType :=
  let of (b : BuiltinType) : Option StaticType := some ((StaticType.ofBuiltin b).withSource t.source)
  match b with
  | .int | .float | .string => of b
  | .vector2i | .vector3i => of .int
  | .vector2 | .vector3 => of .float
  | .array | .dictionary | .object => some .variant
  | _ => if b.isPacked then of b.packedElement else none

/-- The type of the variable of a loop over an analysed expression. -/
def iteratorType (sub : Steps) (x : Expr) : Analysis StaticType := do
  let t := x.type
  let unknown (c : Text → Complaint) : Analysis StaticType := do
    if t.isHard then complain x.span (c (← typeText t)) else mark x.span
    return .variant
  if t.isVariant then
    mark x.span
    return .variant
  match t.element with
  | some e => return e.withSource t.source
  | none =>
    match (if t.isMeta then .unresolved else t.shape) with
    | .builtin b =>
      match builtinIterator t b with
      | some r => return r
      | none => unknown .iterateValue
    | _ =>
      if t.isEnum && t.isMeta then return .variant
      if t.isObject && !t.isMeta then
        match ← lookupFunction sub t "_iter_get" with
        | some f => return f.result
        | none => unknown .iterateObject
      else unknown .iterateValue

/-- The type of the variable of a loop, with the written one resolved. -/
def loopVarType (sub : Steps) (span : Span) (x : Expr) (found : StaticType) (spec : Option TypeSpec) :
    Analysis (StaticType × Option TypeSpec) := do
  match spec with
  | none => return (found, none)
  | some spec =>
    let spec ← resolveType sub false spec
    let t := spec.type
    if t.isVariant then pure ()
    else if found.isVariant || !found.isHard then mark span
    else if !(← accepts t found none) then
      if ← fits true found t then mark span
      else complain spec.span (.iterationType (← typeText x.type) (← typeText t))
    return (t, some spec)

/-- Analyses a loop. -/
def resolveLoop (sub : Steps) (pos : Pos) (var : Ident) (spec : Option TypeSpec) (x : Expr)
    (body : Block) (span : Span) : Analysis Stmt := do
  let (x, found) ← match rangeCall? x with
    | some (id, args, close, facts) => do
      let x ← reduceRange sub x.span id args close facts
      pure (x, (StaticType.ofBuiltin .int).withSource .fromInitial)
    | none => do
      let x ← sub.reduce false x
      pure (x, ← iteratorType sub x)
  let (type, spec) ← loopVarType sub span x found spec
  modifyNote (← localId var.pos) ({ · with type := { type with isConst := false } })
  checkShadowing var .iterator
  let body ← sub.block body
  return .loop pos var spec x body

end GameScript.Analysis
