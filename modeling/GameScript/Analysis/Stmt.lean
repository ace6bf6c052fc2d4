import GameScript.Analysis.Loop

/-!
# Statements

Each statement is analysed in the order of the source. A statement returns if every path through it
leaves the function; what follows in the same block cannot be reached.
-/

namespace GameScript.Analysis

/-! ### Expressions and assignments -/

def resolveExprStmt (sub : Steps) (x : Expr) : Analysis Stmt := do
  let x ← sub.reduce true x
  match x with
  | .call .. | .superCall .. | .await .. => pure ()
  | .lambda .. => complain x.span .standaloneLambda
  | .cond .. => warn x.span .standaloneTernary
  | _ => warn x.span .standaloneExpression
  return .expr x

/-- Whether an assignment to an expression would change a constant. Types in front of a point or an
index are no constants. -/
def isConstantTarget : Expr → Bool
  | .ident id => id.info.value.isSome
  | .dot x _ i => i.value.isSome || (!x.type.isMeta && isConstantTarget x)
  | .index x _ _ i => i.value.isSome || (!x.type.isMeta && isConstantTarget x)
  | _ => false

/-- The variable that an assignment writes to directly. -/
def assignedVariable? (id : Ident) : Analysis (Option (DeclId × Bool)) := do
  match id.binding with
  | .toLocal r =>
    if id.source = .localVariable then return some (← localId r.anchor, true) else return none
  | .toMember .var d => return some (d, false)
  | _ => return none

/-- Counts an assignment. A plain one is no use of the variable. -/
def countAssignment (span : Span) (op : Option BinaryOp) (lhs : Expr) : Analysis Unit := do
  match lhs with
  | .ident id =>
    match ← assignedVariable? id with
    | some (decl, isLocal) =>
      let n ← note decl
      if op.isNone then modifyNote decl fun n => { n with usages := n.usages - 1 }
      else if isLocal && !n.isInitialized && n.assignments = 0 then
        warn span (.unassignedOperation id.name)
      modifyNote decl fun n => { n with assignments := n.assignments + 1 }
    | none => pure ()
  | _ => pure ()

/-- Checks a value against the type of what it is assigned to; tells whether it is converted. -/
def checkAssigned (span : Span) (target value : StaticType) (rhs : Expr) : Analysis Bool := do
  if !target.isHard || target.isVariant then
    if target.isVariant && !target.isHard then mark span
    return false
  else if value.isVariant || !value.isHard then
    mark span
    return true
  else if ← accepts target value (some rhs) then
    if narrows target value then warn rhs.span .narrowing
    return target.needsConversion value
  else if ← fits true value target then
    mark span
    return true
  else
    complain rhs.span (.assignmentType (← typeText value) (← typeText target))
    return false

def resolveAssign (sub : Steps) (span : Span) (op : Option BinaryOp) (lhs rhs : Expr) :
    Analysis Stmt := do
  let lhs ← sub.reduce false lhs
  let rhs ← sub.reduce false rhs
  countAssignment span op lhs
  if isConstantTarget lhs then
    complain lhs.span .constantAssigned
    return .assign op lhs rhs none false
  let target := lhs.type
  let rhs ← updateList target rhs
  match op with
  | none => return .assign op lhs rhs none (← checkAssigned span target rhs.type rhs)
  | some written =>
    let result? := operationType written.operator target rhs.type
    if result?.isNone && target.isHard && rhs.type.isHard then
      complain span (.assignmentOperands (← typeText target) (← typeText rhs.type))
      return .assign op lhs rhs (some written.operator) false
    let converts ← checkAssigned span target (result?.getD {}) rhs
    return .assign op lhs rhs (some written.operator) converts

/-! ### Returns and assertions -/

/-- Whether an expression is a call. -/
def isCall : Expr → Bool
  | .call .. | .superCall .. => true
  | _ => false

/-- Checks what a function returns against the type that it declares. `span` is that of the
statement. -/
def checkReturned (span : Span) (expected : StaticType) (result : Option Expr) : Analysis Unit := do
  if !expected.isHard || expected.isVariant || expected.isVoid then return
  let type := (result.map Expr.type).getD (.ofBuiltin .nil)
  let place := (result.map Expr.span).getD span
  if type.isVariant || !type.isHard then mark span
  else if ← accepts expected type result then
    if narrows expected type then warn place .narrowing
  else if ← fits true type expected then mark span
  else complain place (.returnType (← typeText type) (← typeText expected))

def resolveReturn (sub : Steps) (pos : Pos) (span : Span) (result : Option Expr) : Analysis Stmt := do
  let function ← currentFunction
  let expected ← match function with
    | some f => pure (← note (← localId f.anchor)).type
    | none => pure {}
  match result with
  | none =>
    checkReturned span expected none
    return .return pos none false
  | some x =>
    let inVoid := expected.isHard && expected.isVoid
    let x ← sub.reduce (inVoid && isCall x) x
    let x ← updateList expected x
    let isVoid := isCall x && x.type.isVoid
    if (function.map Func.isConstructor).getD false then
      complain span .constructorReturn
      return .return pos (some x) false
    if inVoid then
      if !isVoid then complain span .voidReturn
      return .return pos (some x) isVoid
    checkReturned span expected (some x)
    return .return pos (some x) isVoid

def resolveAssert (sub : Steps) (pos : Pos) (span : Span) (cond : Expr) (message : Option Expr)
    (close : Pos) : Analysis Stmt := do
  let cond ← sub.reduce false cond
  let message ← match message with
    | none => pure none
    | some m => do
      let m ← sub.reduce false m
      let t := m.type
      if t.isHard && !t.isVariant && !t.isBuiltin .string && !t.isBuiltin .stringName then
        complain m.span .assertMessage
      pure (some m)
  match cond.value? with
  | some v => warn span (if v.truth then .assertTrue else .assertFalse)
  | none => pure ()
  return .assert pos cond message close

/-! ### Matches -/

def resolvePattern (sub : Steps) (t : StaticType) (p : Pattern) : Analysis Pattern := do
  match p with
  | .literal l =>
    match ← sub.reduce false (.literal l) with
    | .literal l => return .literal l
    | _ => return .literal l
  | .expr x =>
    let x ← sub.reduce false x
    if !x.isConstant then complain x.span .patternNotConstant
    return .expr x
  | .bind _ id =>
    modifyNote (← localId id.pos) ({ · with type := if t.isSet then t else .variant })
    checkShadowing id .bind
    return p
  | .array pos items close =>
    return .array pos (← items.mapM (sub.pattern t.elementType)) close
  | .dict pos entries isOpen close =>
    let entries ← entries.mapM fun e => do
      let key ← sub.reduce false e.key
      if !key.isConstant then complain key.span .patternKeyNotConstant
      let value ← match e.value with
        | some v => some <$> sub.pattern .variant v
        | none => pure none
      return ⟨key, value⟩
    return .dict pos entries isOpen close
  | .wildcard _ | .rest _ => return p

/-- Analyses the patterns of a branch; `caught` says that an earlier pattern matches everything. -/
def resolvePatterns (sub : Steps) (t : StaticType) : Bool → List Pattern →
    Analysis (List Pattern × Bool)
  | caught, [] => return ([], caught)
  | caught, p :: ps => do
    if caught then warn p.span .unreachablePattern
    let p ← sub.pattern t p
    let (ps, caught) ← resolvePatterns sub t (caught || p.isCatchAll) ps
    return (p :: ps, caught)

/-- Analyses the branches of a match; `caught` says that an earlier pattern matches everything. -/
def resolveBranches (sub : Steps) (t : StaticType) : Bool → List Branch → Analysis (List Branch)
  | _, [] => return []
  | caught, b :: bs => do
    let before ← focus
    modifyFocus fun x => { x with scope := b.body.locals.map Local.name :: x.scope }
    let (patterns, caught) ← resolvePatterns sub t caught b.patterns
    setFocus before
    let body ← sub.block b.body
    let bs ← resolveBranches sub t caught bs
    return { b with patterns, body } :: bs

def resolveMatch (sub : Steps) (pos : Pos) (x : Expr) (branches : List Branch) :
    Analysis Stmt := do
  let x ← sub.reduce false x
  let branches ← resolveBranches sub { x.type with isConst := false } false branches
  return .match pos x branches

/-! ### All statements -/

def resolveLocalVar (sub : Steps) (d : VarDecl) : Analysis Stmt := do
  let id ← localId d.name.pos
  modifyNote id ({ · with isInitialized := d.init.isSome })
  let r ← resolveBinder sub ⟨.var, d.name, d.spec, d.infer, d.init⟩
  modifyNote id ({ · with type := r.type, converts := r.converts })
  checkShadowing d.name .var
  return .var { d with spec := r.spec, init := r.init }

/-- Analyses a statement. -/
def resolveStmt (sub : Steps) (s : Stmt) : Analysis Stmt := do
  let span := s.span
  match s with
  | .expr x => resolveExprStmt sub x
  | .assign op lhs rhs _ _ => resolveAssign sub span op lhs rhs
  | .var d => resolveLocalVar sub d
  | .const d =>
    let d ← resolveConst sub d
    checkShadowing d.name .const
    return .const d
  | .cond pos c yes no =>
    let c ← sub.reduce false c
    let yes ← sub.block yes
    match no with
    | none => return .cond pos c yes none
    | some no =>
      return .cond pos c yes (some (← sub.block no))
  | .while pos c body =>
    let c ← sub.reduce false c
    return .while pos c (← sub.block body)
  | .loop pos var spec x body => resolveLoop sub pos var spec x body span
  | .match pos x branches => resolveMatch sub pos x branches
  | .return pos result _ => resolveReturn sub pos span result
  | .assert pos c m close => resolveAssert sub pos span c m close
  | .jump .. => return s

/-- Analyses statements in order; the flags say whether the statements so far return, and whether a
statement that cannot be reached has been reported. -/
def resolveStmts (sub : Steps) : Bool → Bool → List Stmt → Analysis (List Stmt × Bool)
  | _, reported, [] => return ([], reported)
  | returns, reported, s :: ss => do
    if returns && !reported then
      warn s.span (.unreachableCode (functionName (← currentFunction)))
    setStmt (some s.span)
    let s ← resolveStmt sub s
    let (ss, reported) ← resolveStmts sub (returns || s.returns) (reported || returns) ss
    return (s :: ss, reported)

/-- Analyses the statements of a block, then reports its locals that are not used. -/
def resolveBlock (sub : Steps) (b : Block) : Analysis Block := do
  let before ← focus
  let names := b.locals.map Local.name :: before.scope
  modifyFocus ({ · with block := names, scope := names })
  let (stmts, unreachable) ← resolveStmts sub b.returns b.unreachable b.stmts
  setFocus before
  b.locals.forM checkLocal
  return { b with stmts, isAnalysed := true, unreachable }

end GameScript.Analysis
