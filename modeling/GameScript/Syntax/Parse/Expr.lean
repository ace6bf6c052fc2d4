import GameScript.Syntax.Parse.State

/-!
# Parsing expressions

From loose to tight: casts, conditionals, binary operators by level, signs, powers, type tests, awaits,
and primary expressions with their suffixes. What an expression contains is parsed by the parsers of a
`Subparsers` record, so that no definition here is recursive.
-/

namespace GameScript.Parse

/-- The parsers of the parts of a construct. -/
structure Subparsers where
  expr : Parser Expr
  ternary : Parser Expr
  /-- An expression of binary operators of at least the given level. -/
  level : Nat → Parser Expr
  sign : Parser Expr
  powerOperand : Parser Expr
  await : Parser Expr
  typeSpec : Parser TypeSpec
  pattern : Bool → Parser Pattern
  stmt : Parser (List Stmt)
  smallStmt : Parser Stmt
  /-- A member of a class that is the class of the file or not, added to the members before it. -/
  member : Bool → ClassDecl → Parser ClassDecl

/-- The parsers of a construct that has no room for parts. -/
instance : Inhabited Subparsers :=
  ⟨⟨outOfRoom, outOfRoom, fun _ => outOfRoom, outOfRoom, outOfRoom, outOfRoom, outOfRoom, fun _ => outOfRoom,
    outOfRoom, outOfRoom, fun _ _ => outOfRoom⟩⟩

/-! ### Types -/

/-- A name in a type. -/
def typeName : Parser Ident := do
  let t ← current
  if t.kind ≠ .identifier then fail t.pos (.wanted t.kind "type name")
  ident

/-- Names after points. -/
def dottedNames (name : Parser Ident) : Nat → Parser (List Ident)
  | 0 => outOfRoom
  | fuel + 1 => do
    if ← accept .dot then return (← name) :: (← dottedNames name fuel)
    else return []

/-- A type as it is written. -/
def typeSpec (sub : Subparsers) : Parser TypeSpec := do
  let first ← typeName
  let names ← dottedNames typeName (← remaining)
  if ← accept .openBracket then
    let element ← sub.typeSpec
    let close ← consume .closeBracket
    return { names := first :: names, element := some element, close }
  else return { names := first :: names, element := none, close := .none }

/-! ### Functions -/

/-- One parameter of a function or a signal: its name, type and default. -/
def param (sub : Subparsers) : Parser Param := do
  let name ← ident
  let k ← kind
  if k = .colonAssign then
    let _ ← advance
    return { name, spec := none, infer := true, default := some (← sub.expr) }
  let spec ← if ← accept .colon then some <$> sub.typeSpec else pure none
  let default ← if ← accept .assign then some <$> sub.expr else pure none
  return { name, spec, infer := false, default }

/-- Parameters up to the closing parenthesis. Those of functions are declared as locals; those of
signals have no defaults. -/
def params (sub : Subparsers) (declared : Bool) (before : List Param) :
    Nat → Parser (List Param)
  | 0 => outOfRoom
  | fuel + 1 => do
    if ← isAt .closeParen then return before
    let p ← param sub
    match p.default with
    | some d => if !declared then fail d.start .signalDefault
    | none =>
      if (before.getLast?.map (·.default.isSome)).getD false then
        fail p.name.pos .mandatoryAfterOptional
    let name ←
      if declared then declare p.name .parameter p.name.pos
      else
        if before.any (·.name.name = p.name.name) then
          fail p.name.pos (.alreadyDeclared "parameter" p.name.name)
        pure p.name
    let ps := before ++ [{ p with name }]
    if ← accept .comma then params sub declared ps fuel else return ps

/-- Statements on one line, separated by semicolons, up to the end of the expression around them. -/
def lambdaStmts (sub : Subparsers) : Nat → Parser (List Stmt)
  | 0 => outOfRoom
  | fuel + 1 => do
    let s ← sub.smallStmt
    if !(← get).lineEnded && (← isAt .semicolon) then
      let _ ← advance
      return s :: (← lambdaStmts sub fuel)
    else return [s]

/-- Statements on one line up to its end. -/
def lineStmts (sub : Subparsers) : Nat → Parser (List Stmt)
  | 0 => outOfRoom
  | fuel + 1 => do
    let s ← sub.smallStmt
    if !(← get).lineEnded && (← isAt .semicolon) then
      let _ ← advance
      let k ← kind
      if k = .newline || k = .endOfFile then return [s]
      return s :: (← lineStmts sub fuel)
    else return [s]

/-- Simple statements on one line. -/
def simpleStmts (sub : Subparsers) : Parser (List Stmt) := do
  let ss ← lineStmts sub (← remaining)
  endLine
  return ss

/-- The statements after a colon: on the same line or in an indented block. -/
def suite (sub : Subparsers) : Parser (List Stmt) := do
  if ← isAt .newline then
    let _ ← advance
    let _ ← consume .indent
    let ss ← untilOutdent sub.stmt (← remaining)
    let _ ← consume .outdent
    return ss.flatten
  else simpleStmts sub

/-- The parameters, the type and the body of a function whose name has been parsed. -/
def functionRest (sub : Subparsers) (pos : Pos) (name : Option Ident) (isStatic : Bool)
    (role : FuncRole) : Parser Func := do
  let ((ps, returns, start, stmts), locals) ← inScope { function := pos } do
    let _ ← consume .openParen
    let ps ← params sub true [] (← remaining)
    let _ ← consume .closeParen
    let returns ← if ← accept .arrow then some <$> sub.typeSpec else pure none
    let _ ← consume .colon
    let start ← Parse.pos
    if role = .lambda then
      if ← isAt .newline then
        let ss ← suite sub
        modify ({ · with lineEnded := true })
        return (ps, returns, start, ss)
      else return (ps, returns, start, ← lambdaStmts sub (← remaining))
    else return (ps, returns, start, ← suite sub)
  let body : Block := ⟨start, stmts, locals, false, false, false, false⟩
  return ⟨pos, name, ps, returns, body, isStatic, role⟩

/-! ### Primary expressions -/

/-- The arguments of a call and the place of its closing parenthesis. -/
def arguments (sub : Subparsers) : Parser (List Expr × Pos) := do
  let _ ← consume .openParen
  let args ← commaList .closeParen sub.expr (← remaining)
  return (args, ← consume .closeParen)

/-- One entry of a dictionary. -/
def dictEntry (sub : Subparsers) (style : DictStyle) : Parser DictEntry := do
  let key : Expr ←
    if style = .fields then
      if !(← isAt .identifier) then fail (← pos) .dictKeyName
      let id ← ident
      if !(← isAt .assign) then fail (← pos) (.dictKeyMark "=")
      pure (.literal { pos := id.pos, raw := id.name, value := .stringName id.name })
    else
      let key ← sub.expr
      if !(← isAt .colon) then fail (← pos) (.dictKeyMark ":")
      pure key
  let _ ← advance
  return ⟨key, ← sub.expr⟩

/-- A dictionary in either style; its first entry decides which. -/
def dict (sub : Subparsers) : Parser Expr := do
  let start ← advance
  let style : DictStyle ←
    if ← isAt .identifier then
      if (← peek) = .assign then pure .fields else pure .pairs
    else pure .pairs
  let entries ← commaList .closeBrace (dictEntry sub style) (← remaining)
  let close ← consume .closeBrace
  return .dict start entries style close {}

/-- A primary expression without suffixes. -/
def primary (sub : Subparsers) : Parser Expr := do
  let t ← current
  match t.kind with
  | .identifier => return .ident (← identRef)
  | .int | .float | .string | .stringName | .nodePath | .trueKw | .falseKw | .nullKw =>
    return .literal (← literal)
  | .selfKw => return .self (← advance) {}
  | .superKw =>
    let start ← advance
    let fn ←
      if ← accept .dot then some <$> memberName
      else
        if !(← isAt .openParen) then fail (← pos) .superTarget
        pure none
    let (args, close) ← arguments sub
    return .superCall start fn args close {} {}
  | .openParen =>
    let _ ← advance
    let x ← sub.expr
    let _ ← consume .closeParen
    return x
  | .openBracket =>
    let start ← advance
    let items ← commaList .closeBracket sub.expr (← remaining)
    let close ← consume .closeBracket
    return .list start items close {}
  | .openBrace => dict sub
  | .funcKw =>
    let start ← advance
    let name ← if ← isAt .identifier then some <$> ident else pure none
    return .lambda (← functionRest sub start name false .lambda) [] false {}
  | .preloadKw =>
    let start ← advance
    let _ ← consume .openParen
    if !(← isAt .string) then fail (← pos) .preloadPath
    let path ← literal
    let close ← consume .closeParen
    return .preload start path close "" {}
  | k => fail t.pos (.wanted k "primary expression")

/-- The attributes, indices and calls that follow an expression. -/
def suffixes (sub : Subparsers) (x : Expr) : Nat → Parser Expr
  | 0 => outOfRoom
  | fuel + 1 => do
    match ← kind with
    | .dot =>
      let _ ← advance
      suffixes sub (.dot x (← memberName) {}) fuel
    | .openBracket =>
      let _ ← advance
      let y ← sub.expr
      suffixes sub (.index x y (← consume .closeBracket) {}) fuel
    | .openParen =>
      let (args, close) ← arguments sub
      suffixes sub (.call x args close {} {}) fuel
    | _ => return x

/-! ### Operators -/

/-- An awaited expression, or a primary expression with its suffixes. -/
def await (sub : Subparsers) : Parser Expr := do
  if ← isAt .awaitKw then
    let p ← advance
    return .await p (← sub.await) {}
  else suffixes sub (← primary sub) (← remaining)

/-- The type tests that follow an expression. -/
def typeTests (sub : Subparsers) (x : Expr) : Nat → Parser Expr
  | 0 => outOfRoom
  | fuel + 1 => do
    if ← accept .isKw then
      let negated ← accept .notKw
      typeTests sub (.typeTest x negated (← sub.typeSpec) {}) fuel
    else return x

def typeTest (sub : Subparsers) : Parser Expr := do
  typeTests sub (← await sub) (← remaining)

/-- An operand of a power, which may have signs. -/
def powerOperand (sub : Subparsers) : Parser Expr := do
  match UnaryOp.ofSign? (← kind) with
  | some op =>
    let p ← advance
    return .unary p op (← sub.powerOperand) {}
  | none => typeTest sub

/-- The powers that follow an expression. -/
def powers (sub : Subparsers) (x : Expr) : Nat → Parser Expr
  | 0 => outOfRoom
  | fuel + 1 => do
    if ← accept .starStar then powers sub (.binary x .power (← powerOperand sub) {}) fuel
    else return x

/-- An expression with signs in front, or with a negation where it is an operand of a tighter
operator. -/
def sign (sub : Subparsers) : Parser Expr := do
  let k ← kind
  match UnaryOp.ofSign? k, UnaryOp.ofNegation? k with
  | some op, _ =>
    let p ← advance
    return .unary p op (← sub.sign) {}
  | none, some op =>
    let p ← advance
    return .unary p op (← sub.level BinaryOp.notLevel) {}
  | none, none => powers sub (← typeTest sub) (← remaining)

/-- Takes the two tokens of a negated membership test as one. -/
def joinNotIn : Parser Unit := do
  let t ← current
  if t.kind = .notKw then
    let next ← peek
    if next ≠ .inKw then fail t.pos (.wanted next "in")
    let _ ← advance
    modify fun s =>
      match s.tokens with
      | t :: rest => { s with tokens := { t with kind := .notIn } :: rest }
      | [] => s

/-- The binary operators of at least a level that follow an operand. -/
def operators (sub : Subparsers) (level : Nat) (x : Expr) : Nat → Parser Expr
  | 0 => outOfRoom
  | fuel + 1 => do
    joinNotIn
    match BinaryOp.ofToken? (← kind) with
    | some op =>
      if op.level < level || BinaryOp.signLevel ≤ op.level then return x
      let _ ← advance
      operators sub level (.binary x op (← sub.level (op.level + 1)) {}) fuel
    | none => return x

/-- Binary expressions from the level `signLevel - n` on. -/
def levels (sub : Subparsers) : Nat → Parser Expr
  | 0 => sign sub
  | n + 1 => do
    let level := BinaryOp.signLevel - (n + 1)
    match UnaryOp.ofNegation? (← kind) with
    | some op =>
      if level = BinaryOp.notLevel then
        let p ← advance
        return .unary p op (← sub.level level) {}
      else operators sub level (← levels sub n) (← remaining)
    | none => operators sub level (← levels sub n) (← remaining)

/-- An expression of binary operators of at least a level. -/
def level (sub : Subparsers) (l : Nat) : Parser Expr := levels sub (BinaryOp.signLevel - l)

/-- A conditional expression, or an expression of binary operators. -/
def ternary (sub : Subparsers) : Parser Expr := do
  let x ← level sub 0
  if ← accept .ifKw then
    let cond ← level sub 0
    if !(← isAt .elseKw) then fail (← pos) .elseExpected
    let _ ← advance
    return .cond x cond (← sub.ternary) {}
  else return x

/-- The casts that follow an expression. -/
def casts (sub : Subparsers) (x : Expr) : Nat → Parser Expr
  | 0 => outOfRoom
  | fuel + 1 => do
    if ← accept .asKw then casts sub (.cast x (← sub.typeSpec) {}) fuel else return x

/-- An expression. -/
def expr (sub : Subparsers) : Parser Expr := do
  casts sub (← ternary sub) (← remaining)

end GameScript.Parse
