import GameScript.Syntax.Parse.Expr
import GameScript.Text.Unicode

/-!
# Parsing statements

Simple statements, compound statements with their blocks, and the patterns of matches.
-/

namespace GameScript.Parse

/-! ### Markers -/

/-- The effect of the markers in front of a member or a statement. -/
structure Markers where
  /-- Where the first of those that have an effect stands. -/
  pos : Pos := .none
  onready : Bool := false
  isExport : Bool := false
  /-- The warnings that are not wanted, if any marker says so. -/
  ignore : Option (List Text) := none
deriving Inhabited

def Markers.any (m : Markers) : Bool := m.onready || m.isExport || m.ignore.isSome

/-- The name, the arguments and the place of a marker. -/
def marker (sub : Subparsers) : Parser (Text × List Expr × Pos) := do
  let t ← current
  let _ ← advance
  if ← accept .openParen then
    let args ← commaList .closeParen sub.expr (← remaining)
    let _ ← consume .closeParen
    return (t.text, args, t.pos)
  else return (t.text, [], t.pos)

/-- The names of the warnings that a marker turns off. -/
def warningNames : List Expr → Parser (List Text)
  | [] => return []
  | .literal { value := .string s, .. } :: rest => return s.upper :: (← warningNames rest)
  | x :: _ => fail x.start .markerNeedsStrings

/-- Adds the warnings that a marker turns off. -/
def Markers.ignoring (m : Markers) (args : List Expr) : Parser Markers := do
  return { m with ignore := some (m.ignore.getD [] ++ (← warningNames args)) }

/-- The marker as the first one if there was none before. -/
def Markers.at (m : Markers) (pos : Pos) : Markers := if m.any then m else { m with pos }

/-- The markers in front of a statement, each followed by any line breaks. -/
def stmtMarkers (sub : Subparsers) (m : Markers) : Nat → Parser Markers
  | 0 => outOfRoom
  | fuel + 1 => do
    if ← isAt .marker then
      let (name, args, p) ← marker sub
      let m := m.at p
      if name ≠ "warning_ignore" then fail p (.markerNotAllowed name)
      let m ← m.ignoring args
      skipAll .newline (← remaining)
      stmtMarkers sub m fuel
    else return m

/-! ### Declarations in functions -/

/-- The declaration of a variable up to its accessors. -/
def varHead (sub : Subparsers) (isLocal : Bool) (start : Pos) (name : Ident) (spec : Option TypeSpec) :
    Parser VarDecl := do
  let make (infer : Bool) (init : Option Expr) (finish : Pos) : VarDecl :=
    ⟨start, name, spec, infer, init, isLocal, false, false, none, none, none, none, finish⟩
  let k ← kind
  if k = .assign || (k = .colonAssign && spec.isNone) then
    let _ ← advance
    let x ← sub.expr
    return make (k = .colonAssign) (some x) x.finish
  else return make false none ((spec.map TypeSpec.finish).getD name.finish)

/-- A variable declared in a function; it is visible after its initial value. -/
def localVar (sub : Subparsers) : Parser VarDecl := do
  let start ← advance
  let name ← ident
  let spec ← if ← accept .colon then some <$> sub.typeSpec else pure none
  let d ← varHead sub true start name spec
  return { d with name := ← declare name .localVariable start }

/-- A constant. -/
def constDecl (sub : Subparsers) (isLocal : Bool) : Parser ConstDecl := do
  let start ← advance
  let name ← ident
  let k ← kind
  let (spec, infer) ←
    if k = .colon then
      let _ ← advance
      let t ← sub.typeSpec
      let _ ← consume .assign
      pure (some t, false)
    else if k = .colonAssign then
      let _ ← advance
      pure (none, true)
    else
      let _ ← consume .assign
      pure (none, false)
  let init ← sub.expr
  let name ← if isLocal then declare name .localConstant start else pure name
  return ⟨start, name, spec, infer, init, isLocal⟩

/-! ### Simple statements -/

/-- Whether the current token ends a simple statement. -/
def atStmtEnd : Parser Bool := do
  let k ← kind
  return [.newline, .semicolon, .endOfFile, .closeParen, .closeBracket, .closeBrace, .comma].contains k ||
    (← get).lineEnded

/-- What an expression that cannot be assigned to is called. -/
def describe : Expr → Text
  | .literal _ => "a literal"
  | .call .. | .superCall .. => "a function call"
  | .binary _ op _ _ => "a " ++ op.token.name ++ " expression"
  | .unary .. => "a unary expression"
  | .self .. => "self"
  | _ => "an expression"

/-- Whether an expression can be assigned to. -/
def isTarget : Expr → Bool
  | .ident _ | .dot .. | .index .. => true
  | _ => false

/-- An expression as a statement, or an assignment. -/
def exprStmt (sub : Subparsers) : Parser Stmt := do
  let x ← sub.expr
  let k ← kind
  let op := BinaryOp.ofAssignment? k
  if k = .assign || op.isSome then
    if !isTarget x then fail x.start (.cannotAssign (describe x))
    let _ ← advance
    return .assign op x (← sub.expr) none false
  else return .expr x

/-- A simple statement. -/
def smallStmt (sub : Subparsers) : Parser Stmt := do
  let t ← current
  match t.kind with
  | .varKw => return .var (← localVar sub)
  | .constKw => return .const (← constDecl sub true)
  | .returnKw =>
    let p ← advance
    if ← atStmtEnd then return .return p none false
    else return .return p (some (← sub.expr)) false
  | .breakKw =>
    if !(← functionScopes).any Scope.isLoop then fail t.pos .breakOutside
    return .jump (← advance) .break
  | .continueKw =>
    match (← functionScopes).find? (fun s => s.isLoop || s.isCase) with
    | none => fail t.pos .continueOutside
    | some s => return .jump (← advance) (.continue s.isCase)
  | .passKw => return .jump (← advance) .pass
  | .breakpointKw => return .jump (← advance) .breakpoint
  | .assertKw =>
    let p ← advance
    let _ ← consume .openParen
    let cond ← sub.expr
    let message ←
      if ← accept .comma then
        if ← isAt .closeParen then pure none
        else
          let m ← sub.expr
          let _ ← accept .comma
          pure (some m)
      else pure none
    return .assert p cond message (← consume .closeParen)
  | _ => exprStmt sub

/-! ### Patterns -/

/-- A negative number as one literal. -/
def negativeLiteral? : Expr → Option Literal
  | .unary p .minus (.literal l) _ =>
    match l.value with
    | .int i => some { pos := p, raw := "-" ++ l.raw, value := .int (-i) }
    | .float x => some { pos := p, raw := "-" ++ l.raw, value := .float (-x) }
    | _ => none
  | _ => none

/-- The pattern that an expression is. -/
def patternOf (x : Expr) : Pattern :=
  match x with
  | .ident id => if id.name = "_" then .wildcard id.pos else .expr x
  | .literal l => .literal l
  | x =>
    match negativeLiteral? x with
    | some l => .literal l
    | none => .expr x

def Pattern.isRest : Pattern → Bool
  | .rest _ => true
  | _ => false

/-- The entries of a dictionary pattern, and whether it ends with `..`. -/
def patternEntries (sub : Subparsers) (isOpen : Bool) : Nat → Parser (List PatternEntry × Bool)
  | 0 => outOfRoom
  | fuel + 1 => do
    if ← isAt .closeBrace then return ([], isOpen)
    if isOpen then fail (← pos) (.restNotLast "dictionary")
    let (entry, isOpen) ←
      if ← accept .dotDot then pure ([], true)
      else
        let key ← sub.expr
        let value ← if ← accept .colon then some <$> sub.pattern false else pure none
        pure ([(⟨key, value⟩ : PatternEntry)], isOpen)
    if ← accept .comma then
      let (rest, isOpen) ← patternEntries sub isOpen fuel
      return (entry ++ rest, isOpen)
    else return (entry, isOpen)

/-- A pattern; `top` if it is not inside another one. -/
def pattern (sub : Subparsers) (top : Bool) : Parser Pattern := do
  let t ← current
  match t.kind with
  | .varKw =>
    let p ← advance
    let name ← ident
    return .bind p (← declare name .bind p)
  | .dotDot =>
    if top then fail t.pos .restOutside
    return .rest (← advance)
  | .openBracket =>
    let p ← advance
    let items ← commaList .closeBracket (sub.pattern false) (← remaining)
    let close ← consume .closeBracket
    match items.dropLast.find? Pattern.isRest with
    | some e => fail e.start (.restNotLast "array")
    | none => return .array p items close
  | .openBrace =>
    let p ← advance
    let (entries, isOpen) ← patternEntries sub false (← remaining)
    return .dict p entries isOpen (← consume .closeBrace)
  | _ => return patternOf (← sub.expr)

/-! ### Compound statements -/

/-- A block of its own inside the current one. -/
def block (sub : Subparsers) (isLoop : Bool) : Parser Block := do
  let start ← pos
  let (stmts, locals) ← inScope { function := ← function, isLoop } (suite sub)
  return ⟨start, stmts, locals, isLoop, false, false, false⟩

/-- What follows the first block of a conditional. Each `elif` becomes a conditional in the block of
the `else` before it. -/
def elseBlock (sub : Subparsers) : Nat → Parser (Option Block)
  | 0 => outOfRoom
  | fuel + 1 => do
    if ← isAt .elifKw then
      let p ← advance
      let cond ← sub.expr
      let _ ← consume .colon
      let yes ← block sub false
      let no ← elseBlock sub fuel
      return some ⟨p, [.cond p cond yes no], [], false, false, false, false⟩
    else if ← accept .elseKw then
      let _ ← consume .colon
      return some (← block sub false)
    else return none

/-- One pattern or several ones separated by commas. -/
def patterns (sub : Subparsers) : Nat → Parser (List Pattern)
  | 0 => outOfRoom
  | fuel + 1 => do
    let p ← sub.pattern true
    if ← accept .comma then return p :: (← patterns sub fuel) else return [p]

def Pattern.isWildcard : Pattern → Bool
  | .wildcard _ => true
  | _ => false

/-- A branch of a match. The names that its pattern binds are locals of its body. -/
def branch (sub : Subparsers) : Parser Branch := do
  let ((ps, start, stmts), locals) ← inScope { function := ← function, isCase := true } do
    let ps ← patterns sub (← remaining)
    let bound := ((← get).scopes.head?.map Scope.locals).getD []
    match ps, bound with
    | _ :: _ :: _, l :: _ => fail l.ref.anchor .bindWithAlternatives
    | _, _ => pure ()
    let _ ← consume .colon
    let start ← pos
    return (ps, start, ← suite sub)
  return ⟨ps, ⟨start, stmts, locals, false, true, false, false⟩, ps.any Pattern.isWildcard⟩

/-- A loop over the elements of something. The loop variable is a local of the body. -/
def forStmt (sub : Subparsers) : Parser Stmt := do
  let p ← advance
  let var ← ident
  let spec ← if ← accept .colon then some <$> sub.typeSpec else pure none
  let _ ← consume .inKw
  let x ← sub.expr
  let _ ← consume .colon
  let start ← pos
  let ((var, stmts), locals) ← inScope { function := ← function, isLoop := true } do
    let var ← declare var .iterator p
    return (var, ← suite sub)
  return .loop p var spec x ⟨start, stmts, locals, true, false, false, false⟩

/-- The statements at the current token: one compound statement, or the simple ones of a line. -/
def bareStmt (sub : Subparsers) : Parser (List Stmt) := do
  match ← kind with
  | .ifKw =>
    let p ← advance
    let cond ← sub.expr
    let _ ← consume .colon
    let yes ← block sub false
    return [.cond p cond yes (← elseBlock sub (← remaining))]
  | .forKw => return [← forStmt sub]
  | .whileKw =>
    let p ← advance
    let cond ← sub.expr
    let _ ← consume .colon
    return [.while p cond (← block sub true)]
  | .matchKw =>
    let p ← advance
    let x ← sub.expr
    let _ ← consume .colon
    let _ ← consume .newline
    let _ ← consume .indent
    let branches ← untilOutdent (branch sub) (← remaining)
    let _ ← consume .outdent
    return [.match p x branches]
  | .semicolon | .newline =>
    let _ ← advance
    return []
  | _ => simpleStmts sub

/-- Records a region without warnings that ends with a statement or a member. -/
def recordIgnore (start finish : Pos) (codes : List Text) : Parser Unit := do
  let st ← get
  if st.hasFile then set { st with ignores := ⟨start, finish, codes⟩ :: st.ignores }
  else fail (← current).after .noFile

/-- Statements with the markers in front of them. -/
def stmt (sub : Subparsers) : Parser (List Stmt) := do
  let m ← stmtMarkers sub {} (← remaining)
  let ss ← bareStmt sub
  match m.ignore, ss.getLast? with
  | some codes, some last => recordIgnore m.pos last.finish codes
  | _, _ => pure ()
  return ss

end GameScript.Parse
