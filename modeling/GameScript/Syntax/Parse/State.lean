import GameScript.Syntax.Fault
import GameScript.Syntax.Span

/-!
# The state of parsing

The tokens that remain, and the scopes that are open. Names inside a function are bound while they are
parsed: each open block knows the names it has declared so far.
-/

namespace GameScript.Parse

/-- An open block. -/
structure Scope where
  /-- The place of the function that the block belongs to. -/
  function : Pos
  /-- The names declared so far, in order. -/
  locals : List Local := []
  isLoop : Bool := false
  isCase : Bool := false
deriving Inhabited

structure State where
  /-- The tokens from the current one on. -/
  tokens : List Token
  /-- The error that follows the last token, if the text could not be read to its end. -/
  fault : Option Scan.Fault
  /-- Whether a multi-line function has just ended the line of its statement. -/
  lineEnded : Bool := false
  /-- The open blocks, the innermost first. -/
  scopes : List Scope := []
  /-- The regions without warnings, the last first. -/
  ignores : List WarningIgnore := []
  /-- Whether a whole file is parsed, and not a single expression. -/
  hasFile : Bool
deriving Inhabited

/-- A parser of things. -/
abbrev Parser := StateT State (Except SyntaxError)

def fail (pos : Pos) (fault : SyntaxFault) : Parser α := throw ⟨pos, fault⟩

/-- The end of a parser that has no room for another step. The tokens that remain give room for all steps that
a parser can take. -/
def outOfRoom : Parser α := fail .none .outOfRoom

/-! ### Tokens -/

/-- The current token. -/
def current : Parser Token := do
  match (← get).tokens with
  | t :: _ => return t
  | [] => return default

/-- The kind of the current token. -/
def kind : Parser TokenKind := return (← current).kind

/-- Whether the current token is of a kind. -/
def isAt (k : TokenKind) : Parser Bool := return (← kind) = k

/-- The place of the current token. -/
def pos : Parser Pos := return (← current).pos

/-- Raises the error that follows the last token. -/
def endOfTokens (s : State) : Parser Unit :=
  match s.fault with
  | some (p, f) => fail p (.scan f)
  | none => pure ()

/-- Makes sure that there is a current token. -/
def begin : Parser Unit := do
  let s ← get
  if s.tokens.isEmpty then endOfTokens s

/-- Passes the current token and returns its place. The end of the file is never passed. -/
def advance : Parser Pos := do
  let s ← get
  match s.tokens with
  | [] => return .none
  | [t] =>
    if t.kind ≠ .endOfFile then endOfTokens s
    return t.pos
  | t :: rest =>
    set { s with tokens := rest }
    return t.pos

/-- The kind of the token after the current one. -/
def peek : Parser TokenKind := do
  let s ← get
  match s.tokens with
  | _ :: t :: _ => return t.kind
  | [t] =>
    if t.kind ≠ .endOfFile then endOfTokens s
    return .endOfFile
  | [] => return .endOfFile

/-- Passes a token of the given kind and returns its place. -/
def consume (k : TokenKind) : Parser Pos := do
  let t ← current
  if t.kind ≠ k then fail t.pos (.unexpected t.kind k)
  advance

/-- Passes the current token if it is of the given kind. -/
def accept (k : TokenKind) : Parser Bool := do
  if ← isAt k then
    let _ ← advance
    return true
  else return false

/-- Passes the tokens of a kind. -/
def skipAll (k : TokenKind) : Nat → Parser Unit
  | 0 => outOfRoom
  | fuel + 1 => do if ← accept k then skipAll k fuel

/-- The number of tokens that remain, which bounds every loop. -/
def remaining : Parser Nat := return (← get).tokens.length

/-- The end of a simple statement or of a member. -/
def endLine : Parser Unit := do
  if (← get).lineEnded then
    modify ({ · with lineEnded := false })
  else
    let t ← current
    if t.kind = .semicolon then
      let _ ← advance
      let _ ← accept .newline
    else if t.kind = .newline then
      let _ ← advance
    else if t.kind ≠ .endOfFile then fail t.pos (.wanted t.kind "newline")

/-! ### Lists -/

/-- Things separated by commas up to a closing token; a comma may follow the last one. -/
def commaList (close : TokenKind) (item : Parser α) : Nat → Parser (List α)
  | 0 => outOfRoom
  | fuel + 1 => do
    if ← isAt close then return []
    let x ← item
    if ← accept .comma then return x :: (← commaList close item fuel)
    else return [x]

/-- Things up to the end of an indented block. -/
def untilOutdent (item : Parser α) : Nat → Parser (List α)
  | 0 => outOfRoom
  | fuel + 1 => do
    let k ← kind
    if k = .outdent || k = .endOfFile then return []
    let x ← item
    return x :: (← untilOutdent item fuel)

/-! ### Names -/

/-- A name. -/
def ident : Parser Ident := do
  let t ← current
  if t.kind ≠ .identifier then fail t.pos (.wanted t.kind "identifier")
  let _ ← advance
  return { pos := t.pos, name := t.raw }

/-- A name after a point, which may be a keyword. -/
def memberName : Parser Ident := do
  let t ← current
  if t.kind ≠ .identifier && t.kind.number ≤ TokenKind.notIn.number then
    fail t.pos (.wanted t.kind "identifier")
  let _ ← advance
  return { pos := t.pos, name := t.raw }

/-- The innermost open declaration of a name. -/
def lookup? (name : Text) : List Scope → Option Local
  | [] => none
  | s :: ss =>
    match s.locals.reverse.find? (·.name = name) with
    | some l => some l
    | none => lookup? name ss

/-- A name in an expression, bound if it is declared in an open block. -/
def identRef : Parser Ident := do
  let id ← ident
  match lookup? id.name (← get).scopes with
  | some l => return { id with source := l.source, binding := .toLocal l.ref }
  | none => return id

/-- The innermost function being parsed. -/
def function : Parser Pos := return ((← get).scopes.head?.map Scope.function).getD .none

/-- The open blocks of the innermost function. -/
def functionScopes : Parser (List Scope) := do
  let scopes := (← get).scopes
  match scopes with
  | [] => return []
  | s :: _ => return scopes.takeWhile (·.function = s.function)

/-- Declares a name in the innermost block and returns it bound. `start` is where the declaration
starts. No name of a function may be declared twice in blocks that are open together. -/
def declare (id : Ident) (source : NameSource) (start : Pos) : Parser Ident := do
  for s in ← functionScopes do
    match s.locals.find? (·.name = id.name) with
    | some l => fail id.pos (.alreadyDeclared l.source.localKind id.name)
    | none => pure ()
  let ref : LocalRef := ⟨id.pos, start, ← function⟩
  let st ← get
  match st.scopes with
  | s :: ss =>
    set { st with scopes := { s with locals := s.locals ++ [(⟨id.name, source, ref⟩ : Local)] } :: ss }
    return { id with source, binding := .toLocal ref }
  | [] => fail (← current).after .noBlock

/-- Parses inside a new block; returns the names that it declared too. -/
def inScope (scope : Scope) (p : Parser α) : Parser (α × List Local) := do
  modify fun st => { st with scopes := scope :: st.scopes }
  let x ← p
  let st ← get
  match st.scopes with
  | s :: ss =>
    set { st with scopes := ss }
    return (x, s.locals)
  | [] => return (x, [])

/-! ### Literals -/

/-- The value of a literal token. -/
def literalValue? (t : Token) : Option Value :=
  match t.kind, t.payload with
  | .int, .int i => some (.int i)
  | .float, .float x => some (.float x)
  | .string, .text s => some (.string s)
  | .stringName, .text s => some (.stringName s)
  | .nodePath, .text s => some (.nodePath s)
  | .trueKw, _ => some (.bool true)
  | .falseKw, _ => some (.bool false)
  | .nullKw, _ => some .nil
  | _, _ => none

def literal : Parser Literal := do
  let t ← current
  match literalValue? t with
  | some value =>
    let _ ← advance
    return { pos := t.pos, raw := t.raw, value }
  | none => fail t.pos (.wanted t.kind "literal")

end GameScript.Parse
