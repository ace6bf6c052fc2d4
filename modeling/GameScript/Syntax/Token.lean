import GameScript.Number.Double
import GameScript.Syntax.Position
import GameScript.Value.Operator

/-!
# Tokens

The words of the language. Line breaks and changes of indentation are tokens too.
-/

namespace GameScript

/-! ## Tokens -/

/-- The kinds of tokens: layout, tokens with a value, punctuation and keywords. -/
inductive TokenKind where
  | illegal | endOfFile | newline | indent | outdent
  | identifier | int | float | string | stringName | nodePath
  /-- An at sign and a name, as in `@onready`. -/
  | marker
  | plus | minus | star | starStar | slash | percent | amp | pipe | circumflex | tilde
  | shiftLeft | shiftRight | bang | ampAmp | pipePipe | dot | dotDot | comma | assign | semicolon
  | colon | colonAssign | arrow | openParen | closeParen | openBracket | closeBracket
  | openBrace | closeBrace | less | greater | greaterEqual | lessEqual | equal | notEqual
  | plusAssign | minusAssign | starAssign | starStarAssign | slashAssign | percentAssign | ampAssign
  | pipeAssign | circumflexAssign | shiftLeftAssign | shiftRightAssign
  /-- The two keywords of a negated membership test, taken as one operator. -/
  | notIn
  | andKw | asKw | assertKw | awaitKw | breakKw | breakpointKw | classKw | classNameKw | constKw
  | continueKw | elifKw | elseKw | enumKw | extendsKw | falseKw | forKw | funcKw | ifKw | inKw
  | isKw | matchKw | notKw | nullKw | orKw | passKw | preloadKw | returnKw | selfKw | signalKw
  | staticKw | superKw | trueKw | varKw | whileKw
deriving DecidableEq, Inhabited

namespace TokenKind

/-- All kinds with their spelling or description, in order. -/
def spellings : List (TokenKind × String) := [
  (illegal, "illegal token"), (endOfFile, "end of file"), (newline, "newline"), (indent, "indent"),
  (outdent, "outdent"), (identifier, "identifier"), (int, "int literal"), (float, "float literal"),
  (string, "string literal"), (stringName, "string name literal"), (nodePath, "node path literal"),
  (marker, "annotation"), (plus, "+"), (minus, "-"), (star, "*"), (starStar, "**"), (slash, "/"),
  (percent, "%"), (amp, "&"), (pipe, "|"), (circumflex, "^"), (tilde, "~"), (shiftLeft, "<<"),
  (shiftRight, ">>"), (bang, "!"), (ampAmp, "&&"), (pipePipe, "||"), (dot, "."), (dotDot, ".."),
  (comma, ","), (assign, "="), (semicolon, ";"), (colon, ":"), (colonAssign, ":="), (arrow, "->"),
  (openParen, "("), (closeParen, ")"), (openBracket, "["), (closeBracket, "]"),
  (openBrace, "\x7b"), (closeBrace, "\x7d"), (less, "<"), (greater, ">"), (greaterEqual, ">="),
  (lessEqual, "<="), (equal, "=="), (notEqual, "!="), (plusAssign, "+="), (minusAssign, "-="),
  (starAssign, "*="), (starStarAssign, "**="), (slashAssign, "/="), (percentAssign, "%="),
  (ampAssign, "&="), (pipeAssign, "|="), (circumflexAssign, "^="), (shiftLeftAssign, "<<="),
  (shiftRightAssign, ">>="), (notIn, "not in"), (andKw, "and"), (asKw, "as"), (assertKw, "assert"),
  (awaitKw, "await"), (breakKw, "break"), (breakpointKw, "breakpoint"), (classKw, "class"),
  (classNameKw, "class_name"), (constKw, "const"), (continueKw, "continue"), (elifKw, "elif"),
  (elseKw, "else"), (enumKw, "enum"), (extendsKw, "extends"), (falseKw, "false"), (forKw, "for"),
  (funcKw, "func"), (ifKw, "if"), (inKw, "in"), (isKw, "is"), (matchKw, "match"), (notKw, "not"),
  (nullKw, "null"), (orKw, "or"), (passKw, "pass"), (preloadKw, "preload"), (returnKw, "return"),
  (selfKw, "self"), (signalKw, "signal"), (staticKw, "static"), (superKw, "super"),
  (trueKw, "true"), (varKw, "var"), (whileKw, "while")]

/-- All kinds with the text of their spelling or description. -/
def table : List (TokenKind × Text) := spellings.map fun (k, s) => (k, .ofString s)

/-- The spelling of a token, or a description of its kind. -/
def name (k : TokenKind) : Text := ((table.find? (·.1 = k)).map Prod.snd).getD ""

/-- The place of a kind in the table. -/
def number (k : TokenKind) : Nat := table.findIdx (·.1 = k)

/-- Whether the token is made of punctuation characters. -/
def isPunctuation (k : TokenKind) : Bool :=
  plus.number ≤ k.number && k.number ≤ shiftRightAssign.number

/-- The token in a message; punctuation stands between quotes. -/
def label (k : TokenKind) : Text := if k.isPunctuation then "'" ++ k.name ++ "'" else k.name

/-- The keywords with their spelling. -/
def keywords : List (TokenKind × Text) := table.drop (notIn.number + 1)

/-- The keyword with a spelling. -/
def keyword? (word : Text) : Option TokenKind := (keywords.find? (·.2 = word)).map Prod.fst

/-- Whether a name is reserved. -/
def isKeyword (word : Text) : Bool := (keyword? word).isSome

/-- The binary operator of a compound assignment such as `+=`. -/
def compound? : TokenKind → Option TokenKind
  | plusAssign => some plus
  | minusAssign => some minus
  | starAssign => some star
  | starStarAssign => some starStar
  | slashAssign => some slash
  | percentAssign => some percent
  | ampAssign => some amp
  | pipeAssign => some pipe
  | circumflexAssign => some circumflex
  | shiftLeftAssign => some shiftLeft
  | shiftRightAssign => some shiftRight
  | _ => none

end TokenKind

/-- What a token stands for beyond its kind. -/
inductive Payload where
  | none
  | int (i : Int64)
  | float (x : Double)
  /-- The decoded text of a string, or the name of a marker. -/
  | text (t : Text)
deriving DecidableEq, Inhabited

/-- A **token** with the place where it starts and the place after it. -/
structure Token where
  kind : TokenKind
  pos : Pos
  /-- The text of the token in the file. -/
  raw : Text
  payload : Payload := .none
  after : Pos
deriving DecidableEq, Inhabited

/-- The decoded text of a token. -/
def Token.text (t : Token) : Text :=
  match t.payload with
  | .text s => s
  | _ => ""

/-! ## Operators in expressions

The operators as they are written, with their precedence and what they mean. Logical operators have two
spellings.
-/

/-- A binary operator as it is written. -/
inductive BinaryOp where
  | or | pipePipe | and | ampAmp | within | notWithin
  | equal | notEqual | less | greater | lessEqual | greaterEqual
  | bitOr | bitXor | bitAnd | shiftLeft | shiftRight | minus | plus | times | percent | slash | power
deriving DecidableEq, Inhabited

namespace BinaryOp

/-- All operators with their token. -/
def tokens : List (BinaryOp × TokenKind) := [
  (or, .orKw), (pipePipe, .pipePipe), (and, .andKw), (ampAmp, .ampAmp), (within, .inKw),
  (notWithin, .notIn), (equal, .equal), (notEqual, .notEqual), (less, .less), (greater, .greater),
  (lessEqual, .lessEqual), (greaterEqual, .greaterEqual), (bitOr, .pipe), (bitXor, .circumflex),
  (bitAnd, .amp), (shiftLeft, .shiftLeft), (shiftRight, .shiftRight), (minus, .minus),
  (plus, .plus), (times, .star), (percent, .percent), (slash, .slash), (power, .starStar)]

def token (op : BinaryOp) : TokenKind := ((tokens.find? (·.1 = op)).map Prod.snd).getD .illegal

def ofToken? (k : TokenKind) : Option BinaryOp := (tokens.find? (·.2 = k)).map Prod.fst

/-- The levels of precedence; a higher level binds tighter. Negation by `not` has level 2, and powers
bind tighter than signs. -/
def level : BinaryOp → Nat
  | or | pipePipe => 0
  | and | ampAmp => 1
  | within | notWithin => 3
  | equal | notEqual | less | greater | lessEqual | greaterEqual => 4
  | bitOr => 5
  | bitXor => 6
  | bitAnd => 7
  | shiftLeft | shiftRight => 8
  | minus | plus => 9
  | times | percent | slash => 10
  | power => 12

/-- The level of `not`. -/
def notLevel : Nat := 2

/-- The level at which signs and everything tighter starts. -/
def signLevel : Nat := 11

/-- What the operator computes. -/
def operator : BinaryOp → Operator
  | or | pipePipe => .or
  | and | ampAmp => .and
  | within | notWithin => .within
  | equal => .equal
  | notEqual => .notEqual
  | less => .less
  | greater => .greater
  | lessEqual => .lessEqual
  | greaterEqual => .greaterEqual
  | bitOr => .bitOr
  | bitXor => .bitXor
  | bitAnd => .bitAnd
  | shiftLeft => .shiftLeft
  | shiftRight => .shiftRight
  | minus => .subtract
  | plus => .add
  | times => .multiply
  | percent => .modulo
  | slash => .divide
  | power => .power

/-- Whether the second operand is evaluated only if the first does not decide. -/
def isLogical (op : BinaryOp) : Bool := op.level ≤ 1

/-- Whether the operator is a conjunction. -/
def isAnd (op : BinaryOp) : Bool := op.level = 1

/-- The operator of a compound assignment such as `+=`. -/
def ofAssignment? (k : TokenKind) : Option BinaryOp := k.compound?.bind ofToken?

end BinaryOp

/-- A unary operator as it is written. -/
inductive UnaryOp where
  | minus | plus | tilde | not | bang
deriving DecidableEq, Inhabited

namespace UnaryOp

def token : UnaryOp → TokenKind
  | minus => .minus
  | plus => .plus
  | tilde => .tilde
  | not => .notKw
  | bang => .bang

/-- The operator of a sign token. -/
def ofSign? : TokenKind → Option UnaryOp
  | .minus => some minus
  | .plus => some plus
  | .tilde => some tilde
  | _ => none

/-- The operator of a negation token. -/
def ofNegation? : TokenKind → Option UnaryOp
  | .notKw => some not
  | .bang => some bang
  | _ => none

/-- What the operator computes. -/
def operator : UnaryOp → Operator
  | minus => .negate
  | plus => .positive
  | tilde => .bitNegate
  | not | bang => .not

end UnaryOp

end GameScript
