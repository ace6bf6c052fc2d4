import GameScript.Syntax.Parse.Expr
import Mathlib.Data.List.Forall2

/-!
# Expressions as they are written

A term is an expression without places: `Term.Denotes` tells which syntax trees are its tree, and `Term.text` is how
it is written. Each position in an expression requires a level of the grammar, and an operand stands in parentheses
there iff its own level is looser.

* Levels grow from loose to tight: casts, conditionals, the binary operators by their precedence with the negations
  between them, signs, powers, type tests, and everything that begins with a primary expression.
* A binary operator takes a first operand of its own level and a second one of the next level.
* A power takes a second operand of the level of type tests, which may have signs in front (`Position.exponent`).
* A conditional has conditionals in its last branch only.
-/

namespace GameScript

/-! ### Words -/

/-- A token without its place. -/
structure Word where
  kind : TokenKind
  raw : Text
  payload : Payload := .none
deriving DecidableEq

def Token.word (t : Token) : Word := ⟨t.kind, t.raw, t.payload⟩

/-- A keyword or a token of punctuation. -/
def Word.symbol (k : TokenKind) : Word := { kind := k, raw := k.name }

/-- A name of ASCII letters, digits and underscores that is not reserved. -/
structure Identifier where
  first : UInt8
  rest : List UInt8
  isStart : Scan.isNameStart first.toNat = true ∧ first < 128
  areParts : ∀ b ∈ rest, Scan.isNamePart b.toNat = true ∧ b < 128
  unreserved : TokenKind.keyword? ⟨first :: rest⟩ = none

namespace Identifier

def text (n : Identifier) : Text := ⟨n.first :: n.rest⟩

def word (n : Identifier) : Word := { kind := .identifier, raw := n.text }

/-- The name in a syntax tree, which is not bound. -/
def Denotes (n : Identifier) (id : Ident) : Prop := id = { pos := id.pos, name := n.text }

end Identifier

namespace BinaryOp

/-- How an operator is written. -/
def words : BinaryOp → List Word
  | notWithin => [.symbol .notKw, .symbol .inKw]
  | op => [.symbol op.token]

end BinaryOp

def UnaryOp.word (op : UnaryOp) : Word := .symbol op.token

/-- Whether the operator is a sign, and not a negation. -/
def UnaryOp.isSign (op : UnaryOp) : Bool := (UnaryOp.ofSign? op.token).isSome

/-! ### Literals -/

/-- Whether a word is read as it is where it stands alone. -/
def Word.isRead (w : Word) : Bool :=
  match Scan.token { cursor := { rest := w.raw.bytes } } with
  | .ok (t, s) => t.word = w && s.cursor.rest.isEmpty
  | .error _ => false

/-- The value of a word that is a literal. -/
def Word.value? (w : Word) : Option Value := Parse.literalValue? ⟨w.kind, .start, w.raw, w.payload, .start⟩

/-- A literal in any spelling: a word that is read, and its value. -/
structure LiteralWord where
  word : Word
  value : Value
  isRead : word.isRead = true
  isValue : word.value? = some value

namespace LiteralWord

def ofBool (b : Bool) : LiteralWord where
  word := .symbol (if b then .trueKw else .falseKw)
  value := .bool b
  isRead := by cases b <;> decide
  isValue := by cases b <;> rfl

def null : LiteralWord where
  word := .symbol .nullKw
  value := .nil
  isRead := by decide
  isValue := rfl

/-- The literal in a syntax tree that a word stands for. -/
def Denotes (w : LiteralWord) (l : Literal) : Prop := l = { pos := l.pos, raw := w.word.raw, value := w.value }

end LiteralWord

/-! ### Types -/

/-- A type: a path of names, which may have an element type. -/
inductive TypeTerm where
  | path (first : Identifier) (rest : List Identifier)
  | of (first : Identifier) (rest : List Identifier) (element : TypeTerm)

/-- The words of a path of names. -/
def pathWords (first : Identifier) (rest : List Identifier) : List Word :=
  first.word :: rest.flatMap fun n => [.symbol .dot, n.word]

namespace TypeTerm

def words : TypeTerm → List Word
  | path first rest => pathWords first rest
  | .of first rest element => pathWords first rest ++ .symbol .openBracket :: element.words ++ [.symbol .closeBracket]

/-- A type in a syntax tree that has these names and this element type. -/
inductive Denotes : TypeTerm → TypeSpec → Prop
  | path {first : Identifier} {rest : List Identifier} {ids : List Ident}
      (h : List.Forall₂ Identifier.Denotes (first :: rest) ids) :
      Denotes (path first rest) { names := ids, element := none, close := .none }
  | of {first : Identifier} {rest : List Identifier} {ids : List Ident} {element : TypeTerm} {spec : TypeSpec}
      (h : List.Forall₂ Identifier.Denotes (first :: rest) ids) (he : Denotes element spec) (close : Pos) :
      Denotes (.of first rest element) { names := ids, element := some spec, close }

end TypeTerm

/-! ### Terms -/

/-- An expression without places. -/
inductive Term where
  | name (n : Identifier)
  | literal (w : LiteralWord)
  /-- An expression in parentheses that may be missing. -/
  | group (x : Term)
  | call (f : Term) (args : List Term)
  | index (x y : Term)
  | member (x : Term) (n : Identifier)
  | unary (op : UnaryOp) (x : Term)
  | binary (op : BinaryOp) (x y : Term)
  | typeTest (x : Term) (negated : Bool) (t : TypeTerm)
  | cond (yes cond no : Term)
  | cast (x : Term) (t : TypeTerm)

namespace Term

/-! ### Trees -/

mutual

/-- The syntax trees of a term differ in their places only; nothing in them has been analysed. -/
inductive Denotes : Term → Expr → Prop
  | name {n : Identifier} {id : Ident} (h : n.Denotes id) : Denotes (name n) (.ident id)
  | literal {w : LiteralWord} {l : Literal} (h : w.Denotes l) : Denotes (literal w) (.literal l)
  | group {x : Term} {e : Expr} (h : Denotes x e) : Denotes (group x) e
  | call {f : Term} {args : List Term} {e : Expr} {es : List Expr} (hf : Denotes f e) (hargs : DenoteAll args es)
      (close : Pos) : Denotes (call f args) (.call e es close {} {})
  | index {x y : Term} {e i : Expr} (hx : Denotes x e) (hy : Denotes y i) (close : Pos) :
      Denotes (index x y) (.index e i close {})
  | member {x : Term} {n : Identifier} {e : Expr} {id : Ident} (hx : Denotes x e) (hn : n.Denotes id) :
      Denotes (member x n) (.dot e id {})
  | unary {op : UnaryOp} {x : Term} {e : Expr} (pos : Pos) (h : Denotes x e) :
      Denotes (unary op x) (.unary pos op e {})
  | binary {op : BinaryOp} {x y : Term} {e₁ e₂ : Expr} (hx : Denotes x e₁) (hy : Denotes y e₂) :
      Denotes (binary op x y) (.binary e₁ op e₂ {})
  | typeTest {x : Term} {negated : Bool} {t : TypeTerm} {e : Expr} {spec : TypeSpec} (hx : Denotes x e)
      (ht : t.Denotes spec) : Denotes (typeTest x negated t) (.typeTest e negated spec {})
  | cond {x y z : Term} {e₁ e₂ e₃ : Expr} (hx : Denotes x e₁) (hy : Denotes y e₂) (hz : Denotes z e₃) :
      Denotes (cond x y z) (.cond e₁ e₂ e₃ {})
  | cast {x : Term} {t : TypeTerm} {e : Expr} {spec : TypeSpec} (hx : Denotes x e) (ht : t.Denotes spec) :
      Denotes (cast x t) (.cast e spec {})

inductive DenoteAll : List Term → List Expr → Prop
  | nil : DenoteAll [] []
  | cons {x : Term} {xs : List Term} {e : Expr} {es : List Expr} (h : Denotes x e) (hs : DenoteAll xs es) :
      DenoteAll (x :: xs) (e :: es)

end

/-! ### Levels -/

/-- The level of a binary operator. Powers are tighter than signs. -/
def binaryLevel (op : BinaryOp) : Nat := op.level + 2

/-- The level of a unary operator. -/
def unaryLevel (op : UnaryOp) : Nat := if op.isSign then BinaryOp.signLevel + 2 else BinaryOp.notLevel + 2

/-- The level of type tests. -/
def testLevel : Nat := 15

/-- The level of calls, indices, attributes and everything without operators. -/
def suffixLevel : Nat := 16

/-- How tight a term is. -/
def level : Term → Nat
  | cast .. => 0
  | cond .. => 1
  | binary op _ _ => binaryLevel op
  | unary op _ => unaryLevel op
  | typeTest .. => testLevel
  | _ => suffixLevel

/-- What the place of a term requires. -/
inductive Position where
  /-- A term of at least a level. -/
  | level (l : Nat)
  /-- A type test or something tighter, which may have signs in front. -/
  | exponent
deriving DecidableEq

/-- The level that a position requires of a term without signs. -/
def Position.least : Position → Nat
  | .level l => l
  | .exponent => testLevel

/-- Parentheses around words of a level that is too loose for a position. -/
def Position.enclose (p : Position) (level : Nat) (ws : List Word) : List Word :=
  if level < p.least then .symbol .openParen :: ws ++ [.symbol .closeParen] else ws

mutual

/-- The words of a term at a position. -/
def words : Term → Position → List Word
  | name n, _ => [n.word]
  | literal w, _ => [w.word]
  | group x, _ => .symbol .openParen :: x.words (.level 0) ++ [.symbol .closeParen]
  | call f args, _ =>
    f.words (.level suffixLevel) ++ .symbol .openParen :: listWords args ++ [.symbol .closeParen]
  | index x y, _ =>
    x.words (.level suffixLevel) ++ .symbol .openBracket :: y.words (.level 0) ++ [.symbol .closeBracket]
  | member x n, _ => x.words (.level suffixLevel) ++ [.symbol .dot, n.word]
  | unary op x, p =>
    if op.isSign && p = .exponent then op.word :: x.words .exponent
    else p.enclose (unaryLevel op) (op.word :: x.words (.level (unaryLevel op)))
  | binary op x y, p =>
    p.enclose (binaryLevel op) (x.words (.level (binaryLevel op)) ++ op.words ++
      y.words (if op = .power then .exponent else .level (binaryLevel op + 1)))
  | typeTest x negated t, p =>
    p.enclose testLevel (x.words (.level testLevel) ++ .symbol .isKw :: (if negated then [.symbol .notKw] else []) ++
      t.words)
  | cond x y z, p =>
    p.enclose 1 (x.words (.level 2) ++ .symbol .ifKw :: y.words (.level 2) ++ .symbol .elseKw :: z.words (.level 1))
  | cast x t, p => p.enclose 0 (x.words (.level 0) ++ .symbol .asKw :: t.words)

/-- The words of terms with commas between them. -/
def listWords : List Term → List Word
  | [] => []
  | x :: xs => x.words (.level 0) ++ restWords xs

/-- The words of the terms after the first one of a list. -/
def restWords : List Term → List Word
  | [] => []
  | x :: xs => .symbol .comma :: x.words (.level 0) ++ restWords xs

end

/-- A sign in front of a power stands in parentheses in its first operand only. -/
example (a : Identifier) :
    (binary .power (unary .minus (name a)) (unary .minus (name a))).words (.level 0) =
      [.symbol .openParen, .symbol .minus, a.word, .symbol .closeParen, .symbol .starStar, .symbol .minus, a.word] := rfl

/-- How a term is written, with a blank between any two words. -/
def text (t : Term) : Text := .join " " ((t.words (.level 0)).map Word.raw)

end Term

end GameScript
