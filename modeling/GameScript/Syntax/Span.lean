import GameScript.Syntax.Tree

/-!
# Spans

Where a piece of the tree starts and where it ends.
-/

namespace GameScript

/-- A stretch of a file, from a place up to another. -/
structure Span where
  start : Pos
  finish : Pos
deriving DecidableEq, Inhabited

def Span.text (s : Span) : Text := s.start.text ++ "-" ++ s.finish.text

namespace Ident

def finish (id : Ident) : Pos := id.pos.advance id.name

def span (id : Ident) : Span := ⟨id.pos, id.finish⟩

end Ident

namespace Literal

def finish (l : Literal) : Pos := l.pos.advance l.raw

def span (l : Literal) : Span := ⟨l.pos, l.finish⟩

end Literal

namespace TypeSpec

def start (t : TypeSpec) : Pos := (t.names.head?.map Ident.pos).getD .none

def finish (t : TypeSpec) : Pos :=
  match t.element with
  | some _ => t.close.shift 1
  | none => (t.names.getLast?.map Ident.finish).getD .none

def span (t : TypeSpec) : Span := ⟨t.start, t.finish⟩

end TypeSpec

/-- Where an expression starts. -/
def Expr.start : Expr → Pos
  | .ident id => id.pos
  | .literal l => l.pos
  | .self p _ | .superCall p _ _ _ _ _ | .unary p _ _ _ | .list p _ _ _ | .dict p _ _ _ _ | .await p _ _
  | .preload p _ _ _ _ => p
  | .call f _ _ _ _ => f.start
  | .dot x _ _ | .index x _ _ _ | .binary x _ _ _ | .cond x _ _ _ | .typeTest x _ _ _
  | .cast x _ _ => x.start
  | .lambda f _ _ _ => f.pos

/-- Where a pattern starts. -/
def Pattern.start : Pattern → Pos
  | .literal l => l.pos
  | .expr x => x.start
  | .bind p _ | .array p _ _ | .dict p _ _ _ | .wildcard p | .rest p => p

/-- Where a statement starts. -/
def Stmt.start : Stmt → Pos
  | .assign _ lhs _ _ _ => lhs.start
  | .expr x => x.start
  | .cond p _ _ _ | .loop p _ _ _ _ | .while p _ _ | .match p _ _ | .jump p _ | .return p _ _
  | .assert p _ _ _ => p
  | .var d => d.pos
  | .const d => d.pos

mutual

/-- Where an expression ends. -/
def Expr.finish : Expr → Pos
  | .ident id => id.finish
  | .literal l => l.finish
  | .self p _ => p.shift 4
  | .call _ _ c _ _ | .superCall _ _ _ c _ _ | .index _ _ c _ | .list _ _ c _ | .dict _ _ _ c _
  | .preload _ _ c _ _ => c.shift 1
  | .dot _ n _ => n.finish
  | .unary _ _ x _ | .await _ x _ => x.finish
  | .binary _ _ y _ => y.finish
  | .cond _ _ n _ => n.finish
  | .typeTest _ _ t _ | .cast _ t _ => t.finish
  | .lambda f _ _ _ => f.finish

def Func.finish : Func → Pos
  | ⟨pos, _, _, _, body, _, _⟩ =>
    match body with
    | ⟨start, stmts, _, _, _, _, _⟩ =>
      match stmts with
      | [] => pos.shift 4
      | s :: ss => finishOfStmts start (s :: ss)

def Block.finish : Block → Pos
  | ⟨start, stmts, _, _, _, _, _⟩ => finishOfStmts start stmts

/-- Where the last of some statements ends; `p` if there are none. -/
def finishOfStmts (p : Pos) : List Stmt → Pos
  | [] => p
  | s :: ss => finishOfStmts s.finish ss

def Stmt.finish : Stmt → Pos
  | .assign _ _ rhs _ _ => rhs.finish
  | .expr x => x.finish
  | .cond _ _ yes no =>
    match no with
    | some b => b.finish
    | none => yes.finish
  | .loop _ _ _ _ body | .while _ _ body => body.finish
  | .match _ x branches => finishOfBranches x.finish branches
  | .jump p j => p.advance j.token.name
  | .return p result _ =>
    match result with
    | some x => x.finish
    | none => p.shift 6
  | .assert _ _ _ c => c.shift 1
  | .var d => d.finish
  | .const d => d.close

/-- Where the last of some branches ends; `p` if there are none. -/
def finishOfBranches (p : Pos) : List Branch → Pos
  | [] => p
  | ⟨_, body, _⟩ :: bs => finishOfBranches body.finish bs

/-- Where a constant declaration ends. -/
def ConstDecl.close : ConstDecl → Pos
  | ⟨_, _, _, _, init, _⟩ => init.finish

end

def Pattern.finish : Pattern → Pos
  | .literal l => l.finish
  | .expr x => x.finish
  | .bind _ n => n.finish
  | .array _ _ c | .dict _ _ _ c => c.shift 1
  | .wildcard p => p.shift 1
  | .rest p => p.shift 2

def Expr.span (e : Expr) : Span := ⟨e.start, e.finish⟩
def Stmt.span (s : Stmt) : Span := ⟨s.start, s.finish⟩
def Func.span (f : Func) : Span := ⟨f.pos, f.finish⟩
def Block.span (b : Block) : Span := ⟨b.start, b.finish⟩
def Pattern.span (p : Pattern) : Span := ⟨p.start, p.finish⟩
def DictEntry.span (e : DictEntry) : Span := ⟨e.key.start, e.value.finish⟩
def VarDecl.span (d : VarDecl) : Span := ⟨d.pos, d.finish⟩
def ConstDecl.span (d : ConstDecl) : Span := ⟨d.pos, d.close⟩
def SignalDecl.span (d : SignalDecl) : Span := ⟨d.pos, d.finish⟩
def EnumDecl.span (d : EnumDecl) : Span := ⟨d.pos, d.close.shift 1⟩
def ClassDecl.span (d : ClassDecl) : Span := ⟨d.pos, d.finish⟩

def EnumValue.span (v : EnumValue) : Span :=
  ⟨v.name.pos, (v.init.map Expr.finish).getD v.name.finish⟩

/-- The span of the marker of a group. -/
def GroupDecl.span (d : GroupDecl) : Span := ⟨d.pos, d.pos.advance ("@" ++ d.marker)⟩

def Param.span (p : Param) : Span :=
  ⟨p.name.pos,
    match p.default, p.spec with
    | some e, _ => e.finish
    | none, some t => t.finish
    | none, none => p.name.finish⟩

def Branch.span (b : Branch) : Span :=
  ⟨(b.patterns.head?.map Pattern.start).getD .none, b.body.finish⟩

def PatternEntry.span (e : PatternEntry) : Span :=
  ⟨e.key.start, (e.value.map Pattern.finish).getD e.key.finish⟩

def Extends.span (e : Extends) : Span :=
  ⟨e.pos,
    match e.names.getLast?, e.path with
    | some id, _ => id.finish
    | none, some l => l.finish
    | none, none => e.pos.shift 7⟩

def Member.span : Member → Span
  | .var d => d.span
  | .const d => d.span
  | .signal d => d.span
  | .enum d => d.span
  | .enumValue owner i => ((owner.values[i]?).map EnumValue.span).getD default
  | .func d => d.span
  | .cls d => d.span
  | .group d => d.span

end GameScript
