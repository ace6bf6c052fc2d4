import GameScript.Syntax.Span

/-!
# Outlines

The nodes of a tree, each with its depth, parents before children and children in the order of the
source.
-/

namespace GameScript

/-- A node of a syntax tree. -/
inductive Node where
  | file (f : File)
  | cls (d : ClassDecl)
  | base (e : Extends)
  | var (d : VarDecl)
  | const (d : ConstDecl)
  | signal (d : SignalDecl)
  | enum (d : EnumDecl)
  | enumValue (v : EnumValue)
  | group (d : GroupDecl)
  | func (f : Func)
  | param (p : Param)
  | typeSpec (t : TypeSpec)
  | block (b : Block)
  | stmt (s : Stmt)
  | branch (b : Branch)
  | pattern (p : Pattern)
  | patternEntry (e : PatternEntry)
  | expr (e : Expr)
  | dictEntry (e : DictEntry)
deriving Inhabited

namespace Node

def ofIdent (id : Ident) : Node := expr (.ident id)

def ofLiteral (l : Literal) : Node := expr (.literal l)

def ofMember : Member → Node
  | .var d => var d
  | .const d => const d
  | .signal d => signal d
  | .enum d => enum d
  | .enumValue owner i => enumValue (owner.values[i]?.getD default)
  | .func f => func f
  | .cls d => cls d
  | .group d => group d

/-- A statement; the declaration of a variable or a constant is a node of its own kind. -/
def ofStmt : Stmt → Node
  | .var d => var d
  | .const d => const d
  | s => stmt s

def span : Node → Span
  | file f => f.cls.span
  | cls d => d.span
  | base e => e.span
  | var d => d.span
  | const d => d.span
  | signal d => d.span
  | enum d => d.span
  | enumValue v => v.span
  | group d => d.span
  | func f => f.span
  | param p => p.span
  | typeSpec t => t.span
  | block b => b.span
  | stmt s => s.span
  | branch b => b.span
  | pattern p => p.span
  | patternEntry e => e.span
  | expr e => e.span
  | dictEntry e => e.span

private def opt (f : α → Node) : Option α → List Node
  | some a => [f a]
  | none => []

def exprChildren : Expr → List Node
  | .ident _ | .literal _ | .self .. => []
  | .call fn args _ _ _ => expr fn :: args.map expr
  | .superCall _ fn args _ _ _ => opt ofIdent fn ++ args.map expr
  | .dot x n _ => [expr x, ofIdent n]
  | .index x y _ _ => [expr x, expr y]
  | .unary _ _ x _ | .await _ x _ => [expr x]
  | .binary x _ y _ => [expr x, expr y]
  | .cond a b c _ => [expr a, expr b, expr c]
  | .typeTest x _ t _ | .cast x t _ => [expr x, typeSpec t]
  | .list _ xs _ _ => xs.map expr
  | .dict _ es _ _ _ => es.map dictEntry
  | .lambda f _ _ _ => [func f]
  | .preload _ l _ _ _ => [ofLiteral l]

def stmtChildren : Stmt → List Node
  | .assign _ lhs rhs _ _ => [expr lhs, expr rhs]
  | .expr x => [expr x]
  | .cond _ c yes no => [expr c, block yes] ++ opt block no
  | .loop _ v t x body => [ofIdent v] ++ opt typeSpec t ++ [expr x, block body]
  | .while _ c body => [expr c, block body]
  | .match _ x bs => expr x :: bs.map branch
  | .jump .. => []
  | .return _ r _ => opt expr r
  | .assert _ c m _ => expr c :: opt expr m
  | .var d => [var d]
  | .const d => [const d]

def patternChildren : Pattern → List Node
  | .literal l => [ofLiteral l]
  | .expr x => [expr x]
  | .bind _ n => [ofIdent n]
  | .array _ ps _ => ps.map pattern
  | .dict _ es _ _ => es.map patternEntry
  | .wildcard _ | .rest _ => []

/-- The children of a node. -/
def children : Node → List Node
  | file f => [cls f.cls]
  | cls d => opt ofIdent d.name ++ opt base d.base ++ d.members.map ofMember
  | base e => opt ofLiteral e.path ++ e.names.map ofIdent
  | var d =>
    [ofIdent d.name] ++ opt typeSpec d.spec ++ opt expr d.init ++ opt func d.setter ++
      opt func d.getter ++ opt ofIdent d.setterName ++ opt ofIdent d.getterName
  | const d => [ofIdent d.name] ++ opt typeSpec d.spec ++ [expr d.init]
  | signal d => ofIdent d.name :: d.params.map param
  | enum d => opt ofIdent d.name ++ d.values.map enumValue
  | enumValue v => ofIdent v.name :: opt expr v.init
  | group _ => []
  | func f => opt ofIdent f.name ++ f.params.map param ++ opt typeSpec f.returns ++ [block f.body]
  | param p => ofIdent p.name :: (opt typeSpec p.spec ++ opt expr p.default)
  | typeSpec t => t.names.map ofIdent ++ opt typeSpec t.element
  | block b => b.stmts.map ofStmt
  | stmt s => stmtChildren s
  | branch b => b.patterns.map pattern ++ [block b.body]
  | pattern p => patternChildren p
  | patternEntry e => expr e.key :: opt pattern e.value
  | expr e => exprChildren e
  | dictEntry e => [expr e.key, expr e.value]

/-- A node and its descendants down to `fuel` levels, each with its depth. -/
def outlineFrom : Nat → Nat → Node → List (Nat × Node)
  | 0, _, _ => []
  | fuel + 1, depth, n => (depth, n) :: n.children.flatMap (outlineFrom fuel (depth + 1))

end Node

/-- All nodes of a file with their depth. -/
def File.outline (f : File) : List (Nat × Node) := Node.outlineFrom (4 * f.extent + 10) 0 (.file f)

end GameScript
