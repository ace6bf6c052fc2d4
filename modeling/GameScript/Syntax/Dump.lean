import GameScript.Syntax.Outline
import GameScript.Text.Literal

/-!
# Trees as text

Shows syntax trees for inspection: `dump` writes a tree with all its fields on one line, and
`outlineLine` describes a single node with its place.
-/

namespace GameScript

namespace Node

/-- The name of the kind of a node. -/
def kindName : Node → Text
  | .file _ => "File"
  | .cls _ => "ClassDecl"
  | .base _ => "Extends"
  | .var _ => "VarDecl"
  | .const _ => "ConstDecl"
  | .signal _ => "SignalDecl"
  | .enum _ => "EnumDecl"
  | .enumValue _ => "EnumValue"
  | .group _ => "GroupDecl"
  | .func _ => "FuncDecl"
  | .param _ => "Param"
  | .typeSpec _ => "TypeSpec"
  | .block _ => "Block"
  | .branch _ => "MatchBranch"
  | .patternEntry _ => "DictPatternEntry"
  | .dictEntry _ => "DictEntry"
  | .stmt s =>
    match s with
    | .assign .. => "AssignStmt"
    | .expr _ => "ExprStmt"
    | .cond .. => "IfStmt"
    | .loop .. => "ForStmt"
    | .while .. => "WhileStmt"
    | .match .. => "MatchStmt"
    | .jump .. => "BranchStmt"
    | .return .. => "ReturnStmt"
    | .assert .. => "AssertStmt"
    | .var _ => "VarDecl"
    | .const _ => "ConstDecl"
  | .pattern p =>
    match p with
    | .literal _ => "LiteralPattern"
    | .expr _ => "ExprPattern"
    | .bind .. => "BindPattern"
    | .array .. => "ArrayPattern"
    | .dict .. => "DictPattern"
    | .wildcard _ => "WildcardPattern"
    | .rest _ => "RestPattern"
  | .expr e =>
    match e with
    | .ident _ => "Ident"
    | .literal _ => "Literal"
    | .self .. => "SelfExpr"
    | .call .. | .superCall .. => "CallExpr"
    | .dot .. => "DotExpr"
    | .index .. => "IndexExpr"
    | .unary .. => "UnaryExpr"
    | .binary .. => "BinaryExpr"
    | .cond .. => "CondExpr"
    | .typeTest .. => "TypeTestExpr"
    | .cast .. => "CastExpr"
    | .list .. => "ListExpr"
    | .dict .. => "DictExpr"
    | .lambda .. => "LambdaExpr"
    | .await .. => "AwaitExpr"
    | .preload .. => "PreloadExpr"

/-! ### Fields -/

/-- What a field of a node holds. -/
inductive Part where
  | node (n : Node)
  /-- Several nodes; the field is not shown if there are none. -/
  | nodes (ns : List Node)
  | word (t : Text)
  /-- Nothing but the name of the field. -/
  | flag

/-- A field of a node. -/
structure NodeField where
  name : Text
  part : Part

namespace NodeField

def some_ (name : Text) (f : α → Node) (x : Option α) : List NodeField :=
  match x with
  | some a => [⟨name, .node (f a)⟩]
  | none => []

def flag (name : Text) (b : Bool) : List NodeField := if b then [⟨name, .flag⟩] else []

/-- A word that is not shown if it is empty. -/
def word (name t : Text) : List NodeField := if t.isEmpty then [] else [⟨name, .word t⟩]

def many (name : Text) (f : α → Node) (xs : List α) : List NodeField :=
  if xs.isEmpty then [] else [⟨name, .nodes (xs.map f)⟩]

end NodeField

open NodeField

/-- The fields of a call beside what is called. -/
def callFields (args : List Expr) (f : CallFacts) : List NodeField :=
  many "Args" expr args ++ word "FuncName" f.name ++ flag "IsStaticCall" f.isStatic ++
    flag "IsAwaited" f.isAwaited

/-- The fields of an expression. -/
def exprFields : Expr → List NodeField
  | .ident _ | .literal _ | .self .. => []
  | .call fn args _ f _ => ⟨"Fn", .node (expr fn)⟩ :: callFields args f
  | .superCall _ fn args _ f _ => ⟨"Super", .flag⟩ :: some_ "Fn" ofIdent fn ++ callFields args f
  | .dot x n _ => [⟨"X", .node (expr x)⟩, ⟨"Name", .node (ofIdent n)⟩]
  | .index x y _ _ => [⟨"X", .node (expr x)⟩, ⟨"Y", .node (expr y)⟩]
  | .unary _ op x _ => [⟨"Op", .word op.token.name⟩, ⟨"X", .node (expr x)⟩]
  | .binary x op y _ =>
    [⟨"X", .node (expr x)⟩, ⟨"Op", .word op.token.name⟩, ⟨"Y", .node (expr y)⟩]
  | .cond a b c _ =>
    [⟨"True", .node (expr a)⟩, ⟨"Cond", .node (expr b)⟩, ⟨"False", .node (expr c)⟩]
  | .typeTest x negated t _ =>
    ⟨"X", .node (expr x)⟩ :: flag "Not" negated ++ [⟨"Test", .node (typeSpec t)⟩]
  | .cast x t _ => [⟨"X", .node (expr x)⟩, ⟨"Target", .node (typeSpec t)⟩]
  | .list _ xs _ _ => many "List" expr xs
  | .dict _ es style _ _ =>
    many "Entries" dictEntry es ++ (if style = .fields then [⟨"Style", .word "LuaTable"⟩] else [])
  | .lambda f _ _ _ => [⟨"Func", .node (func f)⟩]
  | .await _ x _ => [⟨"X", .node (expr x)⟩]
  | .preload _ l _ _ _ => [⟨"Path", .node (ofLiteral l)⟩]

/-- The fields of a statement. -/
def stmtFields : Stmt → List NodeField
  | .assign op lhs rhs _ _ =>
    let sign : Text := match op with
      | some op => op.token.name ++ "="
      | none => "="
    [⟨"Op", .word sign⟩, ⟨"LHS", .node (expr lhs)⟩, ⟨"RHS", .node (expr rhs)⟩]
  | .expr x => [⟨"X", .node (expr x)⟩]
  | .cond _ c yes no =>
    [⟨"Cond", .node (expr c)⟩, ⟨"True", .node (block yes)⟩] ++ some_ "False" block no
  | .loop _ v t x body =>
    ⟨"Var", .node (ofIdent v)⟩ :: some_ "TypeSpec" typeSpec t ++
      [⟨"X", .node (expr x)⟩, ⟨"Body", .node (block body)⟩]
  | .while _ c body => [⟨"Cond", .node (expr c)⟩, ⟨"Body", .node (block body)⟩]
  | .match _ x bs => ⟨"X", .node (expr x)⟩ :: many "Branches" branch bs
  | .jump _ j => ⟨"Token", .word j.token.name⟩ :: flag "Match" (j = .continue true)
  | .return _ r _ => some_ "Result" expr r
  | .assert _ c m _ => ⟨"Cond", .node (expr c)⟩ :: some_ "Message" expr m
  | .var _ | .const _ => []

/-- The fields of a pattern. -/
def patternFields : Pattern → List NodeField
  | .literal l => [⟨"Lit", .node (ofLiteral l)⟩]
  | .expr x => [⟨"X", .node (expr x)⟩]
  | .bind _ n => [⟨"Name", .node (ofIdent n)⟩]
  | .array _ ps _ => many "Elems" pattern ps
  | .dict _ es isOpen _ => many "Entries" patternEntry es ++ flag "Rest" isOpen
  | .wildcard _ | .rest _ => []

/-- The fields of a node that are set. -/
def fields : Node → List NodeField
  | file f => [⟨"Class", .node (cls f.cls)⟩]
  | cls d =>
    some_ "Name" ofIdent d.name ++ some_ "Extends" base d.base ++ many "Members" ofMember d.members ++
      flag "Tool" d.isTool ++ flag "OnreadyUsed" d.usesOnready
  | base e => some_ "Path" ofLiteral e.path ++ many "Names" ofIdent e.names
  | var d =>
    ⟨"Name", .node (ofIdent d.name)⟩ :: some_ "TypeSpec" typeSpec d.spec ++ flag "Infer" d.infer ++
      some_ "Init" expr d.init ++ flag "Onready" d.onready ++ flag "Export" d.isExport ++
      flag "Local" d.isLocal ++ some_ "Setter" func d.setter ++ some_ "Getter" func d.getter ++
      some_ "SetterName" ofIdent d.setterName ++ some_ "GetterName" ofIdent d.getterName
  | const d =>
    ⟨"Name", .node (ofIdent d.name)⟩ :: some_ "TypeSpec" typeSpec d.spec ++ flag "Infer" d.infer ++
      [⟨"Init", .node (expr d.init)⟩] ++ flag "Local" d.isLocal
  | signal d => ⟨"Name", .node (ofIdent d.name)⟩ :: many "Params" param d.params
  | enum d => some_ "Name" ofIdent d.name ++ many "Values" enumValue d.values
  | enumValue v => ⟨"Name", .node (ofIdent v.name)⟩ :: some_ "Init" expr v.init
  | group d => word "Annotation" d.marker ++ word "Name" d.name
  | func f =>
    some_ "Name" ofIdent f.name ++ many "Params" param f.params ++ some_ "Return" typeSpec f.returns ++
      [⟨"Body", .node (block f.body)⟩] ++ flag "Static" f.isStatic
  | param p =>
    ⟨"Name", .node (ofIdent p.name)⟩ :: some_ "TypeSpec" typeSpec p.spec ++ flag "Infer" p.infer ++
      some_ "Default" expr p.default
  | typeSpec t => many "Names" ofIdent t.names ++ some_ "Element" typeSpec t.element
  | block _ => []
  | stmt s => stmtFields s
  | branch b =>
    many "Patterns" pattern b.patterns ++ [⟨"Body", .node (block b.body)⟩] ++
      flag "HasWildcard" b.hasWildcard
  | pattern p => patternFields p
  | patternEntry e => ⟨"Key", .node (expr e.key)⟩ :: some_ "Value" pattern e.value
  | expr e => exprFields e
  | dictEntry e => [⟨"Key", .node (expr e.key)⟩, ⟨"Value", .node (expr e.value)⟩]

/-- A field, given how nodes are shown. -/
def NodeField.text (show_ : Node → Text) (f : NodeField) : Text :=
  match f.part with
  | .node n => f.name ++ "=" ++ show_ n
  | .nodes ns => f.name ++ "=(" ++ Text.join " " (ns.map show_) ++ ")"
  | .word t => f.name ++ "=" ++ t
  | .flag => f.name

/-- A node with its fields, down to `fuel` levels. Names and literals stand for themselves. -/
def dump : Nat → Node → Text
  | 0, _ => ""
  | fuel + 1, n =>
    match n with
    | .expr (.ident id) => id.name
    | .expr (.literal l) => l.value.repr
    | .block b => "(" ++ Text.join " " (b.stmts.map fun s => dump fuel (ofStmt s)) ++ ")"
    | n => "(" ++ Text.join " " (n.kindName :: n.fields.map (NodeField.text (dump fuel))) ++ ")"

/-! ### Lines of an outline -/

/-- A truth value as a word. -/
def boolText (b : Bool) : Text := if b then "true" else "false"

/-- What a line of an outline says beyond the span of its node. -/
def detail : Node → Text
  | .expr (.ident id) =>
    " " ++ id.name ++ " " ++ id.source.name ++ match id.binding with
      | .toLocal r => " @" ++ r.start.text ++ " fn@" ++ r.function.text
      | _ => ""
  | .block b =>
    Text.concat (b.locals.map fun l => " " ++ l.name ++ ":" ++ l.source.name) ++
      (if b.isLoop then " loop" else "" : Text) ++ (if b.isCase then " case" else "" : Text)
  | .func f => " min=" ++ Text.ofNat f.minArgs
  | .pattern (.array _ ps _) => " rest=" ++ boolText (match ps.getLast? with
      | some (.rest _) => true
      | _ => false)
  | .typeSpec t => " " ++ t.text
  | .var d => " accessors=" ++ boolText d.hasAccessors
  | .const d => " constant " ++ d.name.name.display
  | .signal d => " signal " ++ d.name.name.display
  | .enum d => " enum " ++ d.nameText.display
  | .enumValue v => " enum value " ++ v.name.name.display
  | .cls d => " class " ++ d.nameText.display
  | .group d => " group " ++ d.name.display
  | _ => ""

/-- A node with its depth, its place and what is special about it. -/
def outlineLine (depth : Nat) (n : Node) : Text :=
  Text.ofNat depth ++ " " ++ n.kindName ++ " " ++ n.span.text ++ n.detail

end Node

/-- The class of a file with all its fields. -/
def File.dump (f : File) : Text := Node.dump (4 * f.extent + 10) (.cls f.cls)

/-- An expression that was read from `source`, with all its fields. -/
def Expr.dump (source : Text) (e : Expr) : Text := Node.dump (4 * source.size + 10) (.expr e)

end GameScript
