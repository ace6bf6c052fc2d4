import GameScript.Syntax.Token
import GameScript.Types.StaticType

/-!
# Syntax trees

A source file is a class, and a class is a list of members. Statements and expressions carry what the
analysis finds out about them; the parser leaves these facts empty. Facts about declarations, which may
be asked for before the declaration itself is reached, are kept elsewhere, by the place of the declared
name.
-/

namespace GameScript

/-! ### Names -/

/-- What kind of declaration a name refers to. -/
inductive NameSource where
  | undefined | parameter | localConstant | localVariable | iterator | bind
  | memberVariable | memberConstant | memberFunction | memberSignal | memberClass
  /-- A property of the native base class. -/
  | inherited
deriving DecidableEq, Inhabited

namespace NameSource

def name : NameSource → Text
  | undefined => "undefined"
  | parameter => "parameter"
  | localConstant => "local constant"
  | localVariable => "local variable"
  | iterator => "for loop iterator"
  | bind => "pattern bind"
  | memberVariable => "member variable"
  | memberConstant => "member constant"
  | memberFunction => "member function"
  | memberSignal => "member signal"
  | memberClass => "member class"
  | inherited => "inherited variable"

/-- Whether the name is declared inside a function. -/
def isLocal : NameSource → Bool
  | parameter | localConstant | localVariable | iterator | bind => true
  | _ => false

/-- What a local is called in a message about a second declaration. -/
def localKind : NameSource → Text
  | parameter => "parameter"
  | localConstant => "constant"
  | iterator => "for loop iterator"
  | bind => "pattern bind"
  | _ => "variable"

end NameSource

/-- The kinds of members of a class. -/
inductive MemberKind where
  | var | const | signal | enum | enumValue | func | cls | group
deriving DecidableEq, Inhabited

def MemberKind.name : MemberKind → Text
  | var => "variable"
  | const => "constant"
  | signal => "signal"
  | enum => "enum"
  | enumValue => "enum value"
  | func => "function"
  | cls => "class"
  | group => "group"

/-- A declaration inside a function: the place of its name, the place where the declaration starts, and
the place of the function. -/
structure LocalRef where
  anchor : Pos
  start : Pos
  function : Pos
deriving DecidableEq, Inhabited

/-- What a name in the source refers to. -/
inductive Binding where
  | unbound
  | toLocal (r : LocalRef)
  | toMember (kind : MemberKind) (id : DeclId)
deriving DecidableEq, Inhabited

/-- What the analysis knows about an expression. -/
structure Info where
  /-- Whether the expression has been analysed. -/
  reduced : Bool := false
  type : StaticType := {}
  /-- The value of a constant expression. -/
  value : Option Value := none
deriving Inhabited

/-- A name in the source. -/
structure Ident where
  pos : Pos
  name : Text
  source : NameSource := .undefined
  binding : Binding := .unbound
  info : Info := {}
deriving Inhabited

/-- A literal: a number, a string, a string name, a node path, a boolean or null. -/
structure Literal where
  pos : Pos
  /-- The literal as it is written. -/
  raw : Text
  value : Value
  info : Info := {}
deriving Inhabited

/-- Whether the literal is a string. -/
def Literal.isString (l : Literal) : Bool :=
  match l.value with
  | .string _ => true
  | _ => false

/-- A type as it is written: a name, a path of names, or an array of such. -/
structure TypeSpec where
  names : List Ident
  element : Option TypeSpec
  /-- The place of the bracket that closes the element type. -/
  close : Pos
  type : StaticType := {}
deriving Inhabited

/-- A name that a block declares. -/
structure Local where
  name : Text
  source : NameSource
  ref : LocalRef
deriving DecidableEq, Inhabited

/-- What the analysis knows about a call. -/
structure CallFacts where
  /-- The name of the called function. -/
  name : Text := ""
  /-- Whether it is called on a class and not on an instance. -/
  isStatic : Bool := false
  /-- The signature of a native, builtin or global function. -/
  method : Option Signature := none
  isAwaited : Bool := false
deriving Inhabited

/-- The two spellings of dictionaries: `key: value`, or `name = value` with names for keys. -/
inductive DictStyle where
  | pairs | fields
deriving DecidableEq, Inhabited

/-- What a function is to its surroundings. -/
inductive FuncRole where
  | method
  | lambda
  /-- The setter or getter of the named property. -/
  | accessor (property : Text)
deriving DecidableEq, Inhabited

/-- The statements that are a keyword alone. -/
inductive Jump where
  | break
  /-- Continues a loop, or with the next branch of a match. -/
  | continue (inMatch : Bool)
  | pass
  | breakpoint
deriving DecidableEq, Inhabited

def Jump.token : Jump → TokenKind
  | .break => .breakKw
  | .continue _ => .continueKw
  | .pass => .passKw
  | .breakpoint => .breakpointKw

/-! ### Expressions and statements -/

mutual

/-- An expression. -/
inductive Expr where
  | ident (id : Ident)
  | literal (l : Literal)
  | self (pos : Pos) (info : Info)
  | call (fn : Expr) (args : List Expr) (close : Pos) (facts : CallFacts) (info : Info)
  /-- A call of the function of the base class with the given name, or of the overridden one. -/
  | superCall (pos : Pos) (fn : Option Ident) (args : List Expr) (close : Pos) (facts : CallFacts)
      (info : Info)
  | dot (x : Expr) (name : Ident) (info : Info)
  | index (x y : Expr) (close : Pos) (info : Info)
  | unary (pos : Pos) (op : UnaryOp) (x : Expr) (info : Info)
  | binary (x : Expr) (op : BinaryOp) (y : Expr) (info : Info)
  | cond (yes cond no : Expr) (info : Info)
  | typeTest (x : Expr) (negated : Bool) (test : TypeSpec) (info : Info)
  | cast (x : Expr) (target : TypeSpec) (info : Info)
  | list (pos : Pos) (items : List Expr) (close : Pos) (info : Info)
  | dict (pos : Pos) (entries : List DictEntry) (style : DictStyle) (close : Pos) (info : Info)
  /-- An anonymous function with the outer locals it reads, in the order of their first use. -/
  | lambda (fn : Func) (captures : List Ident) (usesSelf : Bool) (info : Info)
  | await (pos : Pos) (x : Expr) (info : Info)
  | preload (pos : Pos) (path : Literal) (close : Pos) (resolved : Text) (info : Info)

/-- One key and value of a dictionary. -/
structure DictEntry where
  key : Expr
  value : Expr

/-- A function: a method, an accessor of a property or a lambda. -/
structure Func where
  /-- The place of the keyword, or of the word `set` or `get` of an accessor. -/
  pos : Pos
  name : Option Ident
  params : List Param
  returns : Option TypeSpec
  body : Block
  isStatic : Bool
  role : FuncRole

structure Param where
  name : Ident
  spec : Option TypeSpec
  /-- Whether the type is that of the default. -/
  infer : Bool
  default : Option Expr

/-- Statements with a scope of their own. -/
structure Block where
  start : Pos
  stmts : List Stmt
  /-- The names declared directly in the block, in order. -/
  locals : List Local
  /-- Whether the block is the body of a loop. -/
  isLoop : Bool
  /-- Whether the block is the body of a branch of a match. -/
  isCase : Bool
  /-- Whether the statements have been analysed. -/
  isAnalysed : Bool
  /-- Whether a statement of the block cannot be reached. -/
  unreachable : Bool

inductive Stmt where
  /-- An assignment, with the operator if it is a compound one. -/
  | assign (op : Option BinaryOp) (lhs rhs : Expr) (facts : Option Operator) (converts : Bool)
  | expr (x : Expr)
  | cond (pos : Pos) (cond : Expr) (yes : Block) (no : Option Block)
  | loop (pos : Pos) (var : Ident) (spec : Option TypeSpec) (x : Expr) (body : Block)
  | while (pos : Pos) (cond : Expr) (body : Block)
  | match (pos : Pos) (x : Expr) (branches : List Branch)
  | jump (pos : Pos) (jump : Jump)
  /-- A return; `isVoid` if it returns the value of a call that has none. -/
  | return (pos : Pos) (result : Option Expr) (isVoid : Bool)
  | assert (pos : Pos) (cond : Expr) (message : Option Expr) (close : Pos)
  | var (d : VarDecl)
  | const (d : ConstDecl)

/-- One branch of a match; it is taken if any of its patterns matches. -/
structure Branch where
  patterns : List Pattern
  body : Block
  /-- Whether some pattern matches everything. -/
  hasWildcard : Bool

inductive Pattern where
  | literal (l : Literal)
  | expr (x : Expr)
  | bind (pos : Pos) (name : Ident)
  | array (pos : Pos) (items : List Pattern) (close : Pos)
  /-- A dictionary with the given keys, and others if it is `open`. -/
  | dict (pos : Pos) (entries : List PatternEntry) (isOpen : Bool) (close : Pos)
  | wildcard (pos : Pos)
  | rest (pos : Pos)

structure PatternEntry where
  key : Expr
  value : Option Pattern

/-- A variable, as a member of a class or in a function. -/
structure VarDecl where
  pos : Pos
  name : Ident
  spec : Option TypeSpec
  infer : Bool
  init : Option Expr
  isLocal : Bool
  onready : Bool
  isExport : Bool
  setter : Option Func
  getter : Option Func
  setterName : Option Ident
  getterName : Option Ident
  finish : Pos

structure ConstDecl where
  pos : Pos
  name : Ident
  spec : Option TypeSpec
  infer : Bool
  init : Expr
  isLocal : Bool

end

/-! ### Returns -/

/-- Whether a pattern matches everything. -/
def Pattern.isCatchAll : Pattern → Bool
  | .wildcard _ | .bind .. => true
  | _ => false

mutual

/-- Whether a statement returns: it is a return, or one of its branches is taken and all of them return.
-/
def Stmt.returns : Stmt → Bool
  | .return .. => true
  | .cond _ _ yes (some no) => yes.returns && no.returns
  | .match _ _ branches =>
    !branches.isEmpty && Branch.allReturn branches && branches.any (·.patterns.any Pattern.isCatchAll)
  | _ => false

/-- Whether one of some statements returns. -/
def Stmt.anyReturns : List Stmt → Bool
  | [] => false
  | s :: ss => s.returns || Stmt.anyReturns ss

/-- Whether a block that has been analysed returns. -/
def Block.returns : Block → Bool
  | ⟨_, stmts, _, _, _, isAnalysed, _⟩ => isAnalysed && Stmt.anyReturns stmts

/-- Whether the bodies of branches all return. -/
def Branch.allReturn : List Branch → Bool
  | [] => true
  | ⟨_, body, _⟩ :: bs => body.returns && Branch.allReturn bs

end

deriving instance Inhabited for Expr, DictEntry, Block, Func, Param, Stmt, Branch, Pattern,
  PatternEntry, VarDecl, ConstDecl

/-! ### Members of classes -/

structure SignalDecl where
  pos : Pos
  name : Ident
  params : List Param
  finish : Pos
deriving Inhabited

/-- One element of an enumeration. -/
structure EnumValue where
  name : Ident
  init : Option Expr
deriving Inhabited

/-- An enumeration. The elements of one without a name are members of the class itself. -/
structure EnumDecl where
  pos : Pos
  name : Option Ident
  values : List EnumValue
  close : Pos
deriving Inhabited

/-- A heading for the exported properties that follow. -/
structure GroupDecl where
  pos : Pos
  /-- The name of the marker. -/
  marker : Text
  name : Text
deriving DecidableEq, Inhabited

/-- The base of a class: a path, names, or names inside the class at a path. -/
structure Extends where
  pos : Pos
  path : Option Literal
  names : List Ident
deriving Inhabited

mutual

/-- A class: that of a file or one inside another class. -/
structure ClassDecl where
  pos : Pos
  name : Option Ident
  base : Option Extends
  members : List Member
  isTool : Bool
  /-- Whether some variable waits for the scene to be ready. -/
  usesOnready : Bool
  finish : Pos

inductive Member where
  | var (d : VarDecl)
  | const (d : ConstDecl)
  | signal (d : SignalDecl)
  | enum (d : EnumDecl)
  /-- An element of an enumeration without a name. -/
  | enumValue (owner : EnumDecl) (index : Nat)
  | func (d : Func)
  | cls (d : ClassDecl)
  | group (d : GroupDecl)

end

deriving instance Inhabited for ClassDecl, Member

/-- A region in which some warnings are not wanted. -/
structure WarningIgnore where
  start : Pos
  finish : Pos
  codes : List Text
deriving DecidableEq, Inhabited

/-- A parsed source file. -/
structure File where
  path : Text
  cls : ClassDecl
  ignores : List WarningIgnore
  /-- How many tokens the file has; no tree of the file is deeper. -/
  extent : Nat
deriving Inhabited

/-! ### Access -/

namespace Expr

/-- What is known about an expression. -/
def info : Expr → Info
  | ident id => id.info
  | literal l => l.info
  | self _ i | call _ _ _ _ i | superCall _ _ _ _ _ i | dot _ _ i | index _ _ _ i | unary _ _ _ i
  | binary _ _ _ i | cond _ _ _ i | typeTest _ _ _ i | cast _ _ i | list _ _ _ i | dict _ _ _ _ i
  | lambda _ _ _ i | await _ _ i | preload _ _ _ _ i => i

/-- The expression with other facts. -/
def withInfo (i : Info) : Expr → Expr
  | ident id => ident { id with info := i }
  | literal l => literal { l with info := i }
  | self p _ => self p i
  | call f as c cf _ => call f as c cf i
  | superCall p f as c cf _ => superCall p f as c cf i
  | dot x n _ => dot x n i
  | index x y c _ => index x y c i
  | unary p op x _ => unary p op x i
  | binary x op y _ => binary x op y i
  | cond a b c _ => cond a b c i
  | typeTest x n t _ => typeTest x n t i
  | cast x t _ => cast x t i
  | list p xs c _ => list p xs c i
  | dict p es s c _ => dict p es s c i
  | lambda f cs u _ => lambda f cs u i
  | await p x _ => await p x i
  | preload p l c r _ => preload p l c r i

/-- The static type of an analysed expression. -/
def type (e : Expr) : StaticType := e.info.type

/-- The value of a constant expression. -/
def value? (e : Expr) : Option Value := e.info.value

def isConstant (e : Expr) : Bool := e.info.value.isSome

end Expr

namespace Func

/-- The name of the function; a lambda may have none. -/
def nameText (f : Func) : Text := (f.name.map Ident.name).getD ""

/-- The number of parameters without a default. -/
def minArgs (f : Func) : Nat := (f.params.filter (·.default.isNone)).length

def isLambda (f : Func) : Bool := f.role = .lambda

def isMethod (f : Func) : Bool := f.role = .method

/-- The place that identifies the function: that of its name for a method. -/
def anchor (f : Func) : Pos :=
  match f.role, f.name with
  | .method, some id => id.pos
  | _, _ => f.pos

end Func

namespace VarDecl

/-- Whether the variable has a setter or a getter. -/
def hasAccessors (d : VarDecl) : Bool :=
  d.setter.isSome || d.getter.isSome || d.setterName.isSome || d.getterName.isSome

end VarDecl

namespace EnumDecl

def nameText (d : EnumDecl) : Text := (d.name.map Ident.name).getD ""

/-- The place that identifies the enumeration. -/
def anchor (d : EnumDecl) : Pos := (d.name.map Ident.pos).getD d.pos

end EnumDecl

namespace TypeSpec

/-- A type as it is written. -/
def text : TypeSpec → Text
  | ⟨names, element, _, _⟩ =>
    let name := Text.join "." (names.map Ident.name)
    match element with
    | none => name
    | some e => name ++ "[" ++ e.text ++ "]"

end TypeSpec

namespace ClassDecl

def nameText (d : ClassDecl) : Text := (d.name.map Ident.name).getD ""

end ClassDecl

namespace Member

def kind : Member → MemberKind
  | var _ => .var
  | const _ => .const
  | signal _ => .signal
  | enum _ => .enum
  | enumValue .. => .enumValue
  | func _ => .func
  | cls _ => .cls
  | group _ => .group

/-- The declared name; empty if there is none. -/
def name : Member → Text
  | var d => d.name.name
  | const d => d.name.name
  | signal d => d.name.name
  | enum d => d.nameText
  | enumValue owner i => ((owner.values[i]?).map (·.name.name)).getD ""
  | func d => d.nameText
  | cls d => d.nameText
  | group d => d.name

/-- The place that identifies the member. -/
def anchor : Member → Pos
  | var d => d.name.pos
  | const d => d.name.pos
  | signal d => d.name.pos
  | enum d => d.anchor
  | enumValue owner i => ((owner.values[i]?).map (·.name.pos)).getD .none
  | func d => d.anchor
  | cls d => (d.name.map Ident.pos).getD .none
  | group d => d.pos

end Member

namespace ClassDecl

/-- The first member with a name. -/
def member? (d : ClassDecl) (name : Text) : Option Member :=
  if name.isEmpty then none else d.members.find? (·.name = name)

end ClassDecl

end GameScript
