import GameScript.Lowering.Assign
import GameScript.Lowering.Flow

/-!
# Code of trees

Lowers expressions, statements, patterns and functions by recursion on the tree.
-/

namespace GameScript

/-! ## Code of trees -/

/-- The name of a function in tables. -/
def Func.label (f : Func) : Text :=
  match f.name with
  | some id => id.name
  | none => "<anonymous lambda>"

/-- The property whose accessor a function is. -/
def FuncRole.property? : FuncRole → Option Text
  | .accessor p => some p
  | _ => none

namespace Lower

/-- Whether the last of some patterns stands for all further elements. -/
def endsOpen : List Pattern → Bool
  | [] => false
  | [.rest _] => true
  | _ :: ps => endsOpen ps

/-- Adds the captured variables and the parameters of a function. -/
def addParams (captures : List Ident) (params : List Param) : Lower Unit := do
  for id in captures do
    match id.binding with
    | .toLocal r => addParam r.anchor id.name id.pos id.info.type
    | _ => addParam id.pos id.name id.pos id.info.type
  for p in params do
    addParam p.name.pos p.name.name p.name.pos (← note p.name.pos).type

/-- The address of the parameter declared at a place. -/
def paramAt (p : Pos) : Lower Address := return ((← current).vars.get? p).getD .nil

/-- Binds a new label to the next instruction. -/
def entry : Lower Nat := do
  let l ← Gen.newLabel
  Gen.bind l
  return l

/-- Computes the value of a literal. -/
def literal (l : Literal) : Lower Address := do
  match ← direct? (.literal l) with
  | some a => return a
  | none => Gen.constant l.value

mutual

/-- Computes an expression. If its address is a temporary, the caller releases it. -/
def expr (e : Expr) : Lower Address := do
  if let some a ← direct? e then return a
  match e with
  | .literal l => Gen.constant l.value
  | .ident id => name id
  | .self _ i => return ⟨.self, 0, i.type⟩
  | .list _ items _ i => array i.type (exprs items)
  | .dict _ es _ _ i => dictionary i.type (entries es)
  | .dot x id i =>
    match x, (← read).property with
    | .self .., some p => if p = id.name then report x.start (.selfInAccessor p)
    | _, _ => pure ()
    property i.type (expr x) id.name
  | .index x y _ i => element i.type (expr x) (expr y)
  | .call fn args _ facts i => result i.type fun dst => call dst fn facts args (receiver fn) (exprs args)
  | .superCall _ _ args _ facts i => result i.type fun dst => callSuper dst facts (exprs args)
  | .unary _ op x i => unary i.type op.operator (expr x)
  | .binary x op y i =>
    if op.isLogical then logical op.isAnd (expr x) (expr y)
    else binary i.type op (expr x) (expr y)
  | .cond yes c no i => conditional i.type (expr c) (expr yes) (expr no)
  | .typeTest x negated t i => typeTest i.type (expr x) negated t.type
  | .cast x _ i => cast i.type (expr x)
  | .await _ x i => await i.type (expr x)
  | .preload _ _ _ path _ => Gen.constant (.resource path "Resource" 0)
  | .lambda f captures usesSelf i =>
    let function ← func f f.label captures
    closure i.type function captures usesSelf

/-- Computes expressions in order. -/
def exprs : List Expr → Lower (List Address)
  | [] => return []
  | x :: xs => do
    let a ← expr x
    return a :: (← exprs xs)

/-- Computes the keys and values of a dictionary in order. -/
def entries : List DictEntry → Lower (List Address)
  | [] => return []
  | ⟨k, v⟩ :: es => do
    let k ← expr k
    let v ← expr v
    return k :: v :: (← entries es)

/-- Computes the value whose method is called. -/
def receiver : Expr → Lower Address
  | .dot x _ _ => expr x
  | _ => return .nil

/-- Loads the values on the way to a part of an expression; `root` computes it if it is the first. -/
def route (root : Lower Address) : Expr → Lower Route
  | .dot x id i => do
    let r ← route (expr x) x
    loadPart r (.named (← Gen.name id.name)) i.type
  | .index x y _ i => do
    let r ← route (expr x) x
    loadPart r (.keyed (← expr y)) i.type
  | .ident id => return { root := some id, base := ← root }
  | _ => return { root := none, base := ← root }

/-- Lowers a function with the given name and returns its number in the program. -/
def func (f : Func) (name : Text) (captures : List Ident) : Lower Nat :=
  match f with
  | ⟨pos, id, params, returns, body, isStatic, role⟩ => do
    let n ← note (Func.anchor ⟨pos, id, params, returns, body, isStatic, role⟩)
    separately name role.property? pos.line do
      addParams captures params
      let min := (params.filter (·.default.isNone)).length
      let starts ← if min < params.length then do
          Gen.emit .jumpToDefArgument []
          let starts ← defaults params
          pure (starts ++ [← entry])
        else pure []
      block body
      if !body.returns then returnNil
      finish {
        name
        place := .ofPos pos
        isStatic
        isCoroutine := n.isCoroutine
        captures := captures.length
        minArgs := min
        maxArgs := params.length
        returns := ← returnType n.type } starts

/-- Stores the defaults of parameters, each after a label. -/
def defaults : List Param → Lower (List Nat)
  | [] => return []
  | ⟨_, _, _, none⟩ :: ps => defaults ps
  | ⟨id, _, _, some x⟩ :: ps => do
    let l ← entry
    setLine x.start
    balanced do
      let src ← expr x
      assign (← paramAt id.pos) src (← note id.pos).converts
      Gen.release src
    return l :: (← defaults ps)

/-- Runs the statements of a block. -/
def block : Block → Lower Unit
  | ⟨_, ss, _, _, _, _, _⟩ => stmts ss

/-- Runs statements, each of which releases its temporaries. -/
def stmts : List Stmt → Lower Unit
  | [] => pure ()
  | s :: ss => do
    setLine s.start
    balanced (stmt s)
    stmts ss

/-- Runs a statement. -/
def stmt : Stmt → Lower Unit
  | .expr (.call fn args _ facts _) => call .nil fn facts args (receiver fn) (exprs args)
  | .expr (.superCall _ _ args _ facts _) => callSuper .nil facts (exprs args)
  | .expr x => do Gen.release (← expr x)
  | .var ⟨_, id, _, _, first, _, _, _, _, _, _, _, _⟩ => do
    let n ← note id.pos
    let dst ← addLocal id n.type
    match first with
    | some x => initVariable dst n (some (expr x))
    | none => initVariable dst n none
  | .const ⟨pos, _, _, _, init, _⟩ => if init.isConstant then pure () else report pos .localConstant
  | .assign _ lhs rhs op converts => do
    let v : StoredValue := ⟨op, lhs.type, expr rhs, converts⟩
    match lhs with
    | .ident id => assignName id v
    | .dot x id _ =>
      let r ← route (expr x) x
      assignPart r (.named (← Gen.name id.name)) v
    | .index x y _ _ =>
      let r ← route (expr x) x
      assignPart r (.keyed (← expr y)) v
    | _ => contradiction (.assignmentTo (← placeText lhs.start) (kindText lhs))
  | .cond _ c yes no =>
    match no with
    | some b => choose (expr c) (block yes) (some (block b))
    | none => choose (expr c) (block yes) none
  | .while _ c body => repeatWhile (expr c) (block body)
  | .loop _ id _ x body => forEach id x.type (expr x) (block body)
  | .match _ x bs => matching x.type (expr x) fun value done => branches value done bs
  | .jump pos j => jump pos j
  | .return _ none _ => returnNil
  | .return _ (some (.call fn args _ facts _)) true => do
    call .nil fn facts args (receiver fn) (exprs args)
    returnNil
  | .return _ (some (.superCall _ _ args _ facts _)) true => do
    callSuper .nil facts (exprs args)
    returnNil
  | .return _ (some x) _ => returnValue (expr x)
  | .assert _ c message _ =>
    match message with
    | some m => assertion (expr c) (expr m)
    | none => assertion (expr c) (pure .nil)

/-- Tries branches on a value, one after another. -/
def branches (value : Address) (done : Nat) : List Branch → Lower Unit
  | [] => pure ()
  | ⟨ps, body, _⟩ :: bs => do
    matchBranch done (anyPattern (patterns value ps)) (block body)
    branches value done bs

/-- The tests of patterns on one value. -/
def patterns (value : Address) : List Pattern → List (Lower Address)
  | [] => []
  | p :: ps => pattern value p :: patterns value ps

/-- Computes whether a value matches a pattern. -/
def pattern (value : Address) : Pattern → Lower Address
  | .literal l => equalPattern value (.literal l) (literal l)
  | .expr x => equalPattern value x (expr x)
  | .bind _ id => bindPattern value id
  | .wildcard _ | .rest _ => Gen.boolean true
  | .array _ ps _ =>
    let isOpen := endsOpen ps
    let n := if isOpen then ps.length - 1 else ps.length
    containerPattern value .array n isOpen fun _ => elementPatterns value 0 ps
  | .dict _ es isOpen _ =>
    containerPattern value .dictionary es.length isOpen fun test => entryPatterns test value es

/-- Goes on only if the elements from an index on match; a pattern for all further elements matches. -/
def elementPatterns (value : Address) (i : Nat) : List Pattern → Lower Unit
  | [] => pure ()
  | [.rest _] => pure ()
  | p :: ps => do
    elementPattern value (Gen.constant (.int (Int64.ofNat i))) fun a => pattern a p
    elementPatterns value (i + 1) ps

/-- Goes on only if the entries match. -/
def entryPatterns (test value : Address) : List PatternEntry → Lower Unit
  | [] => pure ()
  | ⟨k, v⟩ :: es => do
    match v with
    | some p => entryPattern test value (expr k) (some fun a => pattern a p)
    | none => entryPattern test value (expr k) none
    entryPatterns test value es

end

end Lower

/-! ## Code of classes

The functions of a class: its methods and the accessors written in it, the implicit functions that set
the variables of an instance, and then those of the classes inside of it.
-/

namespace VarDecl

/-- The name of the function that a getter written with the variable becomes. -/
def getterLabel (d : VarDecl) : Text := "@" ++ d.name.name ++ "_getter"

/-- The name of the function that a setter written with the variable becomes. -/
def setterLabel (d : VarDecl) : Text := "@" ++ d.name.name ++ "_setter"

end VarDecl

/-- The place that identifies a class inside of another one. -/
def ClassDecl.anchor (d : ClassDecl) : Pos := (d.name.map Ident.pos).getD .none

namespace Lower

/-- Lowers the methods and accessors among some members; returns their numbers. -/
def methods : List Member → Lower (List Nat)
  | [] => return []
  | .func f :: ms => do
    let i ← func f f.nameText []
    return i :: (← methods ms)
  | .var d :: ms => do
    let getter ← d.getter.toList.mapM (func · d.getterLabel [])
    let setter ← d.setter.toList.mapM (func · d.setterLabel [])
    return getter ++ setter ++ (← methods ms)
  | _ :: ms => methods ms

/-- Sets the variables among some members of a class: either those that wait for the scene to be ready or
the others. -/
def setVariables (ready : Bool) : List Member → Lower Unit
  | [] => pure ()
  | .var d :: ms => do
    if d.onready = ready then
      let m ← member none d.name.name
      let n ← note d.name.pos
      setLine d.pos
      balanced (initVariable ⟨.member, m.index.toNat, n.type⟩ n (d.init.map expr))
    setVariables ready ms
  | _ :: ms => setVariables ready ms

/-- Lowers the implicit function that sets the variables which a class declares. Those of its base are
set by the function of the base. -/
def setter (d : ClassDecl) (name : Text) (ready : Bool) : Lower Nat :=
  separately name none d.pos.line do
    setVariables ready d.members
    returnNil
    finish { name, place := .ofPos d.pos, returns := .ofBuiltin .nil } []

mutual

/-- Lowers the functions of a class and of the classes inside of it; returns their scripts in the order
of their numbers. -/
def classes (drafts : Table DeclId Script) (ids : List DeclId) (id : DeclId) :
    ClassDecl → Lower (List Script)
  | ⟨pos, name, base, members, isTool, usesOnready, close⟩ => do
    let d : ClassDecl := ⟨pos, name, base, members, isTool, usesOnready, close⟩
    let draft := (drafts.get? id).getD default
    let inside (ctx : LowerContext) : LowerContext :=
      { ctx with cls := id, script := draft, scriptIndex := ids.idxOf id }
    let script ← withReader inside do
      let methods ← methods members
      let init ← setter d "@implicit_new" false
      let ready ← if usesOnready then some <$> setter d "@implicit_ready" true else pure none
      return { draft with methods, init := some init, ready, isValid := true }
    return script :: (← innerClasses drafts ids members)

/-- Lowers the functions of the classes among some members. -/
def innerClasses (drafts : Table DeclId Script) (ids : List DeclId) :
    List Member → Lower (List Script)
  | [] => return []
  | .cls d :: ms => do
    let scripts ← classes drafts ids ⟨(← read).unit, d.anchor⟩ d
    return scripts ++ (← innerClasses drafts ids ms)
  | _ :: ms => innerClasses drafts ids ms

end

end Lower

end GameScript
