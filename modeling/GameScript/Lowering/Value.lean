import GameScript.Lowering.Context
import GameScript.Value.Function

/-!
# Code of expressions and calls

The code of an expression from the code of its operands. The destination is allocated before the
operands are computed, and the operands are released in the reverse order.
-/

namespace GameScript

/-- Whether each evaluation of an expression makes a new container, also if its value is constant. -/
def Expr.isContainer : Expr → Bool
  | .list .. | .dict .. => true
  | _ => false

/-- Whether a type is that of a script used as a value, which is looked up by name at run time. -/
def StaticType.isScriptValue (t : StaticType) : Bool :=
  t.isMeta && match t.shape with
    | .cls .. | .script _ => true
    | _ => false

/-- Whether a type denotes the given class itself. -/
def StaticType.denotes (t : StaticType) (cls : DeclId) : Bool :=
  t.isMeta && match t.shape with
    | .cls id _ => id = cls
    | _ => false

namespace Lower

/-- The address of an expression that needs no code: the class itself, or a constant. -/
def direct? (e : Expr) : Lower (Option Address) := do
  let i := e.info
  if !i.reduced then contradiction (.notAnalyzed (← placeText e.start) (kindText e))
  if i.type.denotes (← read).cls then return some ⟨.cls, 0, i.type⟩
  match i.value with
  | some v =>
    if !e.isContainer && !i.type.isScriptValue then return some (← Gen.constant v) else return none
  | none => return none

/-- A new array. -/
def array (t : StaticType) (items : Lower (List Address)) : Lower Address := do
  let dst ← Gen.addTemporary t
  let items ← items
  let e := t.elementType
  if e.isHard && !e.isVariant then
    Gen.emitList .constructTypedArray items
      [dst.encode, e.tag.number, ← Gen.name ((← types).nativeOf e)]
  else Gen.emitList .constructArray items [dst.encode]
  Gen.releaseAll items
  return dst

/-- A new dictionary; keys and values alternate. -/
def dictionary (t : StaticType) (items : Lower (List Address)) : Lower Address := do
  let dst ← Gen.addTemporary t
  let items ← items
  Gen.emitList .constructDictionary items [dst.encode]
  Gen.releaseAll items
  return dst

/-- A property of a value. -/
def property (t : StaticType) (base : Lower Address) (name : Text) : Lower Address := do
  let dst ← Gen.addTemporary t
  let base ← base
  Gen.emit .getNamed [dst.encode, base.encode, ← Gen.name name]
  Gen.release base
  return dst

/-- An element of a value. -/
def element (t : StaticType) (base key : Lower Address) : Lower Address := do
  let dst ← Gen.addTemporary t
  let base ← base
  let key ← key
  Gen.emit .getIndexed [dst.encode, base.encode, key.encode]
  Gen.release key
  Gen.release base
  return dst

/-- The operation of an operator whose operands have the given types. -/
def operation (operands : List StaticType) : Opcode :=
  if operands.all StaticType.isHardValue then .operatorValidated else .operator

/-- Negates a boolean in place. -/
def negate (dst : Address) : Lower Unit :=
  Gen.emit .operator [dst.encode, Operator.not.number, dst.encode, Address.nil.encode]

def unary (t : StaticType) (op : Operator) (x : Lower Address) : Lower Address := do
  let dst ← Gen.addTemporary t
  let x ← x
  Gen.emit (operation [x.type]) [dst.encode, op.number, x.encode, Address.nil.encode]
  Gen.release x
  return dst

def binary (t : StaticType) (op : BinaryOp) (x y : Lower Address) : Lower Address := do
  let dst ← Gen.addTemporary t
  let x ← x
  let y ← y
  Gen.emit (operation [x.type, y.type]) [dst.encode, op.operator.number, x.encode, y.encode]
  Gen.release y
  Gen.release x
  if op = .notWithin then negate dst
  return dst

/-- One operand of a logical operation, which may decide the result. -/
def operand (decide : Address → Gen Unit) (x : Lower Address) : Lower Unit := do
  let x ← x
  decide x
  Gen.release x

/-- A conjunction or a disjunction, whose second operand is computed only if the first does not decide
the result. -/
def logical (isAnd : Bool) (x y : Lower Address) : Lower Address := do
  let dst ← Gen.addTemporary (.ofBuiltin .bool)
  if isAnd then
    Gen.beginAnd
    operand Gen.andOperand x
    operand Gen.andOperand y
    Gen.endAnd dst
  else
    Gen.beginOr
    operand Gen.orOperand x
    operand Gen.orOperand y
    Gen.endOr dst
  return dst

/-- Stores the value of a branch. -/
def branch (dst : Address) (x : Lower Address) : Lower Unit := do
  let x ← x
  Gen.emit .assign [dst.encode, x.encode]
  Gen.release x

/-- One of two values. -/
def conditional (t : StaticType) (cond yes no : Lower Address) : Lower Address := do
  let dst ← Gen.addTemporary t
  Gen.beginTernary
  operand Gen.ternaryCondition cond
  branch dst yes
  Gen.ternaryElse
  branch dst no
  Gen.endTernary
  return dst

/-- Stores whether a value has a type. -/
def test (dst x : Address) (t : StaticType) : Lower Unit := do
  match t.shape with
  | .builtin _ | .enum .. => Gen.emit .typeTestBuiltin [dst.encode, x.encode, t.tag.number]
  | .native cls => Gen.emit .typeTestNative [dst.encode, x.encode, ← Gen.name cls]
  | .cls .. | .script _ =>
    Gen.emit .typeTestScript [dst.encode, x.encode, (← scriptConstant t).encode]
  | _ => Gen.emit .assign [dst.encode, (← Gen.boolean true).encode]

/-- Whether a value has a type. -/
def typeTest (t : StaticType) (x : Lower Address) (negated : Bool) (type : StaticType) :
    Lower Address := do
  let dst ← Gen.addTemporary t
  let x ← x
  test dst x type
  Gen.release x
  if negated then negate dst
  return dst

/-- A value as one of another type. -/
def cast (t : StaticType) (x : Lower Address) : Lower Address := do
  if t.isVariant then return ← x
  let dst ← Gen.addTemporary t
  let x ← x
  match t.shape with
  | .builtin _ | .enum .. => Gen.emit .castBuiltin [dst.encode, x.encode, t.tag.number]
  | .native cls => Gen.emit .castNative [dst.encode, x.encode, ← Gen.name cls]
  | .cls .. | .script _ => Gen.emit .castScript [dst.encode, x.encode, (← scriptConstant t).encode]
  | _ => contradiction (.castTo ((← types).text t))
  Gen.release x
  return dst

def await (t : StaticType) (x : Lower Address) : Lower Address := do
  let dst ← Gen.addTemporary t
  let x ← x
  Gen.emit .await [dst.encode, x.encode]
  Gen.release x
  return dst

/-- A closure of the function with a number. The captured variables are its first parameters. -/
def closure (t : StaticType) (function : Nat) (captures : List Ident) (usesSelf : Bool) :
    Lower Address := do
  let dst ← Gen.addTemporary t
  let values ← captures.mapM name
  Gen.emitList (if usesSelf then .createSelfLambda else .createLambda) values [dst.encode, function]
  Gen.releaseAll values
  return dst

end Lower

/-!
## Code of calls

What is called is told apart in the order in which the analysis looks for it: constructors of builtin
types, functions of the language and of the engine, functions of the base class, then methods of the
instance or of another value.
-/

/-- Whether arguments have exactly the types of the parameters, so that a call needs no check. -/
def Signature.fits (ctx : TypeContext) (s : Signature) (args : List Expr) : Bool :=
  !s.vararg && args.length = s.params.length &&
    (args.zip s.params).all fun (arg, p) =>
      let t := arg.type
      t.isHard && !t.isVariant && p.type ≠ .any && !t.isMeta && t.tag = p.type.tag &&
        match p.type with
        | .object cls => cls.isEmpty || ctx.nativeOf t = cls
        | _ => true

namespace Lower

/-- Calls a function that is known by its name. -/
def callName (op : Opcode) (dst : Address) (name : Text) (args : Lower (List Address)) :
    Lower Unit := do
  let args ← args
  Gen.emitList op args [dst.encode, ← Gen.name name]
  Gen.releaseAll args

/-- Calls a method of a value. -/
def callMethod (op : Opcode) (dst : Address) (base : Lower Address) (name : Text)
    (args : Lower (List Address)) : Lower Unit := do
  let base ← base
  let args ← args
  Gen.emitList op args [dst.encode, base.encode, ← Gen.name name]
  Gen.releaseAll args
  Gen.release base

/-- Makes a value of a builtin type. -/
def construct (dst : Address) (t : BuiltinType) (args : Lower (List Address)) : Lower Unit := do
  let args ← if t = .object then pure [] else args
  Gen.emitList .construct args [dst.encode, t.number]
  Gen.releaseAll args

/-- Calls a method of the instance by its name. -/
def callOwn (dst : Address) (id : Ident) (facts : CallFacts) (args : Lower (List Address)) :
    Lower Unit :=
  if facts.isAwaited then callName .callSelfAsync dst id.name args
  else if facts.isStatic then callMethod .callStatic dst (pure .cls) id.name args
  else if facts.method.isSome && id.binding = .unbound then
    callMethod .callMethodBind dst (pure .self) id.name args
  else callName .callSelf dst id.name args

/-- Calls what a name stands for. -/
def callNamed (dst : Address) (id : Ident) (facts : CallFacts) (args : Lower (List Address)) :
    Lower Unit :=
  if id.source.isLocal then callOwn dst id facts args
  else match BuiltinType.ofName? id.name with
    | some t => construct dst t args
    | none =>
      if (GlobalFunction.language? id.name).isSome then callName .callLanguageUtility dst id.name args
      else if (GlobalFunction.utility? id.name).isSome then callName .callUtility dst id.name args
      else callOwn dst id facts args

/-- Whether a name is bound to a function of a script. -/
def isScriptFunction (id : Ident) : Bool :=
  match id.binding with
  | .toMember .func _ => true
  | _ => false

/-- Calls a method of the value of `x`, which `base` computes. -/
def callOn (dst : Address) (x : Expr) (id : Ident) (facts : CallFacts) (actual : List Expr)
    (base : Lower Address) (args : Lower (List Address)) : Lower Unit := do
  let t := x.type
  let isSelf := match x with
    | .self .. => true
    | _ => false
  let isBuiltin := match t.shape with
    | .builtin _ => true
    | _ => false
  if facts.isAwaited then callMethod .callAsync dst base id.name args
  else if isSelf && isScriptFunction id && !facts.isStatic then callName .callSelf dst id.name args
  else if t.isMeta && !isBuiltin then callMethod .callStatic dst base id.name args
  else match t.isHard, t.shape, facts.method with
    | true, .native _, some m =>
      let op := if m.fits (← types) actual then Opcode.callPtrcall else .callMethodBind
      callMethod op dst base id.name args
    | _, _, m =>
      let op := if t.isHardValue && m.isSome then Opcode.callBuiltinMethod else .call
      callMethod op dst base id.name args

/-- Calls `fn` and stores the result; if `fn` is a method of a value, `base` computes the value. -/
def call (dst : Address) (fn : Expr) (facts : CallFacts) (actual : List Expr)
    (base : Lower Address) (args : Lower (List Address)) : Lower Unit := do
  match fn with
  | .ident id => callNamed dst id facts args
  | .dot x id _ => callOn dst x id facts actual base args
  | _ => contradiction (.callOf (← placeText fn.start) (kindText fn))

/-- Calls a function of the base class. -/
def callSuper (dst : Address) (facts : CallFacts) (args : Lower (List Address)) : Lower Unit :=
  callName (if facts.isAwaited then .callSuperAsync else .callSuper) dst facts.name args

/-- The result of a call in a temporary. -/
def result (t : StaticType) (call : Address → Lower Unit) : Lower Address := do
  let dst ← Gen.addTemporary t
  call dst
  return dst

end Lower

end GameScript
