import GameScript.Analysis.Call

/-!
# All expressions

`reduce` finds the type and the value of an expression of any kind and writes them into the tree. An
expression that has been analysed stays as it is.
-/

namespace GameScript.Analysis

/-- Refers to the instance. -/
def selfInfo (span : Span) : Analysis Info := do
  if (← staticFunction).isSome then complain span .selfInStatic
  let type ← classType (← currentClass)
  useSelf
  return { type }

/-- The expression with the types and values of its parts and its own. -/
def reduceParts (sub : Steps) (root : Bool) (e : Expr) : Analysis Expr := do
  let span := e.span
  match e with
  | .ident id => return .ident (← reduceIdent sub id false)
  | .literal l => return .literal { l with info := constant l.value l.info }
  | .self pos _ => return .self pos (← selfInfo span)
  | .call .. | .superCall .. =>
    match CallNode.ofExpr? e with
    | some c => return (← reduceCall sub root c).toExpr
    | none => return e
  | .dot x id _ => reduceDot sub span x id
  | .index x y close _ =>
    let x ← reduceBase sub x
    let y ← sub.reduce false y
    return .index x y close (← indexInfo span x y)
  | .unary pos op x _ =>
    let x ← sub.reduce false x
    return .unary pos op x (← unaryInfo span op.operator x)
  | .binary x op y _ =>
    let x ← sub.reduce false x
    let y ← sub.reduce false y
    return .binary x op y (← binaryInfo span op x y)
  | .cond yes cond no _ =>
    let cond ← sub.reduce false cond
    let yes ← sub.reduce false yes
    let no ← sub.reduce false no
    return .cond yes cond no (← condInfo span yes cond no)
  | .typeTest x negated test _ =>
    let x ← sub.reduce false x
    let test ← resolveType sub false test
    return .typeTest x negated test (← typeTestInfo span x negated test.type)
  | .cast x target _ =>
    let x ← sub.reduce false x
    let target ← resolveType sub false target
    return .cast x target (← castInfo span x target)
  | .list pos items close _ =>
    let (items, info) ← reduceList sub items
    return .list pos items close info
  | .dict pos entries style close _ =>
    let (entries, info) ← reduceDict sub entries
    return .dict pos entries style close info
  | .lambda f _ _ _ => reduceLambda sub f
  | .await pos x _ =>
    let (x, info) ← reduceAwait sub span x
    return .await pos x info
  | .preload pos path close _ _ =>
    let (path, resolved, info) ← reducePreload sub path
    return .preload pos path close resolved info

/-- Finds the type and the value of an expression, once. -/
def reduce (sub : Steps) (root : Bool) (e : Expr) : Analysis Expr := do
  if e.info.reduced then return e
  let e ← reduceParts sub root e
  return e.withInfo (done e.info)

end GameScript.Analysis
