import GameScript.Analysis.Pass
import GameScript.Syntax.Dump

/-!
# Findings as text

Shows what the analysis has found out about the nodes of a file, for inspection.
-/

namespace GameScript

/-- A static type with all that is known about it. -/
def TypeContext.describe (ctx : TypeContext) (t : StaticType) : Text :=
  let ancestor := ctx.nativeLabel t
  ctx.text t ++ "/" ++ t.kindName ++ "/" ++ Text.ofNat t.source.number ++
    (if ancestor.isEmpty then "" else "/native=" ++ ancestor : Text) ++
    (if t.isMeta then "/meta" else "" : Text) ++ (if t.isConst then "/const" else "" : Text) ++
    (if t.isCoroutine then "/coro" else "" : Text)

namespace Session

/-- What is known about a node at some depth of the tree of a file, if anything. -/
def facts (s : Session) (unit depth : Nat) (n : Node) : List Text :=
  let ctx := s.types
  let note (p : Pos) : Note := s.note ⟨unit, p⟩
  let dt (word : Text) (t : StaticType) : Text := word ++ "=" ++ ctx.describe t
  let usages (n : Note) : Text := "usages=" ++ Text.ofInt n.usages
  let word (w : Text) (b : Bool) : List Text := if b then [w] else []
  let infoFacts (i : Info) (more : List Text) : List Text :=
    if i.reduced then
      [dt "type" i.type] ++ (match i.value with
        | some v => ["const=" ++ v.repr]
        | none => []) ++ more
    else []
  match n with
  | .cls d =>
    let anchor := if depth = 1 then Pos.none else (d.name.map Ident.pos).getD .none
    let f := ctx.classes ⟨unit, anchor⟩
    ["fqcn=" ++ f.fqcn, dt "type" f.type, dt "base" f.base]
  | .var d =>
    let n := note d.name.pos
    [dt "type" n.type] ++ word "convert" n.converts ++
      [usages n, "assignments=" ++ Text.ofNat n.assignments]
  | .const d =>
    let n := note d.name.pos
    [dt "type" n.type, "value=" ++ ((n.value.map Value.repr).getD "<nil>"), usages n]
  | .signal d => let n := note d.name.pos; [dt "type" n.type, usages n]
  | .enum d =>
    let n := note d.anchor
    [dt "type" n.type] ++ (match n.value with
      | some v => ["dict=" ++ v.text]
      | none => []) ++ [usages n]
  | .enumValue v =>
    let n := note v.name.pos
    ("value=" ++ Value.intText n.number) :: word "resolved" n.isResolved
  | .func f =>
    let n := note f.anchor
    [dt "returns" n.type, "sig=" ++ s.signatureText unit f] ++ word "coroutine" n.isCoroutine ++
      word "body" n.hasBody ++ [usages n]
  | .param p =>
    let n := note p.name.pos
    [dt "type" n.type] ++ word "convert" n.converts ++ [usages n]
  | .typeSpec t => [dt "type" t.type]
  | .block b => word "returns" b.returns ++ word "unreachable" b.unreachable
  | .stmt (.assign _ _ _ op converts) =>
    (match op with
      | some o => ["op=" ++ o.name]
      | none => []) ++ word "convert" converts
  | .stmt (.loop _ v ..) => let n := note v.pos; [dt "var" n.type, usages n]
  | .stmt (.return _ _ isVoid) => word "void" isVoid
  | .pattern (.bind _ id) => let n := note id.pos; [dt "type" n.type, usages n]
  | .expr e =>
    infoFacts e.info (match e with
      | .ident id => [id.name, "source=" ++ id.source.name]
      | .call _ _ _ f _ | .superCall _ _ _ _ f _ =>
        ["func=" ++ f.name] ++ (match f.method with
          | some m => ["method=" ++ m.declaration]
          | none => []) ++ word "static" f.isStatic ++ word "awaited" f.isAwaited
      | .unary _ op _ _ => ["op=" ++ op.operator.name]
      | .binary _ op _ _ => ["op=" ++ op.operator.name]
      | .lambda _ cs usesSelf _ =>
        (cs.map fun c => Text.concat ["capture=", c.name, "@", c.pos.text]) ++ word "self" usesSelf
      | .preload _ _ _ resolved _ => ["path=" ++ resolved]
      | _ => [])
  | _ => []

/-- For each node of a file about which something is known: its kind, where it starts, and what is
known. -/
def findings (s : Session) (unit : Nat) : List (List Text) :=
  (s.annotated unit).outline.filterMap fun (depth, n) =>
    match s.facts unit depth n with
    | [] => none
    | facts => some ([n.kindName, n.span.start.text] ++ facts)

end Session

end GameScript
