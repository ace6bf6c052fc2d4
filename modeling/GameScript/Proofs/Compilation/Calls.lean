import GameScript.Lowering.Body
import GameScript.Proofs.Analysis.Callees
import GameScript.Proofs.Running.Programs

/-!
# Code of what is called

The analysis decides what a call calls, and so does the code generator once more, from what the analysis has left
of the callee. A local of the name of a builtin type or a global function is forgotten in between, when the name is
found to be that of a method.

* `Lower.resolved` — the code of a call by what it is resolved to;
* `Analysis.reduceCall_lowered` — **calls are compiled as they are resolved**, but for those names;
* `Compiler.method_called_as_utility` — a call of a method that is compiled as one of a global function.
-/

namespace GameScript

namespace Lower

/-- The code of a call that is resolved, which stores the result at `dst`. -/
def resolved (dst : Address) (c : CallNode) (r : Resolution) : Lower Unit :=
  match r, c.callee with
  | .constructor t, _ => construct dst t (exprs c.args)
  | .language, _ => callName .callLanguageUtility dst c.facts.name (exprs c.args)
  | .utility, _ => callName .callUtility dst c.facts.name (exprs c.args)
  | .own, .name id => callOwn dst id c.facts (exprs c.args)
  | .ofValue, .dotted x id _ => callOn dst x id c.facts c.args (expr x) (exprs c.args)
  | _, _ => callSuper dst c.facts (exprs c.args)

/-- The code of a name that is called. -/
theorem callNamed_eq (dst : Address) (id : Ident) (facts : CallFacts) (args : Lower (List Address)) :
    callNamed dst id facts args =
      match id.resolution with
      | .constructor t => construct dst t args
      | .language => callName .callLanguageUtility dst id.name args
      | .utility => callName .callUtility dst id.name args
      | _ => callOwn dst id facts args := by
  unfold callNamed Ident.resolution Analysis.globalCallee?
  cases id.source.isLocal with
  | true => rfl
  | false =>
    cases BuiltinType.ofName? id.name with
    | some t => rfl
    | none =>
      cases GlobalFunction.language? id.name with
      | some f => rfl
      | none => cases GlobalFunction.utility? id.name <;> rfl

end Lower

namespace Callee

/-- Whether the name of a local stands alone that is also the name of a builtin type or a global function. -/
def hidesGlobal : Callee → Bool
  | .name id => id.source.isLocal && (Analysis.globalCallee? { id with source := .memberFunction }).isSome
  | _ => false

variable {callee callee' : Callee} {id id' : Ident}

/-- A name that hides no global function stands for the same when it has become that of a method. -/
theorem Kept.resolution (hname : id'.name = id.name)
    (hsource : id'.source = id.source ∨ id'.source = .memberFunction ∧ Analysis.globalCallee? id = none)
    (h : (Callee.name id).hidesGlobal = false) : id'.resolution = id.resolution := by
  have hglobal : Analysis.globalCallee? id' = Analysis.globalCallee? id := by
    rcases hsource with hsource | ⟨hsource, hnone⟩
    · exact globalCallee?_congr hname hsource
    · have hmethod : Analysis.globalCallee? id' = Analysis.globalCallee? { id with source := .memberFunction } :=
        globalCallee?_congr hname hsource
      rw [hmethod, hnone]
      cases hlocal : id.source.isLocal with
      | true => simpa [hidesGlobal, hlocal] using h
      | false =>
        rw [← hnone]
        unfold Analysis.globalCallee?
        rw [hlocal]
        rfl
  unfold Ident.resolution
  rw [hglobal, hname]

end Callee

namespace Lower

/-- The code of a call with a result in an address: that of a function of the base class or another one. -/
def called (dst : Address) (c : CallNode) : Lower Unit :=
  match c.callee with
  | .overridden | .ofBase _ => callSuper dst c.facts (exprs c.args)
  | .name id => callNamed dst id c.facts (exprs c.args)
  | .dotted x id _ => callOn dst x id c.facts c.args (expr x) (exprs c.args)
  | .other x => call dst x c.facts c.args (receiver x) (exprs c.args)

/-- A call as an expression is its value if it is known, or else what it is as a statement, with a result. -/
theorem expr_toExpr (c : CallNode) : expr c.toExpr = (do
    if let some a ← direct? c.toExpr then return a
    result c.info.type fun dst => called dst c) := by
  obtain ⟨pos, callee, args, close, facts, info⟩ := c
  cases callee
  all_goals
    rw [CallNode.toExpr, expr.eq_def]
    refine bind_congr fun a? => ?_
    cases a? <;> rfl

theorem stmt_toExpr (c : CallNode) : stmt (.expr c.toExpr) = called .nil c := by
  obtain ⟨pos, callee, args, close, facts, info⟩ := c
  cases callee <;> rfl

/-- The code of what the analysis leaves of a call. -/
theorem called_eq (dst : Address) {c c' : CallNode} {r : Resolution} (hr : c.callee.resolution? = some r)
    (h : c.callee.hidesGlobal = false) (hkept : c.callee.Kept c'.callee)
    (hname : ∀ id, c.callee = .name id → c'.facts.name = id.name) : called dst c' = resolved dst c' r := by
  obtain ⟨pos, callee, args, close, facts, info⟩ := c
  obtain ⟨pos', callee', args', close', facts', info'⟩ := c'
  cases hkept with
  | overridden =>
    cases hr
    rfl
  | ofBase _ =>
    cases hr
    rfl
  | dotted _ =>
    cases hr
    rfl
  | other => cases hr
  | name hid hsource =>
    rename_i id id'
    cases hr
    have hfacts : facts'.name = id'.name := (hname id rfl).trans hid.symm
    have halone := id.resolution_alone
    unfold called resolved
    dsimp only
    rw [callNamed_eq, Callee.Kept.resolution hid hsource h, hfacts]
    cases hres : id.resolution with
    | constructor t => rfl
    | language => rfl
    | utility => rfl
    | own => rfl
    | ofBase => exact absurd hres halone.1
    | ofValue => exact absurd hres halone.2

end Lower

/-- **Calls are compiled as they are resolved.** If a name that stands alone is not that of a local and at the same
time that of a builtin type or a global function, then the analysis leaves a call whose code, as a value and as a
statement, is that of the constructor, the global function or the method that it has looked up. -/
theorem Analysis.reduceCall_lowered (sub : Steps) (root : Bool) (c : CallNode) (r : Resolution)
    (hr : c.callee.resolution? = some r) (h : c.callee.hidesGlobal = false) :
    Gives (fun c' => Lower.stmt (.expr c'.toExpr) = Lower.resolved .nil c' r ∧ Lower.expr c'.toExpr = (do
      if let some a ← Lower.direct? c'.toExpr then return a
      Lower.result c'.info.type fun dst => Lower.resolved dst c' r)) (reduceCall sub root c) := by
  refine (reduceCall_gives root c).mono fun c' hc' => ?_
  obtain ⟨hkept, hname⟩ := hc'
  have hcalled : ∀ dst, Lower.called dst c' = Lower.resolved dst c' r := fun dst =>
    Lower.called_eq dst hr h hkept hname
  constructor
  · rw [Lower.stmt_toExpr, hcalled]
  · simp only [Lower.expr_toExpr, hcalled]

namespace Analysis

/-- The call of a function of the language. -/
def rangeCall : CallNode :=
  ⟨⟨1, 1⟩, .name { pos := ⟨1, 1⟩, name := "range" }, [], ⟨1, 7⟩, {}, {}⟩

theorem reduceCall_lowered_range : rangeCall.callee.resolution? = some .language ∧
    rangeCall.callee.hidesGlobal = false ∧
    Gives (fun c => Lower.stmt (.expr c.toExpr) =
        Lower.callName .callLanguageUtility .nil c.facts.name (Lower.exprs c.args))
      (reduceCall default true rangeCall) := by
  have hr : rangeCall.callee.resolution? = some .language := by decide
  have h : rangeCall.callee.hidesGlobal = false := by decide
  exact ⟨hr, h, (reduceCall_lowered default true rangeCall .language hr h).mono fun _ hc => hc.1⟩

end Analysis

namespace Compiler

/-- The name that stands alone in a call. -/
def calledName? : Expr → Option Ident
  | .call (.ident id) .. => some id
  | _ => none

/-- A file whose function calls a method by a name that is that of a local and that of a function of the language. -/
def hidingProject : Compiler :=
  ofSource "res://test.gd" "func len(x):\n\treturn x\nfunc f():\n\tvar len = 2\n\treturn len(3)\n"

/-- The analysis finds no error in the file and resolves the call to the method, but the code calls the function of
the language. -/
theorem method_called_as_utility :
    ((hidingProject.compile 0).2.session.files[0]?).bind FileRecord.failure = none ∧
    (∃ f ∈ ((hidingProject.compile 0).2.session.annotated 0).cls.functions, f.2 = "f" ∧
      (f.1.body.result?.bind calledName?).map (·.source) = some .memberFunction) ∧
    ∃ p ∈ (hidingProject.compile 0).2.library, ∃ fn ∈ p.functions, fn.name = "f" ∧
      ("\t3\tcall_language_utility %0, len, (3)" : Text) ∈ (p.listing fn).1 := by
  decide +kernel

end Compiler

end GameScript
