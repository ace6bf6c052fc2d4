import GameScript.Proofs.Construction.Flow
import GameScript.Proofs.Ranges.Projects

/-!
# Construction of trees and programs

By recursion on the tree, whatever its annotations are: the code of expressions, patterns and statements
leaves the site as it was, and a function is complete at its end. The functions of a class are complete, one
after another, so no fault of a file is about the construction of its code, nor about its temporaries.

A compiler records how the compilation of each file has ended; `Compiler.Sturdy` says that what it has recorded
is free of such faults, and compilation keeps it up.
-/

namespace GameScript

namespace Lower

/-- The end of a function: its body, a return if the body may go on, and its description. -/
theorem body_stays {body : Lower Unit} (hb : Tidy body) (returns : Bool) (t : StaticType)
    (f : RuntimeType → Function) (starts : List Nat) : Stays {} (do
      body
      if !returns then returnNil
      finish (f (← returnType t)) starts) := by
  have hend : Stays {} (do finish (f (← returnType t)) starts) :=
    Stays.bind (returnType_tidy t _) fun r => finish_stays (f r) starts
  refine Stays.bind (hb _) fun _ => ?_
  dsimp only
  split
  · exact Stays.bind (returnNil_tidy _) fun _ => hend
  · exact hend

mutual

theorem expr_tidy (e : Expr) : Tidy (expr e) := by
  unfold expr
  refine (direct?_tidy e).bind fun r => ?_
  cases r with
  | some a => exact pure_tidy a
  | none =>
    cases e with
    | literal l => exact constant_tidy _
    | ident id => exact name_tidy id
    | self p i => exact pure_tidy _
    | list p items c i => exact array_tidy i.type (exprs_tidy items)
    | dict p es l c i => exact dictionary_tidy i.type (entries_tidy es)
    | dot x id i =>
      have hdot := property_tidy i.type (expr_tidy x) id.name
      refine read_tidy.bind fun ctx => ?_
      split
      · split
        · exact Tidy.bind (report_tidy nofun rfl) fun _ => hdot
        · exact hdot
      · exact hdot
    | index x y c i => exact element_tidy i.type (expr_tidy x) (expr_tidy y)
    | call fn args c facts i =>
      exact result_tidy i.type fun dst =>
        call_tidy dst (exprs_tidy args) fn facts args (receiver_tidy fn)
    | superCall p id args c facts i =>
      exact result_tidy i.type fun dst => callSuper_tidy dst (exprs_tidy args) facts
    | unary p op x i => exact unary_tidy i.type _ (expr_tidy x)
    | binary x op y i =>
      exact (logical_tidy _ (expr_tidy x) (expr_tidy y)).ite
        (binary_tidy i.type op (expr_tidy x) (expr_tidy y))
    | cond yes c no i =>
      exact conditional_tidy i.type (expr_tidy c) (expr_tidy yes) (expr_tidy no)
    | typeTest x negated t i => exact typeTest_tidy i.type (expr_tidy x) negated _
    | cast x t i => exact cast_tidy i.type (expr_tidy x)
    | await p x i => exact await_tidy i.type (expr_tidy x)
    | preload p x c path i => exact constant_tidy _
    | lambda f captures usesSelf i =>
      exact (func_tidy f _ captures).bind fun n => closure_tidy i.type n captures usesSelf

theorem exprs_tidy (xs : List Expr) : Tidy (exprs xs) := by
  cases xs with
  | nil => exact pure_tidy _
  | cons x xs =>
    unfold exprs
    exact (expr_tidy x).bind fun _ => (exprs_tidy xs).bind fun _ => pure_tidy _

theorem entries_tidy (es : List DictEntry) : Tidy (entries es) := by
  match es with
  | [] => exact pure_tidy _
  | ⟨k, v⟩ :: es =>
    unfold entries
    exact (expr_tidy k).bind fun _ => (expr_tidy v).bind fun _ => (entries_tidy es).bind fun _ =>
      pure_tidy _

theorem receiver_tidy (e : Expr) : Tidy (receiver e) := by
  unfold receiver
  cases e with
  | dot x _ _ => exact expr_tidy x
  | _ => exact pure_tidy _

theorem route_tidy {root : Lower Address} (hroot : Tidy root) (e : Expr) :
    Tidy (route root e) := by
  unfold route
  cases e with
  | dot x id i =>
    exact (route_tidy (expr_tidy x) x).bind fun r => (name_gen_tidy _).bind fun _ =>
      loadPart_tidy r _ _
  | index x y c i =>
    exact (route_tidy (expr_tidy x) x).bind fun r => (expr_tidy y).bind fun _ =>
      loadPart_tidy r _ _
  | _ => exact hroot.bind fun _ => pure_tidy _

theorem func_tidy (f : Func) (name : Text) (captures : List Ident) :
    Tidy (func f name captures) := by
  match f with
  | ⟨pos, id, params, returns, body, isStatic, role⟩ =>
    unfold func
    refine (note_tidy _).bind fun n => separately_tidy _ _ _ ?_
    refine Stays.bind (addParams_tidy captures params _) fun _ => ?_
    dsimp only
    split
    · refine Stays.bind (emit_tidy rfl (by decide) _) fun _ => ?_
      refine Stays.bind (defaults_tidy params _) fun starts => ?_
      refine Stays.bind (entry_tidy _) fun l => Stays.bind (pure_tidy _ _) fun _ => ?_
      exact body_stays (block_tidy body) _ _ _ _
    · exact Stays.bind (pure_tidy _ _) fun _ => body_stays (block_tidy body) _ _ _ _

theorem defaults_tidy (ps : List Param) : Tidy (defaults ps) := by
  match ps with
  | [] => exact pure_tidy _
  | ⟨_, _, _, none⟩ :: ps =>
    unfold defaults
    exact defaults_tidy ps
  | ⟨id, _, _, some x⟩ :: ps =>
    unfold defaults
    have hstore : Tidy (do
        let src ← expr x
        assign (← paramAt id.pos) src (← note id.pos).converts
        Gen.release src) :=
      (expr_tidy x).bind fun src => (paramAt_tidy _).bind fun dst => (note_tidy _).bind fun _ =>
        (assign_tidy dst src _).bind fun _ => release_tidy src
    exact entry_tidy.bind fun _ => (setLine_tidy _).bind fun _ => (balanced_tidy hstore).bind fun _ =>
      (defaults_tidy ps).bind fun _ => pure_tidy _

theorem block_tidy (b : Block) : Tidy (block b) := by
  match b with
  | ⟨_, ss, _, _, _, _, _⟩ =>
    unfold block
    exact stmts_tidy ss

theorem stmts_tidy (ss : List Stmt) : Tidy (stmts ss) := by
  match ss with
  | [] => exact pure_tidy _
  | s :: ss =>
    unfold stmts
    exact (setLine_tidy _).bind fun _ => (balanced_tidy (stmt_tidy s)).bind fun _ => stmts_tidy ss

theorem stmt_tidy (x : Stmt) : Tidy (stmt x) := by
  unfold stmt
  match x with
  | .expr x =>
    have hplain : Tidy (do Gen.release (← expr x)) := (expr_tidy x).bind fun a => release_tidy a
    cases x with
    | call fn args _ facts _ => exact call_tidy .nil (exprs_tidy args) fn facts args (receiver_tidy fn)
    | superCall _ _ args _ facts _ => exact callSuper_tidy .nil (exprs_tidy args) facts
    | _ => exact hplain
  | .var ⟨_, id, _, _, first, _, _, _, _, _, _, _, _⟩ =>
    refine (note_tidy _).bind fun n => (addLocal_tidy id _).bind fun dst => ?_
    cases first with
    | none => exact initVariable_tidy dst n (by simp)
    | some x => exact initVariable_tidy dst n (by simpa using expr_tidy x)
  | .const ⟨pos, _, _, _, init, _⟩ => exact (pure_tidy ()).ite (report_tidy nofun rfl)
  | .assign _ lhs rhs op converts =>
    cases lhs with
    | ident id => exact assignName_tidy id (expr_tidy rhs)
    | dot x id i =>
      exact (route_tidy (expr_tidy x) x).bind fun r => (name_gen_tidy _).bind fun _ =>
        assignPart_tidy r _ (expr_tidy rhs)
    | index x y _ i =>
      exact (route_tidy (expr_tidy x) x).bind fun r => (expr_tidy y).bind fun _ =>
        assignPart_tidy r _ (expr_tidy rhs)
    | _ => exact (placeText_tidy _).bind fun _ => contradiction_tidy rfl
  | .cond _ c yes none => exact choose_tidy (expr_tidy c) (block_tidy yes) (by simp)
  | .cond _ c yes (some no) =>
    exact choose_tidy (expr_tidy c) (block_tidy yes) (by simpa using block_tidy no)
  | .while _ c body => exact repeatWhile_tidy (expr_tidy c) (block_tidy body)
  | .loop _ id _ x body => exact forEach_tidy id _ (expr_tidy x) (block_tidy body)
  | .match _ x bs => exact matching_tidy _ (expr_tidy x) fun value done => branches_reaches value done bs
  | .jump pos j => exact jump_tidy pos j
  | .return _ none _ => exact returnNil_tidy
  | .return _ (some x) isVoid =>
    have hplain : Tidy (returnValue (expr x)) := returnValue_tidy (expr_tidy x)
    cases x with
    | call fn args _ facts _ =>
      cases isVoid with
      | false => exact hplain
      | true =>
        exact (call_tidy .nil (exprs_tidy args) fn facts args (receiver_tidy fn)).bind fun _ =>
          returnNil_tidy
    | superCall _ _ args _ facts _ =>
      cases isVoid with
      | false => exact hplain
      | true => exact (callSuper_tidy .nil (exprs_tidy args) facts).bind fun _ => returnNil_tidy
    | _ => exact hplain
  | .assert _ c none _ => exact assertion_tidy (expr_tidy c) (pure_tidy _)
  | .assert _ c (some m) _ => exact assertion_tidy (expr_tidy c) (expr_tidy m)

theorem branches_reaches (value : Address) (done : Nat) (bs : List Branch) :
    Reaches done (branches value done bs) := by
  match bs with
  | [] => exact (pure_tidy _).reaches done
  | ⟨ps, body, _⟩ :: bs =>
    unfold branches
    refine (matchBranch_reaches done ?_ (block_tidy body)).bind fun _ => branches_reaches value done bs
    exact anyPattern_tidy (patterns_tidy value ps)

theorem patterns_tidy (value : Address) (ps : List Pattern) : ∀ x ∈ patterns value ps, Tidy x := by
  match ps with
  | [] => simp [patterns]
  | p :: ps =>
    unfold patterns
    intro x hx
    rcases List.mem_cons.mp hx with rfl | hx
    · exact pattern_tidy value p
    · exact patterns_tidy value ps x hx

theorem pattern_tidy (value : Address) (p : Pattern) : Tidy (pattern value p) := by
  unfold pattern
  match p with
  | .literal l => exact equalPattern_tidy value _ (literal_tidy l)
  | .expr x => exact equalPattern_tidy value x (expr_tidy x)
  | .bind _ id => exact bindPattern_tidy value id
  | .wildcard _ => exact constant_tidy _
  | .rest _ => exact constant_tidy _
  | .array _ ps _ => exact containerPattern_tidy value _ _ _ fun _ => elementPatterns_tidyIn value 0 ps
  | .dict _ es isOpen _ =>
    exact containerPattern_tidy value _ _ _ fun test => entryPatterns_tidyIn test value es

theorem elementPatterns_tidyIn (value : Address) (i : Nat) (ps : List Pattern) :
    TidyIn .and (elementPatterns value i ps) := by
  match ps with
  | [] => exact (pure_tidy _).within
  | p :: ps =>
    have helement : TidyIn .and (do
        elementPattern value (Gen.constant (.int (Int64.ofNat i))) fun a => pattern a p
        elementPatterns value (i + 1) ps) :=
      (elementPattern_tidyIn value (constant_tidy _) fun a => pattern_tidy a p).bind fun _ =>
        elementPatterns_tidyIn value (i + 1) ps
    unfold elementPatterns
    split
    · exact (pure_tidy _).within
    · exact (pure_tidy _).within
    · rename_i heq
      cases heq
      exact helement

theorem entryPatterns_tidyIn (test value : Address) (es : List PatternEntry) :
    TidyIn .and (entryPatterns test value es) := by
  match es with
  | [] => exact (pure_tidy _).within
  | ⟨k, v⟩ :: es =>
    unfold entryPatterns
    have hnext := entryPatterns_tidyIn test value es
    cases v with
    | none => exact (entryPattern_tidyIn test value (expr_tidy k) (by simp)).bind fun _ => hnext
    | some p =>
      refine TidyIn.bind (entryPattern_tidyIn test value (expr_tidy k) fun q hq a => ?_) fun _ => hnext
      cases hq
      exact pattern_tidy a p

end

end Lower

namespace Lower

/-! ### Classes -/

theorem methods_tidy (ms : List Member) : Tidy (methods ms) := by
  induction ms with
  | nil => exact pure_tidy _
  | cons m ms ih =>
    cases m with
    | func f => exact (func_tidy f _ _).bind fun _ => ih.bind fun _ => pure_tidy _
    | var d =>
      exact (mapM_tidy (fun f => func_tidy f _ _) _).bind fun _ =>
        (mapM_tidy (fun f => func_tidy f _ _) _).bind fun _ => ih.bind fun _ => pure_tidy _
    | _ => exact ih

theorem setVariables_tidy (ready : Bool) (ms : List Member) : Tidy (setVariables ready ms) := by
  induction ms with
  | nil => exact pure_tidy _
  | cons m ms ih =>
    cases m with
    | var d =>
      have hinit : Tidy (do
          let m ← member none d.name.name
          let n ← note d.name.pos
          setLine d.pos
          balanced (initVariable ⟨.member, m.index.toNat, n.type⟩ n (d.init.map expr))) := by
        refine (member_tidy _ _).bind fun m => (note_tidy _).bind fun n => ?_
        refine (setLine_tidy _).bind fun _ => balanced_tidy (initVariable_tidy _ n ?_)
        intro x hx
        obtain ⟨e, -, rfl⟩ := Option.mem_map.mp hx
        exact expr_tidy e
      unfold setVariables
      dsimp only
      split
      · have := hinit.bind fun _ => ih
        simpa only [bind_assoc] using this
      · exact ih
    | _ => exact ih

theorem setter_tidy (d : ClassDecl) (name : Text) (ready : Bool) : Tidy (setter d name ready) :=
  separately_tidy _ _ _ (Stays.bind (setVariables_tidy ready d.members _) fun _ =>
    Stays.bind (returnNil_tidy _) fun _ => finish_stays _ _)

theorem withReader_tidy {α : Type} {x : Lower α} (f : LowerContext → LowerContext) (hx : Tidy x) :
    Tidy (withReader f x) := fun σ ctx s hs => hx σ (f ctx) s hs

mutual

theorem classes_tidy (drafts : Table DeclId Script) (ids : List DeclId) (id : DeclId) (d : ClassDecl) :
    Tidy (classes drafts ids id d) := by
  match d with
  | ⟨pos, name, base, members, isTool, usesOnready, close⟩ =>
    unfold classes
    refine Tidy.bind (withReader_tidy _ ?_) fun script =>
      (innerClasses_tidy drafts ids members).bind fun _ => pure_tidy _
    refine (methods_tidy members).bind fun _ => (setter_tidy _ _ _).bind fun _ => ?_
    dsimp only
    split
    · exact Tidy.bind ((setter_tidy _ _ _).bind fun _ => pure_tidy _) fun _ => pure_tidy _
    · exact (pure_tidy _).bind fun _ => pure_tidy _

theorem innerClasses_tidy (drafts : Table DeclId Script) (ids : List DeclId) (ms : List Member) :
    Tidy (innerClasses drafts ids ms) := by
  match ms with
  | [] => exact pure_tidy _
  | m :: ms =>
    have ih := innerClasses_tidy drafts ids ms
    unfold innerClasses
    cases m with
    | cls d =>
      exact read_tidy.bind fun _ => (classes_tidy drafts ids _ d).bind fun _ => ih.bind fun _ =>
        pure_tidy _
    | _ => exact ih

end

end Lower

namespace Compile

/-! ### Faults of a project -/

/-- A file is lowered without a fault about the construction of its code or the tables of its classes. -/
theorem lowerFile_sturdy (c : Compiler) (unit : Nat) (e : LowerError)
    (he : (lowerFile c unit).2 = some e) : Lower.Sturdy e := by
  have hfresh : Lowering.At {} {} := by constructor <;> simp
  have h := Lower.classes_tidy c.drafts (classIds c.session unit) (Session.mainClass unit)
    (c.session.annotated unit).cls {}
    { session := c.session, unit, cls := Session.mainClass unit, script := default, scriptIndex := 0 } {}
    hfresh
  unfold Lower.After at h
  unfold lowerFile at he
  dsimp only at he
  split at h
  · rename_i heq
    rw [heq] at he
    cases he
  · rename_i heq
    rw [heq] at he
    cases he
    exact h

theorem lowerFile_benign (c : Compiler) (unit : Nat) (e : LowerError)
    (he : (lowerFile c unit).2 = some e) : Lower.Benign e := by
  have h := lowerFile_balanced c unit
  split at h
  · rename_i heq
    rw [heq] at he
    cases he
  · rename_i heq
    rw [heq] at he
    cases he
    exact h

end Compile

/-- An error that is about neither the construction of code nor its temporaries. -/
def CompileError.Sturdy (e : CompileError) : Prop :=
  ∀ path pos f, e = .fault path pos (.internal f) →
    f.aboutConstruction = false ∧ f.aboutTemporaries = false

/-- The files that a compiler could not compile have no such errors. -/
def Compiler.Sturdy (c : Compiler) : Prop :=
  ∀ path e, c.outcomes.get? path = some (.failed e) → e.Sturdy

namespace Compile

variable {α β : Type}

theorem sturdy_fault {path : Text} {pos : Pos} {f : CompileFault} (h : ∀ f', f ≠ .internal f') :
    CompileError.Sturdy (.fault path pos f) := by
  intro _ _ f' he
  cases he
  exact absurd rfl (h f')

/-- A step that keeps up what is recorded and fails only with such errors. -/
def Endures (x : Compile α) : Prop :=
  ∀ c, c.Sturdy → After x c (fun _ c' => c'.Sturdy) fun e c' => e.Sturdy ∧ c'.Sturdy

theorem Endures.bind {x : Compile α} {f : α → Compile β} (hx : Endures x) (hf : ∀ a, Endures (f a)) :
    Endures (x >>= f) := fun c hc => (hx c hc).bind fun a c' hc' => hf a c' hc'

theorem pure_endures (a : α) : Endures (pure a : Compile α) := fun _ hc => hc

theorem get_endures : Endures (get : Compile Compiler) := fun _ hc => hc

theorem report_endures {unit : Nat} {pos : Pos} {f : CompileFault} (h : ∀ f', f ≠ .internal f') :
    Endures (report unit pos f : Compile α) := fun _ hc => ⟨sturdy_fault h, hc⟩

theorem forM_endures {f : α → Compile PUnit} (hf : ∀ a, Endures (f a)) (xs : List α) :
    Endures (xs.forM f) := by
  induction xs with
  | nil => exact pure_endures _
  | cons x xs ih => exact (hf x).bind fun _ => ih

theorem foreign_endures (number : Nat × Nat) : Endures (foreign number) := by
  refine get_endures.bind fun c => ?_
  split
  · exact pure_endures _
  · exact pure_endures _

theorem addProgram_endures (unit : Nat) (p : Program) : Endures (addProgram unit p) := fun _ hc => hc

theorem complete_endures (id : DeclId) (r : ClassRecord) (table : Script) :
    Endures (complete id r table) := fun _ hc => hc

theorem enter_endures (id : DeclId) (r : ClassRecord) : Endures (enter id r) := by
  intro c hc
  unfold enter
  rw [after_bind, after_get]
  dsimp only
  split
  · exact ⟨sturdy_fault nofun, hc⟩
  · rw [after_bind, after_set]
    split
    · split
      · exact ⟨sturdy_fault nofun, hc⟩
      · exact hc
    · exact hc

theorem build_endures (unit : Nat) (path : Text) (start : Pos) {draft : Compile Script}
    (hd : Endures draft) : Endures (build unit path start draft) := by
  intro c hc
  unfold build
  rw [after_bind, after_get]
  dsimp only
  split
  · exact ⟨nofun, hc⟩
  · refine (hd c hc).bind fun _ c₁ hc₁ => ?_
    rw [after_bind, after_get, after_bind, after_modify]
    split
    · exact addProgram_endures unit _ _ hc₁
    · rename_i e he
      refine ⟨fun _ _ f h => ?_, hc₁⟩
      have hfault : e.fault = .internal f := by
        injection h
      exact ⟨(lowerFile_sturdy c₁ unit e he).1 f hfault, lowerFile_benign c₁ unit e he f hfault⟩

/-- The compiler keeps up what is recorded, and the result is no other error. -/
def Endured (r : Except CompileError Nat × Compiler) : Prop :=
  r.2.Sturdy ∧ ∀ e, r.1 = .error e → e.Sturdy

/-- An outcome is recorded. -/
theorem sturdy_set {c : Compiler} (hc : c.Sturdy) {o : Outcome} (ho : ∀ e, o = .failed e → e.Sturdy)
    (path : Text) : Compiler.Sturdy { c with outcomes := c.outcomes.set path o } := by
  intro path' e he
  rw [Table.get?_set] at he
  split at he
  · exact ho e (Option.some.inj he)
  · exact hc path' e he

mutual

theorem draft_endures (fuel : Nat) (id : DeclId) : Endures (draft fuel id) := by
  match fuel with
  | 0 => exact report_endures nofun
  | fuel + 1 =>
    unfold draft
    refine get_endures.bind fun c => ?_
    split
    · exact pure_endures _
    · exact pure_endures _
    · rename_i r _ _
      refine (enter_endures id r).bind fun _ => Endures.bind ?_ fun table => ?_
      · split
        · split
          · exact (draft_endures fuel _).bind fun _ => pure_endures _
          · exact (compileBase_endures fuel _ _ _).bind fun _ => pure_endures _
        · split
          · exact (foreign_endures _).bind fun _ => pure_endures _
          · exact pure_endures _
        · exact pure_endures _
      · refine (complete_endures id r table).bind fun t => get_endures.bind fun c' => ?_
        refine (forM_endures (fun inner => ?_) _).bind fun _ => ?_
        · exact (draft_endures fuel inner).bind fun _ => pure_endures _
        · exact Endures.bind (fun _ hc => hc) fun _ => pure_endures _

theorem compileBase_endures (fuel unit : Nat) (pos : Pos) (base : DeclId) :
    Endures (compileBase fuel unit pos base) := by
  match fuel with
  | 0 => exact report_endures nofun
  | fuel + 1 =>
    intro c hc
    unfold compileBase
    rw [after_bind, after_get]
    dsimp only
    rw [after_bind, after_set]
    have hset : ∀ session, Compiler.Sturdy { c with session } := fun _ => hc
    split
    · exact ⟨sturdy_fault nofun, hc⟩
    · rw [after_bind, after_lift]
      obtain ⟨hfile, -⟩ := compileFile_endured fuel _ (hset (c.session.fetch (c.session.pathOf base.unit)).2)
      split
      · exact ⟨sturdy_fault nofun, hfile⟩
      · rw [after_bind, after_get]
        split
        · exact foreign_endures _ _ hfile
        · refine ⟨fun _ _ f h => ?_, hfile⟩
          cases h
          exact ⟨rfl, rfl⟩

theorem compileFile_endured (fuel unit : Nat) {c : Compiler} (hc : c.Sturdy) :
    Endured ((compileFile fuel unit).run c) := by
  match fuel with
  | 0 => exact ⟨hc, fun e he => by cases he; nofun⟩
  | fuel + 1 =>
    rw [run_compileFile]
    split
    · exact ⟨hc, fun e h => by cases h⟩
    · rename_i e he
      exact ⟨hc, fun e' h => by cases h; exact hc _ e he⟩
    · exact ⟨hc, fun e h => by cases h; exact sturdy_fault nofun⟩
    · have hbegun := sturdy_set (o := .compiling) hc (fun e h => by cases h) (c.session.pathOf unit)
      have hbuild := build_endures unit (c.session.pathOf unit) (startOf c.session unit)
        (draft_endures fuel (Session.mainClass unit))
        { c with
          session := (c.session.raise unit .body).2
          outcomes := c.outcomes.set (c.session.pathOf unit) .compiling } hbegun
      unfold After at hbuild
      dsimp only
      split at hbuild
      · rename_i n c' heq
        rw [heq]
        exact ⟨sturdy_set hbuild (fun e h => by cases h) _, fun e h => by cases h⟩
      · rename_i e c' heq
        rw [heq]
        refine ⟨sturdy_set hbuild.2 (fun e' h => ?_) _, fun e' h => ?_⟩
        · cases h
          exact hbuild.1
        · cases h
          exact hbuild.1

end

end Compile

namespace Compiler

theorem Reached.sturdy {c : Compiler} (h : c.Reached) : c.Sturdy := by
  induction h with
  | new s => exact fun _ _ he => by cases he
  | compile unit _ ih => exact (Compile.compileFile_endured _ unit ih).1
  | reset _ _ => exact fun _ _ he => by cases he
  | keepCompiled program _ _ => exact fun _ _ he => by cases he
  | analysis s _ ih => exact ih

/-- The fault of a compilation that ends because the compiler contradicts itself. -/
def internalFault? : Except CompileError Nat → Option InternalFault
  | .error (.fault _ _ (.internal f)) => some f
  | _ => none

/-- A file whose function returns a class by the name of a local constant. -/
def classConstantProject : Compiler :=
  ofSource "res://test.gd" "class Inner:\n\tpass\nfunc f():\n\tconst C = Inner\n\treturn C\n"

end Compiler

end GameScript
