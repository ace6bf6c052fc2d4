import GameScript.Proofs.Ranges.Flow

/-!
# Operands of trees

By recursion on the tree, whatever its annotations are: the code of expressions, statements, patterns and
functions keeps operands in range. The entries of a function are bound one after another, each followed by
the code that stores a default; the last one is followed by the body, which is not empty or else ends with
a return.
-/

namespace GameScript

/-! ### Entries -/

namespace Ascending

theorem nil (bound : Nat → Option Nat) (least most : Nat) : Ascending bound least most [] :=
  ⟨by simp, .nil⟩

/-- Labels stay bound, and there may be more instructions. -/
theorem le {L L' : Progress} {least most most' : Nat} {labels : List Nat}
    (h : Ascending L.bound least most labels) (hL : L ≤ L') (hm : most ≤ most') :
    Ascending L'.bound least most' labels := by
  refine ⟨fun l hl => ?_, ?_⟩
  · obtain ⟨i, hi, hle, hlt⟩ := h.all l hl
    exact ⟨i, hL.bound l i hi, hle, by omega⟩
  · refine h.increasing.imp_of_mem fun {l l'} hl hl' hlt i i' hi hi' => ?_
    obtain ⟨k, hk, -, -⟩ := h.all l hl
    obtain ⟨k', hk', -, -⟩ := h.all l' hl'
    obtain rfl : k = i := Option.some.inj ((hL.bound l k hk).symm.trans hi)
    obtain rfl : k' = i' := Option.some.inj ((hL.bound l' k' hk').symm.trans hi')
    exact hlt k k' hk hk'

theorem cons {bound : Nat → Option Nat} {least mid most i l : Nat} {labels : List Nat}
    (hl : bound l = some i) (hle : least ≤ i) (hlt : i < mid) (hmost : mid ≤ most)
    (h : Ascending bound mid most labels) : Ascending bound least most (l :: labels) := by
  refine ⟨?_, List.pairwise_cons.mpr ⟨?_, h.increasing⟩⟩
  · intro l' hl'
    rcases List.mem_cons.mp hl' with rfl | hl'
    · exact ⟨i, hl, hle, by omega⟩
    · obtain ⟨i', hi', hle', hlt'⟩ := h.all l' hl'
      exact ⟨i', hi', by omega, hlt'⟩
  · intro l' hl' k k' hk hk'
    obtain ⟨i', hi', hle', -⟩ := h.all l' hl'
    rw [hl] at hk
    rw [hi'] at hk'
    cases hk
    cases hk'
    omega

theorem snoc {bound : Nat → Option Nat} {least mid most i l : Nat} {labels : List Nat}
    (h : Ascending bound least mid labels) (hmid : least ≤ mid) (hl : bound l = some i) (hle : mid ≤ i)
    (hlt : i < most) : Ascending bound least most (labels ++ [l]) := by
  refine ⟨?_, List.pairwise_append.mpr ⟨h.increasing, List.pairwise_singleton _ _, ?_⟩⟩
  · intro l' hl'
    rcases List.mem_append.mp hl' with hl' | hl'
    · obtain ⟨i', hi', hle', hlt'⟩ := h.all l' hl'
      exact ⟨i', hi', hle', by omega⟩
    · rw [List.mem_singleton.mp hl']
      exact ⟨i, hl, by omega, hlt⟩
  · intro l' hl' k hk j j' hj hj'
    obtain ⟨i', hi', -, hlt'⟩ := h.all l' hl'
    rw [List.mem_singleton.mp hk, hl] at hj'
    rw [hi'] at hj
    cases hj
    cases hj'
    omega

end Ascending

namespace Lower

variable {size : Nat → Option Nat} {L : Progress}

/-! ### Functions -/

/-- Code that makes a function in range. -/
def Makes (size : Nat → Option Nat) (L : Progress) (x : Lower Function) : Prop :=
  Ranged size L x fun L' f => ∃ m, f.script.bind size = some m ∧
    ∃ is, f.InRange (f.scope m L'.constants L'.names L'.functions) is

theorem returnType_runs (t : StaticType) : Runs size L (returnType t) := by
  unfold returnType
  split
  · exact types_runs.bind fun _ _ _ _ => pure_runs _
  · exact current_runs.bind fun _ _ _ _ => Ranged.ite (pure_runs _) (pure_runs _)

/-- **A finished function is in range** if its entries are bound in order, before its last instruction. -/
theorem finish_makes {f : Function} {labels : List Nat}
    (hcount : labels.length = if f.minArgs < f.maxArgs then (f.maxArgs - f.minArgs + 1 : Int) else 0)
    (hbound : Ascending L.bound 0 L.code labels) : Makes size L (finish f labels) := by
  refine current_bind fun ctx s hctx hs hL => ?_
  dsimp only
  split
  · trivial
  · rw [after_bind, after_lift]
    unfold Gen.machineCode
    rw [Gen.after_bind, Gen.after_get]
    split
    · trivial
    · dsimp only
      split
      · trivial
      · rename_i hu
        refine ⟨hs, le_rfl, ctx.script.members.length, hctx.size,
          s.gen.assembly.resolved s.gen.assembly.places, ?_⟩
        have hw : s.gen.assembly.WellFormed := by
          refine ⟨hs.fits, fun i hi => ?_⟩
          obtain ⟨l, hl, hl'⟩ := List.mem_iff_getElem.mp hi
          exact hs.binds l i ((List.getD_eq_getElem _ _ hl).trans hl')
        exact Function.InRange.of_assembly hw hu hs.code rfl rfl hcount (hbound.le hL hL.code)

/-- A function of its own is added to the pool; the code around goes on as before. -/
theorem separately_ranged (name : Text) (property : Option Text) (line : Int) {x : Lower Function}
    (hx : ∀ L, Makes size L x) :
    Ranged size L (separately name property line x) fun L' i => i < L'.functions := by
  intro ctx s hctx hs hL
  let fresh : Lowering := { gen := { pool := s.gen.pool, line } }
  let inside : LowerContext := { ctx with function := name, property }
  have hfresh : fresh.InRange size inside :=
    ⟨by simp [fresh], by simp [fresh], by simp [fresh, Lowering.progress],
      by simp [fresh, Table.get?], hs.functions⟩
  have h := hx (fresh.progress inside) inside fresh ⟨hctx.size, hctx.members⟩ hfresh le_rfl
  unfold After at h ⊢
  unfold separately
  split at h
  · rename_i f inner heq
    rw [heq]
    obtain ⟨hinner, hgrown, m, hm, is, his⟩ := h
    dsimp only [Pool.add]
    have hp : s.progress ctx ≤ Lowering.progress ctx { s with gen := { s.gen with pool :=
        { inner.gen.pool with functions := inner.gen.pool.functions ++ [f] } } } := by
      refine ⟨⟨le_rfl, le_rfl, le_rfl, le_rfl, hgrown.scope.constants, hgrown.scope.names, ?_⟩,
        hgrown.pool.trans (Pool.le_add _ _), le_rfl, le_rfl, fun _ _ h => h⟩
      exact le_trans hgrown.scope.functions (by simp [Lowering.progress])
    have hlt : inner.gen.pool.functions.length < (inner.gen.pool.functions ++ [f]).length := by simp
    refine ⟨⟨hs.fits, fun i hi => (hs.code i hi).mono hp.scope, hs.binds,
      fun p a ha => (hs.vars p a ha).le hp, ?_⟩, hp, hlt⟩
    intro g hg
    rcases List.mem_append.mp hg with hg | hg
    · obtain ⟨m', hm', is', his'⟩ := hinner.functions g hg
      exact ⟨m', hm', is', his'.grow le_rfl le_rfl (le_of_lt hlt)⟩
    · rw [List.mem_singleton.mp hg]
      exact ⟨m, hm, is, his.grow le_rfl le_rfl (le_of_lt hlt)⟩
  · rename_i heq
    rw [heq]
    trivial

theorem forIn_runs {β : Type} (xs : List β) {f : β → PUnit → Lower (ForInStep PUnit)}
    (hf : ∀ x u L, Runs size L (f x u)) (u : PUnit) : Runs size L (forIn xs u f) := by
  induction xs generalizing u L with
  | nil => exact pure_runs u
  | cons x xs ih =>
    rw [List.forIn_cons]
    refine (hf x u L).bind fun r L₁ _ _ => ?_
    cases r with
    | done u => exact pure_runs u
    | yield u => exact ih u

theorem addParams_runs (captures : List Ident) (params : List Param) :
    Runs size L (addParams captures params) := by
  unfold addParams
  refine (forIn_runs captures (fun id _ L => ?_) _).bind fun _ L₁ _ _ =>
    (forIn_runs params (fun p _ L => ?_) _).bind fun _ _ _ _ => pure_runs _
  · split
    · exact (addParam_runs _ _ _ _).bind fun _ _ _ _ => pure_runs _
    · exact (addParam_runs _ _ _ _).bind fun _ _ _ _ => pure_runs _
  · exact (note_runs _).bind fun n _ _ _ => (addParam_runs _ _ _ _).bind fun _ _ _ _ => pure_runs _

/-- The parameters of a function are those without a default and those with one. -/
theorem length_params (ps : List Param) :
    (ps.filter (·.default.isNone)).length + (ps.filter (·.default.isSome)).length = ps.length := by
  induction ps with
  | nil => rfl
  | cons p ps ih => cases h : p.default <;> simp [h] <;> omega

/-- What follows the entries of a function. -/
theorem body_makes {body : Lower Unit} {returns : Bool}
    (hb : ∀ L, Ranged size L body fun L' _ => returns = true → L.code < L'.code) (t : StaticType)
    {f : RuntimeType → Function} {labels : List Nat}
    (hcount : ∀ r, labels.length =
      if (f r).minArgs < (f r).maxArgs then ((f r).maxArgs - (f r).minArgs + 1 : Int) else 0)
    (hbound : Ascending L.bound 0 (L.code + 1) labels) : Makes size L (do
      body
      if !returns then returnNil
      finish (f (← returnType t)) labels) := by
  have hend : ∀ L', L ≤ L' → L.code < L'.code →
      Makes size L' (do finish (f (← returnType t)) labels) := fun L' h hlt =>
    (returnType_runs t).bind fun r L₁ h₁ _ =>
      finish_makes (hcount r) (hbound.le (le_trans h h₁) (le_trans hlt h₁.code))
  refine (hb L).bind fun _ L₁ h₁ hlt => ?_
  dsimp only
  split
  · refine returnNil_emits.bind fun _ L₂ h₂ hlt₂ => ?_
    exact hend L₂ (le_trans h₁ h₂) (lt_of_le_of_lt h₁.code hlt₂)
  · rename_i hr
    exact hend L₁ h₁ (hlt (by simpa using hr))

/-- A step of which nothing is claimed. -/
theorem Ranged.unless {x : Lower Unit} {R : Progress → Unit → Prop} (h : Ranged size L x R)
    {returns : Bool} (hr : returns = false) :
    Ranged size L x fun L' _ => returns = true → L.code < L'.code :=
  h.imp fun _ _ _ _ ht => absurd ht (by simp [hr])

theorem Emits.when {x : Lower Unit} (h : Emits size L x) {returns : Bool} :
    Ranged size L x fun L' _ => returns = true → L.code < L'.code :=
  h.imp fun _ _ _ hlt _ => hlt

/-! ### Recursion -/

mutual

theorem expr_locates (e : Expr) (L : Progress) : Locates size L (expr e) := by
  unfold expr
  refine (direct?_ranged e).bind fun r L₁ h₁ hr => ?_
  cases r with
  | some a => exact pure_ranged fun L' h => (hr a rfl).le h
  | none =>
    cases e with
    | literal l => exact constant_locates _
    | ident id => exact name_locates id
    | self p i => exact pure_locates fun _ => Nat.one_pos
    | list p items c i => exact array_locates i.type (exprs_locate items)
    | dict p es l c i => exact dictionary_locates i.type (entries_locate es)
    | dot x id i =>
      have hdot : ∀ L, Locates size L (property i.type (expr x) id.name) := fun _ =>
        property_locates i.type (expr_locates x) id.name
      refine read_runs.bind fun ctx L₂ _ _ => ?_
      split
      · split
        · exact (report_ranged (R := fun _ _ => False)).bind fun _ _ _ h => h.elim
        · exact hdot L₂
      · exact hdot L₂
    | index x y c i => exact element_locates i.type (expr_locates x) (expr_locates y)
    | call fn args c facts i =>
      exact result_locates i.type fun L dst hd =>
        call_runs hd (exprs_locate args) fn facts args (receiver_locates fn)
    | superCall p id args c facts i =>
      exact result_locates i.type fun L dst hd => callSuper_runs hd (exprs_locate args) facts
    | unary p op x i => exact unary_locates i.type _ (expr_locates x)
    | binary x op y i =>
      exact (logical_locates _ (expr_locates x) (expr_locates y)).ite
        (binary_locates i.type op (expr_locates x) (expr_locates y))
    | cond yes c no i =>
      exact conditional_locates i.type (expr_locates c) (expr_locates yes) (expr_locates no)
    | typeTest x negated t i => exact typeTest_locates i.type (expr_locates x) negated _
    | cast x t i => exact cast_locates i.type (expr_locates x)
    | await p x i => exact await_locates i.type (expr_locates x)
    | preload p x c path i => exact constant_locates _
    | lambda f captures usesSelf i =>
      exact (func_ranged f _ captures L₁).bind fun n L₂ _ hn => closure_locates i.type hn captures usesSelf

theorem exprs_locate (xs : List Expr) (L : Progress) : LocatesAll size L (exprs xs) := by
  cases xs with
  | nil => exact pure_ranged (by simp)
  | cons x xs =>
    unfold exprs
    refine (expr_locates x L).bind fun a L₁ h₁ ha => ?_
    refine (exprs_locate xs L₁).bind fun as L₂ h₂ has => pure_ranged fun L' h => ?_
    simp only [List.mem_cons, forall_eq_or_imp]
    grind

theorem entries_locate (es : List DictEntry) (L : Progress) : LocatesAll size L (entries es) := by
  match es with
  | [] => exact pure_ranged (by simp)
  | ⟨k, v⟩ :: es =>
    unfold entries
    refine (expr_locates k L).bind fun k L₁ h₁ hk => ?_
    refine (expr_locates v L₁).bind fun v L₂ h₂ hv => ?_
    refine (entries_locate es L₂).bind fun as L₃ h₃ has => pure_ranged fun L' h => ?_
    simp only [List.mem_cons, forall_eq_or_imp]
    grind

theorem receiver_locates (e : Expr) (L : Progress) : Locates size L (receiver e) := by
  unfold receiver
  cases e with
  | dot x _ _ => exact expr_locates x L
  | _ => exact pure_locates fun _ => within_nil

theorem route_ranged {root : Lower Address} (hroot : ∀ L, Locates size L root) (e : Expr)
    (L : Progress) : Ranged size L (route root e) fun L' r => RouteWithin L'.toScope r := by
  have hbase : ∀ root', Ranged size L (do return { root := root', base := ← root : Route })
      fun L' r => RouteWithin L'.toScope r := fun root' =>
    (hroot L).bind fun a L₁ h₁ ha => pure_ranged fun L' h => ⟨ha.le h, by simp⟩
  unfold route
  cases e with
  | dot x id i =>
    refine (route_ranged (expr_locates x) x L).bind fun r L₁ h₁ hr => ?_
    refine (name_gen_ranged _).bind fun n L₂ h₂ hn => ?_
    exact loadPart_ranged (hr.le h₂) (.named n) hn _
  | index x y c i =>
    refine (route_ranged (expr_locates x) x L).bind fun r L₁ h₁ hr => ?_
    refine (expr_locates y L₁).bind fun k L₂ h₂ hk => ?_
    exact loadPart_ranged (hr.le h₂) (.keyed k) hk _
  | _ => exact hbase _

theorem func_ranged (f : Func) (name : Text) (captures : List Ident) (L : Progress) :
    Ranged size L (func f name captures) fun L' i => i < L'.functions := by
  match f with
  | ⟨pos, id, params, returns, body, isStatic, role⟩ =>
    have hparams := length_params params
    unfold func
    refine (note_runs _).bind fun n L₁ _ _ => separately_ranged _ _ _ fun L => ?_
    refine (addParams_runs captures params).bind fun _ L₂ _ _ => ?_
    dsimp only
    split
    · rename_i hlt
      refine (emit_runs (by simp)).bind fun _ L₃ _ _ => ?_
      refine (defaults_ranged params L₃).bind fun starts L₄ h₄ ⟨hstarts, hlen⟩ => ?_
      refine entry_ranged.bind fun l L₅ h₅ ⟨i, hl, hle, hge⟩ => ?_
      refine Ranged.bind (pure_ranged (R := fun L' ls => ls = starts ++ [l]) fun _ _ => rfl)
        fun ls L₆ h₆ hls => ?_
      subst hls
      refine body_makes (block_ranged body) n.type (fun r => ?_) ?_
      · simp only [List.length_append, List.length_singleton, hlen]
        rw [if_pos (by omega)]
        omega
      · have hall := (hstarts.le h₅ le_rfl).snoc h₄.code hl hle (Nat.lt_succ_of_le hge)
        exact ⟨fun l hl => by
          obtain ⟨i, hi, -, hlt⟩ := (hall.le h₆ (Nat.succ_le_succ h₆.code)).all l hl
          exact ⟨i, hi, Nat.zero_le _, hlt⟩, (hall.le h₆ (Nat.succ_le_succ h₆.code)).increasing⟩
    · rename_i hge
      refine Ranged.bind (pure_ranged (R := fun L' ls => ls = []) fun _ _ => rfl) fun ls L₃ _ hls => ?_
      subst hls
      refine body_makes (block_ranged body) n.type (fun r => ?_) (.nil _ _ _)
      rw [if_neg (by simpa using hge)]
      rfl

theorem defaults_ranged (ps : List Param) (L : Progress) :
    Ranged size L (defaults ps) fun L' ls =>
      Ascending L'.bound L.code L'.code ls ∧ ls.length = (ps.filter (·.default.isSome)).length := by
  match ps with
  | [] => exact pure_ranged fun _ _ => ⟨.nil _ _ _, rfl⟩
  | ⟨_, _, _, none⟩ :: ps =>
    unfold defaults
    exact (defaults_ranged ps L).imp fun _ _ _ h => by simpa using h
  | ⟨id, _, _, some x⟩ :: ps =>
    have hstore : ∀ L, Emits size L (do
        let src ← expr x
        assign (← paramAt id.pos) src (← note id.pos).converts
        Gen.release src) := by
      intro L
      refine (expr_locates x L).bind fun src L₁ h₁ hs => ?_
      refine (paramAt_locates id.pos).bind fun dst L₂ h₂ hd => ?_
      refine (note_runs _).bind fun n L₃ h₃ _ => ?_
      refine (assign_emits (hd.le h₃) (hs.le (le_trans h₂ h₃)) _).bind fun _ L₄ h₄ hlt => ?_
      refine (release_runs src).imp fun L' _ h _ => ?_
      exact lt_of_lt_of_le (lt_of_le_of_lt (le_trans h₁ (le_trans h₂ h₃)).code hlt) h.code
    unfold defaults
    refine entry_ranged.bind fun l L₁ h₁ ⟨i, hl, hle, hge⟩ => ?_
    refine (setLine_runs _).bind fun _ L₂ h₂ _ => ?_
    refine (balanced_ranged (hstore L₂)).bind fun _ L₃ h₃ hlt => ?_
    refine (defaults_ranged ps L₃).bind fun ls L₄ h₄ ⟨hls, hlen⟩ => pure_ranged fun L' h => ⟨?_, ?_⟩
    · have hl' : L'.bound l = some i :=
        (le_trans h₂ (le_trans h₃ (le_trans h₄ h))).bound l i hl
      refine .cons hl' hle ?_ (le_trans h₄.code h.code) (hls.le h h.code)
      exact lt_of_le_of_lt (le_trans hge h₂.code) hlt
    · simp [hlen]

theorem block_ranged (b : Block) (L : Progress) :
    Ranged size L (block b) fun L' _ => b.returns = true → L.code < L'.code := by
  match b with
  | ⟨_, ss, _, _, _, isAnalysed, _⟩ =>
    unfold block
    refine (stmts_ranged ss L).imp fun L' _ _ h hr => h ?_
    simp only [Block.returns, Bool.and_eq_true] at hr
    exact hr.2

theorem stmts_ranged (ss : List Stmt) (L : Progress) :
    Ranged size L (stmts ss) fun L' _ => Stmt.anyReturns ss = true → L.code < L'.code := by
  match ss with
  | [] => exact (pure_runs ()).unless rfl
  | s :: ss =>
    unfold stmts
    refine (setLine_runs _).bind fun _ L₁ h₁ _ => ?_
    refine (balanced_ranged (stmt_ranged s L₁)).bind fun _ L₂ h₂ hs => ?_
    refine (stmts_ranged ss L₂).imp fun L' _ h₃ hss hr => ?_
    have hcode := h₁.code
    have hcode₂ := h₂.code
    have hcode₃ := h₃.code
    simp only [Stmt.anyReturns, Bool.or_eq_true] at hr
    rcases hr with hr | hr
    · have := hs hr
      omega
    · have := hss hr
      omega

theorem stmt_ranged (x : Stmt) (L : Progress) :
    Ranged size L (stmt x) fun L' _ => x.returns = true → L.code < L'.code := by
  unfold stmt
  match x with
  | .expr x =>
    have hplain : Runs size L (do Gen.release (← expr x)) :=
      (expr_locates x L).bind fun a _ _ _ => release_runs a
    cases x with
    | call fn args _ facts _ =>
      exact (call_runs within_nil (exprs_locate args) fn facts args (receiver_locates fn)).unless rfl
    | superCall _ _ args _ facts _ =>
      exact (callSuper_runs within_nil (exprs_locate args) facts).unless rfl
    | _ => exact hplain.unless rfl
  | .var ⟨_, id, _, _, first, _, _, _, _, _, _, _, _⟩ =>
    refine Ranged.unless (R := fun _ _ => True) ?_ rfl
    refine (note_runs _).bind fun n L₁ _ _ => ?_
    refine (addLocal_locates id _).bind fun dst L₂ _ hd => ?_
    cases first with
    | none => exact initVariable_runs hd n (by simp)
    | some x => exact initVariable_runs hd n (by simpa using expr_locates x)
  | .const ⟨pos, _, _, _, init, _⟩ =>
    exact (Ranged.ite (pure_runs ()) report_ranged).unless rfl
  | .assign _ lhs rhs op converts =>
    cases lhs with
    | ident id => exact (assignName_runs id (expr_locates rhs)).unless rfl
    | dot x id i =>
      refine Ranged.unless (R := fun _ _ => True) ?_ rfl
      refine (route_ranged (expr_locates x) x L).bind fun r L₁ _ hr => ?_
      refine (name_gen_ranged _).bind fun n L₂ h₂ hn => ?_
      exact assignPart_runs (hr.le h₂) (.named n) hn (expr_locates rhs)
    | index x y _ i =>
      refine Ranged.unless (R := fun _ _ => True) ?_ rfl
      refine (route_ranged (expr_locates x) x L).bind fun r L₁ _ hr => ?_
      refine (expr_locates y L₁).bind fun k L₂ h₂ hk => ?_
      exact assignPart_runs (hr.le h₂) (.keyed k) hk (expr_locates rhs)
    | _ => exact (placeText_runs _).bind fun _ _ _ _ => contradiction_ranged
  | .cond _ c yes none =>
    exact (choose_emits (expr_locates c) (fun L => (block_ranged yes L).runs) (by simp)).when
  | .cond _ c yes (some no) =>
    exact (choose_emits (expr_locates c) (fun L => (block_ranged yes L).runs)
      (by simpa using fun L => (block_ranged no L).runs)).when
  | .while _ c body =>
    exact (repeatWhile_runs (expr_locates c) fun L => (block_ranged body L).runs).unless rfl
  | .loop _ id _ x body =>
    exact (forEach_runs id _ (expr_locates x) fun L => (block_ranged body L).runs).unless rfl
  | .match _ x bs =>
    exact (matching_emits _ (expr_locates x) fun L value done hv => branches_runs bs value done L hv).when
  | .jump pos j => exact (jump_runs pos j).unless rfl
  | .return _ none _ => exact returnNil_emits.when
  | .return _ (some x) isVoid =>
    have hplain : Emits size L (returnValue (expr x)) := returnValue_emits (expr_locates x)
    cases x with
    | call fn args _ facts _ =>
      cases isVoid with
      | false => exact hplain.when
      | true =>
        refine (call_runs within_nil (exprs_locate args) fn facts args (receiver_locates fn)).bind
          fun _ L₁ h₁ _ => ?_
        exact returnNil_emits.imp fun _ _ _ hlt _ => lt_of_le_of_lt h₁.code hlt
    | superCall _ _ args _ facts _ =>
      cases isVoid with
      | false => exact hplain.when
      | true =>
        refine (callSuper_runs within_nil (exprs_locate args) facts).bind fun _ L₁ h₁ _ => ?_
        exact returnNil_emits.imp fun _ _ _ hlt _ => lt_of_le_of_lt h₁.code hlt
    | _ => exact hplain.when
  | .assert _ c none _ =>
    exact (assertion_runs (expr_locates c) fun _ => pure_locates fun _ => within_nil).unless rfl
  | .assert _ c (some m) _ => exact (assertion_runs (expr_locates c) (expr_locates m)).unless rfl

theorem branches_runs (bs : List Branch) (value : Address) (done : Nat) (L : Progress)
    (hv : value.Within L.toScope) : Runs size L (branches value done bs) := by
  match bs with
  | [] => exact pure_runs _
  | ⟨ps, body, _⟩ :: bs =>
    unfold branches
    have hcond : ∀ L', L ≤ L' → Locates size L' (anyPattern (patterns value ps)) := fun L' h =>
      anyPattern_locates fun p hp L'' h' => patterns_locate ps value L'' (hv.le (le_trans h h')) p hp
    refine (matchBranch_runs done hcond fun L => (block_ranged body L).runs).bind fun _ L₁ h₁ _ => ?_
    exact branches_runs bs value done L₁ (hv.le h₁)

theorem patterns_locate (ps : List Pattern) (value : Address) (L : Progress)
    (hv : value.Within L.toScope) : ∀ x ∈ patterns value ps, Locates size L x := by
  match ps with
  | [] => simp [patterns]
  | p :: ps =>
    unfold patterns
    intro x hx
    rcases List.mem_cons.mp hx with rfl | hx
    · exact pattern_examines p L value hv
    · exact patterns_locate ps value L hv x hx

theorem pattern_examines (p : Pattern) : Examines size fun value => pattern value p := by
  unfold pattern
  match p with
  | .literal l => exact equalPattern_examines _ fun _ => literal_locates l
  | .expr x => exact equalPattern_examines x (expr_locates x)
  | .bind _ id => exact bindPattern_examines id
  | .wildcard _ => exact fun _ _ _ => constant_locates _
  | .rest _ => exact fun _ _ _ => constant_locates _
  | .array _ ps _ =>
    exact containerPattern_examines _ _ _ fun L _ value _ hv => elementPatterns_runs 0 ps value L hv
  | .dict _ es isOpen _ =>
    exact containerPattern_examines _ _ _ fun L test value ht hv => entryPatterns_runs es test value L ht hv

theorem elementPatterns_runs (i : Nat) (ps : List Pattern) (value : Address) (L : Progress)
    (hv : value.Within L.toScope) : Runs size L (elementPatterns value i ps) := by
  match ps with
  | [] => exact pure_runs _
  | p :: ps =>
    have helement : Runs size L (do
        elementPattern value (Gen.constant (.int (Int64.ofNat i))) fun a => pattern a p
        elementPatterns value (i + 1) ps) := by
      refine (elementPattern_runs hv (fun _ _ => constant_locates _) (pattern_examines p)).bind
        fun _ L₁ h₁ _ => ?_
      exact elementPatterns_runs (i + 1) ps value L₁ (hv.le h₁)
    unfold elementPatterns
    split
    · exact pure_runs _
    · exact pure_runs _
    · rename_i heq
      cases heq
      exact helement

theorem entryPatterns_runs (es : List PatternEntry) (test value : Address) (L : Progress)
    (ht : test.Within L.toScope) (hv : value.Within L.toScope) :
    Runs size L (entryPatterns test value es) := by
  match es with
  | [] => exact pure_runs _
  | ⟨k, v⟩ :: es =>
    unfold entryPatterns
    have hnext : ∀ L₁, L ≤ L₁ → Runs size L₁ (entryPatterns test value es) := fun L₁ h₁ =>
      entryPatterns_runs es test value L₁ (ht.le h₁) (hv.le h₁)
    cases v with
    | none => exact (entryPattern_runs ht hv (expr_locates k) (by simp)).bind fun _ L₁ h₁ _ => hnext L₁ h₁
    | some p =>
      refine (entryPattern_runs ht hv (expr_locates k) fun q hq => ?_).bind fun _ L₁ h₁ _ => hnext L₁ h₁
      cases hq
      exact pattern_examines p

end

end Lower

end GameScript
