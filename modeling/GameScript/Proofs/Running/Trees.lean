import GameScript.Proofs.Running.Matches

/-!
# Code of plain trees

By recursion on the tree: the code of a plain expression computes its value (`Lower.expr_computes`), and
the code of a plain statement does what the statement does (`Lower.stmt_performs`). The constants in the
code have to be told from those of the program, and the names that the tree declares are at different
places.
-/

namespace GameScript

/-! ### Constant expressions -/

theorem BinaryOp.operator_logical {op : BinaryOp} (h : op.isLogical = true) (a b : Value) :
    Value.binary op.operator a b = .ok (.bool (if a.truth = op.isAnd then b.truth else a.truth)) := by
  cases op <;> first | (cases h; done) | skip
  all_goals cases ha : a.truth <;> cases hb : b.truth <;>
    simp [BinaryOp.operator, Value.binary, BinaryOp.isAnd, BinaryOp.level, ha, hb]

namespace Expr

section Evaluation

variable {ρ : Env} {x y z : Expr} {op : BinaryOp} {i : Info}

theorem eval_logical (h : op.isLogical = true) : (binary x op y i).eval ρ = x.eval ρ >>= fun a =>
    if a.truth = op.isAnd then y.eval ρ >>= fun b => .ok (.bool b.truth) else .ok (.bool a.truth) := by
  show (x.eval ρ >>= fun a => if op.isLogical then _ else _) = _
  rw [h]
  rfl

theorem eval_binary (h : op.isLogical = false) : (binary x op y i).eval ρ = x.eval ρ >>= fun a =>
    y.eval ρ >>= fun b => Value.binary op.operator a b >>= fun r =>
      if op = .notWithin then Value.unary .not r else .ok r := by
  show (x.eval ρ >>= fun a => if op.isLogical then _ else _) = _
  rw [h]
  rfl

theorem eval_cond : (cond x y z i).eval ρ = y.eval ρ >>= fun c =>
    if c.truth then x.eval ρ else z.eval ρ := rfl

/-- The value that the analysis has found for a plain expression is its value. -/
theorem eval_of_value (ρ : Env) {v : Value} : ∀ {e : Expr}, e.Plain → e.value? = some v →
    e.eval ρ = .ok v
  | .literal l, hp, hv => by
    obtain rfl := hp.1.folds v hv
    rfl
  | .ident id, _, hv => by
    have hv : id.info.value = some v := hv
    simp only [eval, hv]
  | .unary _ op x i, hp, hv => by
    obtain ⟨a, ha, hu⟩ := hp.2.folds v hv
    simp only [eval, eval_of_value ρ hp.1 ha]
    exact hu
  | .binary x op y i, hp, hv => by
    obtain ⟨a, b, r, ha, hb, hr, rfl⟩ := hp.2.2.folds v hv
    have hx := eval_of_value ρ hp.1 ha
    have hy := eval_of_value ρ hp.2.1 hb
    cases hl : op.isLogical with
    | true =>
      have hne : op ≠ .notWithin := by
        rintro rfl
        cases hl
      rw [BinaryOp.operator_logical hl] at hr
      obtain rfl := Except.ok.inj hr
      rw [eval_logical hl, hx, hy, if_neg hne]
      show (if a.truth = op.isAnd then _ else _) = _
      split <;> rfl
    | false =>
      rw [eval_binary hl, hx, hy]
      show (Value.binary op.operator a b >>= _) = _
      rw [hr]
      show (if op = .notWithin then _ else _) = _
      split <;> rfl
  | .cond yes c no i, hp, hv => by
    obtain ⟨a, b, d, hd, ha, hb, rfl⟩ := hp.2.2.2.folds v hv
    rw [eval_cond, eval_of_value ρ hp.2.1 hd, eval_of_value ρ hp.1 ha, eval_of_value ρ hp.2.2.1 hb]
    show (if d.truth then _ else _) = _
    split <;> rfl
  | .self .., _, hv | .list .., _, hv | .dict .., _, hv | .dot .., _, hv | .index .., _, hv
  | .call .., _, hv | .superCall .., _, hv | .typeTest .., _, hv | .cast .., _, hv | .await .., _, hv
  | .preload .., _, hv | .lambda .., _, hv => by
    simp only [eval, hv]
    rfl

end Evaluation

variable {e : Expr} {v : Value}

theorem Plain.isMeta (h : e.Plain) : e.info.type.isMeta = false := by
  cases e with
  | unary p op x i => exact h.2.isValue
  | binary x op y i => exact h.2.2.isValue
  | cond yes c no i => exact h.2.2.2.isValue
  | _ => exact h.1.isValue

theorem Plain.isContainer (h : e.Plain) : e.isContainer = false := by
  cases e with
  | list p xs c i | dict p es l c i => exact h.2.2
  | _ => rfl

theorem mem_constants (h : e.value? = some v) : v ∈ e.constants := by
  cases e with
  | unary p op x i | binary x op y i | cond yes c no i =>
    have h : i.value = some v := h
    simp [constants, h]
  | _ => simp [constants, h]

end Expr

namespace Lower

variable {cs : List Value} {ctx : LowerContext} {s : Lowering} {e : Expr} {v : Value}

/-! ### Expressions -/

/-- A constant that denotes a value needs no code. -/
theorem direct?_constant (hm : e.info.type.isMeta = false) (hc : e.isContainer = false)
    (hv : e.value? = some v) (ht : Pool.Told cs v) (hs : s.Ready) :
    Ends (direct? e) ctx s fun r s' => ∃ a, r = some a ∧ Computed cs s a s' fun _ => .ok v := by
  have hv : e.info.value = some v := hv
  unfold direct? Ends
  dsimp only
  split
  · simp only [after_bind, after_placeText, after_contradiction]
  · simp only [after_bind, after_read, StaticType.denotes, StaticType.isScriptValue, hm, hc, hv,
      Bool.false_and, Bool.not_false, Bool.and_self, if_true, if_false, Bool.false_eq_true]
    exact (constant_computes ht s hs).post fun a s' h => ⟨a, rfl, h⟩

/-- An expression that is no constant and denotes a value needs code. -/
theorem direct?_none (hm : e.info.type.isMeta = false) (hv : e.value? = none) :
    Ends (direct? e) ctx s fun r s' => r = none ∧ s' = s := by
  have hv : e.info.value = none := hv
  unfold direct? Ends
  dsimp only
  split
  · simp only [after_bind, after_placeText, after_contradiction]
  · simp only [after_bind, after_read, StaticType.denotes, hm, hv, Bool.false_and, if_false,
      Bool.false_eq_true, after_pure, and_self]

/-- The code of an expression whose value the analysis has found. -/
theorem expr_constant (hp : e.Plain) (ht : ∀ v ∈ e.constants, Pool.Told cs v) (hv : e.value? = some v) :
    Computes cs ctx (expr e) fun ρ => e.eval ρ := by
  intro s hs
  unfold expr
  refine (direct?_constant hp.isMeta hp.isContainer hv (ht v (Expr.mem_constants hv)) hs).bind
    fun r s₁ hr => ?_
  obtain ⟨a, rfl, h⟩ := hr
  simp only [Expr.eval_of_value _ hp hv]
  exact h

theorem expr_computes : ∀ {e : Expr}, e.Plain → (∀ v ∈ e.constants, Pool.Told cs v) →
    Computes cs ctx (expr e) fun ρ => e.eval ρ := by
  intro e hp ht
  cases hv : e.value? with
  | some v => exact expr_constant hp ht hv
  | none =>
    intro s hs
    unfold expr
    refine (direct?_none hp.isMeta hv).bind fun r s₁ hr => ?_
    obtain ⟨rfl, rfl⟩ := hr
    cases e with
    | literal l =>
      have := hp.2
      rw [show l.info.value = none from hv] at this
      cases this
    | ident id =>
      obtain ⟨hvar, r, hr⟩ := hp.2 hv
      have hv : id.info.value = none := hv
      simp only [Expr.eval, hv, hr]
      exact name_computes hvar hr _ hs
    | unary _ op x i =>
      have hv : i.value = none := hv
      simp only [Expr.constants, hv] at ht
      exact unary_computes i.type op.operator (expr_computes hp.1 ht) _ hs
    | binary x op y i =>
      have hv : i.value = none := hv
      simp only [Expr.constants, hv, List.mem_append] at ht
      have hx := expr_computes hp.1 fun v h => ht v (.inl h)
      have hy := expr_computes hp.2.1 fun v h => ht v (.inr h)
      dsimp only
      cases hl : op.isLogical with
      | true =>
        simp only [Expr.eval_logical hl, if_true]
        exact logical_computes op.isAnd hx hy _ hs
      | false =>
        simp only [Expr.eval_binary hl, if_false, Bool.false_eq_true]
        exact binary_computes i.type op hx hy _ hs
    | cond yes c no i =>
      have hv : i.value = none := hv
      simp only [Expr.constants, hv, List.mem_append] at ht
      have hy := expr_computes hp.1 fun v h => ht v (.inl (.inl h))
      have hc := expr_computes hp.2.1 fun v h => ht v (.inl (.inr h))
      have hn := expr_computes hp.2.2.1 fun v h => ht v (.inr h)
      simp only [Expr.eval_cond]
      exact conditional_computes i.type hc hy hn _ hs
    | self | list | dict | dot | index | call | superCall | typeTest | cast | await | preload | lambda =>
      have := hp.2.1
      rw [hv] at this
      cases this

/-! ### Patterns -/

theorem literal_computes {l : Literal} (hp : (Expr.literal l).Plain)
    (ht : ∀ v ∈ (Expr.literal l).constants, Pool.Told cs v) (hv : (Expr.literal l).value? = some v) :
    Computes cs ctx (literal l) fun _ => .ok v := by
  intro s hs
  unfold literal
  refine (direct?_constant hp.isMeta rfl hv (ht v (Expr.mem_constants hv)) hs).bind
    fun r s₁ ⟨a, hr, h⟩ => ?_
  subst hr
  exact h

theorem pattern_judges {p : Pattern} (hp : p.Plain) (ht : ∀ v ∈ p.constants, Pool.Told cs v) (i : Nat)
    (t : StaticType) : Judges cs ctx i (pattern ⟨.temporary, i, t⟩ p) p.declared
      fun v ρ => p.test v ρ := by
  unfold pattern
  cases p with
  | literal l =>
    obtain ⟨v, hv⟩ := Option.isSome_iff_exists.mp hp.2
    have hl : Computes cs ctx (literal l) fun _ => .ok v := literal_computes hp ht hv
    obtain rfl := hp.1.folds v hv
    exact equalPattern_judges t hl hv
  | expr x =>
    obtain ⟨v, hv⟩ := Option.isSome_iff_exists.mp hp.2
    have hx : Computes cs ctx (expr x) fun ρ => x.eval ρ := expr_computes hp.1 ht
    simp only [Pattern.test, Expr.eval_of_value _ hp.1 hv] at hx ⊢
    exact equalPattern_judges t hx hv
  | bind _ id => exact bindPattern_judges t id
  | wildcard _ => exact wildcard_judges
  | _ => exact hp.elim

theorem patterns_eq_map (value : Address) (ps : List Pattern) :
    patterns value ps = ps.map (pattern value) := by
  induction ps with
  | nil => rfl
  | cons p ps ih =>
    unfold patterns
    rw [ih]
    rfl

/-! ### Statements -/

theorem jump_performs (pos : Pos) {j : Jump} (hp : (Stmt.jump pos j).Plain (ctx.session.noteAt ctx.unit)) :
    Performs cs ctx (jump pos j) [] fun fuel ρ => (Stmt.jump pos j).eval fuel ρ := by
  rcases hp with rfl | rfl | rfl
  · exact fun s hs _ => performed_of_adds (.refl hs)
  · exact break_performs pos
  · exact continue_performs pos

theorem expression_performs {x : Expr} (hp : (Stmt.expr x).Plain (ctx.session.noteAt ctx.unit))
    (ht : ∀ v ∈ (Stmt.expr x).constants, Pool.Told cs v) :
    Performs cs ctx (stmt (.expr x)) [] fun fuel ρ => (Stmt.expr x).eval fuel ρ := by
  obtain ⟨hcall, hx⟩ := hp
  have h : Performs cs ctx (do Gen.release (← expr x)) [] fun fuel ρ => (Stmt.expr x).eval fuel ρ := by
    simp only [Stmt.eval]
    exact release_performs (expr_computes hx ht)
  cases x with
  | call | superCall => cases hcall
  | _ => exact h

theorem return_performs {pos : Pos} {x : Expr} {void : Bool}
    (hp : (Stmt.return pos (some x) void).Plain (ctx.session.noteAt ctx.unit))
    (ht : ∀ v ∈ (Stmt.return pos (some x) void).constants, Pool.Told cs v) :
    Performs cs ctx (stmt (.return pos (some x) void)) []
      fun fuel ρ => (Stmt.return pos (some x) void).eval fuel ρ := by
  obtain ⟨hcall, hx⟩ := hp
  have h : Performs cs ctx (returnValue (expr x)) [] fun fuel ρ =>
      (Stmt.return pos (some x) void).eval fuel ρ := by
    simp only [Stmt.eval]
    exact returnValue_performs (expr_computes hx ht)
  cases x with
  | call | superCall =>
    cases void with
    | true => cases hcall
    | false => exact h
  | _ => cases void <;> exact h

theorem constant_performs (d : ConstDecl) :
    Performs cs ctx (stmt (.const d)) [] fun fuel ρ => (Stmt.const d).eval fuel ρ := by
  obtain ⟨pos, _, _, _, init, _⟩ := d
  intro s hs _
  unfold stmt Ends
  split
  · exact performed_of_adds (.refl hs)
  · trivial

theorem variable_performs {d : VarDecl} (hp : (Stmt.var d).Plain (ctx.session.noteAt ctx.unit))
    (ht : ∀ v ∈ (Stmt.var d).constants, Pool.Told cs v) :
    Performs cs ctx (stmt (.var d)) (Stmt.var d).declared fun fuel ρ => (Stmt.var d).eval fuel ρ := by
  obtain ⟨_, id, _, _, first, _, _, _, _, _, _, _, _⟩ := d
  intro s hs hl
  unfold stmt Ends
  rw [after_bind, after_note]
  cases first with
  | some x => exact initVariable_performs hp.1 (expr_computes hp.2 ht) s hs hl
  | none => exact initDefault_performs hp s hs hl

theorem assign_performs {op : Option BinaryOp} {lhs rhs : Expr} {facts : Option Operator} {c : Bool}
    (hp : (Stmt.assign op lhs rhs facts c).Plain (ctx.session.noteAt ctx.unit))
    (ht : ∀ v ∈ (Stmt.assign op lhs rhs facts c).constants, Pool.Told cs v) :
    Performs cs ctx (stmt (.assign op lhs rhs facts c)) []
      fun fuel ρ => (Stmt.assign op lhs rhs facts c).eval fuel ρ := by
  cases lhs with
  | ident id =>
    obtain ⟨hvar, ⟨r, hr⟩, hu, hx, rfl⟩ := hp
    have hrhs : Computes cs ctx (expr rhs) fun ρ => rhs.eval ρ := expr_computes hx ht
    have hassign := assignName_performs (u := ⟨op.map BinaryOp.operator, id.info.type, expr rhs, c⟩) hvar
      hr hu hrhs
    intro s hs hl
    simp only [Stmt.eval, hr]
    cases op with
    | none => exact hassign s hs hl
    | some op => exact hassign s hs hl
  | _ => exact hp.elim

mutual

theorem stmt_performs {s : Stmt} (hp : s.Plain (ctx.session.noteAt ctx.unit))
    (ht : ∀ v ∈ s.constants, Pool.Told cs v) (hd : s.declared.Nodup) :
    Performs cs ctx (stmt s) s.declared fun fuel ρ => s.eval fuel ρ := by
  match s with
  | .expr x => exact expression_performs hp ht
  | .var d => exact variable_performs hp ht
  | .const d => exact constant_performs d
  | .assign op lhs rhs facts c => exact assign_performs hp ht
  | .cond _ c yes (some no) =>
    obtain ⟨hc, hy, hn⟩ := hp
    simp only [Stmt.constants, List.mem_append] at ht
    rw [Stmt.declared, List.nodup_append] at hd
    exact choose_performs (expr_computes hc fun v h => ht v (.inl (.inl h)))
      (block_performs hy (fun v h => ht v (.inl (.inr h))) hd.1)
      (block_performs hn (fun v h => ht v (.inr h)) hd.2.1) fun p hp hp' => hd.2.2 p hp' p hp rfl
  | .cond _ c yes none =>
    obtain ⟨hc, hy, -⟩ := hp
    simp only [Stmt.constants, List.mem_append] at ht
    rw [Stmt.declared, List.append_nil] at hd ⊢
    exact chooseOnly_performs (expr_computes hc fun v h => ht v (.inl (.inl h)))
      (block_performs hy (fun v h => ht v (.inl (.inr h))) hd)
  | .while _ c body =>
    obtain ⟨hc, hb⟩ := hp
    simp only [Stmt.constants, List.mem_append] at ht
    exact repeatWhile_performs (expr_computes hc fun v h => ht v (.inl h))
      (block_performs hb (fun v h => ht v (.inr h)) hd)
  | .match _ x bs =>
    obtain ⟨hx, hb⟩ := hp
    simp only [Stmt.constants, List.mem_append] at ht
    exact matching_performs (expr_computes hx fun v h => ht v (.inl h)) fun i done =>
      branches_try hb (fun v h => ht v (.inr h)) hd i x.type done
  | .jump pos j => exact jump_performs pos hp
  | .return _ none _ => exact returnNil_performs
  | .return _ (some x) void => exact return_performs hp ht
  | .loop .. | .assert .. => exact hp.elim

theorem block_performs {b : Block} (hp : b.Plain (ctx.session.noteAt ctx.unit))
    (ht : ∀ v ∈ b.constants, Pool.Told cs v) (hd : b.declared.Nodup) :
    Performs cs ctx (block b) b.declared fun fuel ρ => b.eval fuel ρ := by
  match b, hp, ht, hd with
  | ⟨_, ss, _, _, _, _, _⟩, hp, ht, hd => exact stmts_perform hp ht hd

theorem stmts_perform {ss : List Stmt} (hp : Stmt.AllPlain (ctx.session.noteAt ctx.unit) ss)
    (ht : ∀ v ∈ Stmt.allConstants ss, Pool.Told cs v) (hd : (Stmt.allDeclared ss).Nodup) :
    Performs cs ctx (stmts ss) (Stmt.allDeclared ss) fun fuel ρ => Stmt.evalAll fuel ρ ss := by
  match ss, hp, ht, hd with
  | [], _, _, _ => exact pure_performs
  | s :: ss, ⟨hline, hs, hss⟩, ht, hd =>
    simp only [Stmt.allConstants, List.mem_append] at ht
    rw [Stmt.allDeclared, List.nodup_append] at hd
    have hfirst := balanced_performs (stmt_performs hs (fun v h => ht v (.inl h)) hd.1)
    have hrest := stmts_perform hss (fun v h => ht v (.inr h)) hd.2.1
    exact (setLine_performs hline).andThen
      (hfirst.andThen hrest fun p hp hp' => hd.2.2 p hp' p hp rfl) (by simp)

theorem branches_try {bs : List Branch} (hp : Branch.AllPlain (ctx.session.noteAt ctx.unit) bs)
    (ht : ∀ v ∈ Branch.allConstants bs, Pool.Told cs v) (hd : (Branch.allDeclared bs).Nodup) (i : Nat)
    (t : StaticType) (done : Nat) :
    Tries cs ctx i done (branches ⟨.temporary, i, t⟩ done bs) (Branch.allDeclared bs)
      fun fuel v ρ => Branch.evalFirst fuel v ρ bs := by
  match bs, hp, ht, hd with
  | [], _, _, _ => exact noBranches_tries
  | ⟨ps, body, _⟩ :: bs, ⟨hps, hb, hbs⟩, ht, hd =>
    simp only [Branch.allConstants, List.mem_append, List.mem_flatMap] at ht
    rw [Branch.allDeclared, List.nodup_append, List.nodup_append] at hd
    obtain ⟨⟨hd₁, hd₂, hd₁₂⟩, hd₃, hd₁₃⟩ := hd
    have hcode : ∀ p ∈ ps, Judges cs ctx i (pattern ⟨.temporary, i, t⟩ p) p.declared
        fun v ρ => p.test v ρ := fun p hp =>
      pattern_judges (hps p hp) (fun v h => ht v (.inl (.inl ⟨p, hp, h⟩))) i t
    have hany := anyPattern_judges ps hcode hd₁
    rw [← patterns_eq_map] at hany
    exact matchBranch_tries hany (block_performs hb (fun v h => ht v (.inl (.inr h))) hd₂)
      (branches_try hbs (fun v h => ht v (.inr h)) hd₃ i t done)
      (fun p hp hp' => hd₁₂ p hp' p hp rfl) fun p hp hp' => hd₁₃ p hp' p hp rfl

end

end Lower

end GameScript
