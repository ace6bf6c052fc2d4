import GameScript.Proofs.Syntax.Scopes

/-!
# The parser scopes names

Every parser binds the names that it passes where they stand: a block is opened before what belongs to it and closed
behind it, and a name is declared when its declaration is complete.

* `Subparsers.Scope` — the parsers of the parts of a construct do so;
* `File.parse_scoped` — **the names of a parsed file are bound by lexical scoping**.
-/

-- The parsers are long sequences of steps.
set_option synthInstance.maxSize 20000

namespace GameScript

namespace Parse

open OpenBlock

variable {α β : Type} {Γ : List OpenBlock} {Q : α → List OpenBlock → Prop}

/-! ### Steps -/

/-- A step that leaves the blocks as they are, with a result of `P`. -/
theorem scopes_step {x : Parser β} {P : β → Prop} {f : β → Parser α} (hx : Scopes x Γ fun b Γ' => P b ∧ Γ' = Γ)
    (h : ∀ b, P b → Scopes (f b) Γ Q) : Scopes (x >>= f) Γ Q :=
  scopes_bind (hx.mono fun b _ ⟨hb, hΓ⟩ => hΓ ▸ h b hb)

/-- A parser of expressions that binds the names in them. -/
def Binds (x : Parser Expr) : Prop := ∀ Γ, Scopes x Γ fun e Γ' => e.Scoped Γ ∧ Γ' = Γ

theorem forall_mem_some {P : α → Prop} {a : α} (h : P a) : ∀ b ∈ some a, P b := by
  rintro _ ⟨⟩
  exact h

theorem commaList_scopes {close : TokenKind} {item : Parser α} {P : α → Prop}
    (h : Scopes item Γ fun a Γ' => P a ∧ Γ' = Γ) (n : Nat) :
    Scopes (commaList close item n) Γ fun as Γ' => (∀ a ∈ as, P a) ∧ Γ' = Γ := by
  induction n with
  | zero => exact scopes_fail _ _
  | succ n ih =>
    unfold commaList
    refine scopes_stay fun b => ?_
    split
    · exact scopes_pure ⟨nofun, rfl⟩
    refine scopes_step h fun a ha => scopes_stay fun b => ?_
    split
    · exact scopes_step ih fun as has => scopes_pure ⟨List.forall_mem_cons.mpr ⟨ha, has⟩, rfl⟩
    · exact scopes_pure ⟨List.forall_mem_singleton.mpr ha, rfl⟩

/-- The parsers of the parts of a construct **bind names** by lexical scoping. -/
class Subparsers.Scope (sub : Subparsers) : Prop where
  expr : Binds sub.expr
  ternary : Binds sub.ternary
  level : ∀ l, Binds (sub.level l)
  sign : Binds sub.sign
  powerOperand : Binds sub.powerOperand
  await : Binds sub.await
  typeSpec : Stays sub.typeSpec
  pattern : ∀ top Γ, Scopes (sub.pattern top) Γ fun p Γ' => p.Scoped Γ Γ'
  stmt : ∀ Γ, Scopes sub.stmt Γ fun ss Γ' => Stmt.AllScoped Γ ss Γ'
  smallStmt : ∀ Γ, Scopes sub.smallStmt Γ fun s Γ' => s.Scoped Γ Γ'
  member : ∀ top c, c.Scoped → Scopes (sub.member top c) [] fun c' Γ' => c'.Scoped ∧ Γ' = []

attribute [instance] Subparsers.Scope.typeSpec

section Sub

variable (sub : Subparsers) [hsub : sub.Scope]

/-! ### Functions -/

instance typeSpec_stays : Stays (typeSpec sub) := by unfold typeSpec; infer_instance

omit hsub in
theorem some_scopes {x : Parser Expr} (hx : Binds x) :
    Scopes (some <$> x) Γ fun o Γ' => (∀ e ∈ o, e.Scoped Γ) ∧ Γ' = Γ :=
  scopes_map ((hx Γ).mono fun _ _ ⟨he, hΓ⟩ => ⟨forall_mem_some he, hΓ⟩)

theorem none_scopes {P : β → Prop} : Scopes (pure none) Γ fun o Γ' => (∀ b ∈ o, P b) ∧ Γ' = Γ :=
  scopes_pure ⟨nofun, rfl⟩

theorem param_scopes : Scopes (param sub) Γ fun p Γ' => (∀ x ∈ p.default, x.Scoped Γ) ∧ Γ' = Γ := by
  unfold param
  refine scopes_stay fun name => scopes_stay fun k => ?_
  split
  · exact scopes_stay fun _ => scopes_step (hsub.expr Γ) fun x hx => scopes_pure ⟨forall_mem_some hx, rfl⟩
  extract_lets rest
  have hrest : ∀ spec, Scopes (rest spec) Γ fun p Γ' => (∀ x ∈ p.default, x.Scoped Γ) ∧ Γ' = Γ := by
    intro spec
    dsimp only [rest]
    refine scopes_stay fun b => ?_
    split
    · exact scopes_step (some_scopes hsub.expr) fun o ho => scopes_pure ⟨ho, rfl⟩
    · exact scopes_step none_scopes fun o ho => scopes_pure ⟨ho, rfl⟩
  refine scopes_stay fun b => ?_
  split
  · exact scopes_stay fun spec => hrest spec
  · exact scopes_stay fun spec => hrest spec

/-- The parameters of a function. -/
theorem params_scopes (before : List Param) (n : Nat) : Scopes (params sub true before n) Γ fun ps Γ' =>
    ∃ qs, ps = before ++ qs ∧ Param.Scoped Γ qs Γ' := by
  induction n generalizing before Γ with
  | zero => exact scopes_fail _ _
  | succ n ih =>
    unfold params
    refine scopes_stay fun b => ?_
    split
    · exact scopes_pure ⟨[], (List.append_nil _).symm, .nil⟩
    refine scopes_step (param_scopes sub) fun p hp => ?_
    extract_lets rest undeclared declared
    have hrest : Scopes (declared ()) Γ fun ps Γ' => ∃ qs, ps = before ++ qs ∧ Param.Scoped Γ qs Γ' := by
      dsimp only [declared, rest]
      rw [if_pos rfl]
      refine scopes_bind ((declare_scopes p.name .parameter p.name.pos).mono fun id Γ₁ ⟨⟨hid, hpos⟩, hΓ₁⟩ => ?_)
      rw [← hpos] at hid hΓ₁
      refine scopes_stay fun b => ?_
      split
      · refine (ih _).mono fun ps Γ₂ ⟨qs, hps, hqs⟩ => ?_
        rw [List.append_assoc] at hps
        exact ⟨_, hps, .cons hp hid (hΓ₁ ▸ hqs)⟩
      · exact scopes_pure ⟨[_], rfl, .cons hp hid (hΓ₁ ▸ .nil)⟩
    split
    · exact hrest
    · split
      · exact scopes_fail_bind _ _
      · exact hrest

/-- The parameters of a signal. -/
theorem signalParams_scopes (before : List Param) (hbefore : ∀ p ∈ before, p.default = none) (n : Nat) :
    Scopes (params sub false before n) Γ fun ps Γ' => (∀ p ∈ ps, p.default = none) ∧ Γ' = Γ := by
  induction n generalizing before with
  | zero => exact scopes_fail _ _
  | succ n ih =>
    unfold params
    refine scopes_stay fun b => ?_
    split
    · exact scopes_pure ⟨hbefore, rfl⟩
    refine scopes_step (param_scopes sub) fun p _ => ?_
    extract_lets rest undeclared declared
    cases hdefault : p.default with
    | some d => exact scopes_fail_bind _ _
    | none =>
      have hrest : Scopes (declared ()) Γ fun ps Γ' => (∀ p ∈ ps, p.default = none) ∧ Γ' = Γ := by
        have hps : ∀ q ∈ before ++ [⟨p.name, p.spec, p.infer, p.default⟩], q.default = none := by
          intro q hq
          rcases List.mem_append.mp hq with hq | hq
          · exact hbefore q hq
          · rw [List.mem_singleton.mp hq]
            exact hdefault
        dsimp only [declared, undeclared, rest]
        rw [if_neg Bool.false_ne_true]
        split
        · exact scopes_fail_bind _ _
        refine scopes_bind (scopes_pure (scopes_stay fun b => ?_))
        split
        · exact ih _ hps
        · exact scopes_pure ⟨hps, rfl⟩
      dsimp only
      split
      · exact scopes_fail_bind _ _
      · exact hrest

omit hsub in
theorem allScoped_append {Γ Γ₁ Γ₂ : List OpenBlock} {ss ss' : List Stmt} (h : Stmt.AllScoped Γ ss Γ₁)
    (h' : Stmt.AllScoped Γ₁ ss' Γ₂) : Stmt.AllScoped Γ (ss ++ ss') Γ₂ := by
  induction ss generalizing Γ with
  | nil =>
    cases h
    exact h'
  | cons s ss ih =>
    cases h with
    | cons hs h => exact .cons hs (ih h)

theorem lambdaStmts_scopes (n : Nat) : Scopes (lambdaStmts sub n) Γ fun ss Γ' => Stmt.AllScoped Γ ss Γ' := by
  induction n generalizing Γ with
  | zero => exact scopes_fail _ _
  | succ n ih =>
    unfold lambdaStmts
    refine scopes_bind ((hsub.smallStmt Γ).mono fun s Γ₁ hs => scopes_stay fun _ => scopes_stay fun _ => ?_)
    split
    · exact scopes_stay fun _ => scopes_bind (ih.mono fun ss Γ₂ hss => scopes_pure (.cons hs hss))
    · exact scopes_pure (.cons hs .nil)

theorem lineStmts_scopes (n : Nat) : Scopes (lineStmts sub n) Γ fun ss Γ' => Stmt.AllScoped Γ ss Γ' := by
  induction n generalizing Γ with
  | zero => exact scopes_fail _ _
  | succ n ih =>
    unfold lineStmts
    refine scopes_bind ((hsub.smallStmt Γ).mono fun s Γ₁ hs => scopes_stay fun _ => scopes_stay fun _ => ?_)
    split
    · refine scopes_stay fun _ => scopes_stay fun k => ?_
      split
      · exact scopes_pure (.cons hs .nil)
      · exact scopes_bind (ih.mono fun ss Γ₂ hss => scopes_pure (.cons hs hss))
    · exact scopes_pure (.cons hs .nil)

theorem simpleStmts_scopes : Scopes (simpleStmts sub) Γ fun ss Γ' => Stmt.AllScoped Γ ss Γ' := by
  unfold simpleStmts
  exact scopes_stay fun n => scopes_bind ((lineStmts_scopes sub n).mono fun ss Γ₁ hss =>
    scopes_stay fun _ => scopes_pure hss)

theorem suite_scopes : Scopes (suite sub) Γ fun ss Γ' => Stmt.AllScoped Γ ss Γ' := by
  have hall : ∀ n Γ, Scopes (untilOutdent sub.stmt n) Γ fun sss Γ' => Stmt.AllScoped Γ sss.flatten Γ' := by
    intro n
    induction n with
    | zero => exact fun Γ => scopes_fail _ _
    | succ n ih =>
      intro Γ
      unfold untilOutdent
      refine scopes_stay fun k => ?_
      split
      · exact scopes_pure .nil
      refine scopes_bind ((hsub.stmt Γ).mono fun ss Γ₁ hss => scopes_bind ((ih Γ₁).mono fun sss Γ₂ hsss => ?_))
      exact scopes_pure (allScoped_append hss hsss)
  unfold suite
  refine scopes_stay fun b => ?_
  split
  · refine scopes_stay fun _ => scopes_stay fun _ => scopes_stay fun n => ?_
    exact scopes_bind ((hall n Γ).mono fun sss Γ₁ hsss => scopes_stay fun _ => scopes_pure hsss)
  · exact simpleStmts_scopes sub

/-- **A function** opens a block for its parameters and its body. -/
theorem functionRest_scopes (pos : Pos) (name : Option Ident) (isStatic : Bool) (role : FuncRole) :
    Scopes (functionRest sub pos name isStatic role) Γ fun f Γ' => f.Scoped Γ ∧ Γ' = Γ := by
  unfold functionRest
  refine scopes_step (inScope_scopes (R := fun r ls => ∃ Γ₁, Param.Scoped (⟨pos, []⟩ :: Γ) r.1 Γ₁ ∧
    Stmt.AllScoped Γ₁ r.2.2.2 (⟨pos, ls⟩ :: Γ)) ?_) fun r ⟨Γ₁, hps, hss⟩ => scopes_pure ⟨.mk hps hss, rfl⟩
  refine scopes_stay fun _ => scopes_stay fun n => ?_
  refine scopes_bind ((params_scopes sub [] n).mono fun ps Γ₁ ⟨qs, hqs, hps⟩ => ?_)
  obtain rfl : ps = qs := hqs
  have hbody : ∀ ss Γ₂, Stmt.AllScoped Γ₁ ss Γ₂ → ∃ ls, Γ₂ = ⟨pos, ls⟩ :: Γ ∧ ∃ Γ₁,
      Param.Scoped (⟨pos, []⟩ :: Γ) ps Γ₁ ∧ Stmt.AllScoped Γ₁ ss (⟨pos, ls⟩ :: Γ) := by
    intro ss Γ₂ hss
    obtain ⟨ls, rfl⟩ := (hps.keeps.trans hss.keeps) _ _ rfl
    exact ⟨ls, rfl, Γ₁, hps, hss⟩
  refine scopes_stay fun _ => scopes_stay fun b => ?_
  extract_lets rest
  have hrest : ∀ returns, Scopes (rest returns) Γ₁ fun r Γ' => ∃ ls, Γ' = ⟨pos, ls⟩ :: Γ ∧ ∃ Γ₁,
      Param.Scoped (⟨pos, []⟩ :: Γ) r.1 Γ₁ ∧ Stmt.AllScoped Γ₁ r.2.2.2 (⟨pos, ls⟩ :: Γ) := by
    intro returns
    refine scopes_stay fun _ => scopes_stay fun start => ?_
    split
    · refine scopes_stay fun b => ?_
      split
      · exact scopes_bind ((suite_scopes sub).mono fun ss Γ₂ hss => scopes_stay fun _ => scopes_pure (hbody ss Γ₂ hss))
      · exact scopes_stay fun n => scopes_bind ((lambdaStmts_scopes sub n).mono fun ss Γ₂ hss =>
          scopes_pure (hbody ss Γ₂ hss))
    · exact scopes_bind ((suite_scopes sub).mono fun ss Γ₂ hss => scopes_pure (hbody ss Γ₂ hss))
  split
  · exact scopes_stay fun returns => hrest returns
  · exact scopes_stay fun returns => hrest returns

/-! ### Primary expressions -/

theorem arguments_scopes : Scopes (arguments sub) Γ fun r Γ' => (∀ x ∈ r.1, x.Scoped Γ) ∧ Γ' = Γ := by
  unfold arguments
  exact scopes_stay fun _ => scopes_stay fun n => scopes_step (commaList_scopes (hsub.expr Γ) n) fun xs hxs =>
    scopes_stay fun _ => scopes_pure ⟨hxs, rfl⟩

theorem dictEntry_scopes (style : DictStyle) : Scopes (dictEntry sub style) Γ fun e Γ' =>
    (e.key.Scoped Γ ∧ e.value.Scoped Γ) ∧ Γ' = Γ := by
  unfold dictEntry
  extract_lets rest
  have hrest : ∀ key, key.Scoped Γ → Scopes (rest key) Γ fun e Γ' => (e.key.Scoped Γ ∧ e.value.Scoped Γ) ∧ Γ' = Γ :=
    fun key hkey => scopes_stay fun _ => scopes_step (hsub.expr Γ) fun x hx => scopes_pure ⟨⟨hkey, hx⟩, rfl⟩
  split
  · refine scopes_stay fun b => ?_
    split
    · exact scopes_stay fun _ => scopes_fail_bind _ _
    refine scopes_stay fun id => scopes_stay fun b => ?_
    split
    · exact scopes_stay fun _ => scopes_fail_bind _ _
    · exact scopes_bind (scopes_pure (hrest _ .literal))
  · refine scopes_step (hsub.expr Γ) fun x hx => scopes_stay fun b => ?_
    split
    · exact scopes_stay fun _ => scopes_fail_bind _ _
    · exact scopes_bind (scopes_pure (hrest x hx))

theorem dict_binds : Binds (dict sub) := by
  intro Γ
  unfold dict
  refine scopes_stay fun start => scopes_stay fun b => ?_
  extract_lets rest
  have hrest : ∀ style, Scopes (rest style) Γ fun e Γ' => e.Scoped Γ ∧ Γ' = Γ :=
    fun style => scopes_stay fun n => scopes_step (commaList_scopes (dictEntry_scopes sub style) n) fun es hes =>
      scopes_stay fun _ => scopes_pure ⟨.dict (fun e he => (hes e he).1) fun e he => (hes e he).2, rfl⟩
  split
  · refine scopes_stay fun k => ?_
    split <;> exact scopes_stay hrest
  · exact scopes_stay hrest

theorem primary_binds : Binds (primary sub) := by
  intro Γ
  unfold primary
  refine scopes_stay fun t => ?_
  split
  case h_1 => exact scopes_step identRef_scopes fun id hid => scopes_pure ⟨.ident hid, rfl⟩
  case h_10 => exact scopes_stay fun _ => scopes_pure ⟨.self, rfl⟩
  case h_11 =>
    refine scopes_stay fun start => scopes_stay fun b => ?_
    extract_lets rest
    have hrest : ∀ fn, Scopes (rest fn) Γ fun e Γ' => e.Scoped Γ ∧ Γ' = Γ := fun fn =>
      scopes_step (arguments_scopes sub) fun r hr => scopes_pure ⟨.superCall hr, rfl⟩
    split
    · exact scopes_stay hrest
    · refine scopes_stay fun b => ?_
      split
      · exact scopes_stay fun _ => scopes_fail_bind _ _
      · exact scopes_stay hrest
  case h_12 =>
    exact scopes_stay fun _ => scopes_step (hsub.expr Γ) fun x hx => scopes_stay fun _ => scopes_pure ⟨hx, rfl⟩
  case h_13 =>
    exact scopes_stay fun _ => scopes_stay fun n => scopes_step (commaList_scopes (hsub.expr Γ) n) fun xs hxs =>
      scopes_stay fun _ => scopes_pure ⟨.list hxs, rfl⟩
  case h_14 => exact dict_binds sub Γ
  case h_15 =>
    refine scopes_stay fun start => scopes_stay fun b => ?_
    extract_lets rest
    have hrest : ∀ name, Scopes (rest name) Γ fun e Γ' => e.Scoped Γ ∧ Γ' = Γ := fun name =>
      scopes_step (functionRest_scopes sub start name false .lambda) fun f hf => scopes_pure ⟨.lambda hf, rfl⟩
    split <;> exact scopes_stay hrest
  case h_16 =>
    refine scopes_stay fun start => scopes_stay fun _ => scopes_stay fun b => ?_
    split
    · exact scopes_stay fun _ => scopes_fail_bind _ _
    · exact scopes_stay fun _ => scopes_stay fun _ => scopes_pure ⟨.preload, rfl⟩
  case h_17 => exact scopes_fail _ _
  all_goals exact scopes_stay fun _ => scopes_pure ⟨.literal, rfl⟩

theorem suffixes_binds (n : Nat) {x : Expr} (hx : x.Scoped Γ) :
    Scopes (suffixes sub x n) Γ fun e Γ' => e.Scoped Γ ∧ Γ' = Γ := by
  induction n generalizing x with
  | zero => exact scopes_fail _ _
  | succ n ih =>
    unfold suffixes
    refine scopes_stay fun k => ?_
    split
    · exact scopes_stay fun _ => scopes_stay fun _ => ih (.dot hx)
    · exact scopes_stay fun _ => scopes_step (hsub.expr Γ) fun y hy => scopes_stay fun _ => ih (.index hx hy)
    · exact scopes_step (arguments_scopes sub) fun r hr => ih (.call hx hr)
    · exact scopes_pure ⟨hx, rfl⟩

/-! ### Operators -/

theorem await_binds : Binds (await sub) := by
  intro Γ
  unfold await
  refine scopes_stay fun b => ?_
  split
  · exact scopes_stay fun _ => scopes_step (hsub.await Γ) fun x hx => scopes_pure ⟨.await hx, rfl⟩
  · exact scopes_step (primary_binds sub Γ) fun x hx => scopes_stay fun n => suffixes_binds sub n hx

theorem typeTests_binds (n : Nat) {x : Expr} (hx : x.Scoped Γ) :
    Scopes (typeTests sub x n) Γ fun e Γ' => e.Scoped Γ ∧ Γ' = Γ := by
  induction n generalizing x with
  | zero => exact scopes_fail _ _
  | succ n ih =>
    unfold typeTests
    refine scopes_stay fun b => ?_
    split
    · exact scopes_stay fun _ => scopes_stay fun _ => ih (.typeTest hx)
    · exact scopes_pure ⟨hx, rfl⟩

theorem typeTest_binds : Binds (typeTest sub) := by
  intro Γ
  unfold typeTest
  exact scopes_step (await_binds sub Γ) fun x hx => scopes_stay fun n => typeTests_binds sub n hx

theorem powerOperand_binds : Binds (powerOperand sub) := by
  intro Γ
  unfold powerOperand
  refine scopes_stay fun k => ?_
  split
  · exact scopes_stay fun _ => scopes_step (hsub.powerOperand Γ) fun x hx => scopes_pure ⟨.unary hx, rfl⟩
  · exact typeTest_binds sub Γ

theorem powers_binds (n : Nat) {x : Expr} (hx : x.Scoped Γ) :
    Scopes (powers sub x n) Γ fun e Γ' => e.Scoped Γ ∧ Γ' = Γ := by
  induction n generalizing x with
  | zero => exact scopes_fail _ _
  | succ n ih =>
    unfold powers
    refine scopes_stay fun b => ?_
    split
    · exact scopes_step (powerOperand_binds sub Γ) fun y hy => ih (.binary hx hy)
    · exact scopes_pure ⟨hx, rfl⟩

theorem sign_binds : Binds (sign sub) := by
  intro Γ
  unfold sign
  refine scopes_stay fun k => ?_
  split
  · exact scopes_stay fun _ => scopes_step (hsub.sign Γ) fun x hx => scopes_pure ⟨.unary hx, rfl⟩
  · exact scopes_stay fun _ => scopes_step (hsub.level _ Γ) fun x hx => scopes_pure ⟨.unary hx, rfl⟩
  · exact scopes_step (typeTest_binds sub Γ) fun x hx => scopes_stay fun n => powers_binds sub n hx

theorem operators_binds (l n : Nat) {x : Expr} (hx : x.Scoped Γ) :
    Scopes (operators sub l x n) Γ fun e Γ' => e.Scoped Γ ∧ Γ' = Γ := by
  induction n generalizing x with
  | zero => exact scopes_fail _ _
  | succ n ih =>
    unfold operators
    refine scopes_stay fun _ => scopes_stay fun k => ?_
    split
    · split
      · exact scopes_pure ⟨hx, rfl⟩
      · exact scopes_stay fun _ => scopes_step (hsub.level _ Γ) fun y hy => ih (.binary hx hy)
    · exact scopes_pure ⟨hx, rfl⟩

theorem levels_binds (n : Nat) : Binds (levels sub n) := by
  induction n with
  | zero => exact sign_binds sub
  | succ n ih =>
    intro Γ
    have hoperators : ∀ l, Scopes (do operators sub l (← levels sub n) (← remaining)) Γ fun e Γ' =>
        e.Scoped Γ ∧ Γ' = Γ :=
      fun l => scopes_step (ih Γ) fun x hx => scopes_stay fun k => operators_binds sub l k hx
    unfold levels
    refine scopes_stay fun k => ?_
    split
    · split
      · exact scopes_stay fun _ => scopes_step (hsub.level _ Γ) fun x hx => scopes_pure ⟨.unary hx, rfl⟩
      · exact hoperators _
    · exact hoperators _

theorem level_binds (l : Nat) : Binds (level sub l) := levels_binds sub _

theorem ternary_binds : Binds (ternary sub) := by
  intro Γ
  unfold ternary
  refine scopes_step (level_binds sub 0 Γ) fun x hx => scopes_stay fun b => ?_
  split
  · refine scopes_step (level_binds sub 0 Γ) fun c hc => scopes_stay fun b => ?_
    split
    · exact scopes_stay fun _ => scopes_fail_bind _ _
    · exact scopes_stay fun _ => scopes_step (hsub.ternary Γ) fun y hy => scopes_pure ⟨.cond hx hc hy, rfl⟩
  · exact scopes_pure ⟨hx, rfl⟩

theorem casts_binds (n : Nat) {x : Expr} (hx : x.Scoped Γ) :
    Scopes (casts sub x n) Γ fun e Γ' => e.Scoped Γ ∧ Γ' = Γ := by
  induction n generalizing x with
  | zero => exact scopes_fail _ _
  | succ n ih =>
    unfold casts
    refine scopes_stay fun b => ?_
    split
    · exact scopes_stay fun _ => ih (.cast hx)
    · exact scopes_pure ⟨hx, rfl⟩

theorem expr_binds : Binds (expr sub) := by
  intro Γ
  unfold expr
  exact scopes_step (ternary_binds sub Γ) fun x hx => scopes_stay fun n => casts_binds sub n hx

/-! ### Simple statements -/

theorem marker_scopes : Scopes (marker sub) Γ fun _ Γ' => True ∧ Γ' = Γ := by
  unfold marker
  refine scopes_stay fun _ => scopes_stay fun _ => scopes_stay fun b => ?_
  split
  · exact scopes_stay fun n => scopes_step (commaList_scopes (hsub.expr Γ) n) fun _ _ => scopes_stay fun _ =>
      scopes_pure ⟨trivial, rfl⟩
  · exact scopes_pure ⟨trivial, rfl⟩

theorem stmtMarkers_scopes (m : Markers) (n : Nat) : Scopes (stmtMarkers sub m n) Γ fun _ Γ' => True ∧ Γ' = Γ := by
  induction n generalizing m with
  | zero => exact scopes_fail _ _
  | succ n ih =>
    unfold stmtMarkers
    refine scopes_stay fun b => ?_
    split
    · refine scopes_step (marker_scopes sub) fun r _ => ?_
      dsimp only
      split
      · exact scopes_fail_bind _ _
      · exact scopes_stay fun m' => scopes_stay fun _ => scopes_stay fun _ => ih m'
    · exact scopes_pure ⟨trivial, rfl⟩

/-- The declaration of a variable up to its accessors. -/
theorem varHead_scopes (isLocal : Bool) (start : Pos) (name : Ident) (spec : Option TypeSpec) :
    Scopes (varHead sub isLocal start name spec) Γ fun d Γ' =>
      ((∀ x ∈ d.init, x.Scoped Γ) ∧ d.pos = start ∧ d.setter = none ∧ d.getter = none) ∧ Γ' = Γ := by
  unfold varHead
  extract_lets make
  refine scopes_stay fun k => ?_
  split
  · exact scopes_stay fun _ => scopes_step (hsub.expr Γ) fun x hx =>
      scopes_pure ⟨⟨forall_mem_some hx, rfl, rfl, rfl⟩, rfl⟩
  · exact scopes_pure ⟨⟨nofun, rfl, rfl, rfl⟩, rfl⟩

/-- A variable is visible behind its initial value. -/
theorem localVar_scopes : Scopes (localVar sub) Γ fun d Γ' => Stmt.Scoped Γ (.var d) Γ' := by
  unfold localVar
  refine scopes_stay fun start => scopes_stay fun name => scopes_stay fun b => ?_
  extract_lets rest
  have hrest : ∀ spec, Scopes (rest spec) Γ fun d Γ' => Stmt.Scoped Γ (.var d) Γ' := by
    intro spec
    refine scopes_step (varHead_scopes sub true start name spec) fun d ⟨hinit, hpos, _⟩ => ?_
    refine scopes_bind ((declare_scopes name .localVariable start).mono fun id Γ₁ ⟨⟨hid, _⟩, hΓ₁⟩ => ?_)
    subst hpos hΓ₁
    exact scopes_pure (.var hinit hid)
  split <;> exact scopes_stay hrest

/-- A constant. One of a function is visible behind its value. -/
theorem constDecl_scopes (isLocal : Bool) : Scopes (constDecl sub isLocal) Γ fun d Γ' => d.init.Scoped Γ ∧
    if isLocal then d.name.Declared Γ .localConstant d.pos ∧
      Γ' = OpenBlock.declare (d.name.declaration Γ .localConstant d.pos) Γ
    else Γ' = Γ := by
  unfold constDecl
  refine scopes_stay fun start => scopes_stay fun name => scopes_stay fun k => ?_
  extract_lets rest
  have hrest : ∀ r, Scopes (rest r) Γ fun d Γ' => d.init.Scoped Γ ∧
      if isLocal then d.name.Declared Γ .localConstant d.pos ∧
        Γ' = OpenBlock.declare (d.name.declaration Γ .localConstant d.pos) Γ
      else Γ' = Γ := by
    intro r
    refine scopes_step (hsub.expr Γ) fun x hx => ?_
    cases isLocal with
    | true =>
      refine scopes_bind ((declare_scopes name .localConstant start).mono fun id Γ₁ ⟨⟨hid, _⟩, hΓ₁⟩ => ?_)
      exact scopes_pure ⟨hx, hid, hΓ₁⟩
    | false => exact scopes_bind (scopes_pure (scopes_pure ⟨hx, rfl⟩))
  split
  · exact scopes_stay fun _ => scopes_stay fun t => scopes_stay fun _ =>
      scopes_bind (scopes_pure (hrest (some t, false)))
  split
  · exact scopes_stay fun _ => scopes_bind (scopes_pure (hrest (none, true)))
  · exact scopes_stay fun _ => scopes_bind (scopes_pure (hrest (none, false)))

theorem exprStmt_scopes : Scopes (exprStmt sub) Γ fun s Γ' => s.Scoped Γ Γ' := by
  unfold exprStmt
  refine scopes_step (hsub.expr Γ) fun x hx => scopes_stay fun k => ?_
  extract_lets op rest
  have hrest : ∀ u, Scopes (rest u) Γ fun s Γ' => s.Scoped Γ Γ' := fun _ =>
    scopes_stay fun _ => scopes_step (hsub.expr Γ) fun y hy => scopes_pure (.assign hx hy)
  split
  · split
    · exact scopes_fail_bind _ _
    · exact hrest ()
  · exact scopes_pure (.expr hx)

theorem smallStmt_scopes : Scopes (smallStmt sub) Γ fun s Γ' => s.Scoped Γ Γ' := by
  unfold smallStmt
  refine scopes_stay fun t => ?_
  split
  · exact scopes_bind ((localVar_scopes sub).mono fun d Γ' hd => scopes_pure hd)
  · refine scopes_bind ((constDecl_scopes sub true).mono fun d Γ' hd => scopes_pure ?_)
    obtain ⟨hinit, hname, rfl⟩ := hd
    exact .const hinit hname
  · refine scopes_stay fun p => scopes_stay fun b => ?_
    split
    · exact scopes_pure (.return (by simp))
    · exact scopes_step (hsub.expr Γ) fun x hx => scopes_pure (.return (forall_mem_some hx))
  · refine scopes_stay fun cs => ?_
    split
    · exact scopes_fail_bind _ _
    · exact scopes_stay fun _ => scopes_pure .jump
  · refine scopes_stay fun cs => ?_
    split
    · exact scopes_fail _ _
    · exact scopes_stay fun _ => scopes_pure .jump
  · exact scopes_stay fun _ => scopes_pure .jump
  · exact scopes_stay fun _ => scopes_pure .jump
  · refine scopes_stay fun p => scopes_stay fun _ => scopes_step (hsub.expr Γ) fun c hc => scopes_stay fun b => ?_
    extract_lets rest
    have hrest : ∀ message : Option Expr, (∀ x ∈ message, x.Scoped Γ) →
        Scopes (rest message) Γ fun s Γ' => s.Scoped Γ Γ' :=
      fun _ hmessage => scopes_stay fun _ => scopes_pure (.assert hc hmessage)
    split
    · refine scopes_stay fun b => ?_
      split
      · exact scopes_bind (scopes_pure (hrest none (by simp)))
      · exact scopes_step (hsub.expr Γ) fun x hx => scopes_stay fun _ =>
          scopes_bind (scopes_pure (hrest (some x) (forall_mem_some hx)))
    · exact scopes_bind (scopes_pure (hrest none (by simp)))
  · exact exprStmt_scopes sub

/-! ### Patterns -/

omit hsub in
theorem patternOf_scoped {x : Expr} (hx : x.Scoped Γ) : (patternOf x).Scoped Γ Γ := by
  unfold patternOf
  split
  · split
    · exact .wildcard
    · exact .expr hx
  · exact .literal
  · split
    · exact .literal
    · exact .expr hx

theorem commaList_patterns (close : TokenKind) (n : Nat) :
    Scopes (commaList close (sub.pattern false) n) Γ fun ps Γ' => Pattern.AllScoped Γ ps Γ' := by
  induction n generalizing Γ with
  | zero => exact scopes_fail _ _
  | succ n ih =>
    unfold commaList
    refine scopes_stay fun b => ?_
    split
    · exact scopes_pure .nil
    refine scopes_bind ((hsub.pattern false Γ).mono fun p Γ₁ hp => scopes_stay fun b => ?_)
    split
    · exact scopes_bind (ih.mono fun ps Γ₂ hps => scopes_pure (.cons hp hps))
    · exact scopes_pure (.cons hp .nil)

omit hsub in
theorem entries_append {Γ Γ₁ Γ₂ : List OpenBlock} {es es' : List PatternEntry} (h : PatternEntry.AllScoped Γ es Γ₁)
    (h' : PatternEntry.AllScoped Γ₁ es' Γ₂) : PatternEntry.AllScoped Γ (es ++ es') Γ₂ := by
  induction es generalizing Γ with
  | nil =>
    cases h
    exact h'
  | cons e es ih =>
    cases h with
    | key hx hs => exact .key hx (ih hs)
    | entry hx hp hs => exact .entry hx hp (ih hs)

theorem patternEntries_scopes (isOpen : Bool) (n : Nat) :
    Scopes (patternEntries sub isOpen n) Γ fun r Γ' => PatternEntry.AllScoped Γ r.1 Γ' := by
  induction n generalizing Γ isOpen with
  | zero => exact scopes_fail _ _
  | succ n ih =>
    unfold patternEntries
    refine scopes_stay fun b => ?_
    split
    · exact scopes_pure .nil
    extract_lets rest next
    have hrest : ∀ r Γ₁, PatternEntry.AllScoped Γ r.1 Γ₁ →
        Scopes (rest r) Γ₁ fun r Γ' => PatternEntry.AllScoped Γ r.1 Γ' := by
      intro r Γ₁ hr
      refine scopes_stay fun b => ?_
      split
      · exact scopes_bind ((ih r.2).mono fun r' Γ₂ hr' => scopes_pure (entries_append hr hr'))
      · exact scopes_pure hr
    have hnext : ∀ u, Scopes (next u) Γ fun r Γ' => PatternEntry.AllScoped Γ r.1 Γ' := by
      intro u
      refine scopes_stay fun b => ?_
      split
      · exact scopes_bind (scopes_pure (hrest ([], true) Γ .nil))
      refine scopes_step (hsub.expr Γ) fun x hx => scopes_stay fun b => ?_
      split
      · exact scopes_bind (scopes_map ((hsub.pattern false Γ).mono fun p Γ₁ hp =>
          scopes_bind (scopes_pure (hrest ([⟨x, some p⟩], isOpen) Γ₁ (.entry hx hp .nil)))))
      · exact scopes_bind (scopes_pure (scopes_bind (scopes_pure (hrest ([⟨x, none⟩], isOpen) Γ (.key hx .nil)))))
    split
    · exact scopes_stay fun _ => scopes_fail_bind _ _
    · exact hnext ()

/-- The names that a pattern binds are visible behind it. -/
theorem pattern_scopes (top : Bool) : Scopes (pattern sub top) Γ fun p Γ' => p.Scoped Γ Γ' := by
  unfold pattern
  refine scopes_stay fun t => ?_
  split
  · refine scopes_stay fun p => scopes_stay fun name => ?_
    refine scopes_bind ((declare_scopes name .bind p).mono fun id Γ₁ hdeclared => scopes_pure ?_)
    obtain ⟨⟨hid, -⟩, rfl⟩ := hdeclared
    exact .bind hid
  · split
    · exact scopes_fail_bind _ _
    · exact scopes_stay fun _ => scopes_pure .rest
  · refine scopes_stay fun _ => scopes_stay fun n => scopes_bind ((commaList_patterns sub _ n).mono fun ps Γ' hps => ?_)
    refine scopes_stay fun _ => ?_
    split
    · exact scopes_fail _ _
    · exact scopes_pure (.array hps)
  · refine scopes_stay fun _ => scopes_stay fun n => ?_
    refine scopes_bind ((patternEntries_scopes sub false n).mono fun r Γ' hr => ?_)
    exact scopes_stay fun _ => scopes_pure (.dict hr)
  · exact scopes_step (hsub.expr Γ) fun x hx => scopes_pure (patternOf_scoped hx)

/-! ### Compound statements -/

omit hsub in
/-- A block of its own is opened for a parser. -/
theorem inBlock_scopes {x : Parser α} {c : Scope} {R : α → List OpenBlock → Prop} (hfunction : c.function = innermost Γ)
    (hlocals : c.locals = []) (h : Scopes x (inner Γ) fun a Γ' => R a Γ' ∧ Keeps (inner Γ) Γ') :
    Scopes (inScope c x) Γ fun r Γ' => R r.1 (inner Γ r.2) ∧ Γ' = Γ := by
  refine inScope_scopes (R := fun a ls => R a (inner Γ ls)) ?_
  rw [hfunction, hlocals]
  refine h.mono fun a Γ' ⟨ha, hkeeps⟩ => ?_
  obtain ⟨ls, rfl⟩ := hkeeps _ _ rfl
  exact ⟨ls, rfl, ha⟩

theorem block_scopes (isLoop : Bool) : Scopes (block sub isLoop) Γ fun b Γ' => b.Scoped Γ ∧ Γ' = Γ := by
  unfold block
  refine scopes_stay fun start => scopes_step function_scopes fun f hf => ?_
  refine scopes_step (inBlock_scopes (R := Stmt.AllScoped (inner Γ)) hf rfl ?_) fun r hr => scopes_pure ⟨.mk hr, rfl⟩
  exact (suite_scopes sub).mono fun ss Γ' hss => ⟨hss, hss.keeps⟩

theorem elseBlock_scopes (n : Nat) : Scopes (elseBlock sub n) Γ fun o Γ' => (∀ b ∈ o, b.Scoped Γ) ∧ Γ' = Γ := by
  induction n with
  | zero => exact scopes_fail _ _
  | succ n ih =>
    unfold elseBlock
    refine scopes_stay fun b => ?_
    split
    · refine scopes_stay fun p => scopes_step (hsub.expr Γ) fun c hc => scopes_stay fun _ => ?_
      refine scopes_step (block_scopes sub false) fun yes hyes => scopes_step ih fun no hno => scopes_pure ⟨?_, rfl⟩
      exact forall_mem_some (.elif rfl rfl (.cond hc hyes hno))
    · refine scopes_stay fun b => ?_
      split
      · exact scopes_stay fun _ => scopes_step (block_scopes sub false) fun b hb =>
          scopes_pure ⟨forall_mem_some hb, rfl⟩
      · exact scopes_pure ⟨nofun, rfl⟩

theorem patterns_scopes (n : Nat) : Scopes (patterns sub n) Γ fun ps Γ' => Pattern.AllScoped Γ ps Γ' := by
  induction n generalizing Γ with
  | zero => exact scopes_fail _ _
  | succ n ih =>
    unfold patterns
    refine scopes_bind ((hsub.pattern true Γ).mono fun p Γ₁ hp => scopes_stay fun b => ?_)
    split
    · exact scopes_bind (ih.mono fun ps Γ₂ hps => scopes_pure (.cons hp hps))
    · exact scopes_pure (.cons hp .nil)

theorem branch_scopes : Scopes (branch sub) Γ fun b Γ' => b.Scoped Γ ∧ Γ' = Γ := by
  unfold branch
  refine scopes_step function_scopes fun f hf => ?_
  refine scopes_step (inBlock_scopes (R := fun r Γ' => ∃ Γ₁, Pattern.AllScoped (inner Γ) r.1 Γ₁ ∧
    Stmt.AllScoped Γ₁ r.2.2 Γ') hf rfl ?_) fun r ⟨Γ₁, hps, hss⟩ => scopes_pure ⟨.mk hps hss, rfl⟩
  refine scopes_stay fun n => scopes_bind ((patterns_scopes sub n).mono fun ps Γ₁ hps => scopes_stay fun s => ?_)
  extract_lets bound rest
  clear_value bound
  have hrest : ∀ u, Scopes (rest u) Γ₁ fun r Γ' => (∃ Γ₁, Pattern.AllScoped (inner Γ) r.1 Γ₁ ∧
      Stmt.AllScoped Γ₁ r.2.2 Γ') ∧ Keeps (inner Γ) Γ' := fun u =>
    scopes_stay fun _ => scopes_stay fun start => scopes_bind ((suite_scopes sub).mono fun ss Γ₂ hss =>
      scopes_pure ⟨⟨Γ₁, hps, hss⟩, hps.keeps.trans hss.keeps⟩)
  split
  · exact scopes_fail_bind _ _
  · exact hrest ()

/-- The loop variable is visible in the body of the loop. -/
theorem forStmt_scopes : Scopes (forStmt sub) Γ fun s Γ' => s.Scoped Γ Γ' := by
  unfold forStmt
  refine scopes_stay fun p => scopes_stay fun name => scopes_stay fun b => ?_
  extract_lets rest
  have hrest : ∀ spec, Scopes (rest spec) Γ fun s Γ' => s.Scoped Γ Γ' := by
    intro spec
    refine scopes_stay fun _ => scopes_step (hsub.expr Γ) fun x hx => scopes_stay fun _ => scopes_stay fun start => ?_
    refine scopes_step function_scopes fun f hf => ?_
    refine scopes_step (inBlock_scopes (R := fun r Γ' => r.1.Declared (inner Γ) .iterator p ∧
      Stmt.AllScoped (OpenBlock.declare (r.1.declaration (inner Γ) .iterator p) (inner Γ)) r.2 Γ') hf rfl ?_)
      fun r ⟨hid, hss⟩ => scopes_pure (.loop hx hid hss)
    refine scopes_bind ((declare_scopes name .iterator p).mono fun id Γ₁ ⟨⟨hid, _⟩, hΓ₁⟩ => ?_)
    subst hΓ₁
    refine scopes_bind ((suite_scopes sub).mono fun ss Γ₂ hss => scopes_pure ⟨⟨hid, hss⟩, ?_⟩)
    exact (keeps_declare _ _).trans hss.keeps
  split <;> exact scopes_stay hrest

theorem branches_scopes (n : Nat) :
    Scopes (untilOutdent (branch sub) n) Γ fun bs Γ' => (∀ b ∈ bs, b.Scoped Γ) ∧ Γ' = Γ := by
  induction n with
  | zero => exact scopes_fail _ _
  | succ n ih =>
    unfold untilOutdent
    refine scopes_stay fun k => ?_
    split
    · exact scopes_pure ⟨nofun, rfl⟩
    · exact scopes_step (branch_scopes sub) fun b hb => scopes_step ih fun bs hbs =>
        scopes_pure ⟨List.forall_mem_cons.mpr ⟨hb, hbs⟩, rfl⟩

theorem bareStmt_scopes : Scopes (bareStmt sub) Γ fun ss Γ' => Stmt.AllScoped Γ ss Γ' := by
  have hone : ∀ {s : Stmt} {Γ'}, s.Scoped Γ Γ' → Scopes (pure [s]) Γ' fun ss Γ' => Stmt.AllScoped Γ ss Γ' :=
    fun hs => scopes_pure (.cons hs .nil)
  unfold bareStmt
  refine scopes_stay fun k => ?_
  split
  · refine scopes_stay fun p => scopes_step (hsub.expr Γ) fun c hc => scopes_stay fun _ => ?_
    exact scopes_step (block_scopes sub false) fun yes hyes => scopes_stay fun n =>
      scopes_step (elseBlock_scopes sub n) fun no hno => hone (.cond hc hyes hno)
  · exact scopes_bind ((forStmt_scopes sub).mono fun s Γ' hs => hone hs)
  · refine scopes_stay fun p => scopes_step (hsub.expr Γ) fun c hc => scopes_stay fun _ => ?_
    exact scopes_step (block_scopes sub true) fun body hbody => hone (.while hc hbody)
  · refine scopes_stay fun p => scopes_step (hsub.expr Γ) fun x hx => scopes_stay fun _ => scopes_stay fun _ => ?_
    exact scopes_stay fun _ => scopes_stay fun n => scopes_step (branches_scopes sub n) fun bs hbs =>
      scopes_stay fun _ => hone (.match hx hbs)
  · exact scopes_stay fun _ => scopes_pure .nil
  · exact scopes_stay fun _ => scopes_pure .nil
  · exact simpleStmts_scopes sub

theorem stmt_scopes : Scopes (stmt sub) Γ fun ss Γ' => Stmt.AllScoped Γ ss Γ' := by
  unfold stmt
  refine scopes_stay fun n => scopes_step (stmtMarkers_scopes sub {} n) fun m _ => ?_
  refine scopes_bind ((bareStmt_scopes sub).mono fun ss Γ' hss => ?_)
  dsimp only
  split
  · exact scopes_stay fun _ => scopes_pure hss
  · exact scopes_bind (scopes_pure (scopes_pure hss))

/-! ### Members -/

theorem setterParam_scopes : Scopes (setterParam sub) Γ fun p Γ' => Param.Scoped Γ [p] Γ' := by
  unfold setterParam
  refine scopes_stay fun _ => scopes_stay fun name => scopes_stay fun b => ?_
  extract_lets rest
  have hrest : ∀ spec, Scopes (rest spec) Γ fun p Γ' => Param.Scoped Γ [p] Γ' := by
    intro spec
    refine scopes_bind ((declare_scopes name .parameter name.pos).mono fun id Γ₁ ⟨⟨hid, hpos⟩, hΓ₁⟩ => ?_)
    rw [← hpos] at hid hΓ₁
    exact scopes_stay fun _ => scopes_pure (.cons nofun hid (hΓ₁ ▸ .nil))
  split <;> exact scopes_stay hrest

theorem accessorBody_scopes (property : Text) (word : Ident) (isSet : Bool) :
    Scopes (accessorBody sub property word isSet) Γ fun f Γ' => f.Scoped Γ ∧ Γ' = Γ := by
  unfold accessorBody
  refine scopes_step (inScope_scopes (R := fun r ls => ∃ Γ₁, Param.Scoped (⟨word.pos, []⟩ :: Γ) r.1 Γ₁ ∧
    Stmt.AllScoped Γ₁ r.2.2 (⟨word.pos, ls⟩ :: Γ)) ?_) fun r ⟨Γ₁, hps, hss⟩ => scopes_pure ⟨.mk hps hss, rfl⟩
  extract_lets rest
  have hrest : ∀ ps Γ₁, Param.Scoped (⟨word.pos, []⟩ :: Γ) ps Γ₁ → Scopes (rest ps) Γ₁ fun r Γ' =>
      ∃ ls, Γ' = ⟨word.pos, ls⟩ :: Γ ∧ ∃ Γ₁, Param.Scoped (⟨word.pos, []⟩ :: Γ) r.1 Γ₁ ∧
        Stmt.AllScoped Γ₁ r.2.2 (⟨word.pos, ls⟩ :: Γ) := by
    intro ps Γ₁ hps
    refine scopes_stay fun _ => scopes_stay fun start => scopes_bind ((suite_scopes sub).mono fun ss Γ₂ hss => ?_)
    obtain ⟨ls, rfl⟩ := (hps.keeps.trans hss.keeps) _ _ rfl
    exact scopes_pure ⟨ls, rfl, Γ₁, hps, hss⟩
  split
  · exact scopes_bind ((setterParam_scopes sub).mono fun p Γ₁ hp => scopes_bind (scopes_pure (hrest _ _ hp)))
  · refine scopes_stay fun b => ?_
    split
    · exact scopes_stay fun _ => scopes_bind (scopes_pure (hrest _ _ .nil))
    · exact scopes_bind (scopes_pure (hrest _ _ .nil))

theorem accessor_scopes {d : VarDecl} (hd : d.Scoped) (inBlock : Bool) :
    Scopes (accessor sub d inBlock) [] fun d' Γ' => d'.Scoped ∧ Γ' = [] := by
  unfold accessor
  refine scopes_stay fun word => ?_
  extract_lets isSet body named first second
  have hbody : ∀ u, Scopes (body u) [] fun d' Γ' => d'.Scoped ∧ Γ' = [] := by
    refine fun _ => scopes_step (accessorBody_scopes sub d.name.name word isSet) fun f hf => scopes_pure ⟨?_, rfl⟩
    by_cases hset : isSet
    · rw [if_pos hset]
      exact ⟨hd.init, forall_mem_some hf, hd.getter⟩
    · rw [if_neg hset]
      exact ⟨hd.init, hd.setter, forall_mem_some hf⟩
  have hnamed : ∀ u, Scopes (named u) [] fun d' Γ' => d'.Scoped ∧ Γ' = [] := by
    refine fun _ => scopes_stay fun b => ?_
    split
    · refine scopes_stay fun name => ?_
      extract_lets d' rest
      have hd' : d'.Scoped := by
        by_cases hset : isSet
        · rw [show d' = _ from if_pos hset]
          exact ⟨hd.init, hd.setter, hd.getter⟩
        · rw [show d' = _ from if_neg hset]
          exact ⟨hd.init, hd.setter, hd.getter⟩
      have hrest : ∀ u, Scopes (rest u) [] fun d' Γ' => d'.Scoped ∧ Γ' = [] :=
        fun _ => scopes_pure ⟨⟨hd'.init, hd'.setter, hd'.getter⟩, rfl⟩
      split
      · exact scopes_stay hrest
      · exact hrest ()
    · split
      · exact scopes_stay fun _ => scopes_fail_bind _ _
      · exact hbody ()
  -- What comes before checks that there is no such accessor yet.
  split
  · exact scopes_fail_bind _ _
  dsimp only [second, first]
  split
  · exact scopes_fail_bind _ _
  split
  · exact scopes_fail_bind _ _
  · exact hnamed ()

theorem blockAccessors_scopes {d : VarDecl} (hd : d.Scoped) (n : Nat) :
    Scopes (blockAccessors sub d n) [] fun d' Γ' => d'.Scoped ∧ Γ' = [] := by
  induction n generalizing d with
  | zero => exact scopes_fail _ _
  | succ n ih =>
    unfold blockAccessors
    refine scopes_stay fun k => ?_
    split
    · exact scopes_pure ⟨hd, rfl⟩
    · exact scopes_step (accessor_scopes sub hd true) fun d' hd' => ih hd'

theorem lineAccessors_scopes {d : VarDecl} (hd : d.Scoped) (n : Nat) :
    Scopes (lineAccessors sub d n) [] fun d' Γ' => d'.Scoped ∧ Γ' = [] := by
  induction n generalizing d with
  | zero => exact scopes_fail _ _
  | succ n ih =>
    unfold lineAccessors
    refine scopes_step (accessor_scopes sub hd false) fun d' hd' => scopes_stay fun b => ?_
    split
    · exact ih hd'
    · exact scopes_pure ⟨hd', rfl⟩

theorem accessors_scopes {d : VarDecl} (hd : d.Scoped) :
    Scopes (accessors sub d) [] fun d' Γ' => d'.Scoped ∧ Γ' = [] := by
  unfold accessors
  refine scopes_stay fun b => ?_
  split
  · exact scopes_stay fun _ => scopes_stay fun n => scopes_step (blockAccessors_scopes sub hd n) fun d' hd' =>
      scopes_stay fun _ => scopes_stay fun _ => scopes_pure ⟨hd', rfl⟩
  · exact scopes_stay fun n => lineAccessors_scopes sub hd n

theorem memberVar_scopes : Scopes (memberVar sub) [] fun d Γ' => d.Scoped ∧ Γ' = [] := by
  unfold memberVar
  refine scopes_stay fun start => scopes_stay fun name => ?_
  extract_lets bare rest
  have hrest : ∀ spec, Scopes (rest spec) [] fun d Γ' => d.Scoped ∧ Γ' = [] := by
    intro spec
    refine scopes_step (varHead_scopes sub false start name spec) fun d ⟨hinit, _, hset, hget⟩ => ?_
    have hd : d.Scoped := ⟨hinit, by simp [hset], by simp [hget]⟩
    refine scopes_stay fun s => ?_
    split
    · refine scopes_stay fun b => ?_
      split
      · exact accessors_scopes sub hd
      · exact scopes_pure ⟨hd, rfl⟩
    · exact scopes_pure ⟨hd, rfl⟩
  refine scopes_stay fun b => ?_
  split
  · refine scopes_stay fun b => ?_
    split
    · exact accessors_scopes sub ⟨nofun, nofun, nofun⟩
    · exact scopes_stay hrest
  · exact scopes_stay hrest

theorem enumElement_scopes : Scopes (enumElement sub) [] fun v Γ' => (∀ x ∈ v.init, x.Scoped []) ∧ Γ' = [] := by
  unfold enumElement
  refine scopes_stay fun name => scopes_stay fun b => ?_
  extract_lets rest
  have hrest : ∀ init : Option Expr, (∀ x ∈ init, x.Scoped []) →
      Scopes (rest init) [] fun v Γ' => (∀ x ∈ v.init, x.Scoped []) ∧ Γ' = [] :=
    fun _ hinit => scopes_pure ⟨hinit, rfl⟩
  split
  · exact scopes_step (some_scopes hsub.expr) hrest
  · exact scopes_step none_scopes hrest

theorem enumDecl_scopes :
    Scopes (enumDecl sub) [] fun d Γ' => (∀ v ∈ d.values, ∀ x ∈ v.init, x.Scoped []) ∧ Γ' = [] := by
  unfold enumDecl
  refine scopes_stay fun pos => scopes_stay fun b => ?_
  extract_lets rest
  have hrest : ∀ name, Scopes (rest name) [] fun d Γ' => (∀ v ∈ d.values, ∀ x ∈ v.init, x.Scoped []) ∧ Γ' = [] :=
    fun name => scopes_stay fun _ => scopes_stay fun n => scopes_step (commaList_scopes (enumElement_scopes sub) n)
      fun vs hvs => scopes_stay fun _ => scopes_pure ⟨hvs, rfl⟩
  split <;> exact scopes_stay hrest

theorem signalDecl_scopes : Scopes (signalDecl sub) [] fun d Γ' => (∀ p ∈ d.params, p.default = none) ∧ Γ' = [] := by
  unfold signalDecl
  refine scopes_stay fun pos => scopes_stay fun name => scopes_stay fun b => ?_
  split
  · exact scopes_stay fun n => scopes_step (signalParams_scopes sub [] nofun n) fun ps hps => scopes_stay fun _ =>
      scopes_pure ⟨hps, rfl⟩
  · exact scopes_pure ⟨nofun, rfl⟩

/-! ### Classes -/

omit hsub in
theorem add_scoped {c : ClassDecl} {ms : List Member} (hc : c.Scoped) (hms : ∀ m ∈ ms, m.Scoped) :
    (ClassDecl.add c ms).Scoped := by
  cases hc with
  | mk hc => exact .mk fun m hm => (List.mem_append.mp hm).elim (hc m) (hms m)

omit hsub in
theorem scoped_of_empty {c : ClassDecl} (h : c.members = []) : c.Scoped := .mk (h ▸ nofun)

omit hsub in
/-- Only the members of a class have names that are bound. -/
theorem scoped_of_members {c c' : ClassDecl} (hc : c.Scoped) (h : c'.members = c.members) : c'.Scoped := by
  cases hc with
  | mk hc => exact .mk (h ▸ hc)

theorem memberMarker_scopes {c : ClassDecl} (hc : c.Scoped) (m : Markers) :
    Scopes (memberMarker sub c m) [] fun r Γ' => r.1.Scoped ∧ Γ' = [] := by
  unfold memberMarker
  refine scopes_step (marker_scopes sub) fun r _ => ?_
  obtain ⟨name, args, p⟩ := r
  dsimp only
  split
  · exact scopes_pure ⟨scoped_of_members hc rfl, rfl⟩
  split
  · exact scopes_pure ⟨hc, rfl⟩
  split
  · exact scopes_pure ⟨hc, rfl⟩
  split
  · split
    · exact scopes_fail _ _
    · exact scopes_pure ⟨add_scoped hc (List.forall_mem_singleton.mpr .group), rfl⟩
    · exact scopes_fail _ _
  split
  · exact scopes_stay fun m' => scopes_pure ⟨hc, rfl⟩
  split
  · exact scopes_pure ⟨hc, rfl⟩
  · exact scopes_fail _ _

theorem memberMarkers_scopes {c : ClassDecl} (hc : c.Scoped) (m : Markers) (n : Nat) :
    Scopes (memberMarkers sub c m n) [] fun r Γ' => r.1.Scoped ∧ Γ' = [] := by
  induction n generalizing c m with
  | zero => exact scopes_fail _ _
  | succ n ih =>
    unfold memberMarkers
    refine scopes_stay fun b => ?_
    split
    · exact scopes_step (memberMarker_scopes sub hc m) fun r hr => scopes_stay fun _ => scopes_stay fun _ => ih hr r.2
    · exact scopes_pure ⟨hc, rfl⟩

theorem members_scopes {c : ClassDecl} (hc : c.Scoped) (n : Nat) :
    Scopes (members sub c n) [] fun c' Γ' => c'.Scoped ∧ Γ' = [] := by
  induction n generalizing c with
  | zero => exact scopes_fail _ _
  | succ n ih =>
    unfold members
    refine scopes_stay fun k => ?_
    split
    · exact scopes_pure ⟨hc, rfl⟩
    · exact scopes_step (hsub.member false c hc) fun c' hc' => ih hc'

theorem innerClass_scopes : Scopes (innerClass sub) [] fun c Γ' => c.Scoped ∧ Γ' = [] := by
  unfold innerClass
  refine scopes_stay fun start => scopes_stay fun name => scopes_stay fun b => ?_
  extract_lets rest
  have hrest : ∀ base, Scopes (rest base) [] fun c Γ' => c.Scoped ∧ Γ' = [] := by
    intro base
    refine scopes_stay fun _ => scopes_stay fun b => ?_
    split
    · exact scopes_stay fun _ => scopes_stay fun n => scopes_step (members_scopes sub (scoped_of_empty rfl) n)
        fun c hc => scopes_stay fun _ => scopes_pure ⟨scoped_of_members hc rfl, rfl⟩
    · exact scopes_step (hsub.member false _ (scoped_of_empty rfl)) fun c hc => scopes_stay fun _ =>
        scopes_pure ⟨scoped_of_members hc rfl, rfl⟩
  split <;> exact scopes_stay hrest

omit hsub in
theorem setBase_scopes {c : ClassDecl} (hc : c.Scoped) : Scopes (setBase c) [] fun c' Γ' => c'.Scoped ∧ Γ' = [] := by
  unfold setBase
  extract_lets rest
  have hrest : ∀ u, Scopes (rest u) [] fun c' Γ' => c'.Scoped ∧ Γ' = [] :=
    fun _ => scopes_stay fun base => scopes_pure ⟨scoped_of_members hc rfl, rfl⟩
  split
  · exact scopes_stay fun _ => scopes_fail_bind _ _
  · exact hrest ()

omit hsub in
theorem setName_scopes (top : Bool) {c : ClassDecl} (hc : c.Scoped) :
    Scopes (setName top c) [] fun c' Γ' => c'.Scoped ∧ Γ' = [] := by
  unfold setName
  extract_lets ended named first
  have hended : ∀ c' : ClassDecl, c'.Scoped → Scopes (ended c') [] fun c' Γ' => c'.Scoped ∧ Γ' = [] :=
    fun c' hc' => scopes_stay fun _ => scopes_pure ⟨hc', rfl⟩
  have hnamed : ∀ u, Scopes (named u) [] fun c' Γ' => c'.Scoped ∧ Γ' = [] := by
    refine fun _ => scopes_stay fun _ => scopes_stay fun name => scopes_stay fun b => ?_
    split
    · exact scopes_step (setBase_scopes (scoped_of_members hc rfl)) hended
    · exact scopes_bind (scopes_pure (hended _ (scoped_of_members hc rfl)))
  split
  · exact scopes_stay fun _ => scopes_fail_bind _ _
  dsimp only [first]
  split
  · exact scopes_stay fun _ => scopes_fail_bind _ _
  · exact hnamed ()

theorem bareMember_scopes (top : Bool) {c : ClassDecl} (hc : c.Scoped) (m : Markers) :
    Scopes (bareMember sub top c m) [] fun r Γ' => r.cls.Scoped ∧ Γ' = [] := by
  unfold bareMember
  refine scopes_stay fun t => ?_
  split
  · refine scopes_step (memberVar_scopes sub) fun d hd => scopes_stay fun _ => scopes_pure ⟨?_, rfl⟩
    exact add_scoped (scoped_of_members hc rfl)
      (List.forall_mem_singleton.mpr (.var ⟨hd.init, hd.setter, hd.getter⟩))
  · refine scopes_step ((constDecl_scopes sub false).mono fun d Γ' hd => hd) fun d hd => scopes_stay fun _ => ?_
    exact scopes_pure ⟨add_scoped hc (List.forall_mem_singleton.mpr (.const hd)), rfl⟩
  · refine scopes_step (signalDecl_scopes sub) fun d hd => scopes_stay fun _ => ?_
    exact scopes_pure ⟨add_scoped hc (List.forall_mem_singleton.mpr (.signal hd)), rfl⟩
  · refine scopes_step (enumDecl_scopes sub) fun d hd => scopes_stay fun _ => scopes_pure ⟨add_scoped hc ?_, rfl⟩
    split
    · exact List.forall_mem_singleton.mpr (.enum hd)
    · intro v hv
      obtain ⟨i, -, rfl⟩ := List.mem_map.mp hv
      exact .enumValue hd
  · refine scopes_stay fun isStatic => scopes_stay fun p => scopes_stay fun name => ?_
    refine scopes_step (functionRest_scopes sub p (some name) isStatic .method) fun f hf => ?_
    exact scopes_pure ⟨add_scoped hc (List.forall_mem_singleton.mpr (.func hf)), rfl⟩
  · refine scopes_stay fun isStatic => scopes_stay fun p => scopes_stay fun name => ?_
    refine scopes_step (functionRest_scopes sub p (some name) isStatic .method) fun f hf => ?_
    exact scopes_pure ⟨add_scoped hc (List.forall_mem_singleton.mpr (.func hf)), rfl⟩
  · exact scopes_step (innerClass_scopes sub) fun d hd =>
      scopes_pure ⟨add_scoped hc (List.forall_mem_singleton.mpr (.cls hd)), rfl⟩
  · exact scopes_step (setBase_scopes hc) fun c' hc' => scopes_stay fun _ => scopes_pure ⟨hc', rfl⟩
  · exact scopes_step (setName_scopes top hc) fun c' hc' => scopes_pure ⟨hc', rfl⟩
  · exact scopes_stay fun _ => scopes_stay fun _ => scopes_pure ⟨hc, rfl⟩
  · exact scopes_stay fun _ => scopes_pure ⟨hc, rfl⟩
  · exact scopes_stay fun _ => scopes_pure ⟨hc, rfl⟩
  · exact scopes_fail _ _

/-- **A member** is outside of all blocks. -/
theorem member_scopes (top : Bool) {c : ClassDecl} (hc : c.Scoped) :
    Scopes (member sub top c) [] fun c' Γ' => c'.Scoped ∧ Γ' = [] := by
  unfold member
  refine scopes_stay fun n => scopes_step (memberMarkers_scopes sub hc {} n) fun r hr => ?_
  obtain ⟨c', m⟩ := r
  dsimp only at hr ⊢
  refine scopes_stay fun k => ?_
  split
  · split
    · exact scopes_stay fun _ => scopes_fail_bind _ _
    · exact scopes_pure ⟨hr, rfl⟩
  refine scopes_step (bareMember_scopes sub top hr m) fun r hr => ?_
  -- What is left checks the markers and records where warnings are not wanted.
  repeat' split
  all_goals first
    | exact scopes_fail_bind _ _
    | exact scopes_stay fun _ => scopes_pure ⟨hr, rfl⟩
    | exact scopes_pure ⟨hr, rfl⟩

theorem fileMembers_scopes {c : ClassDecl} (hc : c.Scoped) (n : Nat) :
    Scopes (fileMembers sub c n) [] fun c' Γ' => c'.Scoped ∧ Γ' = [] := by
  induction n generalizing c with
  | zero => exact scopes_fail _ _
  | succ n ih =>
    unfold fileMembers
    refine scopes_stay fun b => ?_
    split
    · exact scopes_pure ⟨hc, rfl⟩
    · exact scopes_step (member_scopes sub true hc) fun c' hc' => ih hc'

theorem file_scopes (path : Text) : Scopes (file sub path) [] fun f _ => f.cls.Scoped := by
  unfold file
  refine scopes_stay fun _ => scopes_stay fun n => scopes_stay fun p => ?_
  refine scopes_step (fileMembers_scopes sub (scoped_of_empty rfl) (n + 1)) fun c hc => ?_
  exact scopes_stay fun _ => scopes_stay fun _ => scopes_pure (scoped_of_members hc rfl)

end Sub

/-- The parsers of the parts of a construct bind names, at each depth. -/
instance subparsers_scope (fuel : Nat) : (subparsers fuel).Scope := by
  induction fuel with
  | zero =>
    exact ⟨fun _ => scopes_fail _ _, fun _ => scopes_fail _ _, fun _ _ => scopes_fail _ _, fun _ => scopes_fail _ _,
      fun _ => scopes_fail _ _, fun _ => scopes_fail _ _, fail_stays _ _, fun _ _ => scopes_fail _ _,
      fun _ => scopes_fail _ _, fun _ => scopes_fail _ _, fun _ _ _ => scopes_fail _ _⟩
  | succ fuel ih =>
    exact ⟨expr_binds _, ternary_binds _, level_binds _, sign_binds _, powerOperand_binds _, await_binds _,
      typeSpec_stays _, fun top _ => pattern_scopes _ top, fun _ => stmt_scopes _, fun _ => smallStmt_scopes _,
      fun top _ hc => member_scopes _ top hc⟩

end Parse

/-! ### Files -/

/-- **The names of a parsed file are bound by lexical scoping.** -/
theorem File.parse_scoped {path source : Text} {f : File} (h : File.parse path source = .ok f) : f.cls.Scoped := by
  obtain ⟨s', hrun⟩ := File.parse_run h
  exact Parse.file_scopes _ path _ rfl f s' hrun

/-- A loop with a function in it, which has names of its own and uses those around it. -/
def loopWithLambda : Text := "func f(a):\n\tfor i in a:\n\t\tvar g = func(b = i): return a + b\n"

theorem File.parse_scoped_loopWithLambda :
    ∃ f, File.parse "res://test.gd" loopWithLambda = .ok f ∧ f.cls.members ≠ [] ∧ f.cls.Scoped := by
  obtain ⟨f, hparse, hmembers⟩ : ∃ f, File.parse "res://test.gd" loopWithLambda = .ok f ∧ !f.cls.members.isEmpty :=
    exists_of_toOption (by decide +kernel)
  exact ⟨f, hparse, by simpa using hmembers, File.parse_scoped hparse⟩

/-- Whether a name is declared both in the body of a function and in the block of a conditional in the body. -/
def Member.declaresTwice (n : Text) : Member → Bool
  | .func f => f.body.locals.any (·.name = n) && f.body.stmts.any fun
    | .cond _ _ yes _ => yes.locals.any (·.name = n)
    | _ => false
  | _ => false

/-- Behind a block, a name may be declared that the block has declared: it is not visible there. -/
theorem File.parse_declares_twice :
    ∃ f, File.parse "foo.gd" "func f():\n\tif true:\n\t\tvar x = 1\n\tvar x = 2\n" = .ok f ∧
      ∃ m ∈ f.cls.members, m.declaresTwice "x" = true := by
  obtain ⟨f, hparse, hmembers⟩ :
      ∃ f, File.parse "foo.gd" "func f():\n\tif true:\n\t\tvar x = 1\n\tvar x = 2\n" = .ok f ∧
        f.cls.members.any (·.declaresTwice "x") = true := exists_of_toOption (by decide +kernel)
  exact ⟨f, hparse, List.any_eq_true.mp hmembers⟩

end GameScript
