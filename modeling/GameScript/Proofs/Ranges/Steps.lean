import GameScript.Proofs.Lowering.Emission
import GameScript.Proofs.Lowering.Generator
import GameScript.Proofs.Ranges.Operands

/-!
# Steps that keep operands in range

While a function is lowered there is more and more that its operands may refer to, so an operand that is
in range stays in range. `Progress` is this part of a state, and proofs about lowering need no other:
`Lower.Ranged size L x R` says that from every state that has come as far as `L`, the step `x` goes on to a
state of which `R` holds, with all operands in range. `Ranged.bind` puts steps together.

* `Lower.Runs` — a step whose result does not matter;
* `Lower.Locates` — a step that gives an address in range.
-/

namespace GameScript

/-! ### Progress -/

/-- How far the lowering of a function has come: what operands may refer to, how many instructions and
labels there are, and before which instruction a label is bound. -/
structure Progress extends Scope where
  pool : Pool := {}
  code : Nat := 0
  labels : Nat := 0
  bound : Nat → Option Nat := fun _ => none

namespace Progress

/-- There is at least as much of everything, and what is bound stays bound. -/
structure Le (p p' : Progress) : Prop where
  scope : p.toScope.Le p'.toScope
  pool : p.pool.Le p'.pool
  code : p.code ≤ p'.code
  labels : p.labels ≤ p'.labels
  bound : ∀ l i, p.bound l = some i → p'.bound l = some i

instance : Preorder Progress where
  le := Le
  le_refl p := ⟨.refl _, .refl _, le_rfl, le_rfl, fun _ _ h => h⟩
  le_trans _ _ _ h h' := ⟨h.scope.trans h'.scope, h.pool.trans h'.pool, le_trans h.code h'.code, le_trans h.labels h'.labels,
    fun l i hl => h'.bound l i (h.bound l i hl)⟩

end Progress

@[grind →] theorem Address.Within.le {a : Address} {p p' : Progress} (h : a.Within p.toScope)
    (hp : p ≤ p') : a.Within p'.toScope :=
  h.mono hp.scope

/-! ### States in range -/

/-- What the operands of a function refer to, beside its own variables, in a program. -/
def Function.scope (f : Function) (members constants names functions : Nat) : Scope :=
  { members
    params := f.params.length
    locals := f.locals.length
    temps := f.maxTemps.toNat
    constants
    names
    functions }

/-- The functions of a pool are in range. The script with a number has `size` many variables. -/
def Pool.InRange (size : Nat → Option Nat) (p : Pool) : Prop :=
  ∀ f ∈ p.functions, ∃ m, f.script.bind size = some m ∧
    ∃ is, f.InRange (f.scope m p.constants.length p.names.length p.functions.length) is

/-- Functions stay in range when the pool grows. -/
theorem Function.InRange.grow {f : Function} {is : List Instruction} {m c n k c' n' k' : Nat}
    (h : f.InRange (f.scope m c n k) is) (hc : c ≤ c') (hn : n ≤ n') (hk : k ≤ k') :
    f.InRange (f.scope m c' n' k') is :=
  h.mono ⟨le_rfl, le_rfl, le_rfl, le_rfl, hc, hn, hk⟩

theorem Pool.InRange.grow {size : Nat → Option Nat} {p p' : Pool} (h : p.InRange size)
    (hf : p'.functions = p.functions) (hc : p.constants.length ≤ p'.constants.length)
    (hn : p.names.length ≤ p'.names.length) : p'.InRange size := by
  intro f hmem
  obtain ⟨m, hm, is, his⟩ := h f (hf ▸ hmem)
  exact ⟨m, hm, is, his.grow hc hn (le_of_eq (by rw [hf]))⟩

/-- The script of a context has its number, and its variables have numbers below their count. -/
structure LowerContext.InRange (size : Nat → Option Nat) (ctx : LowerContext) : Prop where
  size : size ctx.scriptIndex = some ctx.script.members.length
  members : ∀ m ∈ ctx.script.members, m.index.toNat < ctx.script.members.length

/-- How far a state has come. -/
def Lowering.progress (ctx : LowerContext) (s : Lowering) : Progress where
  members := ctx.script.members.length
  params := s.params.length
  locals := s.locals.length
  temps := s.gen.maxTemps
  constants := s.gen.pool.constants.length
  names := s.gen.pool.names.length
  functions := s.gen.pool.functions.length
  pool := s.gen.pool
  code := s.gen.instructions.length
  labels := s.gen.binds.length
  bound l := s.gen.binds.getD l none

/-- All that a state refers to exists. -/
structure Lowering.InRange (size : Nat → Option Nat) (ctx : LowerContext) (s : Lowering) : Prop where
  fits : ∀ i ∈ s.gen.instructions, Instruction.Fits i.instruction.op.shape i.instruction.args
  code : ∀ i ∈ s.gen.instructions,
    i.instruction.Within (s.progress ctx).toScope fun _ => True
  binds : ∀ l i, (s.progress ctx).bound l = some i → i ≤ s.gen.instructions.length
  vars : ∀ p a, s.vars.get? p = some a → a.Within (s.progress ctx).toScope
  functions : s.gen.pool.InRange size

namespace Lower

variable {α β : Type} {size : Nat → Option Nat} {ctx : LowerContext} {s s' : Lowering} {L : Progress}

/-- A state that differs in what is counted only. -/
theorem inRange_of_same (h : s.InRange size ctx) (hp : s.progress ctx ≤ s'.progress ctx)
    (hi : s'.gen.instructions = s.gen.instructions)
    (hb : (s'.progress ctx).bound = (s.progress ctx).bound) (hv : s'.vars = s.vars)
    (hf : s'.gen.pool.functions = s.gen.pool.functions) : s'.InRange size ctx where
  fits := hi ▸ h.fits
  code i hmem := (h.code i (hi ▸ hmem)).mono hp.scope
  binds := by
    rw [hb, hi]
    exact h.binds
  vars p a ha := (h.vars p a (hv ▸ ha)).le hp
  functions := h.functions.grow hf hp.scope.constants hp.scope.names

/-! ### Steps -/

/-- From a state in range that has come as far as `L`, the step goes on to one in range, and `R` holds of
how far that has come and of the result. -/
def Ranged (size : Nat → Option Nat) (L : Progress) (x : Lower α) (R : Progress → α → Prop) : Prop :=
  ∀ ctx s, ctx.InRange size → s.InRange size ctx → L ≤ s.progress ctx →
    After x ctx s (fun a s' => s'.InRange size ctx ∧ s.progress ctx ≤ s'.progress ctx ∧
      R (s'.progress ctx) a) fun _ => True

/-- A step whose result does not matter. -/
def Runs (size : Nat → Option Nat) (L : Progress) (x : Lower α) : Prop :=
  Ranged size L x fun _ _ => True

/-- A step that emits at least one instruction. -/
def Emits (size : Nat → Option Nat) (L : Progress) (x : Lower α) : Prop :=
  Ranged size L x fun L' _ => L.code < L'.code

/-- A step that gives an address in range. -/
def Locates (size : Nat → Option Nat) (L : Progress) (x : Lower Address) : Prop :=
  Ranged size L x fun L' a => a.Within L'.toScope

/-- A step that gives addresses in range. -/
def LocatesAll (size : Nat → Option Nat) (L : Progress) (x : Lower (List Address)) : Prop :=
  Ranged size L x fun L' as => ∀ a ∈ as, a.Within L'.toScope

theorem Ranged.bind {x : Lower α} {f : α → Lower β} {P : Progress → α → Prop}
    {R : Progress → β → Prop} (hx : Ranged size L x P)
    (hf : ∀ a L', L ≤ L' → P L' a → Ranged size L' (f a) R) : Ranged size L (x >>= f) R := by
  intro ctx s hctx hs hL
  refine (hx ctx s hctx hs hL).bind fun a s₁ ⟨hs₁, h₁, ha⟩ => ?_
  refine (hf a _ (le_trans hL h₁) ha ctx s₁ hctx hs₁ le_rfl).post fun b s₂ ⟨hs₂, h₂, hb⟩ => ?_
  exact ⟨hs₂, le_trans h₁ h₂, hb⟩

theorem Ranged.imp {x : Lower α} {R R' : Progress → α → Prop} (h : Ranged size L x R)
    (hR : ∀ L' a, L ≤ L' → R L' a → R' L' a) : Ranged size L x R' := by
  intro ctx s hctx hs hL
  refine (h ctx s hctx hs hL).post fun a s₁ ⟨hs₁, h₁, ha⟩ => ?_
  exact ⟨hs₁, h₁, hR _ a (le_trans hL h₁) ha⟩

theorem Ranged.runs {x : Lower α} {R : Progress → α → Prop} (h : Ranged size L x R) :
    Runs size L x :=
  h.imp fun _ _ _ _ => trivial

theorem Ranged.ite {c : Prop} [Decidable c] {x y : Lower α} {R : Progress → α → Prop}
    (hx : Ranged size L x R) (hy : Ranged size L y R) : Ranged size L (if c then x else y) R := by
  split
  · exact hx
  · exact hy

theorem pure_ranged {a : α} {R : Progress → α → Prop} (h : ∀ L', L ≤ L' → R L' a) :
    Ranged size L (pure a : Lower α) R :=
  fun _ _ _ hs hL => ⟨hs, le_rfl, h _ hL⟩

theorem pure_runs (a : α) : Runs size L (pure a : Lower α) := pure_ranged fun _ _ => trivial

theorem contradiction_ranged {f : InternalFault} {R : Progress → α → Prop} :
    Ranged size L (contradiction f : Lower α) R := fun _ _ _ _ _ => trivial

theorem report_ranged {pos : Pos} {f : CompileFault} {R : Progress → α → Prop} :
    Ranged size L (report pos f : Lower α) R := fun _ _ _ _ _ => trivial

theorem read_ranged {R : Progress → LowerContext → Prop} (h : ∀ L' c, L ≤ L' → R L' c) :
    Ranged size L (read : Lower LowerContext) R :=
  fun _ _ _ hs hL => ⟨hs, le_rfl, h _ _ hL⟩

theorem read_runs : Runs size L (read : Lower LowerContext) := read_ranged fun _ _ _ => trivial

theorem note_runs (p : Pos) : Runs size L (note p) := fun _ _ _ hs _ => ⟨hs, le_rfl, trivial⟩

theorem types_runs : Runs size L types := fun _ _ _ hs _ => ⟨hs, le_rfl, trivial⟩

theorem placeText_runs (p : Pos) : Runs size L (placeText p) := fun _ _ _ hs _ => ⟨hs, le_rfl, trivial⟩

theorem inAccessor_runs (m : MemberSlot) : Runs size L (inAccessor m) :=
  fun _ _ _ hs _ => ⟨hs, le_rfl, trivial⟩

/-- A step that looks at the state. -/
theorem current_bind {f : Lowering → Lower α} {R : Progress → α → Prop}
    (h : ∀ ctx s, ctx.InRange size → s.InRange size ctx → L ≤ s.progress ctx →
      After (f s) ctx s (fun a s' => s'.InRange size ctx ∧ s.progress ctx ≤ s'.progress ctx ∧
        R (s'.progress ctx) a) fun _ => True) :
    Ranged size L (current >>= f) R := by
  intro ctx s hctx hs hL
  rw [after_bind, after_current]
  exact h ctx s hctx hs hL

theorem current_runs : Runs size L current := fun _ _ _ hs _ => ⟨hs, le_rfl, trivial⟩

/-- A change of what operands do not refer to. -/
theorem update_runs {f : Lowering → Lowering}
    (h : ∀ s, (f s).gen = s.gen ∧ (f s).vars = s.vars ∧ (f s).params = s.params ∧
      (f s).locals = s.locals) : Runs size L (update f) := by
  intro ctx s hctx hs hL
  rw [after_update]
  obtain ⟨hg, hv, hp, hl⟩ := h s
  have hprogress : (f s).progress ctx = s.progress ctx := by
    simp [Lowering.progress, hg, hp, hl]
  refine ⟨inRange_of_same hs (le_of_eq hprogress.symm) (by rw [hg]) (by rw [hprogress]) hv (by rw [hg]),
    le_of_eq hprogress.symm, trivial⟩

/-! ### Steps of generation -/

theorem lift_bind_ranged {x : Gen α} {f : α → Gen β} {R : Progress → β → Prop}
    (h : Ranged size L (liftM x >>= fun a => liftM (f a) : Lower β) R) :
    Ranged size L (liftM (x >>= f) : Lower β) R := by
  rwa [lift_bind]

/-- **An instruction is emitted** if its operands are in range. -/
theorem emit_emits {op : Opcode} {args : List Nat}
    (h : (⟨op, args⟩ : Instruction).Within L.toScope fun _ => True) :
    Emits size L (Gen.emit op args : Lower Unit) := by
  intro ctx s hctx hs hL
  rw [after_lift, Gen.after_emit]
  split
  · rename_i hfits
    have hp : s.progress ctx ≤ Lowering.progress ctx { s with gen := s.gen.push op args } :=
      ⟨.refl _, .refl _, by simp [Lowering.progress, Generator.push], le_rfl, fun _ _ h => h⟩
    have hlt : L.code < (Lowering.progress ctx { s with gen := s.gen.push op args }).code := by
      have := hL.code
      simp only [Lowering.progress, Generator.push, List.length_append, List.length_singleton] at this ⊢
      omega
    refine ⟨⟨?_, ?_, ?_, hs.vars, hs.functions⟩, hp, hlt⟩
    · intro i hi
      rcases List.mem_append.mp hi with hi | hi
      · exact hs.fits i hi
      · rw [List.mem_singleton.mp hi]
        exact Instruction.fits_of_arity hfits
    · intro i hi
      rcases List.mem_append.mp hi with hi | hi
      · exact hs.code i hi
      · rw [List.mem_singleton.mp hi]
        exact h.mono hL.scope
    · intro l i hl
      have := hs.binds l i hl
      simp only [Generator.push, List.length_append, List.length_singleton]
      omega
  · trivial

theorem emit_runs {op : Opcode} {args : List Nat}
    (h : (⟨op, args⟩ : Instruction).Within L.toScope fun _ => True) :
    Runs size L (Gen.emit op args : Lower Unit) :=
  (emit_emits h).runs

theorem newLabel_ranged : Ranged size L (Gen.newLabel : Lower Nat) fun L' l => l < L'.labels := by
  intro ctx s hctx hs hL
  rw [after_lift, Gen.after_newLabel]
  have hb : (Lowering.progress ctx { s with gen := s.gen.addLabel }).bound = (s.progress ctx).bound :=
    funext fun l => GenCall.getD_append_none s.gen.binds l
  have hlt : s.gen.binds.length < s.gen.addLabel.binds.length := by simp [Generator.addLabel]
  have hp : s.progress ctx ≤ Lowering.progress ctx { s with gen := s.gen.addLabel } :=
    ⟨.refl _, .refl _, le_rfl, le_of_lt hlt, fun l i h => by rwa [hb]⟩
  exact ⟨inRange_of_same hs hp rfl hb rfl rfl, hp, hlt⟩

theorem setLine_gen_runs (line : Int) : Runs size L (Gen.setLine line : Lower Unit) := by
  intro ctx s hctx hs hL
  rw [after_lift, Gen.after_setLine]
  exact ⟨inRange_of_same hs (le_refl _) rfl rfl rfl rfl, le_refl _, trivial⟩

theorem addTemporary_locates (t : StaticType) : Locates size L (Gen.addTemporary t : Lower Address) := by
  intro ctx s hctx hs hL
  rw [after_lift, Gen.after_addTemporary]
  have hp : s.progress ctx ≤ Lowering.progress ctx { s with gen := s.gen.alloc t } :=
    ⟨⟨le_rfl, le_rfl, le_rfl, le_max_left _ _, le_rfl, le_rfl, le_rfl⟩, .refl _, le_rfl, le_rfl,
      fun _ _ h => h⟩
  refine ⟨inRange_of_same hs hp rfl rfl rfl rfl, hp, ?_⟩
  exact lt_of_lt_of_le (Nat.lt_succ_self _) (le_max_right _ _)

theorem release_runs (a : Address) : Runs size L (Gen.release a : Lower Unit) := by
  intro ctx s hctx hs hL
  rw [after_lift, Gen.after_release]
  split
  · split
    · exact ⟨inRange_of_same hs (le_refl _) rfl rfl rfl rfl, le_refl _, trivial⟩
    · trivial
  · exact ⟨hs, le_rfl, trivial⟩

theorem Pool.length_name (p : Pool) (n : Text) :
    p.names.length ≤ (p.name n).2.names.length ∧ (p.name n).1 < (p.name n).2.names.length := by
  unfold Pool.name
  split
  · rename_i h
    exact ⟨le_rfl, (List.findIdx?_eq_some_iff_findIdx_eq.mp h).1⟩
  · simp

theorem Pool.length_constant (p : Pool) (v : Value) :
    p.constants.length ≤ (p.constant v).2.constants.length ∧
      (p.constant v).1 < (p.constant v).2.constants.length := by
  unfold Pool.constant
  dsimp only
  split
  · rename_i h
    exact ⟨le_rfl, (List.findIdx?_eq_some_iff_findIdx_eq.mp h).1⟩
  · simp

theorem name_gen_ranged (n : Text) :
    Ranged size L (Gen.name n : Lower Nat) fun L' i => i < L'.names := by
  intro ctx s hctx hs hL
  rw [after_lift, Gen.after_name]
  have hn := Pool.length_name s.gen.pool n
  have hsame : (s.gen.pool.name n).2.functions = s.gen.pool.functions ∧
      (s.gen.pool.name n).2.constants = s.gen.pool.constants := by
    unfold Pool.name
    split <;> exact ⟨rfl, rfl⟩
  have hp : s.progress ctx ≤
      Lowering.progress ctx { s with gen := { s.gen with pool := (s.gen.pool.name n).2 } } := by
    refine ⟨⟨le_rfl, le_rfl, le_rfl, le_rfl, ?_, hn.1, ?_⟩, Pool.le_name _ _, le_rfl, le_rfl,
      fun _ _ h => h⟩
    · exact le_of_eq (congrArg List.length hsame.2.symm)
    · exact le_of_eq (congrArg List.length hsame.1.symm)
  exact ⟨inRange_of_same hs hp rfl rfl rfl hsame.1, hp, hn.2⟩

theorem constant_locates (v : Value) : Locates size L (Gen.constant v : Lower Address) := by
  intro ctx s hctx hs hL
  rw [after_lift, Gen.after_constant]
  have hc := Pool.length_constant s.gen.pool v
  have hsame : (s.gen.pool.constant v).2.functions = s.gen.pool.functions ∧
      (s.gen.pool.constant v).2.names = s.gen.pool.names := by
    unfold Pool.constant
    dsimp only
    split <;> exact ⟨rfl, rfl⟩
  have hp : s.progress ctx ≤
      Lowering.progress ctx { s with gen := { s.gen with pool := (s.gen.pool.constant v).2 } } := by
    refine ⟨⟨le_rfl, le_rfl, le_rfl, le_rfl, hc.1, ?_, ?_⟩, Pool.le_constant _ _, le_rfl, le_rfl,
      fun _ _ h => h⟩
    · exact le_of_eq (congrArg List.length hsame.2.symm)
    · exact le_of_eq (congrArg List.length hsame.1.symm)
  exact ⟨inRange_of_same hs hp rfl rfl rfl hsame.1, hp, hc.2⟩

/-- **A label is bound** to where the code ends so far, unless it is bound already. -/
theorem bind_ranged {l : Nat} (hl : l < L.labels) : Ranged size L (Gen.bind l : Lower Unit)
    fun L' _ => ∃ i, L'.bound l = some i ∧ L.code ≤ i ∧ i ≤ L'.code := by
  intro ctx s hctx hs hL
  rw [after_lift, Gen.after_bindLabel]
  split
  · trivial
  · rename_i hfree
    have hlt : l < s.gen.binds.length := lt_of_lt_of_le hl hL.labels
    have hbound : ∀ k, (Lowering.progress ctx { s with gen := s.gen.bindLabel l }).bound k =
        if l = k then some s.gen.instructions.length else (s.progress ctx).bound k :=
      GenCall.getD_set_some s.gen.binds hlt s.gen.instructions.length
    have hp : s.progress ctx ≤ Lowering.progress ctx { s with gen := s.gen.bindLabel l } := by
      refine ⟨.refl _, .refl _, le_rfl, by simp [Lowering.progress, Generator.bindLabel],
        fun k i hk => ?_⟩
      rw [hbound, if_neg]
      · exact hk
      · rintro rfl
        have hk' : s.gen.binds.getD l none = some i := hk
        rw [hk'] at hfree
        exact hfree rfl
    refine ⟨⟨hs.fits, hs.code, fun k i hk => ?_, hs.vars, hs.functions⟩, hp,
      s.gen.instructions.length, by rw [hbound, if_pos rfl], hL.code, le_rfl⟩
    rw [hbound] at hk
    split at hk
    · cases hk
      exact le_rfl
    · exact hs.binds k i hk

theorem bind_runs (l : Nat) : Runs size L (Gen.bind l : Lower Unit) := by
  intro ctx s hctx hs hL
  rcases Nat.lt_or_ge l s.gen.binds.length with hl | hl
  · exact (bind_ranged (L := s.progress ctx) hl).runs ctx s hctx hs le_rfl
  · rw [after_lift, Gen.after_bindLabel]
    have hsame : s.gen.bindLabel l = s.gen := by
      simp [Generator.bindLabel, List.set_eq_of_length_le hl]
    split
    · trivial
    · rw [hsame]
      exact ⟨hs, le_rfl, trivial⟩

/-- A label for the next instruction. -/
theorem entry_ranged :
    Ranged size L entry fun L' l => ∃ i, L'.bound l = some i ∧ L.code ≤ i ∧ i ≤ L'.code := by
  refine newLabel_ranged.bind fun l L₁ h₁ hl => ?_
  refine (bind_ranged hl).bind fun _ L₂ h₂ ⟨i, hb, hle, hge⟩ => ?_
  exact pure_ranged fun L' h => ⟨i, h.bound l i hb, le_trans h₁.code hle, le_trans hge h.code⟩

/-! ### Constructs that stop early -/

theorem pushFrame_runs (kind : FrameKind) : Runs size L (Gen.pushFrame kind : Lower Unit) := by
  unfold Gen.pushFrame
  refine lift_bind_ranged (newLabel_ranged.bind fun skip L₁ h₁ _ => ?_)
  refine lift_bind_ranged (newLabel_ranged.bind fun done L₂ h₂ _ => ?_)
  intro ctx s hctx hs hL
  rw [after_lift, Gen.after_modify]
  exact ⟨inRange_of_same hs (le_refl _) rfl rfl rfl rfl, le_refl _, trivial⟩

theorem topFrame_runs (kind : FrameKind) : Runs size L (Gen.topFrame kind : Lower Frame) := by
  intro ctx s hctx hs hL
  rw [after_lift, Gen.after_topFrame]
  split
  · split
    · exact ⟨hs, le_rfl, trivial⟩
    · trivial
  · trivial

theorem popFrame_runs (kind : FrameKind) : Runs size L (Gen.popFrame kind : Lower Frame) := by
  unfold Gen.popFrame
  refine lift_bind_ranged ((topFrame_runs kind).bind fun f L₁ h₁ _ => ?_)
  intro ctx s hctx hs hL
  rw [after_lift, Gen.after_bind, Gen.after_modify, Gen.after_pure]
  exact ⟨inRange_of_same hs (le_refl _) rfl rfl rfl rfl, le_refl _, trivial⟩

theorem jumpTo_emits (l : Nat) : Emits size L (Gen.jump l : Lower Unit) :=
  emit_emits (by simp)

theorem jumpIfNot_emits {cond : Address} (h : cond.Within L.toScope) (l : Nat) :
    Emits size L (Gen.jumpIfNot cond l : Lower Unit) :=
  emit_emits (by simpa using h)

end Lower

end GameScript
