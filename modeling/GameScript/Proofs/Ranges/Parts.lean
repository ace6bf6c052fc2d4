import GameScript.Proofs.Ranges.Steps

/-!
# Operands of expressions

The code of expressions, calls and assignments keeps operands in range if that of their parts does:
variables have the addresses they were added with, temporaries are below the greatest depth of the stack,
and names and constants are taken from the pool that they have been put in.
-/

namespace GameScript

namespace Lower

variable {α : Type} {size : Nat → Option Nat} {L : Progress}

/-! ### Addresses that need no code -/

@[simp] theorem within_nil {e : Scope} : Address.nil.Within e := Nat.one_pos

@[simp] theorem within_self {e : Scope} : Address.self.Within e := Nat.one_pos

@[simp] theorem within_cls {e : Scope} : Address.cls.Within e := Nat.one_pos

/-- The type of an address says nothing about where it is. -/
theorem within_retype {a : Address} {e : Scope} (h : a.Within e) (t : StaticType) :
    Address.Within { a with type := t } e := h

/-! ### Lines and variables -/

theorem setLine_runs (p : Pos) : Runs size L (setLine p) := by
  unfold setLine
  refine current_runs.bind fun s L₁ _ _ => ?_
  split
  · refine (setLine_gen_runs _).bind fun _ L₂ _ _ => ?_
    refine read_runs.bind fun ctx L₃ _ _ => ?_
    split
    · exact emit_runs (by simp)
    · exact pure_runs _
  · exact pure_runs _

theorem balanced_ranged {x : Lower Unit} {R : Progress → Unit → Prop} (hx : Ranged size L x R) :
    Ranged size L (balanced x) R := by
  intro ctx s hctx hs hL
  unfold balanced
  rw [after_bind, after_current]
  refine (hx ctx s hctx hs hL).bind fun _ s₁ h₁ => ?_
  rw [after_bind, after_current]
  dsimp only
  split
  · trivial
  · exact h₁

/-- A state with one more variable. -/
theorem inRange_of_set {ctx : LowerContext} {s s' : Lowering} (h : s.InRange size ctx)
    (hp : s.progress ctx ≤ s'.progress ctx) (hg : s'.gen = s.gen) {anchor : Pos} {a : Address}
    (hv : s'.vars = s.vars.set anchor a) (ha : a.Within (s'.progress ctx).toScope) :
    s'.InRange size ctx := by
  have hb : (s'.progress ctx).bound = (s.progress ctx).bound := by simp [Lowering.progress, hg]
  refine ⟨hg ▸ h.fits, fun i hi => (h.code i (hg ▸ hi)).mono hp.scope, ?_, fun p b hb => ?_,
    hg ▸ h.functions⟩
  · rw [hb, hg]
    exact h.binds
  · rw [hv, Table.get?_set] at hb
    split at hb
    · cases hb
      exact ha
    · exact (h.vars p b hb).le hp

theorem addParam_runs (anchor : Pos) (name : Text) (pos : Pos) (t : StaticType) :
    Runs size L (addParam anchor name pos t) := by
  intro ctx s hctx hs hL
  unfold addParam
  rw [after_bind, after_slotOf]
  generalize ({ name, place := .ofPos pos, type := .ofStatic ctx.session.types t } : VarSlot) = slot
  rw [after_bind, after_current, after_bind, after_bindVar, after_update]
  have hlen : s.params.length < (s.params ++ [slot]).length := by simp
  have hp : s.progress ctx ≤ Lowering.progress ctx { s with
      vars := s.vars.set anchor ⟨.parameter, s.params.length, t⟩
      params := s.params ++ [slot] } :=
    ⟨⟨le_rfl, le_of_lt hlen, le_rfl, le_rfl, le_rfl, le_rfl, le_rfl⟩, .refl _, le_rfl, le_rfl,
      fun _ _ h => h⟩
  exact ⟨inRange_of_set hs hp rfl rfl hlen, hp, trivial⟩

theorem addLocal_locates (id : Ident) (t : StaticType) : Locates size L (addLocal id t) := by
  intro ctx s hctx hs hL
  unfold addLocal
  rw [after_bind, after_slotOf]
  generalize ({ name := id.name, place := .ofPos id.pos, type := .ofStatic ctx.session.types t } :
    VarSlot) = slot
  rw [after_bind, after_current, after_bind, after_bindVar, after_bind, after_update, after_pure]
  have hlen : s.locals.length < (s.locals ++ [slot]).length := by simp
  have hp : s.progress ctx ≤ Lowering.progress ctx { s with
      vars := s.vars.set id.pos ⟨.localVar, s.locals.length, t⟩
      locals := s.locals ++ [slot] } :=
    ⟨⟨le_rfl, le_rfl, le_of_lt hlen, le_rfl, le_rfl, le_rfl, le_rfl⟩, .refl _, le_rfl, le_rfl,
      fun _ _ h => h⟩
  exact ⟨inRange_of_set hs hp rfl rfl hlen, hp, hlen⟩

theorem member_ranged (pos : Option Pos) (name : Text) :
    Ranged size L (member pos name) fun L' m => m.index.toNat < L'.members := by
  intro ctx s hctx hs hL
  unfold member
  rw [after_bind, after_read]
  dsimp only
  split
  · rename_i m hm
    exact ⟨hs, le_rfl, hctx.members m (List.mem_of_find?_eq_some hm)⟩
  · cases pos <;> trivial

/-- A variable of the instance. -/
theorem within_member {m : MemberSlot} (h : m.index.toNat < L.members) (t : StaticType) :
    Address.Within ⟨.member, m.index.toNat, t⟩ L.toScope := h

theorem paramAt_locates (p : Pos) : Locates size L (paramAt p) := by
  refine current_bind fun ctx s hctx hs hL => ?_
  rw [after_pure]
  refine ⟨hs, le_rfl, ?_⟩
  cases h : s.vars.get? p with
  | none => exact within_nil
  | some a => exact hs.vars p a h

theorem localVar_locates (id : Ident) : Locates size L (localVar id) := by
  refine current_bind fun ctx s hctx hs hL => ?_
  dsimp only
  split
  · rename_i a ha
    refine ⟨hs, le_rfl, within_retype ?_ _⟩
    split at ha
    · exact hs.vars _ a ha
    · cases ha
  · trivial

/-! ### Storing values -/

theorem scriptConstant_locates (t : StaticType) : Locates size L (scriptConstant t) := by
  unfold scriptConstant
  refine types_runs.bind fun ctx L₁ _ _ => ?_
  split
  · exact constant_locates _
  · exact constant_locates _
  · exact contradiction_ranged

theorem assign_emits {dst src : Address} (hd : dst.Within L.toScope) (hs : src.Within L.toScope)
    (converts : Bool) : Emits size L (assign dst src converts) := by
  have hplain : Emits size L (Gen.emit .assign [dst.encode, src.encode] : Lower Unit) :=
    emit_emits (by simpa using ⟨hd, hs⟩)
  unfold assign
  dsimp only
  split
  · exact hplain
  · split
    · exact emit_emits (by simpa using ⟨hd, hs⟩)
    · exact emit_emits (by simpa using ⟨hd, hs⟩)
    · refine (name_gen_ranged _).bind fun n L₁ h₁ hn => ?_
      refine (emit_emits (by simpa using ⟨hd.le h₁, hs.le h₁, hn⟩)).imp fun L' _ _ h => ?_
      exact lt_of_le_of_lt h₁.code h
    · refine (scriptConstant_locates _).bind fun c L₁ h₁ hc => ?_
      refine (emit_emits (by simpa using ⟨hd.le h₁, hs.le h₁, hc⟩)).imp fun L' _ _ h => ?_
      exact lt_of_le_of_lt h₁.code h
    · refine (scriptConstant_locates _).bind fun c L₁ h₁ hc => ?_
      refine (emit_emits (by simpa using ⟨hd.le h₁, hs.le h₁, hc⟩)).imp fun L' _ _ h => ?_
      exact lt_of_le_of_lt h₁.code h
    · exact hplain

theorem emitList_runs {op : Opcode} {list : List Address} {args : List Nat}
    (h : (⟨op, args ++ list.length :: list.map Address.encode⟩ : Instruction).Within L.toScope
      fun _ => True) : Runs size L (Gen.emitList op list args : Lower Unit) :=
  emit_runs h

theorem storeDefault_runs {dst : Address} (hd : dst.Within L.toScope) (t : StaticType) :
    Runs size L (storeDefault dst t) := by
  have hplain : Runs size L (do Gen.emit .assign [dst.encode, (← Gen.constant .nil).encode] : Lower Unit) := by
    refine (constant_locates _).bind fun c L₁ h₁ hc => ?_
    exact emit_runs (by simpa using ⟨hd.le h₁, hc⟩)
  have hzero : Runs size L (Gen.emitList .construct [] [dst.encode, t.tag.number] : Lower Unit) :=
    emitList_runs (by simpa using hd)
  unfold storeDefault
  dsimp only
  split
  · exact hplain
  · split
    · split
      · exact hzero
      · refine types_runs.bind fun ctx L₁ h₁ _ => ?_
        refine (name_gen_ranged _).bind fun n L₂ h₂ hn => ?_
        exact emitList_runs (by simpa using ⟨(hd.le h₁).le h₂, hn⟩)
    · exact hplain
    · exact hzero
    · exact hzero
    · exact hplain

/-! ### Names -/

theorem fetch_locates (t : StaticType) {op : Opcode} {operands : List Nat}
    (h : ∀ dst : Address, ∀ L', L ≤ L' → dst.Within L'.toScope →
      (⟨op, dst.encode :: operands⟩ : Instruction).Within L'.toScope fun _ => True) :
    Locates size L (fetch t op operands) := by
  unfold fetch
  refine (addTemporary_locates t).bind fun dst L₁ h₁ hd => ?_
  refine (emit_runs (h dst L₁ h₁ hd)).bind fun _ L₂ h₂ _ => ?_
  exact pure_ranged fun L' h => (hd.le h₂).le h

theorem name_locates (id : Ident) : Locates size L (name id) := by
  have hnamed : ∀ {L : Progress} (op : Opcode) (t : StaticType), op.shape = [.address, .name] →
      Locates size L (do fetch t op [← Gen.name id.name]) := by
    intro L op t hop
    refine (name_gen_ranged _).bind fun n L₁ h₁ hn => ?_
    refine fetch_locates t fun dst L' h hd => ?_
    rw [Instruction.within_mk, hop]
    simpa using ⟨hd, lt_of_lt_of_le hn h.scope.names⟩
  have hof : ∀ {L : Progress} (base : Address) (t : StaticType), (∀ e, base.Within e) →
      Locates size L (do fetch t .getNamed [base.encode, ← Gen.name id.name]) := by
    intro L base t hbase
    refine (name_gen_ranged _).bind fun n L₁ h₁ hn => ?_
    exact fetch_locates t fun dst L' h hd => by
      simpa using ⟨hd, hbase _, lt_of_lt_of_le hn h.scope.names⟩
  unfold name
  dsimp only
  split
  · exact localVar_locates id
  · exact localVar_locates id
  · exact localVar_locates id
  · exact localVar_locates id
  · exact localVar_locates id
  · refine (member_ranged _ _).bind fun m L₁ h₁ hm => ?_
    refine (inAccessor_runs m).bind fun b L₂ h₂ _ => ?_
    split
    · refine (addTemporary_locates _).bind fun dst L₃ h₃ hd => ?_
      refine (name_gen_ranged _).bind fun n L₄ h₄ hn => ?_
      refine (emitList_runs (by simpa using ⟨hd.le h₄, hn⟩)).bind fun _ L₅ h₅ _ => ?_
      exact pure_ranged fun L' h => ((hd.le h₄).le h₅).le h
    · exact pure_ranged fun L' h => ((within_member hm _).le h₂).le h
  · exact hnamed .getMember _ rfl
  · exact hof _ _ fun _ => within_self
  · exact hof _ _ fun _ => within_self
  · exact (hnamed .getGlobal _ rfl).ite (hof _ _ fun _ => within_cls)
  · exact (hnamed .getGlobal _ rfl).ite (hof _ _ fun _ => within_cls)
  · refine read_runs.bind fun ctx L₁ h₁ _ => ?_
    split
    · exact (report_ranged (R := fun _ _ => False)).bind fun _ _ _ h => h.elim
    · exact hnamed .getGlobal _ rfl

/-! ### Expressions -/

theorem releaseAll_runs (as : List Address) : Runs size L (Gen.releaseAll as : Lower Unit) := by
  unfold Gen.releaseAll
  induction as.reverse generalizing L with
  | nil => exact pure_runs _
  | cons a as ih =>
    exact lift_bind_ranged ((release_runs a).bind fun _ _ _ _ => ih)

theorem direct?_ranged (e : Expr) :
    Ranged size L (direct? e) fun L' r => ∀ a ∈ r, a.Within L'.toScope := by
  unfold direct?
  dsimp only
  split
  · refine (placeText_runs _).bind fun _ _ _ _ => ?_
    exact (contradiction_ranged (R := fun _ _ => False)).bind fun _ _ _ h => h.elim
  · refine read_runs.bind fun ctx L₁ _ _ => ?_
    split
    · exact pure_ranged fun L' _ a ha => by
        cases ha
        exact within_cls
    · split
      · split
        · refine (constant_locates _).bind fun c L₂ _ hc => pure_ranged fun L' h a ha => ?_
          cases ha
          exact hc.le h
        · exact pure_ranged (by simp)
      · exact pure_ranged (by simp)

theorem array_locates (t : StaticType) {items : Lower (List Address)}
    (hi : ∀ L, LocatesAll size L items) : Locates size L (array t items) := by
  unfold array
  refine (addTemporary_locates t).bind fun dst L₁ h₁ hd => ?_
  refine (hi L₁).bind fun items L₂ h₂ hitems => ?_
  dsimp only
  split
  · refine types_runs.bind fun ctx L₃ h₃ _ => ?_
    refine (name_gen_ranged _).bind fun n L₄ h₄ hn => ?_
    have hitems₄ := fun a ha => (hitems a ha).le (le_trans h₃ h₄)
    refine (emitList_runs (by simp; grind)).bind fun _ L₅ h₅ _ => ?_
    refine (releaseAll_runs items).bind fun _ L₆ h₆ _ => ?_
    exact pure_ranged (by grind)
  · refine (emitList_runs (by simp; grind)).bind fun _ L₃ h₃ _ => ?_
    refine (releaseAll_runs items).bind fun _ L₄ h₄ _ => ?_
    exact pure_ranged (by grind)

theorem dictionary_locates (t : StaticType) {items : Lower (List Address)}
    (hi : ∀ L, LocatesAll size L items) : Locates size L (dictionary t items) := by
  unfold dictionary
  refine (addTemporary_locates t).bind fun dst L₁ h₁ hd => ?_
  refine (hi L₁).bind fun items L₂ h₂ hitems => ?_
  refine (emitList_runs (by simp; grind)).bind fun _ L₃ h₃ _ => ?_
  refine (releaseAll_runs items).bind fun _ L₄ h₄ _ => ?_
  exact pure_ranged (by grind)

theorem property_locates (t : StaticType) {base : Lower Address} (hb : ∀ L, Locates size L base)
    (n : Text) : Locates size L (property t base n) := by
  unfold property
  refine (addTemporary_locates t).bind fun dst L₁ h₁ hd => ?_
  refine (hb L₁).bind fun base L₂ h₂ hbase => ?_
  refine (name_gen_ranged n).bind fun n L₃ h₃ hn => ?_
  refine (emit_runs (by simp; grind)).bind fun _ L₄ h₄ _ => ?_
  refine (release_runs base).bind fun _ L₅ h₅ _ => ?_
  exact pure_ranged (by grind)

theorem element_locates (t : StaticType) {base key : Lower Address} (hb : ∀ L, Locates size L base)
    (hk : ∀ L, Locates size L key) : Locates size L (element t base key) := by
  unfold element
  refine (addTemporary_locates t).bind fun dst L₁ h₁ hd => ?_
  refine (hb L₁).bind fun base L₂ h₂ hbase => ?_
  refine (hk L₂).bind fun key L₃ h₃ hkey => ?_
  refine (emit_runs (by simp; grind)).bind fun _ L₄ h₄ _ => ?_
  refine (release_runs key).bind fun _ L₅ h₅ _ => ?_
  refine (release_runs base).bind fun _ L₆ h₆ _ => ?_
  exact pure_ranged (by grind)

/-! ### Operators -/

theorem operation_runs {dst x y : Address} (hd : dst.Within L.toScope) (hx : x.Within L.toScope)
    (hy : y.Within L.toScope) (ts : List StaticType) (op : Operator) :
    Runs size L (Gen.emit (operation ts) [dst.encode, op.number, x.encode, y.encode] : Lower Unit) := by
  refine emit_runs ?_
  rw [Instruction.within_mk, shape_operation]
  simpa using ⟨hd, hx, hy⟩

theorem negate_runs {dst : Address} (hd : dst.Within L.toScope) : Runs size L (negate dst) :=
  emit_runs (by simpa using hd)

theorem unary_locates (t : StaticType) (op : Operator) {x : Lower Address}
    (hx : ∀ L, Locates size L x) : Locates size L (unary t op x) := by
  unfold unary
  refine (addTemporary_locates t).bind fun dst L₁ h₁ hd => ?_
  refine (hx L₁).bind fun x L₂ h₂ hx => ?_
  refine (operation_runs (hd.le h₂) hx within_nil _ _).bind fun _ L₃ h₃ _ => ?_
  refine (release_runs x).bind fun _ L₄ h₄ _ => ?_
  exact pure_ranged (by grind)

theorem binary_locates (t : StaticType) (op : BinaryOp) {x y : Lower Address}
    (hx : ∀ L, Locates size L x) (hy : ∀ L, Locates size L y) :
    Locates size L (binary t op x y) := by
  unfold binary
  refine (addTemporary_locates t).bind fun dst L₁ h₁ hd => ?_
  refine (hx L₁).bind fun x L₂ h₂ hx => ?_
  refine (hy L₂).bind fun y L₃ h₃ hy => ?_
  refine (operation_runs (by grind) (hx.le h₃) hy _ _).bind fun _ L₄ h₄ _ => ?_
  refine (release_runs y).bind fun _ L₅ h₅ _ => ?_
  refine (release_runs x).bind fun _ L₆ h₆ _ => ?_
  dsimp only
  split
  · refine (negate_runs (by grind)).bind fun _ L₇ h₇ _ => ?_
    exact pure_ranged (by grind)
  · exact pure_ranged (by grind)

/-- A step of generation that only looks at an address which the caller keeps. -/
def Decides (size : Nat → Option Nat) (decide : Address → Gen Unit) : Prop :=
  ∀ L a, a.Within L.toScope → Emits size L (decide a : Lower Unit)

theorem topFrame_emits {kind : FrameKind} {f : Frame → Gen Unit}
    (hf : ∀ frame L', L ≤ L' → Emits size L' (f frame : Lower Unit)) :
    Emits size L (liftM (Gen.topFrame kind >>= f) : Lower Unit) :=
  lift_bind_ranged ((topFrame_runs kind).bind fun frame L₁ h₁ _ =>
    (hf frame L₁ h₁).imp fun _ _ _ h => lt_of_le_of_lt h₁.code h)

theorem andOperand_decides : Decides size Gen.andOperand := fun _ _ ha =>
  topFrame_emits fun _ _ h => jumpIfNot_emits (ha.le h) _

theorem orOperand_decides : Decides size Gen.orOperand := fun _ _ ha =>
  topFrame_emits fun _ _ h => emit_emits (by simpa using ha.le h)

theorem ternaryCondition_decides : Decides size Gen.ternaryCondition := fun _ _ ha =>
  topFrame_emits fun _ _ h => jumpIfNot_emits (ha.le h) _

theorem operand_runs {decide : Address → Gen Unit} (hd : Decides size decide) {x : Lower Address}
    (hx : Locates size L x) : Runs size L (operand decide x) := by
  unfold operand
  refine hx.bind fun x L₁ h₁ hx => ?_
  refine (hd L₁ x hx).bind fun _ L₂ h₂ _ => ?_
  exact release_runs x

theorem endLogical_runs (kind : FrameKind) {dst : Address} (hd : dst.Within L.toScope) (last : Bool) :
    Runs size L (Gen.endLogical kind dst last : Lower Unit) := by
  have hstep : ∀ {L : Progress} (f : Frame) (b : Bool) (k : Gen Unit), dst.Within L.toScope →
      (∀ L', dst.Within L'.toScope → Runs size L' (k : Lower Unit)) →
      Runs size L (liftM (do
        Gen.emit .assign [dst.encode, (← Gen.boolean b).encode]
        k) : Lower Unit) := by
    intro L f b k hd hk
    refine lift_bind_ranged ((constant_locates _).bind fun c L₁ h₁ hc => ?_)
    refine lift_bind_ranged ((emit_runs (by simpa using ⟨hd.le h₁, hc⟩)).bind fun _ L₂ h₂ _ => ?_)
    exact hk L₂ (by grind)
  unfold Gen.endLogical
  refine lift_bind_ranged ((popFrame_runs kind).bind fun f L₁ h₁ _ => ?_)
  refine hstep f _ _ (hd.le h₁) fun L₂ hd₂ => ?_
  refine lift_bind_ranged ((jumpTo_emits _).bind fun _ L₃ h₃ _ => ?_)
  refine lift_bind_ranged ((bind_runs _).bind fun _ L₄ h₄ _ => ?_)
  exact hstep f _ _ (by grind) fun L₅ _ => bind_runs _

theorem logical_locates (isAnd : Bool) {x y : Lower Address} (hx : ∀ L, Locates size L x)
    (hy : ∀ L, Locates size L y) : Locates size L (logical isAnd x y) := by
  unfold logical
  refine (addTemporary_locates _).bind fun dst L₁ h₁ hd => ?_
  dsimp only
  split
  · refine (pushFrame_runs _).bind fun _ L₂ h₂ _ => ?_
    refine (operand_runs andOperand_decides (hx _)).bind fun _ L₃ h₃ _ => ?_
    refine (operand_runs andOperand_decides (hy _)).bind fun _ L₄ h₄ _ => ?_
    refine (endLogical_runs .and (by grind) true).bind fun _ L₅ h₅ _ => ?_
    exact pure_ranged (by grind)
  · refine (pushFrame_runs _).bind fun _ L₂ h₂ _ => ?_
    refine (operand_runs orOperand_decides (hx _)).bind fun _ L₃ h₃ _ => ?_
    refine (operand_runs orOperand_decides (hy _)).bind fun _ L₄ h₄ _ => ?_
    refine (endLogical_runs .or (by grind) false).bind fun _ L₅ h₅ _ => ?_
    exact pure_ranged (by grind)

theorem branch_runs {dst : Address} (hd : dst.Within L.toScope) {x : Lower Address}
    (hx : Locates size L x) : Runs size L (branch dst x) := by
  unfold branch
  refine hx.bind fun x L₁ h₁ hx => ?_
  refine (emit_runs (by simp; grind)).bind fun _ L₂ h₂ _ => ?_
  exact release_runs x

theorem ternaryElse_runs : Runs size L (Gen.ternaryElse : Lower Unit) := by
  unfold Gen.ternaryElse
  refine lift_bind_ranged ((topFrame_runs _).bind fun f L₁ h₁ _ => ?_)
  exact lift_bind_ranged ((jumpTo_emits _).bind fun _ L₂ h₂ _ => bind_runs _)

theorem endTernary_runs : Runs size L (Gen.endTernary : Lower Unit) :=
  lift_bind_ranged ((popFrame_runs _).bind fun _ _ _ _ => bind_runs _)

theorem conditional_locates (t : StaticType) {cond yes no : Lower Address}
    (hc : ∀ L, Locates size L cond) (hy : ∀ L, Locates size L yes) (hn : ∀ L, Locates size L no) :
    Locates size L (conditional t cond yes no) := by
  unfold conditional
  refine (addTemporary_locates t).bind fun dst L₁ h₁ hd => ?_
  refine (pushFrame_runs _).bind fun _ L₂ h₂ _ => ?_
  refine (operand_runs ternaryCondition_decides (hc _)).bind fun _ L₃ h₃ _ => ?_
  refine (branch_runs (by grind) (hy _)).bind fun _ L₄ h₄ _ => ?_
  refine ternaryElse_runs.bind fun _ L₅ h₅ _ => ?_
  refine (branch_runs (by grind) (hn _)).bind fun _ L₆ h₆ _ => ?_
  refine endTernary_runs.bind fun _ L₇ h₇ _ => ?_
  exact pure_ranged (by grind)

/-! ### Types -/

theorem test_runs {dst x : Address} (hd : dst.Within L.toScope) (hx : x.Within L.toScope)
    (t : StaticType) : Runs size L (test dst x t) := by
  have hscript : Runs size L (do
      Gen.emit .typeTestScript [dst.encode, x.encode, (← scriptConstant t).encode] : Lower Unit) :=
    (scriptConstant_locates t).bind fun c L₁ h₁ hc => emit_runs (by simp; grind)
  unfold test
  split
  · exact emit_runs (by simpa using ⟨hd, hx⟩)
  · exact emit_runs (by simpa using ⟨hd, hx⟩)
  · exact (name_gen_ranged _).bind fun n L₁ h₁ hn => emit_runs (by simp; grind)
  · exact hscript
  · exact hscript
  · exact (constant_locates _).bind fun c L₁ h₁ hc => emit_runs (by simp; grind)

theorem typeTest_locates (t : StaticType) {x : Lower Address} (hx : ∀ L, Locates size L x)
    (negated : Bool) (type : StaticType) : Locates size L (typeTest t x negated type) := by
  unfold typeTest
  refine (addTemporary_locates t).bind fun dst L₁ h₁ hd => ?_
  refine (hx L₁).bind fun x L₂ h₂ hx => ?_
  refine (test_runs (hd.le h₂) hx type).bind fun _ L₃ h₃ _ => ?_
  refine (release_runs x).bind fun _ L₄ h₄ _ => ?_
  dsimp only
  split
  · refine (negate_runs (by grind)).bind fun _ L₅ h₅ _ => ?_
    exact pure_ranged (by grind)
  · exact pure_ranged (by grind)

theorem cast_locates (t : StaticType) {x : Lower Address} (hx : ∀ L, Locates size L x) :
    Locates size L (cast t x) := by
  unfold cast
  dsimp only
  split
  · exact hx L
  · refine (addTemporary_locates t).bind fun dst L₁ h₁ hd => ?_
    refine (hx L₁).bind fun x L₂ h₂ hx => ?_
    have hend : ∀ L₃, L₂ ≤ L₃ → Locates size L₃ (do
        Gen.release x
        return dst) := fun L₃ h₃ =>
      (release_runs x).bind fun _ L₄ h₄ _ => pure_ranged (by grind)
    have hscript : Locates size L₂ (do
        Gen.emit .castScript [dst.encode, x.encode, (← scriptConstant t).encode]
        Gen.release x
        return dst) := by
      refine (scriptConstant_locates t).bind fun c L₃ h₃ hc => ?_
      exact (emit_runs (by simp; grind)).bind fun _ L₄ h₄ _ => hend L₄ (by grind)
    split
    · exact (emit_runs (by simp; grind)).bind fun _ L₃ h₃ _ => hend L₃ h₃
    · exact (emit_runs (by simp; grind)).bind fun _ L₃ h₃ _ => hend L₃ h₃
    · refine (name_gen_ranged _).bind fun n L₃ h₃ hn => ?_
      exact (emit_runs (by simp; grind)).bind fun _ L₄ h₄ _ => hend L₄ (by grind)
    · exact hscript
    · exact hscript
    · refine types_runs.bind fun _ _ _ _ => ?_
      exact (contradiction_ranged (R := fun _ _ => False)).bind fun _ _ _ h => h.elim

theorem await_locates (t : StaticType) {x : Lower Address} (hx : ∀ L, Locates size L x) :
    Locates size L (await t x) := by
  unfold await
  refine (addTemporary_locates t).bind fun dst L₁ h₁ hd => ?_
  refine (hx L₁).bind fun x L₂ h₂ hx => ?_
  refine (emit_runs (by simp; grind)).bind fun _ L₃ h₃ _ => ?_
  refine (release_runs x).bind fun _ L₄ h₄ _ => ?_
  exact pure_ranged (by grind)

theorem names_locateAll (ids : List Ident) : LocatesAll size L (ids.mapM name) := by
  induction ids generalizing L with
  | nil => exact pure_ranged (by simp)
  | cons id ids ih =>
    rw [List.mapM_cons]
    refine (name_locates id).bind fun a L₁ h₁ ha => ?_
    refine ih.bind fun as L₂ h₂ has => pure_ranged fun L' h => ?_
    simp only [List.mem_cons, forall_eq_or_imp]
    grind

theorem closure_locates (t : StaticType) {function : Nat} (hf : function < L.functions)
    (captures : List Ident) (usesSelf : Bool) : Locates size L (closure t function captures usesSelf) := by
  unfold closure
  refine (addTemporary_locates t).bind fun dst L₁ h₁ hd => ?_
  refine (names_locateAll captures).bind fun values L₂ h₂ hv => ?_
  have hf₂ : function < L₂.functions := lt_of_lt_of_le hf (le_trans h₁ h₂).scope.functions
  have hemit : Runs size L₂ (Gen.emitList (if usesSelf then .createSelfLambda else .createLambda) values
      [dst.encode, function] : Lower Unit) := by
    refine emitList_runs ?_
    cases usesSelf
    · simpa using ⟨hd.le h₂, hf₂, hv⟩
    · simpa using ⟨hd.le h₂, hf₂, hv⟩
  refine hemit.bind fun _ L₃ h₃ _ => ?_
  refine (releaseAll_runs values).bind fun _ L₄ h₄ _ => ?_
  exact pure_ranged (by grind)

/-! ### Calls -/

theorem callName_runs {op : Opcode} (hop : op.shape = [.address, .name, .list]) {dst : Address}
    (hd : dst.Within L.toScope) (n : Text) {args : Lower (List Address)}
    (ha : ∀ L, LocatesAll size L args) : Runs size L (callName op dst n args) := by
  unfold callName
  refine (ha L).bind fun args L₁ h₁ hargs => ?_
  refine (name_gen_ranged n).bind fun n L₂ h₂ hn => ?_
  have hemit : Runs size L₂ (Gen.emitList op args [dst.encode, n] : Lower Unit) := by
    refine emitList_runs ?_
    rw [Instruction.within_mk, hop]
    simp
    grind
  exact hemit.bind fun _ L₃ h₃ _ => releaseAll_runs args

theorem callMethod_runs {op : Opcode} (hop : op.shape = [.address, .address, .name, .list])
    {dst : Address} (hd : dst.Within L.toScope) {base : Lower Address} (hb : ∀ L, Locates size L base)
    (n : Text) {args : Lower (List Address)} (ha : ∀ L, LocatesAll size L args) :
    Runs size L (callMethod op dst base n args) := by
  unfold callMethod
  refine (hb L).bind fun base L₁ h₁ hbase => ?_
  refine (ha L₁).bind fun args L₂ h₂ hargs => ?_
  refine (name_gen_ranged n).bind fun n L₃ h₃ hn => ?_
  have hemit : Runs size L₃ (Gen.emitList op args [dst.encode, base.encode, n] : Lower Unit) := by
    refine emitList_runs ?_
    rw [Instruction.within_mk, hop]
    simp
    grind
  refine hemit.bind fun _ L₄ h₄ _ => ?_
  exact (releaseAll_runs args).bind fun _ L₅ h₅ _ => release_runs base

theorem construct_runs {dst : Address} (hd : dst.Within L.toScope) (t : BuiltinType)
    {args : Lower (List Address)} (ha : ∀ L, LocatesAll size L args) :
    Runs size L (construct dst t args) := by
  have hmake : ∀ {args : Lower (List Address)}, LocatesAll size L args → Runs size L (do
      let args ← args
      Gen.emitList .construct args [dst.encode, t.number]
      Gen.releaseAll args) := by
    intro args ha
    refine ha.bind fun args L₁ h₁ hargs => ?_
    refine (emitList_runs (by simp; grind)).bind fun _ L₂ h₂ _ => ?_
    exact releaseAll_runs args
  unfold construct
  exact Ranged.ite (hmake (pure_ranged (by simp))) (hmake (ha L))

theorem pure_locates {a : Address} (h : ∀ e, a.Within e) : Locates size L (pure a) :=
  pure_ranged fun _ _ => h _

section Calls

variable {dst : Address} (hd : dst.Within L.toScope) {args : Lower (List Address)}
  (ha : ∀ L, LocatesAll size L args)

include hd ha

theorem callOwn_runs (id : Ident) (facts : CallFacts) : Runs size L (callOwn dst id facts args) := by
  unfold callOwn
  refine Ranged.ite (callName_runs rfl hd _ ha) (Ranged.ite ?_ (Ranged.ite ?_ ?_))
  · exact callMethod_runs rfl hd (fun _ => pure_locates fun _ => within_cls) _ ha
  · exact callMethod_runs rfl hd (fun _ => pure_locates fun _ => within_self) _ ha
  · exact callName_runs rfl hd _ ha

theorem callNamed_runs (id : Ident) (facts : CallFacts) :
    Runs size L (callNamed dst id facts args) := by
  unfold callNamed
  split
  · exact callOwn_runs hd ha id facts
  · split
    · exact construct_runs hd _ ha
    · exact Ranged.ite (callName_runs rfl hd _ ha)
        (Ranged.ite (callName_runs rfl hd _ ha) (callOwn_runs hd ha id facts))

theorem callOn_runs (x : Expr) (id : Ident) (facts : CallFacts) (actual : List Expr)
    {base : Lower Address} (hb : ∀ L, Locates size L base) :
    Runs size L (callOn dst x id facts actual base args) := by
  unfold callOn
  dsimp only
  refine Ranged.ite (callMethod_runs rfl hd hb _ ha) (Ranged.ite (callName_runs rfl hd _ ha)
    (Ranged.ite (callMethod_runs rfl hd hb _ ha) ?_))
  split
  · refine types_runs.bind fun ctx L₁ h₁ _ => ?_
    refine callMethod_runs ?_ (hd.le h₁) hb _ ha
    split <;> rfl
  · refine callMethod_runs ?_ hd hb _ ha
    split <;> rfl

theorem call_runs (fn : Expr) (facts : CallFacts) (actual : List Expr) {base : Lower Address}
    (hb : ∀ L, Locates size L base) : Runs size L (call dst fn facts actual base args) := by
  unfold call
  split
  · exact callNamed_runs hd ha _ facts
  · exact callOn_runs hd ha _ _ facts actual hb
  · exact (placeText_runs _).bind fun _ _ _ _ => contradiction_ranged

theorem callSuper_runs (facts : CallFacts) : Runs size L (callSuper dst facts args) := by
  unfold callSuper
  refine callName_runs ?_ hd _ ha
  split <;> rfl

end Calls

theorem result_locates (t : StaticType) {call : Address → Lower Unit}
    (hc : ∀ L dst, dst.Within L.toScope → Runs size L (call dst)) : Locates size L (result t call) := by
  unfold result
  refine (addTemporary_locates t).bind fun dst L₁ h₁ hd => ?_
  refine (hc L₁ dst hd).bind fun _ L₂ h₂ _ => ?_
  exact pure_ranged (by grind)

end Lower

end GameScript
