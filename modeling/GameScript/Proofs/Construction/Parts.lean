import GameScript.Lowering.Body
import GameScript.Proofs.Construction.Steps

/-!
# Construction of values and assignments

The code of an expression or an assignment leaves the site as it was if the code of its operands does. A
construct that stops early is begun, its operands are put inside of it, and it is ended (`Closes`).
-/

namespace GameScript

namespace Lower

variable {α β : Type} {σ : Site} {k : FrameKind}

/-! ### Lines, variables and stored values -/

theorem setLine_tidy (p : Pos) : Tidy (setLine p) := by
  unfold setLine
  refine current_tidy.bind fun s => ?_
  split
  · refine (setLine_gen_tidy _).bind fun _ => read_tidy.bind fun ctx => ?_
    exact Tidy.ite (emit_tidy rfl (by decide)) (pure_tidy _)
  · exact pure_tidy _

theorem balanced_tidy {x : Lower Unit} (hx : Tidy x) : Tidy (balanced x) := by
  refine current_tidy.bind fun s => hx.bind fun _ => current_tidy.bind fun s' => ?_
  dsimp only
  split
  · exact read_tidy.bind fun _ => contradiction_tidy rfl
  · exact pure_tidy _

theorem addParam_tidy (anchor : Pos) (name : Text) (pos : Pos) (t : StaticType) :
    Tidy (addParam anchor name pos t) :=
  (slotOf_tidy _ _ _).bind fun _ => current_tidy.bind fun _ => (bindVar_tidy _ _).bind fun _ =>
    update_tidy fun _ => ⟨rfl, rfl, rfl⟩

theorem addLocal_tidy (id : Ident) (t : StaticType) : Tidy (addLocal id t) :=
  (slotOf_tidy _ _ _).bind fun _ => current_tidy.bind fun _ => (bindVar_tidy _ _).bind fun _ =>
    Tidy.bind (update_tidy fun _ => ⟨rfl, rfl, rfl⟩) fun _ => pure_tidy _

theorem member_tidy (pos : Option Pos) (name : Text) : Tidy (member pos name) := by
  unfold member
  refine read_tidy.bind fun ctx => ?_
  dsimp only
  split
  · exact pure_tidy _
  · cases pos with
    | none => exact (pure_tidy _).bind fun _ => contradiction_tidy rfl
    | some p =>
      exact Tidy.bind ((placeText_tidy p).bind fun _ => pure_tidy _) fun _ =>
        contradiction_tidy rfl

theorem scriptConstant_tidy (t : StaticType) : Tidy (scriptConstant t) := by
  unfold scriptConstant
  refine types_tidy.bind fun ctx => ?_
  split
  · exact constant_tidy _
  · exact constant_tidy _
  · exact contradiction_tidy rfl

theorem assign_tidy (dst src : Address) (converts : Bool) : Tidy (assign dst src converts) := by
  have hplain : Tidy (Gen.emit .assign [dst.encode, src.encode] : Lower Unit) := emit_tidy rfl (by decide)
  unfold assign
  dsimp only
  refine Tidy.ite hplain ?_
  split
  · exact emit_tidy rfl (by decide)
  · exact emit_tidy rfl (by decide)
  · exact (name_gen_tidy _).bind fun _ => emit_tidy rfl (by decide)
  · exact (scriptConstant_tidy _).bind fun _ => emit_tidy rfl (by decide)
  · exact (scriptConstant_tidy _).bind fun _ => emit_tidy rfl (by decide)
  · exact hplain

theorem storeDefault_tidy (dst : Address) (t : StaticType) : Tidy (storeDefault dst t) := by
  have hplain : Tidy (do Gen.emit .assign [dst.encode, (← Gen.constant .nil).encode] : Lower Unit) :=
    (constant_tidy _).bind fun _ => emit_tidy rfl (by decide)
  have hzero : Tidy (Gen.emitList .construct [] [dst.encode, t.tag.number] : Lower Unit) :=
    emitList_tidy rfl rfl
  unfold storeDefault
  dsimp only
  refine Tidy.ite hplain ?_
  split
  · refine Tidy.ite hzero ?_
    exact types_tidy.bind fun _ => (name_gen_tidy _).bind fun _ => emitList_tidy rfl rfl
  · exact hplain
  · exact hzero
  · exact hzero
  · exact hplain

/-! ### Names -/

theorem localVar_tidy (id : Ident) : Tidy (localVar id) := by
  unfold localVar
  refine current_tidy.bind fun s => ?_
  dsimp only
  split
  · exact pure_tidy _
  · exact (placeText_tidy _).bind fun _ => contradiction_tidy rfl

theorem fetch_tidy (t : StaticType) {op : Opcode} {operands : List Nat}
    (h : ∀ n, (n :: operands).length = Instruction.arity op (n :: operands))
    (hl : OperandKind.label ∉ op.shape) : Tidy (fetch t op operands) :=
  (addTemporary_tidy t).bind fun dst => (emit_tidy (h dst.encode) hl).bind fun _ => pure_tidy _

theorem name_tidy (id : Ident) : Tidy (name id) := by
  have hglobal : ∀ t, Tidy (do fetch t .getGlobal [← Gen.name id.name]) := fun t =>
    (name_gen_tidy _).bind fun _ => fetch_tidy t (fun _ => rfl) (by decide)
  have hnamed : ∀ t (base : Address), Tidy (do fetch t .getNamed [base.encode, ← Gen.name id.name]) :=
    fun t base => (name_gen_tidy _).bind fun _ => fetch_tidy t (fun _ => rfl) (by decide)
  unfold name
  dsimp only
  split
  · exact localVar_tidy id
  · exact localVar_tidy id
  · exact localVar_tidy id
  · exact localVar_tidy id
  · exact localVar_tidy id
  · refine (member_tidy _ _).bind fun m => (inAccessor_tidy m).bind fun b => ?_
    split
    · refine (addTemporary_tidy _).bind fun dst => (name_gen_tidy _).bind fun _ => ?_
      exact Tidy.bind (emitList_tidy rfl rfl) fun _ => pure_tidy _
    · exact pure_tidy _
  · exact (name_gen_tidy _).bind fun _ => fetch_tidy _ (fun _ => rfl) (by decide)
  · exact hnamed _ _
  · exact hnamed _ _
  · exact (hglobal _).ite (hnamed _ _)
  · exact (hglobal _).ite (hnamed _ _)
  · refine read_tidy.bind fun ctx => ?_
    split
    · exact Tidy.bind (report_tidy (fun _ h => by cases h) rfl) fun _ => hglobal _
    · exact hglobal _

/-! ### Values -/

theorem direct?_tidy (e : Expr) : Tidy (direct? e) := by
  unfold direct?
  dsimp only
  split
  on_goal 1 =>
    refine (placeText_tidy _).bind fun _ => Tidy.bind (contradiction_tidy rfl) fun _ => ?_
  all_goals
    refine read_tidy.bind fun ctx => ?_
    split
    · exact pure_tidy _
    · split
      · exact Tidy.ite ((constant_tidy _).bind fun _ => pure_tidy _) (pure_tidy _)
      · exact pure_tidy _

theorem literal_tidy (l : Literal) : Tidy (literal l) := by
  unfold literal
  refine (direct?_tidy _).bind fun r => ?_
  cases r with
  | some a => exact pure_tidy a
  | none => exact constant_tidy _

/-- The last steps of an operation: operands are released and the result is returned. -/
theorem releaseAll_pure_tidy (as : List Address) (a : α) : Tidy (do
    Gen.releaseAll as
    return a) :=
  (releaseAll_tidy as).bind fun _ => pure_tidy a

theorem release_pure_tidy (x : Address) (a : α) : Tidy (do
    Gen.release x
    return a) :=
  (release_tidy x).bind fun _ => pure_tidy a

theorem array_tidy (t : StaticType) {items : Lower (List Address)} (hi : Tidy items) :
    Tidy (array t items) := by
  refine (addTemporary_tidy t).bind fun dst => hi.bind fun items => ?_
  dsimp only
  split
  · refine types_tidy.bind fun _ => (name_gen_tidy _).bind fun _ => ?_
    exact Tidy.bind (emitList_tidy rfl rfl) fun _ => releaseAll_pure_tidy _ _
  · exact Tidy.bind (emitList_tidy rfl rfl) fun _ => releaseAll_pure_tidy _ _

theorem dictionary_tidy (t : StaticType) {items : Lower (List Address)} (hi : Tidy items) :
    Tidy (dictionary t items) :=
  (addTemporary_tidy t).bind fun _ => hi.bind fun _ =>
    Tidy.bind (emitList_tidy rfl rfl) fun _ => releaseAll_pure_tidy _ _

theorem property_tidy (t : StaticType) {base : Lower Address} (hb : Tidy base) (n : Text) :
    Tidy (property t base n) :=
  (addTemporary_tidy t).bind fun _ => hb.bind fun _ => (name_gen_tidy n).bind fun _ =>
    Tidy.bind (emit_tidy rfl (by decide)) fun _ => release_pure_tidy _ _

theorem element_tidy (t : StaticType) {base key : Lower Address} (hb : Tidy base)
    (hk : Tidy key) : Tidy (element t base key) :=
  (addTemporary_tidy t).bind fun _ => hb.bind fun _ => hk.bind fun key =>
    Tidy.bind (emit_tidy rfl (by decide)) fun _ => (release_tidy key).bind fun _ => release_pure_tidy _ _

/-! ### Operators -/

theorem operation_tidy (ts : List StaticType) (dst op x y : Nat) :
    Tidy (Gen.emit (operation ts) [dst, op, x, y] : Lower Unit) := by
  unfold operation
  split
  · exact emit_tidy rfl (by decide)
  · exact emit_tidy rfl (by decide)

theorem negate_tidy (dst : Address) : Tidy (negate dst) := emit_tidy rfl (by decide)

theorem unary_tidy (t : StaticType) (op : Operator) {x : Lower Address} (hx : Tidy x) :
    Tidy (unary t op x) :=
  (addTemporary_tidy t).bind fun _ => hx.bind fun _ => (operation_tidy _ _ _ _ _).bind fun _ =>
    release_pure_tidy _ _

theorem binary_tidy (t : StaticType) (op : BinaryOp) {x y : Lower Address} (hx : Tidy x)
    (hy : Tidy y) : Tidy (binary t op x y) := by
  refine (addTemporary_tidy t).bind fun dst => hx.bind fun x => hy.bind fun y => ?_
  refine (operation_tidy _ _ _ _ _).bind fun _ => ?_
  refine (release_tidy y).bind fun _ => (release_tidy x).bind fun _ => ?_
  dsimp only
  split
  · exact (negate_tidy dst).bind fun _ => pure_tidy dst
  · exact pure_tidy dst

/-! ### Constructs that stop early -/

/-- A step that ends a construct and binds its labels. -/
def Closes (k : FrameKind) (x : Lower α) : Prop :=
  ∀ σ f, f.kind = k → f.Fresh σ → Moves (σ.begin f) x fun _ σ' => σ' = σ

theorem TidyIn.closes {x : Lower α} {f : α → Lower β} (hx : TidyIn k x)
    (hf : ∀ a, Closes k (f a)) : Closes k (x >>= f) := by
  intro σ fr hk hfr
  exact Stays.bind (hx _ (hk ▸ hfr.inside)) fun a => hf a σ fr hk hfr

theorem Tidy.closes {x : Lower α} {f : α → Lower β} (hx : Tidy x) (hf : ∀ a, Closes k (f a)) :
    Closes k (x >>= f) := hx.within.closes hf

theorem Closes.bind {x : Lower α} {f : α → Lower β} (hx : Closes k x) (hf : ∀ a, Tidy (f a)) :
    Closes k (x >>= f) := fun σ fr hk hfr =>
  (hx σ fr hk hfr).bind fun a _ h => h ▸ hf a σ

/-- **A construct that is begun is ended.** -/
theorem Closes.tidy {x : Lower α} (hx : Closes k x) : Tidy (do Gen.pushFrame k; x) := fun _ =>
  (pushFrame_moves k).bind fun _ _ ⟨f, _, hk, hn, hfr, h⟩ => h ▸ (hx _ f hk hfr).forget hn

/-- An operand that may decide the result. -/
theorem topFrame_tidyIn {f : Frame → Gen Unit}
    (hf : ∀ fr, Reaches fr.skip (f fr : Lower Unit)) :
    TidyIn k (liftM (Gen.topFrame k >>= f) : Lower Unit) := by
  rintro σ ⟨fr, fs, hfr, rfl, hlt⟩
  rw [lift_bind]
  exact (topFrame_moves hfr).bind fun _ _ ⟨hf', h⟩ => hf' ▸ h ▸ hf fr σ hlt

theorem andOperand_tidyIn (x : Address) : TidyIn .and (Gen.andOperand x : Lower Unit) :=
  topFrame_tidyIn fun _ => jumpIfNot_reaches _ _

theorem orOperand_tidyIn (x : Address) : TidyIn .or (Gen.orOperand x : Lower Unit) :=
  topFrame_tidyIn fun _ => jumpIf_reaches _ _

theorem ternaryCondition_tidyIn (x : Address) :
    TidyIn .ternary (Gen.ternaryCondition x : Lower Unit) :=
  topFrame_tidyIn fun _ => jumpIfNot_reaches _ _

theorem operand_tidyIn {decide : Address → Gen Unit}
    (hd : ∀ a, TidyIn k (decide a : Lower Unit)) {x : Lower Address} (hx : Tidy x) :
    TidyIn k (operand decide x) :=
  hx.within.bind fun x => (hd x).bind fun _ => (release_tidy x).within

theorem endLogical_closes (k : FrameKind) (dst : Address) (last : Bool) :
    Closes k (Gen.endLogical k dst last : Lower Unit) := by
  intro σ f hk hf
  subst hk
  unfold Gen.endLogical
  rw [lift_bind]
  refine (popFrame_moves rfl).bind fun f' σ₁ ⟨hf', h₁⟩ => ?_
  subst hf' h₁
  simp only [lift_bind]
  refine Stays.bind (boolean_tidy _ _) fun c => Stays.bind (emit_tidy rfl (by decide) _) fun _ => ?_
  refine Stays.bind (jump_reaches _ _ hf.done.2) fun _ => ?_
  refine Moves.bind (bind_earlier hf.skip hf.ne) fun _ σ₂ h₂ => ?_
  subst h₂
  refine Stays.bind (boolean_tidy _ _) fun c => Stays.bind (emit_tidy rfl (by decide) _) fun _ => ?_
  exact bind_last hf.done

theorem logical_tidy (isAnd : Bool) {x y : Lower Address} (hx : Tidy x) (hy : Tidy y) :
    Tidy (logical isAnd x y) := by
  refine (addTemporary_tidy _).bind fun dst => ?_
  dsimp only
  split
  · refine Closes.tidy ?_
    refine (operand_tidyIn andOperand_tidyIn hx).closes fun _ => ?_
    refine (operand_tidyIn andOperand_tidyIn hy).closes fun _ => ?_
    exact (endLogical_closes .and dst true).bind fun _ => pure_tidy dst
  · refine Closes.tidy ?_
    refine (operand_tidyIn orOperand_tidyIn hx).closes fun _ => ?_
    refine (operand_tidyIn orOperand_tidyIn hy).closes fun _ => ?_
    exact (endLogical_closes .or dst false).bind fun _ => pure_tidy dst

theorem branch_tidy (dst : Address) {x : Lower Address} (hx : Tidy x) : Tidy (branch dst x) :=
  hx.bind fun x => Tidy.bind (emit_tidy rfl (by decide)) fun _ => release_tidy x

theorem conditional_tidy (t : StaticType) {cond yes no : Lower Address} (hc : Tidy cond)
    (hy : Tidy yes) (hn : Tidy no) : Tidy (conditional t cond yes no) := by
  refine (addTemporary_tidy t).bind fun dst => Closes.tidy ?_
  refine (operand_tidyIn ternaryCondition_tidyIn hc).closes fun _ => ?_
  refine (branch_tidy dst hy).closes fun _ => ?_
  intro σ f hk hf
  unfold Gen.ternaryElse Gen.endTernary
  simp only [lift_bind, bind_assoc]
  have htop : Moves (σ.begin f) (Gen.topFrame .ternary : Lower Frame) fun f' σ' =>
      f' = f ∧ σ' = σ.begin f := hk ▸ topFrame_moves rfl
  refine htop.bind fun f' σ₁ ⟨hf', h₁⟩ => ?_
  subst hf' h₁
  refine Stays.bind (jump_reaches _ _ hf.done.2) fun _ => ?_
  -- the second branch begins while the construct is still the innermost one
  let τ : Site := { σ with frames := f' :: σ.frames }
  have hτ : f'.Fresh τ := ⟨hf.skip, hf.done, hf.ne⟩
  refine Moves.bind (bind_earlier hτ.skip hτ.ne) fun _ σ₂ h₂ => ?_
  subst h₂
  refine Stays.bind (branch_tidy dst hn _) fun _ => ?_
  have hpop : Moves (τ.await f'.done) (Gen.popFrame .ternary : Lower Frame) fun f'' σ' =>
      f'' = f' ∧ σ' = σ.await f'.done := hk ▸ popFrame_moves rfl
  refine hpop.bind fun f'' σ₃ ⟨hf'', h₃⟩ => ?_
  subst hf'' h₃
  exact (bind_last hf.done).bind fun _ _ h => h ▸ pure_tidy dst σ

/-! ### Types and closures -/

theorem test_tidy (dst x : Address) (t : StaticType) : Tidy (test dst x t) := by
  unfold test
  split
  · exact emit_tidy rfl (by decide)
  · exact emit_tidy rfl (by decide)
  · exact (name_gen_tidy _).bind fun _ => emit_tidy rfl (by decide)
  · exact (scriptConstant_tidy _).bind fun _ => emit_tidy rfl (by decide)
  · exact (scriptConstant_tidy _).bind fun _ => emit_tidy rfl (by decide)
  · exact (boolean_tidy _).bind fun _ => emit_tidy rfl (by decide)

theorem typeTest_tidy (t : StaticType) {x : Lower Address} (hx : Tidy x) (negated : Bool)
    (type : StaticType) : Tidy (typeTest t x negated type) := by
  refine (addTemporary_tidy t).bind fun dst => hx.bind fun x => ?_
  refine (test_tidy dst x type).bind fun _ => (release_tidy x).bind fun _ => ?_
  dsimp only
  split
  · exact (negate_tidy dst).bind fun _ => pure_tidy dst
  · exact pure_tidy dst

theorem cast_tidy (t : StaticType) {x : Lower Address} (hx : Tidy x) : Tidy (cast t x) := by
  unfold cast
  dsimp only
  split
  · exact hx
  · refine (addTemporary_tidy t).bind fun dst => hx.bind fun x => ?_
    split
    · exact Tidy.bind (emit_tidy rfl (by decide)) fun _ => release_pure_tidy _ _
    · exact Tidy.bind (emit_tidy rfl (by decide)) fun _ => release_pure_tidy _ _
    · exact (name_gen_tidy _).bind fun _ => Tidy.bind (emit_tidy rfl (by decide)) fun _ =>
        release_pure_tidy _ _
    · exact (scriptConstant_tidy _).bind fun _ => Tidy.bind (emit_tidy rfl (by decide)) fun _ =>
        release_pure_tidy _ _
    · exact (scriptConstant_tidy _).bind fun _ => Tidy.bind (emit_tidy rfl (by decide)) fun _ =>
        release_pure_tidy _ _
    · exact types_tidy.bind fun _ => Tidy.bind (contradiction_tidy rfl) fun _ =>
        release_pure_tidy _ _

theorem await_tidy (t : StaticType) {x : Lower Address} (hx : Tidy x) : Tidy (await t x) :=
  (addTemporary_tidy t).bind fun _ => hx.bind fun _ => Tidy.bind (emit_tidy rfl (by decide)) fun _ =>
    release_pure_tidy _ _

theorem mapM_tidy {f : α → Lower β} (hf : ∀ a, Tidy (f a)) (xs : List α) : Tidy (xs.mapM f) := by
  induction xs with
  | nil => exact pure_tidy _
  | cons x xs ih =>
    rw [List.mapM_cons]
    exact (hf x).bind fun _ => ih.bind fun _ => pure_tidy _

theorem closure_tidy (t : StaticType) (function : Nat) (captures : List Ident) (usesSelf : Bool) :
    Tidy (closure t function captures usesSelf) := by
  refine (addTemporary_tidy t).bind fun dst => (mapM_tidy name_tidy captures).bind fun values => ?_
  refine Tidy.bind ?_ fun _ => releaseAll_pure_tidy _ _
  cases usesSelf with
  | true => exact emitList_tidy rfl rfl
  | false => exact emitList_tidy rfl rfl

/-! ### Calls -/

theorem callName_tidy {op : Opcode} (hop : op.shape = [.address, .name, .list]) (dst : Address)
    (n : Text) {args : Lower (List Address)} (ha : Tidy args) : Tidy (callName op dst n args) :=
  ha.bind fun args => (name_gen_tidy n).bind fun _ =>
    Tidy.bind (emitList_tidy (hop ▸ rfl) (hop ▸ rfl)) fun _ => releaseAll_tidy args

theorem callMethod_tidy {op : Opcode} (hop : op.shape = [.address, .address, .name, .list])
    (dst : Address) {base : Lower Address} (hb : Tidy base) (n : Text) {args : Lower (List Address)}
    (ha : Tidy args) : Tidy (callMethod op dst base n args) :=
  hb.bind fun base => ha.bind fun args => (name_gen_tidy n).bind fun _ =>
    Tidy.bind (emitList_tidy (hop ▸ rfl) (hop ▸ rfl)) fun _ =>
      (releaseAll_tidy args).bind fun _ => release_tidy base

section Calls

variable (dst : Address) {args : Lower (List Address)} (ha : Tidy args)

include ha

theorem construct_tidy (t : BuiltinType) : Tidy (construct dst t args) := by
  have hmake : ∀ {args : Lower (List Address)}, Tidy args → Tidy (do
      let args ← args
      Gen.emitList .construct args [dst.encode, t.number]
      Gen.releaseAll args) := fun h =>
    h.bind fun args => Tidy.bind (emitList_tidy rfl rfl) fun _ => releaseAll_tidy args
  unfold construct
  dsimp only
  split
  · exact hmake (pure_tidy [])
  · exact hmake ha

theorem callOwn_tidy (id : Ident) (facts : CallFacts) : Tidy (callOwn dst id facts args) := by
  unfold callOwn
  refine Tidy.ite (callName_tidy rfl dst _ ha) (Tidy.ite ?_ (Tidy.ite ?_ ?_))
  · exact callMethod_tidy rfl dst (pure_tidy _) _ ha
  · exact callMethod_tidy rfl dst (pure_tidy _) _ ha
  · exact callName_tidy rfl dst _ ha

theorem callNamed_tidy (id : Ident) (facts : CallFacts) : Tidy (callNamed dst id facts args) := by
  unfold callNamed
  split
  · exact callOwn_tidy dst ha id facts
  · split
    · exact construct_tidy dst ha _
    · exact Tidy.ite (callName_tidy rfl dst _ ha)
        (Tidy.ite (callName_tidy rfl dst _ ha) (callOwn_tidy dst ha id facts))

theorem callOn_tidy (x : Expr) (id : Ident) (facts : CallFacts) (actual : List Expr)
    {base : Lower Address} (hb : Tidy base) : Tidy (callOn dst x id facts actual base args) := by
  unfold callOn
  dsimp only
  refine Tidy.ite (callMethod_tidy rfl dst hb _ ha) (Tidy.ite (callName_tidy rfl dst _ ha)
    (Tidy.ite (callMethod_tidy rfl dst hb _ ha) ?_))
  split
  · refine types_tidy.bind fun ctx => callMethod_tidy ?_ dst hb _ ha
    split <;> rfl
  · refine callMethod_tidy ?_ dst hb _ ha
    split <;> rfl

theorem call_tidy (fn : Expr) (facts : CallFacts) (actual : List Expr) {base : Lower Address}
    (hb : Tidy base) : Tidy (call dst fn facts actual base args) := by
  unfold call
  split
  · exact callNamed_tidy dst ha _ facts
  · exact callOn_tidy dst ha _ _ facts actual hb
  · exact (placeText_tidy _).bind fun _ => contradiction_tidy rfl

theorem callSuper_tidy (facts : CallFacts) : Tidy (callSuper dst facts args) := by
  refine callName_tidy ?_ dst _ ha
  split <;> rfl

end Calls

theorem result_tidy (t : StaticType) {call : Address → Lower Unit} (hc : ∀ dst, Tidy (call dst)) :
    Tidy (result t call) :=
  (addTemporary_tidy t).bind fun dst => (hc dst).bind fun _ => pure_tidy dst

end Lower

end GameScript
