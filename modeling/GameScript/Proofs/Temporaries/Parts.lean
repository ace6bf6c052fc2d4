import GameScript.Lowering.Body
import GameScript.Proofs.Temporaries.Stack

/-!
# Temporaries of the parts of code

Each combinator of lowering does with the stack of temporaries what the code it is given does: it
computes a value (`Yields`), several of them (`YieldsAll`), or leaves the stack as it was (`Keeps`). Each
proof follows the steps of the combinator; what is released is what the state after the step before
holds.
-/

namespace GameScript

namespace Lower

variable {α : Type} {ctx : LowerContext} {s s₁ : Lowering} {a : Address} {as : List Address}

/-- Code that uses a value which its caller keeps. -/
def Uses {α : Type} (f : Address → Lower α) : Prop :=
  ∀ a ctx s, s.Sound → TempBelow s.gen.maxTemps a.encode → After (f a) ctx s (fun _ s' => Kept s s') Benign

theorem pure_keeps (a : α) : Keeps (pure a : Lower α) := fun _ _ hs => .refl hs

@[simp] theorem tempBelow_nil (m : Nat) : TempBelow m Address.nil.encode :=
  tempBelow_of_not_temporary rfl m

@[simp] theorem tempBelow_self (m : Nat) : TempBelow m Address.self.encode :=
  tempBelow_of_not_temporary rfl m

@[simp] theorem tempBelow_cls (m : Nat) : TempBelow m Address.cls.encode :=
  tempBelow_of_not_temporary rfl m

/-- A step that returns to the stack of `s`, and one after it that leaves the stack as it was. -/
theorem After.keeping {β : Type} {x : Lower α} {f : α → Lower β}
    (hx : After x ctx s₁ (fun _ s' => Kept s s') Benign)
    (hf : ∀ a s', Kept s s' → After (f a) ctx s' (fun _ s'' => Kept s' s'') Benign) :
    After (x >>= f) ctx s₁ (fun _ s' => Kept s s') Benign :=
  hx.bind fun a s' h => (hf a s' h).post fun _ _ => h.trans

theorem Keeps.bind {β : Type} {x : Lower α} {f : α → Lower β} (hx : Keeps x) (hf : ∀ a, Keeps (f a)) :
    Keeps (x >>= f) :=
  fun ctx s hs => (hx ctx s hs).keeping fun a s' h => hf a ctx s' h.sound

theorem Keeps.ite {c : Prop} [Decidable c] {x y : Lower α} (hx : Keeps x) (hy : Keeps y) :
    Keeps (if c then x else y) := by
  split
  · exact hx
  · exact hy

theorem Yields.ite {c : Prop} [Decidable c] {x y : Lower Address} (hx : Yields x) (hy : Yields y) :
    Yields (if c then x else y) := by
  split
  · exact hx
  · exact hy

/-! ### Constructs that stop early -/

theorem jumpTo_keeps (l : Nat) : Keeps (Gen.jump l) := fun ctx s hs => emit_keeps hs (by simp)

theorem jumpIf_uses (l : Nat) : Uses fun a => liftM (Gen.jumpIf a l) :=
  fun _ _ _ hs ha => emit_keeps hs (by simpa using ha)

theorem jumpIfNot_uses (l : Nat) : Uses fun a => liftM (Gen.jumpIfNot a l) :=
  fun _ _ _ hs ha => emit_keeps hs (by simpa using ha)

theorem andOperand_uses : Uses fun a => liftM (Gen.andOperand a) := by
  intro a ctx s hs ha
  simp only [Gen.andOperand, lift_bind]
  refine (topFrame_keeps _ ctx s hs).keeping fun f s₁ h₁ => ?_
  exact jumpIfNot_uses _ a ctx s₁ h₁.sound (ha.mono h₁.maxTemps)

theorem orOperand_uses : Uses fun a => liftM (Gen.orOperand a) := by
  intro a ctx s hs ha
  simp only [Gen.orOperand, lift_bind]
  refine (topFrame_keeps _ ctx s hs).keeping fun f s₁ h₁ => ?_
  exact jumpIf_uses _ a ctx s₁ h₁.sound (ha.mono h₁.maxTemps)

theorem ternaryCondition_uses : Uses fun a => liftM (Gen.ternaryCondition a) := by
  intro a ctx s hs ha
  simp only [Gen.ternaryCondition, lift_bind]
  refine (topFrame_keeps _ ctx s hs).keeping fun f s₁ h₁ => ?_
  exact jumpIfNot_uses _ a ctx s₁ h₁.sound (ha.mono h₁.maxTemps)

theorem ternaryElse_keeps : Keeps Gen.ternaryElse := by
  simp only [Gen.ternaryElse, lift_bind]
  exact (topFrame_keeps _).bind fun _ => (jumpTo_keeps _).bind fun _ => bind_keeps _

theorem endTernary_keeps : Keeps Gen.endTernary := by
  simp only [Gen.endTernary, lift_bind]
  exact (popFrame_keeps _).bind fun _ => bind_keeps _

/-- Stores a constant. -/
theorem assignConstant_keeps (hs : s.Sound) (v : Value) {d : Nat} (hd : TempBelow s.gen.maxTemps d) :
    After (liftM (Gen.constant v) >>= fun c => liftM (Gen.emit .assign [d, c.encode])) ctx s
      (fun _ s' => Kept s s') Benign := by
  refine (constant_finds v ctx s hs).bind fun c s₁ ⟨h₁, hc⟩ => ?_
  refine (emit_keeps h₁.sound ?_).post fun _ s₂ h₂ => h₁.trans h₂
  simpa using ⟨hd.mono h₁.maxTemps, tempBelow_of_not_temporary hc _⟩

theorem endLogical_uses (k : FrameKind) (b : Bool) : Uses fun a => liftM (Gen.endLogical k a b) := by
  intro a ctx s hs ha
  simp only [Gen.endLogical, Gen.boolean, lift_bind]
  refine (popFrame_keeps _ ctx s hs).keeping fun f s₁ h₁ => ?_
  rw [← bind_assoc]
  refine (assignConstant_keeps h₁.sound _ (ha.mono h₁.maxTemps)).keeping fun _ s₂ h₂ => ?_
  refine (jumpTo_keeps _ ctx s₂ h₂.sound).keeping fun _ s₃ h₃ => ?_
  refine (bind_keeps _ ctx s₃ h₃.sound).keeping fun _ s₄ h₄ => ?_
  rw [← bind_assoc]
  refine (assignConstant_keeps h₄.sound _ ?_).keeping fun _ s₅ h₅ => bind_keeps _ ctx s₅ h₅.sound
  exact ha.mono (((h₁.trans h₂).trans h₃).trans h₄).maxTemps

/-! ### Lines and variables -/

theorem setLine_keeps (p : Pos) : Keeps (setLine p) := by
  intro ctx s hs
  unfold setLine
  rw [after_bind, after_current]
  split
  · refine (setLine_gen_keeps _ ctx s hs).keeping fun _ s₁ h₁ => ?_
    rw [after_bind, after_read]
    split
    · exact emit_keeps h₁.sound (by simp)
    · exact .refl h₁.sound
  · exact .refl hs

/-- A step that leaves the stack as it was passes the check that it does. -/
theorem balanced_keeps {x : Lower Unit} (hx : Keeps x) : Keeps (balanced x) := by
  intro ctx s hs
  unfold balanced
  simp only [after_bind, after_current]
  refine (hx ctx s hs).post fun _ s₁ h₁ => ?_
  simp only [h₁.temps, ne_eq, not_true_eq_false, if_false]
  exact h₁

/-- Binding a variable to an address that is no temporary. -/
theorem bindVar_keeps (p : Pos) (h : a.isTemporary = false) : Keeps (bindVar p a) := by
  intro ctx s hs
  rw [after_bindVar]
  refine ⟨⟨hs.gen, fun p' a' h' => ?_⟩, rfl, le_rfl⟩
  rw [Table.get?_set] at h'
  split at h'
  · cases h'
    exact h
  · exact hs.vars p' a' h'

/-- A change of what is neither code nor the place of a variable. -/
theorem kept_of_same {s s' : Lowering} (hs : s.Sound) (hg : s'.gen = s.gen) (hv : s'.vars = s.vars) :
    Kept s s' :=
  ⟨⟨hg ▸ hs.gen, hv ▸ hs.vars⟩, by rw [hg], by rw [hg]⟩

theorem addParam_keeps (anchor : Pos) (name : Text) (pos : Pos) (t : StaticType) :
    Keeps (addParam anchor name pos t) := by
  intro ctx s hs
  unfold addParam
  rw [after_bind, after_slotOf, after_bind, after_current]
  refine (bindVar_keeps anchor rfl ctx s hs).keeping fun _ s₁ h₁ => ?_
  rw [after_update]
  exact kept_of_same h₁.sound rfl rfl

theorem addLocal_finds (id : Ident) (t : StaticType) : Finds (addLocal id t) := by
  intro ctx s hs
  unfold addLocal
  rw [after_bind, after_slotOf, after_bind, after_current]
  refine (bindVar_keeps id.pos rfl ctx s hs).bind fun _ s₁ h₁ => ?_
  rw [after_bind, after_update, after_pure]
  exact ⟨h₁.trans (kept_of_same h₁.sound rfl rfl), rfl⟩

theorem member_keeps (pos : Option Pos) (name : Text) : Keeps (member pos name) := by
  intro ctx s hs
  unfold member
  simp only [after_bind, after_read]
  split
  · exact .refl hs
  · cases pos with
    | none => exact benign_internal rfl
    | some p => exact benign_internal rfl

/-! ### Storing values -/

theorem scriptConstant_finds (t : StaticType) : Finds (scriptConstant t) := by
  intro ctx s hs
  unfold scriptConstant
  simp only [after_bind, after_types]
  split
  · exact constant_finds _ ctx s hs
  · exact constant_finds _ ctx s hs
  · exact benign_internal rfl

theorem assign_keeps {dst src : Address} (converts : Bool) (hs : s.Sound)
    (hd : TempBelow s.gen.maxTemps dst.encode) (hx : TempBelow s.gen.maxTemps src.encode) :
    After (assign dst src converts) ctx s (fun _ s' => Kept s s') Benign := by
  have hplain : After (Gen.emit .assign [dst.encode, src.encode]) ctx s (fun _ s' => Kept s s') Benign :=
    emit_keeps hs (by simpa using ⟨hd, hx⟩)
  unfold assign
  dsimp only
  split
  · exact hplain
  · split
    · exact emit_keeps hs (by simpa using ⟨hd, hx⟩)
    · exact emit_keeps hs (by simpa using ⟨hd, hx⟩)
    · refine (name_gen_keeps _ ctx s hs).keeping fun _ s₁ h₁ => emit_keeps h₁.sound ?_
      simpa using ⟨hd.mono h₁.maxTemps, hx.mono h₁.maxTemps⟩
    · refine (scriptConstant_finds _ ctx s hs).bind fun c s₁ ⟨h₁, hc⟩ => ?_
      refine (emit_keeps h₁.sound ?_).post fun _ s₂ h₂ => h₁.trans h₂
      simpa using ⟨hd.mono h₁.maxTemps, hx.mono h₁.maxTemps, tempBelow_of_not_temporary hc _⟩
    · refine (scriptConstant_finds _ ctx s hs).bind fun c s₁ ⟨h₁, hc⟩ => ?_
      refine (emit_keeps h₁.sound ?_).post fun _ s₂ h₂ => h₁.trans h₂
      simpa using ⟨hd.mono h₁.maxTemps, hx.mono h₁.maxTemps, tempBelow_of_not_temporary hc _⟩
    · exact hplain

theorem storeDefault_keeps {dst : Address} (t : StaticType) (hs : s.Sound)
    (hd : TempBelow s.gen.maxTemps dst.encode) :
    After (storeDefault dst t) ctx s (fun _ s' => Kept s s') Benign := by
  have hplain : After (liftM (Gen.constant .nil) >>= fun c => liftM (Gen.emit .assign [dst.encode, c.encode]))
      ctx s (fun _ s' => Kept s s') Benign := assignConstant_keeps hs .nil hd
  have hzero : After (Gen.emitList .construct [] [dst.encode, t.tag.number]) ctx s
      (fun _ s' => Kept s s') Benign := emit_keeps hs (by simpa using hd)
  unfold storeDefault
  dsimp only
  split
  · exact hplain
  · split
    · split
      · exact hzero
      · rw [after_bind, after_types]
        refine (name_gen_keeps _ ctx s hs).keeping fun _ s₁ h₁ => emit_keeps h₁.sound ?_
        simpa using hd.mono h₁.maxTemps
    · exact hplain
    · exact hzero
    · exact hzero
    · exact hplain

/-! ### Names -/

theorem localVar_finds (id : Ident) : Finds (localVar id) := by
  intro ctx s hs
  unfold localVar
  rw [after_bind, after_current]
  dsimp only
  split
  · rename_i a ha
    refine ⟨.refl hs, ?_⟩
    show a.isTemporary = false
    split at ha
    · exact hs.vars _ _ ha
    · cases ha
  · exact benign_internal rfl

theorem fetch_yields (t : StaticType) {op : Opcode} {operands : List Nat}
    (h : ∀ m d, TempBelow m d → (⟨op, d :: operands⟩ : Instruction).TempsBelow m) :
    Yields (fetch t op operands) := by
  intro ctx s hs
  unfold fetch
  refine (addTemporary_yields t ctx s hs).bind fun dst s₁ hd => ?_
  refine (emit_keeps hd.sound (h _ _ (hd.operand le_rfl))).bind fun _ s₂ h₂ => ?_
  exact hd.kept h₂

/-- Fetches a value by its name. -/
theorem fetchName_yields (t : StaticType) (n : Text) {op : Opcode} (before : List Nat)
    (h : ∀ m d i, TempBelow m d → (⟨op, d :: (before ++ [i])⟩ : Instruction).TempsBelow m) :
    Yields (do fetch t op (before ++ [← Gen.name n])) := by
  intro ctx s hs
  refine (name_gen_keeps n ctx s hs).bind fun i s₁ h₁ => ?_
  exact (fetch_yields t (fun m d => h m d i) ctx s₁ h₁.sound).post fun _ _ => h₁.yielded

theorem name_yields (id : Ident) : Yields (name id) := by
  have hglobal : Yields (do fetch id.info.type .getGlobal [← Gen.name id.name]) :=
    fetchName_yields _ _ [] fun m d i h => by simpa using h
  unfold name
  dsimp only
  split
  · exact (localVar_finds id).yields
  · exact (localVar_finds id).yields
  · exact (localVar_finds id).yields
  · exact (localVar_finds id).yields
  · exact (localVar_finds id).yields
  · intro ctx s hs
    refine (member_keeps _ _ ctx s hs).bind fun m s₁ h₁ => ?_
    rw [after_bind, after_inAccessor]
    split
    · refine (addTemporary_yields _ ctx s₁ h₁.sound).bind fun dst s₂ hd => ?_
      refine (name_gen_keeps _ ctx s₂ hd.sound).bind fun i s₃ h₃ => ?_
      refine (emit_keeps h₃.sound ?_).bind fun _ s₄ h₄ => h₁.yielded (hd.kept (h₃.trans h₄))
      simpa using hd.operand h₃.maxTemps
    · exact h₁.yields rfl
  · exact fetchName_yields _ _ [] fun m d i h => by simpa using h
  · exact fetchName_yields _ _ [_] fun m d i h => by simpa using h
  · exact fetchName_yields _ _ [_] fun m d i h => by simpa using h
  · exact hglobal.ite (fetchName_yields _ _ [_] fun m d i h => by simpa using h)
  · exact hglobal.ite (fetchName_yields _ _ [_] fun m d i h => by simpa using h)
  · intro ctx s hs
    rw [after_bind, after_read]
    split
    · intro f hf
      cases hf
    · exact hglobal ctx s hs

/-! ### Expressions -/

theorem direct?_keeps (e : Expr) (hs : s.Sound) :
    After (direct? e) ctx s (fun r s' => Kept s s' ∧ ∀ a ∈ r, a.isTemporary = false) Benign := by
  unfold direct?
  dsimp only
  split
  · exact benign_internal rfl
  · rw [after_bind, after_read]
    split
    · exact ⟨.refl hs, by simp [Address.isTemporary]⟩
    · split
      · split
        · refine (constant_finds _ ctx s hs).bind fun c s₁ hc => ?_
          exact ⟨hc.1, by simpa using hc.2⟩
        · exact ⟨.refl hs, by simp⟩
      · exact ⟨.refl hs, by simp⟩

/-- What is made of a list of values. -/
theorem emitList_keeps (hs : s.Sound) {op : Opcode} {args : List Nat}
    (h : (⟨op, args ++ as.length :: as.map Address.encode⟩ : Instruction).TempsBelow s.gen.maxTemps) :
    After (Gen.emitList op as args) ctx s (fun _ s' => Kept s s') Benign :=
  emit_keeps hs h

theorem array_yields (t : StaticType) {items : Lower (List Address)} (hi : YieldsAll items) :
    Yields (array t items) := by
  intro ctx s hs
  unfold array
  refine (addTemporary_yields t ctx s hs).bind fun dst s₁ hd => ?_
  refine (hi ctx s₁ hd.sound).bind fun as s₂ has => ?_
  dsimp only
  split
  · rw [after_bind, after_types]
    refine (name_gen_keeps _ ctx s₂ has.sound).bind fun n s₃ h₃ => ?_
    refine (emitList_keeps h₃.sound ?_).bind fun _ s₄ h₄ => ?_
    · simp
      grind
    refine (releaseAll_keeps (has.kept (h₃.trans h₄))).bind fun _ s₅ h₅ => ?_
    exact hd.kept h₅
  · refine (emitList_keeps has.sound ?_).bind fun _ s₃ h₃ => ?_
    · simp
      grind
    refine (releaseAll_keeps (has.kept h₃)).bind fun _ s₄ h₄ => ?_
    exact hd.kept h₄

theorem dictionary_yields (t : StaticType) {items : Lower (List Address)} (hi : YieldsAll items) :
    Yields (dictionary t items) := by
  intro ctx s hs
  unfold dictionary
  refine (addTemporary_yields t ctx s hs).bind fun dst s₁ hd => ?_
  refine (hi ctx s₁ hd.sound).bind fun as s₂ has => ?_
  refine (emitList_keeps has.sound ?_).bind fun _ s₃ h₃ => ?_
  · simp
    grind
  refine (releaseAll_keeps (has.kept h₃)).bind fun _ s₄ h₄ => ?_
  exact hd.kept h₄

theorem property_yields (t : StaticType) {base : Lower Address} (hb : Yields base) (n : Text) :
    Yields (property t base n) := by
  intro ctx s hs
  unfold property
  refine (addTemporary_yields t ctx s hs).bind fun dst s₁ hd => ?_
  refine (hb ctx s₁ hd.sound).bind fun b s₂ hb => ?_
  refine (name_gen_keeps n ctx s₂ hb.sound).bind fun i s₃ h₃ => ?_
  refine (emit_keeps h₃.sound ?_).bind fun _ s₄ h₄ => ?_
  · simp
    grind
  refine (release_keeps (hb.kept (h₃.trans h₄))).bind fun _ s₅ h₅ => ?_
  exact hd.kept h₅

theorem element_yields (t : StaticType) {base key : Lower Address} (hb : Yields base)
    (hk : Yields key) : Yields (element t base key) := by
  intro ctx s hs
  unfold element
  refine (addTemporary_yields t ctx s hs).bind fun dst s₁ hd => ?_
  refine (hb ctx s₁ hd.sound).bind fun b s₂ hb => ?_
  refine (hk ctx s₂ hb.sound).bind fun k s₃ hk => ?_
  refine (emit_keeps hk.sound ?_).bind fun _ s₄ h₄ => ?_
  · simp
    grind
  refine (release_keeps (hk.kept h₄)).bind fun _ s₅ h₅ => ?_
  refine (release_keeps (hb.kept h₅)).bind fun _ s₆ h₆ => ?_
  exact hd.kept h₆

theorem negate_uses : Uses negate := fun _ _ _ hs ha => emit_keeps hs (by simpa using ha)

theorem unary_yields (t : StaticType) (op : Operator) {x : Lower Address} (hx : Yields x) :
    Yields (unary t op x) := by
  intro ctx s hs
  unfold unary
  refine (addTemporary_yields t ctx s hs).bind fun dst s₁ hd => ?_
  refine (hx ctx s₁ hd.sound).bind fun x s₂ hx => ?_
  refine (emit_keeps hx.sound ?_).bind fun _ s₃ h₃ => ?_
  · rw [Instruction.tempsBelow_mk, shape_operation]
    simp
    grind
  refine (release_keeps (hx.kept h₃)).bind fun _ s₄ h₄ => ?_
  exact hd.kept h₄

theorem binary_yields (t : StaticType) (op : BinaryOp) {x y : Lower Address} (hx : Yields x)
    (hy : Yields y) : Yields (binary t op x y) := by
  intro ctx s hs
  unfold binary
  refine (addTemporary_yields t ctx s hs).bind fun dst s₁ hd => ?_
  refine (hx ctx s₁ hd.sound).bind fun x s₂ hx => ?_
  refine (hy ctx s₂ hx.sound).bind fun y s₃ hy => ?_
  refine (emit_keeps hy.sound ?_).bind fun _ s₄ h₄ => ?_
  · rw [Instruction.tempsBelow_mk, shape_operation]
    simp
    grind
  refine (release_keeps (hy.kept h₄)).bind fun _ s₅ h₅ => ?_
  refine (release_keeps (hx.kept h₅)).bind fun _ s₆ h₆ => ?_
  split
  · refine (negate_uses dst ctx s₆ h₆.sound (hd.operand h₆.maxTemps)).bind fun _ s₇ h₇ => ?_
    exact hd.kept (h₆.trans h₇)
  · exact hd.kept h₆

/-- An operand that may decide the result of a construct. -/
theorem after_operand {decide : Address → Gen Unit} (hd : Uses fun a => liftM (decide a))
    {x : Lower Address} (hx : After x ctx s (fun a s' => Yielded s a s') Benign) :
    After (operand decide x) ctx s (fun _ s' => Kept s s') Benign := by
  unfold operand
  refine hx.bind fun x s₁ hx => ?_
  refine (hd x ctx s₁ hx.sound (hx.operand le_rfl)).bind fun _ s₂ h₂ => ?_
  exact release_keeps (hx.kept h₂)

theorem operand_keeps {decide : Address → Gen Unit} (hd : Uses fun a => liftM (decide a))
    {x : Lower Address} (hx : Yields x) : Keeps (operand decide x) :=
  fun ctx s hs => after_operand hd (hx ctx s hs)

theorem logical_yields (isAnd : Bool) {x y : Lower Address} (hx : Yields x) (hy : Yields y) :
    Yields (logical isAnd x y) := by
  intro ctx s hs
  unfold logical
  refine (addTemporary_yields _ ctx s hs).bind fun dst s₁ hd => ?_
  dsimp only
  split
  · refine (pushFrame_keeps _ ctx s₁ hd.sound).bind fun _ s₂ h₂ => ?_
    refine (operand_keeps andOperand_uses hx ctx s₂ h₂.sound).bind fun _ s₃ h₃ => ?_
    refine (operand_keeps andOperand_uses hy ctx s₃ h₃.sound).bind fun _ s₄ h₄ => ?_
    have h₁₄ := (h₂.trans h₃).trans h₄
    refine (endLogical_uses _ _ dst ctx s₄ h₄.sound (hd.operand h₁₄.maxTemps)).bind fun _ s₅ h₅ => ?_
    exact hd.kept (h₁₄.trans h₅)
  · refine (pushFrame_keeps _ ctx s₁ hd.sound).bind fun _ s₂ h₂ => ?_
    refine (operand_keeps orOperand_uses hx ctx s₂ h₂.sound).bind fun _ s₃ h₃ => ?_
    refine (operand_keeps orOperand_uses hy ctx s₃ h₃.sound).bind fun _ s₄ h₄ => ?_
    have h₁₄ := (h₂.trans h₃).trans h₄
    refine (endLogical_uses _ _ dst ctx s₄ h₄.sound (hd.operand h₁₄.maxTemps)).bind fun _ s₅ h₅ => ?_
    exact hd.kept (h₁₄.trans h₅)

theorem branch_uses {x : Lower Address} (hx : Yields x) : Uses fun dst => branch dst x := by
  intro dst ctx s hs hd
  unfold branch
  refine (hx ctx s hs).bind fun x s₁ hx => ?_
  refine (emit_keeps hx.sound ?_).bind fun _ s₂ h₂ => release_keeps (hx.kept h₂)
  simpa using ⟨hd.mono hx.maxTemps, hx.operand le_rfl⟩

theorem conditional_yields (t : StaticType) {cond yes no : Lower Address} (hc : Yields cond)
    (hy : Yields yes) (hn : Yields no) : Yields (conditional t cond yes no) := by
  intro ctx s hs
  unfold conditional
  refine (addTemporary_yields t ctx s hs).bind fun dst s₁ hd => ?_
  refine (pushFrame_keeps _ ctx s₁ hd.sound).bind fun _ s₂ h₂ => ?_
  refine (operand_keeps ternaryCondition_uses hc ctx s₂ h₂.sound).bind fun _ s₃ h₃ => ?_
  have hd₃ := hd.kept (h₂.trans h₃)
  refine (branch_uses hy dst ctx s₃ h₃.sound (hd₃.operand le_rfl)).bind fun _ s₄ h₄ => ?_
  refine (ternaryElse_keeps ctx s₄ h₄.sound).bind fun _ s₅ h₅ => ?_
  have hd₅ := hd₃.kept (h₄.trans h₅)
  refine (branch_uses hn dst ctx s₅ h₅.sound (hd₅.operand le_rfl)).bind fun _ s₆ h₆ => ?_
  refine (endTernary_keeps ctx s₆ h₆.sound).bind fun _ s₇ h₇ => ?_
  exact hd₅.kept (h₆.trans h₇)

/-- What emits an instruction for a value and a type does so after looking up the type. -/
theorem emitType_keeps {op : Opcode} (hop : op.shape = [.address, .address, .name]) (hs : s.Sound)
    {d x : Nat} (hd : TempBelow s.gen.maxTemps d) (hx : TempBelow s.gen.maxTemps x) (n : Text) :
    After (do Gen.emit op [d, x, ← Gen.name n]) ctx s (fun _ s' => Kept s s') Benign := by
  refine (name_gen_keeps n ctx s hs).keeping fun i s₁ h₁ => emit_keeps h₁.sound ?_
  rw [Instruction.tempsBelow_mk, hop]
  simpa using ⟨hd.mono h₁.maxTemps, hx.mono h₁.maxTemps⟩

theorem emitScript_keeps {op : Opcode} (hop : op.shape = [.address, .address, .address])
    (hs : s.Sound) {d x : Nat} (hd : TempBelow s.gen.maxTemps d) (hx : TempBelow s.gen.maxTemps x)
    (t : StaticType) :
    After (do Gen.emit op [d, x, (← scriptConstant t).encode]) ctx s (fun _ s' => Kept s s') Benign := by
  refine (scriptConstant_finds t ctx s hs).bind fun c s₁ ⟨h₁, hc⟩ => ?_
  refine (emit_keeps h₁.sound ?_).post fun _ _ => h₁.trans
  rw [Instruction.tempsBelow_mk, hop]
  simpa using ⟨hd.mono h₁.maxTemps, hx.mono h₁.maxTemps, tempBelow_of_not_temporary hc _⟩

theorem test_keeps {dst x : Address} (t : StaticType) (hs : s.Sound)
    (hd : TempBelow s.gen.maxTemps dst.encode) (hx : TempBelow s.gen.maxTemps x.encode) :
    After (test dst x t) ctx s (fun _ s' => Kept s s') Benign := by
  unfold test
  split
  · exact emit_keeps hs (by simpa using ⟨hd, hx⟩)
  · exact emit_keeps hs (by simpa using ⟨hd, hx⟩)
  · exact emitType_keeps rfl hs hd hx _
  · exact emitScript_keeps rfl hs hd hx _
  · exact emitScript_keeps rfl hs hd hx _
  · exact assignConstant_keeps hs _ hd

theorem typeTest_yields (t : StaticType) {x : Lower Address} (hx : Yields x) (negated : Bool)
    (type : StaticType) : Yields (typeTest t x negated type) := by
  intro ctx s hs
  unfold typeTest
  refine (addTemporary_yields t ctx s hs).bind fun dst s₁ hd => ?_
  refine (hx ctx s₁ hd.sound).bind fun x s₂ hx => ?_
  refine (test_keeps type hx.sound (hd.operand hx.maxTemps) (hx.operand le_rfl)).bind fun _ s₃ h₃ => ?_
  refine (release_keeps (hx.kept h₃)).bind fun _ s₄ h₄ => ?_
  dsimp only
  split
  · refine (negate_uses dst ctx s₄ h₄.sound (hd.operand h₄.maxTemps)).bind fun _ s₅ h₅ => ?_
    exact hd.kept (h₄.trans h₅)
  · exact hd.kept h₄

theorem cast_yields (t : StaticType) {x : Lower Address} (hx : Yields x) : Yields (cast t x) := by
  intro ctx s hs
  unfold cast
  split
  · exact hx ctx s hs
  · refine (addTemporary_yields t ctx s hs).bind fun dst s₁ hd => ?_
    refine (hx ctx s₁ hd.sound).bind fun x s₂ hx => ?_
    have hd₂ := hd.operand hx.maxTemps
    have hx₂ := hx.operand le_rfl
    have hend : ∀ s₃, Kept s₂ s₃ → After (do Gen.release x; pure dst) ctx s₃
        (fun a s' => Yielded s a s') Benign := fun s₃ h₃ =>
      (release_keeps (hx.kept h₃)).bind fun _ s₄ h₄ => hd.kept h₄
    dsimp only
    split
    · exact (emit_keeps hx.sound (by simpa using ⟨hd₂, hx₂⟩)).bind fun _ => hend
    · exact (emit_keeps hx.sound (by simpa using ⟨hd₂, hx₂⟩)).bind fun _ => hend
    · rw [← bind_assoc]
      exact (emitType_keeps rfl hx.sound hd₂ hx₂ _).bind fun _ => hend
    · rw [← bind_assoc]
      exact (emitScript_keeps rfl hx.sound hd₂ hx₂ _).bind fun _ => hend
    · rw [← bind_assoc]
      exact (emitScript_keeps rfl hx.sound hd₂ hx₂ _).bind fun _ => hend
    · exact benign_internal rfl

theorem await_yields (t : StaticType) {x : Lower Address} (hx : Yields x) : Yields (await t x) := by
  intro ctx s hs
  unfold await
  refine (addTemporary_yields t ctx s hs).bind fun dst s₁ hd => ?_
  refine (hx ctx s₁ hd.sound).bind fun x s₂ hx => ?_
  refine (emit_keeps hx.sound ?_).bind fun _ s₃ h₃ => ?_
  · simp
    grind
  refine (release_keeps (hx.kept h₃)).bind fun _ s₄ h₄ => ?_
  exact hd.kept h₄

theorem mapM_name_yieldsAll (ids : List Ident) : YieldsAll (ids.mapM name) := by
  induction ids with
  | nil => exact fun ctx s hs => .nil hs
  | cons id ids ih =>
    intro ctx s hs
    rw [List.mapM_cons]
    refine (name_yields id ctx s hs).bind fun a s₁ ha => ?_
    exact (ih ctx s₁ ha.sound).bind fun as s₂ has => ha.cons has

theorem closure_yields (t : StaticType) (function : Nat) (captures : List Ident) (usesSelf : Bool) :
    Yields (closure t function captures usesSelf) := by
  intro ctx s hs
  unfold closure
  refine (addTemporary_yields t ctx s hs).bind fun dst s₁ hd => ?_
  refine (mapM_name_yieldsAll captures ctx s₁ hd.sound).bind fun as s₂ has => ?_
  refine (emitList_keeps has.sound ?_).bind fun _ s₃ h₃ => ?_
  · cases usesSelf <;> simp <;> grind
  refine (releaseAll_keeps (has.kept h₃)).bind fun _ s₄ h₄ => ?_
  exact hd.kept h₄

/-! ### Calls -/

theorem callName_uses {op : Opcode} (hop : op.shape = [.address, .name, .list]) (n : Text)
    {args : Lower (List Address)} (ha : YieldsAll args) : Uses fun dst => callName op dst n args := by
  intro dst ctx s hs hd
  unfold callName
  refine (ha ctx s hs).bind fun as s₁ has => ?_
  refine (name_gen_keeps n ctx s₁ has.sound).bind fun i s₂ h₂ => ?_
  refine (emitList_keeps h₂.sound ?_).bind fun _ s₃ h₃ => ?_
  · have hd₂ := hd.mono (le_trans has.maxTemps h₂.maxTemps)
    rw [Instruction.tempsBelow_mk, hop]
    simp
    grind
  exact releaseAll_keeps (has.kept (h₂.trans h₃))

theorem callMethod_uses {op : Opcode} (hop : op.shape = [.address, .address, .name, .list]) (n : Text)
    {base : Lower Address} {args : Lower (List Address)} (hb : Yields base) (ha : YieldsAll args) :
    Uses fun dst => callMethod op dst base n args := by
  intro dst ctx s hs hd
  unfold callMethod
  refine (hb ctx s hs).bind fun b s₁ hb => ?_
  refine (ha ctx s₁ hb.sound).bind fun as s₂ has => ?_
  refine (name_gen_keeps n ctx s₂ has.sound).bind fun i s₃ h₃ => ?_
  refine (emitList_keeps h₃.sound ?_).bind fun _ s₄ h₄ => ?_
  · have hd₃ := hd.mono (le_trans hb.maxTemps (le_trans has.maxTemps h₃.maxTemps))
    rw [Instruction.tempsBelow_mk, hop]
    simp
    grind
  refine (releaseAll_keeps (has.kept (h₃.trans h₄))).bind fun _ s₅ h₅ => ?_
  exact release_keeps (hb.kept h₅)

theorem construct_uses (t : BuiltinType) {args : Lower (List Address)} (ha : YieldsAll args) :
    Uses fun dst => construct dst t args := by
  intro dst ctx s hs hd
  have hend : ∀ as s₁, YieldedAll s as s₁ → After (do
      Gen.emitList .construct as [dst.encode, t.number]
      Gen.releaseAll as) ctx s₁ (fun _ s' => Kept s s') Benign := by
    intro as s₁ has
    refine (emitList_keeps has.sound ?_).bind fun _ s₂ h₂ => releaseAll_keeps (has.kept h₂)
    have hd₁ := hd.mono has.maxTemps
    simp
    grind
  unfold construct
  dsimp only
  split
  · exact hend [] s (.nil hs)
  · exact (ha ctx s hs).bind hend

theorem Uses.ite {c : Prop} [Decidable c] {f g : Address → Lower α} (hf : Uses f) (hg : Uses g) :
    Uses fun a => if c then f a else g a := by
  split
  · exact hf
  · exact hg

theorem pure_yields (h : a.isTemporary = false) : Yields (pure a) := fun _ _ hs => (Kept.refl hs).yields h

theorem callOwn_uses (id : Ident) (facts : CallFacts) {args : Lower (List Address)}
    (ha : YieldsAll args) : Uses fun dst => callOwn dst id facts args :=
  .ite (callName_uses rfl _ ha) <| .ite (callMethod_uses rfl _ (pure_yields rfl) ha) <|
    .ite (callMethod_uses rfl _ (pure_yields rfl) ha) (callName_uses rfl _ ha)

theorem callNamed_uses (id : Ident) (facts : CallFacts) {args : Lower (List Address)}
    (ha : YieldsAll args) : Uses fun dst => callNamed dst id facts args := by
  refine .ite (callOwn_uses id facts ha) ?_
  split
  · exact construct_uses _ ha
  · exact .ite (callName_uses rfl _ ha) (.ite (callName_uses rfl _ ha) (callOwn_uses id facts ha))

theorem callOn_uses (x : Expr) (id : Ident) (facts : CallFacts) (actual : List Expr)
    {base : Lower Address} {args : Lower (List Address)} (hb : Yields base) (ha : YieldsAll args) :
    Uses fun dst => callOn dst x id facts actual base args := by
  unfold callOn
  refine .ite (callMethod_uses rfl _ hb ha) <| .ite (callName_uses rfl _ ha) <|
    .ite (callMethod_uses rfl _ hb ha) ?_
  split
  · intro dst ctx s hs hd
    rw [after_bind, after_types]
    refine callMethod_uses ?_ _ hb ha dst ctx s hs hd
    split <;> rfl
  · refine callMethod_uses ?_ _ hb ha
    split <;> rfl

theorem call_uses (fn : Expr) (facts : CallFacts) (actual : List Expr) {base : Lower Address}
    {args : Lower (List Address)} (hb : Yields base) (ha : YieldsAll args) :
    Uses fun dst => call dst fn facts actual base args := by
  unfold call
  split
  · exact callNamed_uses _ facts ha
  · exact callOn_uses _ _ facts actual hb ha
  · exact fun _ _ _ _ _ => benign_internal rfl

theorem callSuper_uses (facts : CallFacts) {args : Lower (List Address)} (ha : YieldsAll args) :
    Uses fun dst => callSuper dst facts args := by
  refine callName_uses ?_ _ ha
  split <;> rfl

theorem result_yields (t : StaticType) {call : Address → Lower Unit} (hc : Uses call) :
    Yields (result t call) := by
  intro ctx s hs
  unfold result
  refine (addTemporary_yields t ctx s hs).bind fun dst s₁ hd => ?_
  exact (hc dst ctx s₁ hd.sound (hd.operand le_rfl)).bind fun _ s₂ h₂ => hd.kept h₂

end Lower

end GameScript
