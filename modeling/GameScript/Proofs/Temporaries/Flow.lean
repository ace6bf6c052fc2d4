import GameScript.Proofs.Temporaries.Routes

/-!
# Temporaries of statements and patterns

The counter and the container of a loop and the value of a match live as long as their statement; a
pattern computes whether its value matches. At the end of a function nothing is left on the stack.
-/

namespace GameScript

namespace Lower

variable {α : Type} {ctx : LowerContext} {s s₁ s₂ : Lowering} {a : Address}

/-! ### Choices and loops -/

/-- Skips what follows unless a condition is true. -/
theorem skipUnless_keeps {cond : Lower Address} (hc : Yields cond) {β : Type} {k : Lower β}
    (hk : Keeps k) (l : Nat) : Keeps (do
      let cond ← cond
      Gen.jumpIfNot cond l
      Gen.release cond
      k) := by
  intro ctx s hs
  refine (hc ctx s hs).bind fun c s₁ hc => ?_
  refine (jumpIfNot_uses l c ctx s₁ hc.sound (hc.operand le_rfl)).bind fun _ s₂ h₂ => ?_
  exact (release_keeps (hc.kept h₂)).keeping fun _ s₃ h₃ => hk ctx s₃ h₃.sound

theorem choose_keeps {cond : Lower Address} {yes : Lower Unit} {no : Option (Lower Unit)}
    (hc : Yields cond) (hy : Keeps yes) (hn : ∀ x ∈ no, Keeps x) : Keeps (choose cond yes no) := by
  intro ctx s hs
  unfold choose
  refine (hc ctx s hs).bind fun c s₁ hc => ?_
  refine (newLabel_keeps ctx s₁ hc.sound).bind fun l s₂ h₂ => ?_
  refine (jumpIfNot_uses l c ctx s₂ h₂.sound (hc.operand h₂.maxTemps)).bind fun _ s₃ h₃ => ?_
  refine (release_keeps (hc.kept (h₂.trans h₃))).keeping fun _ s₄ h₄ => ?_
  refine (hy ctx s₄ h₄.sound).keeping fun _ s₅ h₅ => ?_
  cases no with
  | none => exact bind_keeps l ctx s₅ h₅.sound
  | some no =>
    refine Keeps.bind newLabel_keeps (fun done => ?_) ctx s₅ h₅.sound
    exact (jumpTo_keeps done).bind fun _ => (bind_keeps l).bind fun _ =>
      (hn no rfl).bind fun _ => bind_keeps done

theorem inLoop_keeps (l : LoopLabels) {body : Lower Unit} (hb : Keeps body) : Keeps (inLoop l body) := by
  intro ctx s hs
  unfold inLoop
  rw [after_bind, after_update]
  have h₁ : Kept s { s with loops := l :: s.loops } := kept_of_same hs rfl rfl
  refine (hb ctx _ h₁.sound).bind fun _ s₂ h₂ => ?_
  rw [after_update]
  exact (h₁.trans h₂).trans (kept_of_same h₂.sound rfl rfl)

theorem repeatWhile_keeps {cond : Lower Address} {body : Lower Unit} (hc : Yields cond)
    (hb : Keeps body) : Keeps (repeatWhile cond body) :=
  newLabel_keeps.bind fun head => newLabel_keeps.bind fun done => (bind_keeps head).bind fun _ =>
    skipUnless_keeps hc ((inLoop_keeps _ hb).bind fun _ => (jumpTo_keeps head).bind fun _ =>
      bind_keeps done) done

theorem forEach_keeps (id : Ident) (t : StaticType) {x : Lower Address} {body : Lower Unit}
    (hx : Yields x) (hb : Keeps body) : Keeps (forEach id t x body) := by
  intro ctx s hs
  unfold forEach
  refine (addTemporary_yields _ ctx s hs).bind fun counter s₁ hcounter => ?_
  refine (addTemporary_yields t ctx s₁ hcounter.sound).bind fun container s₂ hcont => ?_
  refine (hx ctx s₂ hcont.sound).bind fun x s₃ hx => ?_
  refine (emit_keeps hx.sound ?_).bind fun _ s₄ h₄ => ?_
  · simp
    grind
  refine (release_keeps (hx.kept h₄)).bind fun _ s₅ h₅ => ?_
  rw [after_bind, after_note]
  refine (addLocal_finds id _ ctx s₅ h₅.sound).bind fun v s₆ ⟨h₆, hv⟩ => ?_
  refine (newLabel_keeps ctx s₆ h₆.sound).bind fun again s₇ h₇ => ?_
  refine (newLabel_keeps ctx s₇ h₇.sound).bind fun next s₈ h₈ => ?_
  refine (newLabel_keeps ctx s₈ h₈.sound).bind fun done s₉ h₉ => ?_
  have h₂₉ := (((h₅.trans h₆).trans h₇).trans h₈).trans h₉
  have hstep : ∀ op ∈ [Opcode.iterateBegin, .iterate], ∀ s', Kept s₂ s' →
      After (Gen.emit op [counter.encode, container.encode, v.encode, done]) ctx s'
        (fun _ s'' => Kept s' s'') Benign := by
    intro op hop s' h
    refine emit_keeps h.sound ?_
    have hshape : op.shape = [.address, .address, .address, .label] := by
      simp only [List.mem_cons, List.not_mem_nil, or_false] at hop
      rcases hop with rfl | rfl <;> rfl
    rw [Instruction.tempsBelow_mk, hshape]
    simp
    grind
  refine (hstep _ (by simp) s₉ h₂₉).bind fun _ s₁₀ h₁₀ => ?_
  refine (bind_keeps again ctx s₁₀ h₁₀.sound).bind fun _ s₁₁ h₁₁ => ?_
  refine (inLoop_keeps _ hb ctx s₁₁ h₁₁.sound).bind fun _ s₁₂ h₁₂ => ?_
  refine (bind_keeps next ctx s₁₂ h₁₂.sound).bind fun _ s₁₃ h₁₃ => ?_
  have h₂₁₃ := (((h₂₉.trans h₁₀).trans h₁₁).trans h₁₂).trans h₁₃
  refine (hstep _ (by simp) s₁₃ h₂₁₃).bind fun _ s₁₄ h₁₄ => ?_
  refine (jumpTo_keeps again ctx s₁₄ h₁₄.sound).bind fun _ s₁₅ h₁₅ => ?_
  refine (bind_keeps done ctx s₁₅ h₁₅.sound).bind fun _ s₁₆ h₁₆ => ?_
  have h := ((h₂₁₃.trans h₁₄).trans h₁₅).trans h₁₆
  refine (release_keeps (hcont.kept h)).bind fun _ s₁₇ h₁₇ => ?_
  exact release_keeps (hcounter.kept h₁₇)

theorem jump_keeps (pos : Pos) (j : Jump) : Keeps (jump pos j) := by
  intro ctx s hs
  unfold jump
  rw [after_bind, after_current]
  split
  · exact .refl hs
  · exact emit_keeps hs (by simp)
  · split
    · exact jumpTo_keeps _ ctx s hs
    · exact benign_internal rfl
  · split
    · exact jumpTo_keeps _ ctx s hs
    · exact benign_internal rfl
  · split
    · exact jumpTo_keeps _ ctx s hs
    · exact benign_internal rfl

/-! ### Simple statements -/

theorem returnNil_keeps : Keeps returnNil := fun _ _ hs => emit_keeps hs (by simp)

theorem returnValue_keeps {x : Lower Address} (hx : Yields x) : Keeps (returnValue x) := by
  intro ctx s hs
  unfold returnValue
  rw [after_bind, after_update]
  have h₁ : Kept s { s with returnsValue := true } := kept_of_same hs rfl rfl
  refine (hx ctx _ h₁.sound).bind fun x s₂ hx => ?_
  refine (emit_keeps hx.sound ?_).bind fun _ s₃ h₃ => ?_
  · simpa using hx.operand le_rfl
  exact (release_keeps (hx.kept h₃)).post fun _ _ => h₁.trans

theorem assertion_keeps {cond message : Lower Address} (hc : Yields cond) (hm : Yields message) :
    Keeps (assertion cond message) := by
  intro ctx s hs
  unfold assertion
  refine (hc ctx s hs).bind fun c s₁ hc => ?_
  refine (hm ctx s₁ hc.sound).bind fun m s₂ hm => ?_
  refine (emit_keeps hm.sound ?_).bind fun _ s₃ h₃ => ?_
  · simp
    grind
  refine (release_keeps (hm.kept h₃)).bind fun _ s₄ h₄ => ?_
  exact release_keeps (hc.kept h₄)

theorem initVariable_keeps {dst : Address} (n : Note) {first : Option (Lower Address)}
    (hf : ∀ x ∈ first, Yields x) (hd : dst.isTemporary = false) : Keeps (initVariable dst n first) := by
  intro ctx s hs
  unfold initVariable
  cases first with
  | none => exact storeDefault_keeps _ hs (tempBelow_of_not_temporary hd _)
  | some x =>
    refine (hf x rfl ctx s hs).bind fun src s₁ hx => ?_
    refine (assign_keeps _ hx.sound (tempBelow_of_not_temporary hd _) (hx.operand le_rfl)).bind
      fun _ s₂ h₂ => ?_
    exact release_keeps (hx.kept h₂)

/-! ### Patterns -/

/-- Code that computes a value from one which its caller keeps. -/
def Tests (f : Address → Lower Address) : Prop :=
  ∀ a ctx s, s.Sound → TempBelow s.gen.maxTemps a.encode →
    After (f a) ctx s (fun r s' => Yielded s r s') Benign

theorem equalPattern_tests (x : Expr) {code : Lower Address} (hc : Yields code) :
    Tests fun value => equalPattern value x code := by
  intro value ctx s hs hv
  unfold equalPattern
  refine (addTemporary_yields _ ctx s hs).bind fun dst s₁ hd => ?_
  refine (pushFrame_keeps _ ctx s₁ hd.sound).bind fun _ s₂ h₂ => ?_
  refine (hc ctx s₂ h₂.sound).bind fun c s₃ hc => ?_
  refine (addTemporary_yields _ ctx s₃ hc.sound).bind fun test s₄ ht => ?_
  have hv₄ := hv.mono (le_trans (hd.kept h₂).maxTemps (le_trans hc.maxTemps ht.maxTemps))
  refine (emit_keeps ht.sound ?_).bind fun _ s₅ h₅ => ?_
  · simpa using ⟨ht.operand le_rfl, hv₄⟩
  refine (andOperand_uses test ctx s₅ h₅.sound (ht.operand h₅.maxTemps)).bind fun _ s₆ h₆ => ?_
  have h₄₆ := h₅.trans h₆
  refine (emit_keeps h₆.sound ?_).bind fun _ s₇ h₇ => ?_
  · have hv₆ := hv₄.mono h₄₆.maxTemps
    simp
    grind
  have h₄₇ := h₄₆.trans h₇
  refine (andOperand_uses test ctx s₇ h₇.sound (ht.operand h₄₇.maxTemps)).bind fun _ s₈ h₈ => ?_
  refine (release_keeps (ht.kept (h₄₇.trans h₈))).bind fun _ s₉ h₉ => ?_
  refine (release_keeps (hc.kept h₉)).bind fun _ s₁₀ h₁₀ => ?_
  have hd₁₀ := hd.kept (h₂.trans h₁₀)
  refine (endLogical_uses _ _ dst ctx s₁₀ h₁₀.sound (hd₁₀.operand le_rfl)).bind fun _ s₁₁ h₁₁ => ?_
  exact hd₁₀.kept h₁₁

theorem bindPattern_tests (id : Ident) : Tests fun value => bindPattern value id := by
  intro value ctx s hs hv
  unfold bindPattern
  rw [after_bind, after_note]
  refine (addLocal_finds id _ ctx s hs).bind fun a s₁ ⟨h₁, ha⟩ => ?_
  refine (emit_keeps h₁.sound ?_).bind fun _ s₂ h₂ => ?_
  · simpa using ⟨tempBelow_of_not_temporary ha _, hv.mono h₁.maxTemps⟩
  exact ((constant_finds _).yields ctx s₂ h₂.sound).post fun _ _ => (h₁.trans h₂).yielded

theorem lengthTest_keeps {test value : Address} (n : Nat) (atLeast : Bool) (hs : s.Sound)
    (ht : TempBelow s.gen.maxTemps test.encode) (hv : TempBelow s.gen.maxTemps value.encode) :
    After (lengthTest test value n atLeast) ctx s (fun _ s' => Kept s s') Benign := by
  unfold lengthTest
  refine (addTemporary_yields _ ctx s hs).bind fun size s₁ hsize => ?_
  refine (name_gen_keeps _ ctx s₁ hsize.sound).bind fun i s₂ h₂ => ?_
  refine (emitList_keeps h₂.sound ?_).bind fun _ s₃ h₃ => ?_
  · simpa using ⟨hsize.operand h₂.maxTemps, hv.mono (hsize.kept h₂).maxTemps⟩
  refine (constant_finds _ ctx s₃ h₃.sound).bind fun c s₄ ⟨h₄, hc⟩ => ?_
  have h₁₄ := (h₂.trans h₃).trans h₄
  refine (emit_keeps h₄.sound ?_).bind fun _ s₅ h₅ => ?_
  · have ht₄ := ht.mono (hsize.kept h₁₄).maxTemps
    simpa using ⟨ht₄, hsize.operand h₁₄.maxTemps, tempBelow_of_not_temporary hc _⟩
  refine (release_keeps (hsize.kept (h₁₄.trans h₅))).keeping fun _ s₆ h₆ => ?_
  exact andOperand_uses test ctx s₆ h₆.sound (ht.mono h₆.maxTemps)

theorem containerPattern_tests (t : BuiltinType) (n : Nat) (atLeast : Bool)
    {contents : Address → Address → Lower Unit}
    (hc : ∀ test value ctx s, s.Sound → TempBelow s.gen.maxTemps test.encode →
      TempBelow s.gen.maxTemps value.encode →
      After (contents value test) ctx s (fun _ s' => Kept s s') Benign) :
    Tests fun value => containerPattern value t n atLeast (contents value) := by
  intro value ctx s hs hv
  unfold containerPattern
  refine (addTemporary_yields _ ctx s hs).bind fun dst s₁ hd => ?_
  refine (pushFrame_keeps _ ctx s₁ hd.sound).bind fun _ s₂ h₂ => ?_
  refine (addTemporary_yields _ ctx s₂ h₂.sound).bind fun test s₃ ht => ?_
  have hv₃ := hv.mono (le_trans (hd.kept h₂).maxTemps ht.maxTemps)
  have ht₃ := ht.operand le_rfl
  refine (emit_keeps ht.sound (by simpa using ⟨ht₃, hv₃⟩)).bind fun _ s₄ h₄ => ?_
  refine (andOperand_uses test ctx s₄ h₄.sound (ht₃.mono h₄.maxTemps)).bind fun _ s₅ h₅ => ?_
  have h₃₅ := h₄.trans h₅
  refine (lengthTest_keeps n atLeast h₅.sound (ht₃.mono h₃₅.maxTemps) (hv₃.mono h₃₅.maxTemps)).bind
    fun _ s₆ h₆ => ?_
  have h₃₆ := h₃₅.trans h₆
  refine (hc test value ctx s₆ h₆.sound (ht₃.mono h₃₆.maxTemps) (hv₃.mono h₃₆.maxTemps)).bind
    fun _ s₇ h₇ => ?_
  refine (release_keeps (ht.kept (h₃₆.trans h₇))).bind fun _ s₈ h₈ => ?_
  have hd₈ := hd.kept (h₂.trans h₈)
  refine (endLogical_uses _ _ dst ctx s₈ h₈.sound (hd₈.operand le_rfl)).bind fun _ s₉ h₉ => ?_
  exact hd₈.kept h₉

/-- The key of an element is a constant, or one that the caller keeps. -/
theorem elementPattern_uses {key : Gen Address} {pattern : Address → Lower Address}
    (bound : Nat) (hk : ∀ ctx s, s.Sound → bound ≤ s.gen.maxTemps → After key ctx s
      (fun k s' => Kept s s' ∧ TempBelow s'.gen.maxTemps k.encode) Benign) (hp : Tests pattern)
    {container : Address} (hs : s.Sound) (hb : bound ≤ s.gen.maxTemps)
    (hc : TempBelow s.gen.maxTemps container.encode) :
    After (elementPattern container key pattern) ctx s (fun _ s' => Kept s s') Benign := by
  unfold elementPattern
  refine (addTemporary_yields _ ctx s hs).bind fun value s₁ hv => ?_
  refine (hk ctx s₁ hv.sound (le_trans hb hv.maxTemps)).bind fun k s₂ ⟨h₂, hk₂⟩ => ?_
  refine (emit_keeps h₂.sound ?_).bind fun _ s₃ h₃ => ?_
  · simpa using ⟨hv.operand h₂.maxTemps, hc.mono (hv.kept h₂).maxTemps, hk₂⟩
  have h₁₃ := h₂.trans h₃
  refine (hp value ctx s₃ h₃.sound (hv.operand h₁₃.maxTemps)).bind fun r s₄ hr => ?_
  refine (andOperand_uses r ctx s₄ hr.sound (hr.operand le_rfl)).bind fun _ s₅ h₅ => ?_
  refine (release_keeps (hr.kept h₅)).bind fun _ s₆ h₆ => ?_
  exact release_keeps (hv.kept (h₁₃.trans h₆))

theorem entryPattern_keeps {test container : Address} {key : Lower Address} (hk : Yields key)
    {pattern : Option (Address → Lower Address)} (hp : ∀ p ∈ pattern, Tests p) (hs : s.Sound)
    (ht : TempBelow s.gen.maxTemps test.encode) (hc : TempBelow s.gen.maxTemps container.encode) :
    After (entryPattern test container key pattern) ctx s (fun _ s' => Kept s s') Benign := by
  unfold entryPattern
  refine (hk ctx s hs).bind fun k s₁ hk => ?_
  have ht₁ := ht.mono hk.maxTemps
  have hc₁ := hc.mono hk.maxTemps
  refine (emit_keeps hk.sound (by simpa using ⟨ht₁, hk.operand le_rfl, hc₁⟩)).bind fun _ s₂ h₂ => ?_
  refine (andOperand_uses test ctx s₂ h₂.sound (ht₁.mono h₂.maxTemps)).bind fun _ s₃ h₃ => ?_
  have h₁₃ := h₂.trans h₃
  have hpat : After (pattern.forM (elementPattern container (pure k))) ctx s₃
      (fun _ s' => Kept s₃ s') Benign := by
    cases pattern with
    | none => exact .refl h₃.sound
    | some p =>
      refine elementPattern_uses s₃.gen.maxTemps ?_ (hp p rfl) h₃.sound le_rfl
        (hc₁.mono h₁₃.maxTemps)
      exact fun ctx s' hs' hm => ⟨.refl hs', hk.operand (le_trans h₁₃.maxTemps hm)⟩
  refine hpat.bind fun _ s₄ h₄ => ?_
  exact release_keeps (hk.kept (h₁₃.trans h₄))

theorem orOperands_keeps {ps : List (Lower Address)} {bound : Nat}
    (hp : ∀ p ∈ ps, ∀ s, s.Sound → bound ≤ s.gen.maxTemps →
      After p ctx s (fun r s' => Yielded s r s') Benign) (hs : s.Sound) (hb : bound ≤ s.gen.maxTemps) :
    After (ps.forM fun p => operand Gen.orOperand p) ctx s (fun _ s' => Kept s s') Benign := by
  induction ps generalizing s with
  | nil => exact .refl hs
  | cons p ps ih =>
    unfold List.forM
    refine (after_operand orOperand_uses (hp p (by simp) s hs hb)).keeping fun _ s₁ h₁ => ?_
    exact ih (fun q hq => hp q (by simp [hq])) h₁.sound (le_trans hb h₁.maxTemps)

theorem anyPattern_yields {ps : List (Lower Address)} (hs : s.Sound)
    (hp : ∀ p ∈ ps, ∀ s', s'.Sound → s.gen.maxTemps ≤ s'.gen.maxTemps →
      After p ctx s' (fun r s'' => Yielded s' r s'') Benign) :
    After (anyPattern ps) ctx s (fun r s' => Yielded s r s') Benign := by
  unfold anyPattern
  split
  · exact hp _ (by simp) s hs le_rfl
  · refine (addTemporary_yields _ ctx s hs).bind fun dst s₁ hd => ?_
    refine (pushFrame_keeps _ ctx s₁ hd.sound).bind fun _ s₂ h₂ => ?_
    have hd₂ := hd.kept h₂
    refine (orOperands_keeps hp h₂.sound hd₂.maxTemps).bind fun _ s₃ h₃ => ?_
    refine (endLogical_uses _ _ dst ctx s₃ h₃.sound (hd₂.operand h₃.maxTemps)).bind fun _ s₄ h₄ => ?_
    exact hd₂.kept (h₃.trans h₄)

theorem matchBranch_keeps (done : Nat) {cond : Lower Address} {body : Lower Unit} (hs : s.Sound)
    (hc : ∀ s', s'.Sound → s.gen.maxTemps ≤ s'.gen.maxTemps →
      After cond ctx s' (fun r s'' => Yielded s' r s'') Benign) (hb : Keeps body) :
    After (matchBranch done cond body) ctx s (fun _ s' => Kept s s') Benign := by
  unfold matchBranch
  refine (newLabel_keeps ctx s hs).keeping fun next s₁ h₁ => ?_
  refine (hc s₁ h₁.sound h₁.maxTemps).bind fun c s₂ hc => ?_
  refine (jumpIfNot_uses next c ctx s₂ hc.sound (hc.operand le_rfl)).bind fun _ s₃ h₃ => ?_
  refine (release_keeps (hc.kept h₃)).keeping fun _ s₄ h₄ => ?_
  rw [after_bind, after_update]
  have h₅ : Kept s₄ { s₄ with cases := next :: s₄.cases } := kept_of_same h₄.sound rfl rfl
  refine (hb ctx _ h₅.sound).bind fun _ s₆ h₆ => ?_
  rw [after_bind, after_update]
  have h₇ : Kept s₆ { s₆ with cases := s₆.cases.drop 1 } := kept_of_same h₆.sound rfl rfl
  refine ((jumpTo_keeps done).bind fun _ => bind_keeps next) ctx _ h₇.sound |>.post fun _ s₈ h₈ => ?_
  exact ((h₅.trans h₆).trans h₇).trans h₈

theorem matching_keeps (t : StaticType) {x : Lower Address} (hx : Yields x)
    {branches : Address → Nat → Lower Unit} (hb : ∀ done, Uses fun value => branches value done) :
    Keeps (matching t x branches) := by
  intro ctx s hs
  unfold matching
  refine (addTemporary_yields t ctx s hs).bind fun value s₁ hv => ?_
  refine (hx ctx s₁ hv.sound).bind fun x s₂ hx => ?_
  refine (emit_keeps hx.sound ?_).bind fun _ s₃ h₃ => ?_
  · simp
    grind
  refine (release_keeps (hx.kept h₃)).bind fun _ s₄ h₄ => ?_
  refine (newLabel_keeps ctx s₄ h₄.sound).bind fun done s₅ h₅ => ?_
  have hv₅ := hv.kept (h₄.trans h₅)
  refine (hb done value ctx s₅ h₅.sound (hv₅.operand le_rfl)).bind fun _ s₆ h₆ => ?_
  refine (bind_keeps done ctx s₆ h₆.sound).bind fun _ s₇ h₇ => ?_
  exact release_keeps (hv₅.kept (h₆.trans h₇))

/-! ### Functions -/

/-- Code that makes a function, from an empty stack. -/
def Builds (x : Lower Function) : Prop :=
  ∀ ctx s, s.Sound → s.gen.temps = [] → After x ctx s (fun f s' => s'.Sound ∧ f.Balanced) Benign

theorem Keeps.builds {x : Lower α} {f : α → Lower Function} (hx : Keeps x) (hf : ∀ a, Builds (f a)) :
    Builds (x >>= f) := by
  intro ctx s hs ht
  refine (hx ctx s hs).bind fun a s₁ h₁ => ?_
  exact hf a ctx s₁ h₁.sound (h₁.temps.trans ht)

theorem returnType_keeps (t : StaticType) : Keeps (returnType t) := by
  intro ctx s hs
  unfold returnType
  split
  · exact .refl hs
  · rw [after_bind, after_current]
    split <;> exact .refl hs

/-- **A function that leaves nothing on the stack is balanced.** -/
theorem finish_builds (f : Function) (entries : List Nat) : Builds (finish f entries) := by
  intro ctx s hs ht
  unfold finish
  rw [after_bind, after_current]
  simp only [ht, List.length_nil, ne_eq, not_true_eq_false, if_false]
  rw [after_bind, after_lift]
  unfold Gen.machineCode
  rw [Gen.after_bind, Gen.after_get]
  split
  · exact benign_internal rfl
  · dsimp only
    split
    · exact benign_internal rfl
    · refine ⟨hs, ?_, ?_⟩
      · have := hs.gen.allocated
        simpa [ht] using this
      · exact Assembly.tempsBelow_machineCode hs.gen.fits hs.gen.below

/-- The end of every function: its body, a return unless the body always returns, and its code. -/
theorem body_builds {body : Lower Unit} (hb : Keeps body) (returns : Bool) (t : StaticType)
    (f : RuntimeType → Function) (starts : List Nat) : Builds (do
      body
      if !returns then returnNil
      finish (f (← returnType t)) starts) := by
  have hend : Builds (do finish (f (← returnType t)) starts) :=
    (returnType_keeps t).builds fun r => finish_builds (f r) starts
  refine hb.builds fun _ => ?_
  dsimp only
  split
  · exact returnNil_keeps.builds fun _ => hend
  · exact hend

/-- A function of its own leaves the stack around it as it was. -/
theorem separately_keeps (name : Text) (property : Option Text) (line : Int) {x : Lower Function}
    (hx : Builds x) : Keeps (separately name property line x) := by
  intro ctx s hs
  have hfresh : Lowering.Sound { gen := { pool := s.gen.pool, line } } :=
    ⟨⟨rfl, le_rfl, by simp, by simp, hs.gen.functions⟩, by simp [Table.get?]⟩
  have h := hx { ctx with function := name, property } _ hfresh rfl
  unfold After at h ⊢
  unfold separately
  split at h
  · rename_i f inner heq
    rw [heq]
    refine ⟨⟨⟨hs.gen.allocated, hs.gen.depth, hs.gen.below, hs.gen.fits, ?_⟩, hs.vars⟩, rfl, le_rfl⟩
    intro f' hf'
    rcases List.mem_append.mp hf' with hf' | hf'
    · exact h.1.gen.functions f' hf'
    · rw [List.mem_singleton.mp hf']
      exact h.2
  · rename_i e inner heq
    rw [heq]
    exact h

theorem forIn_keeps {β : Type} (xs : List β) {f : β → PUnit → Lower (ForInStep PUnit)}
    (hf : ∀ x u, Keeps (f x u)) (u : PUnit) : Keeps (forIn xs u f) := by
  induction xs generalizing u with
  | nil => exact pure_keeps u
  | cons x xs ih =>
    rw [List.forIn_cons]
    refine (hf x u).bind fun r => ?_
    cases r with
    | done u => exact pure_keeps u
    | yield u => exact ih u

theorem addParams_keeps (captures : List Ident) (params : List Param) :
    Keeps (addParams captures params) := by
  unfold addParams
  refine (forIn_keeps captures (fun id _ => ?_) _).bind fun _ =>
    (forIn_keeps params (fun p _ => ?_) _).bind fun _ => pure_keeps _
  · split
    · exact (addParam_keeps _ _ _ _).bind fun _ => pure_keeps _
    · exact (addParam_keeps _ _ _ _).bind fun _ => pure_keeps _
  · exact Keeps.bind (fun _ _ hs => .refl hs) fun n => (addParam_keeps _ _ _ _).bind fun _ => pure_keeps _

theorem paramAt_finds (p : Pos) : Finds (paramAt p) := by
  intro ctx s hs
  unfold paramAt
  rw [after_bind, after_current, after_pure]
  refine ⟨.refl hs, ?_⟩
  cases h : s.vars.get? p with
  | none => rfl
  | some a => exact hs.vars p a h

theorem entry_keeps : Keeps entry :=
  newLabel_keeps.bind fun l => (bind_keeps l).bind fun _ => pure_keeps l

theorem literal_finds (l : Literal) : Finds (literal l) := by
  intro ctx s hs
  unfold literal
  refine (direct?_keeps _ hs).bind fun r s₁ ⟨h₁, hr⟩ => ?_
  cases r with
  | some a => exact ⟨h₁, hr a rfl⟩
  | none => exact (constant_finds _ ctx s₁ h₁.sound).post fun _ _ ⟨h₂, hc⟩ => ⟨h₁.trans h₂, hc⟩

end Lower

end GameScript
