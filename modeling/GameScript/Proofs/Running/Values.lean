import GameScript.Proofs.Running.Image
import GameScript.Proofs.Running.Alike

/-!
# Code of expressions

The code of an expression computes its value into an address that later code does not change, and leaves
the variables and the temporaries below as they are (`Computed`).
-/

namespace GameScript

/-- The code between `s` and `s'` computes `f` into `a`. -/
structure Computed (cs : List Value) (s : Lowering) (a : Address) (s' : Lowering) (f : Env → Except ValueError Value) :
    Prop where
  grows : Grows [] s s'
  ready : s'.Ready
  holds : Holds s.gen.temps a s'.gen.temps
  nesting : s'.nesting = s.nesting.withTemps s'.gen.temps
  readable : a.mode ≠ .nil
  runs : ∀ (I : Image cs) (m : Memory) (ρ : Env), I.Includes s' → I.Holds ρ m →
    I.Evaluates (I.here s m) (f ρ) fun v c =>
      ∃ m', c = I.here s' m' ∧ Memory.Same s.gen.temps.length m m' ∧ I.Reads m' a v

/-- Between `s` and `s'` the value of `f` is tested, which takes a step: unless it is `sense`, the code
goes on at `skip`. -/
structure Tested (cs : List Value) (s s' : Lowering) (sense : Bool) (skip : Nat) (f : Env → Except ValueError Value) :
    Prop where
  grows : Grows [] s s'
  ready : s'.Ready
  nesting : s'.nesting = s.nesting
  runs : ∀ (I : Image cs) (m : Memory) (ρ : Env), I.Includes s' → I.Holds ρ m →
    I.Evaluates (I.here s m) (f ρ) fun v c => (∃ m', Memory.Same s.gen.temps.length m m' ∧
      c = if v.truth = sense then I.here s' m' else ⟨I.label skip, m'⟩) ∧
      ∀ n, I.machine.Lasts n c → I.machine.Lasts (n + 1) (I.here s m)

/-- The code between `s` and `s'` computes `f` into the temporary `i`, which is live. -/
structure Stored (cs : List Value) (s s' : Lowering) (i : Nat) (f : Env → Except ValueError Value) : Prop where
  grows : Grows [] s s'
  ready : s'.Ready
  nesting : s'.nesting = s.nesting
  runs : ∀ (I : Image cs) (m : Memory) (ρ : Env), I.Includes s' → I.Holds ρ m →
    I.Evaluates (I.here s m) (f ρ) fun v c => ∃ m' t, c = I.here s' m' ∧ Memory.Same i m m' ∧
      I.Reads m' ⟨.temporary, i, t⟩ v

section Relations

variable {cs : List Value} {s s₁ s₂ : Lowering} {a : Address} {f : Env → Except ValueError Value}

theorem Computed.depth_le (h : Computed cs s a s₁ f) : s.gen.temps.length ≤ s₁.gen.temps.length :=
  h.holds.length_le

theorem Computed.index_lt (h : Computed cs s a s₁ f) (ha : a.mode = .temporary) :
    a.index < s₁.gen.temps.length := by
  have hh := h.holds
  unfold GameScript.Holds at hh
  rw [if_pos (by simp [Address.isTemporary, ha])] at hh
  obtain ⟨hi, t, ht⟩ := hh
  simp [ht, hi]

theorem Adds.depth_lt {is : List Instruction} {k : Nesting} {t : StaticType} {ts : List StaticType}
    (h : Adds s is (k.withTemps (t :: ts)) s₁) : ts.length < s₁.gen.temps.length := by
  rw [h.temps]
  simp

/-- There is room for the temporaries that are live in a part of the code. -/
theorem Image.Holds.room_for {I : Image cs} {m : Memory} {ρ : Env} (hm : I.Holds ρ m) (hi : I.Includes s)
    (hs : s.Ready) {i : Nat} (h : i < s.gen.temps.length) : Image.Room m i := by
  refine hm.room_of_lt ?_
  rw [hm.room]
  have h₁ := hs.depth
  have h₂ := hi.temps
  omega

end Relations

namespace Lower

variable {cs : List Value} {ctx : LowerContext} {s : Lowering} {x y : Lower Address} {f g : Env → Except ValueError Value}

/-- Code that computes `f`. -/
def Computes (cs : List Value) (ctx : LowerContext) (x : Lower Address) (f : Env → Except ValueError Value) : Prop :=
  ∀ s, s.Ready → Ends x ctx s fun a s' => Computed cs s a s' f

/-! ### Constants and variables -/

theorem constant_found {v : Value} (hv : Pool.Told cs v) (hs : s.Ready) :
    Ends (Gen.constant v) ctx s fun a s' => Adds s [] s.nesting s' ∧ a.mode = .constant ∧
      ∀ (I : Image cs) (m : Memory), I.Includes s' → I.Reads m a v := by
  refine (constant_adds hs v).post fun a s' ⟨h, hmode, c, hc, hkey⟩ => ⟨h, hmode, fun I m hi => ?_⟩
  have hget : (s'.gen.pool.constants.map Prod.snd)[a.index]? = some c := by
    rw [List.getElem?_map, hc]
    rfl
  have hload : I.machine.constants[a.index]? = some c := by
    obtain ⟨t, ht⟩ := hi.constants
    rw [← ht, List.getElem?_append_left (List.getElem?_eq_some_iff.mp hget).1]
    exact hget
  have hlt := (List.getElem?_eq_some_iff.mp hload).1.trans_le I.fewConstants
  refine ⟨Address.encode_lt hlt, c, ?_, hv c ?_ hkey⟩
  · rw [Machine.load_encode, hmode]
    exact hload
  · exact I.constants ▸ List.mem_of_getElem? hload

/-- A constant needs no code. -/
theorem computed_constant {s s' : Lowering} {a : Address} {v : Value} (h : Adds s [] s.nesting s')
    (hmode : a.mode = .constant)
    (hreads : ∀ (I : Image cs) (m : Memory), I.Includes s' → I.Reads m a v) :
    Computed cs s a s' fun _ => .ok v := by
  refine ⟨h.grows, h.ready, ?_, ?_, by simp [hmode], fun I m ρ hi hm => ?_⟩
  · rw [h.temps]
    exact holds_of_not_temporary (by simp [Address.isTemporary, hmode]) _
  · rw [h.temps, h.nesting]
    rfl
  · exact Image.evaluates_ok ⟨m, (Image.here_of_adds h m).symm, .refl _ m, hreads I m hi⟩

theorem constant_computes {v : Value} (hv : Pool.Told cs v) :
    Computes cs ctx (Gen.constant v) fun _ => .ok v := fun _ hs =>
  (constant_found hv hs).post fun _ _ ⟨h, hmode, hreads⟩ => computed_constant h hmode hreads

/-- The address of a local is that of its variable. -/
theorem localVar_ends {id : Ident} {r : LocalRef} (hb : id.binding = .toLocal r) :
    Ends (localVar id) ctx s fun a s' => s' = s ∧
      ∃ b, s.vars.get? r.anchor = some b ∧ a = { b with type := id.info.type } := by
  unfold Ends localVar
  simp only [after_bind, after_current, hb]
  cases hv : s.vars.get? r.anchor with
  | none => simp
  | some b => exact ⟨rfl, b, rfl, rfl⟩

theorem localVar_computes {id : Ident} {r : LocalRef} (hb : id.binding = .toLocal r) :
    Computes cs ctx (localVar id) fun ρ => .ok (ρ r.anchor) := by
  intro s hs
  refine (localVar_ends hb).post fun a s' ⟨hs', b, hget, ha⟩ => ?_
  subst hs' ha
  have hmode := hs.placed.mode hget
  refine ⟨.refl _, hs, ?_, rfl, ?_, fun I m ρ hi hm => ?_⟩
  · apply holds_of_not_temporary
    rcases hmode with h | h <;> simp [Address.isTemporary, h]
  · rcases hmode with h | h <;> simp [h]
  · have hvar := hi.vars _ b hget
    exact Image.evaluates_ok ⟨m, rfl, .refl _ m, Address.encode_lt (a := b) (I.few _ b hvar),
      hm.vars _ b hvar⟩

/-! ### Operators -/

theorem operation_cases (ts : List StaticType) :
    operation ts = .operator ∨ operation ts = .operatorValidated := by
  unfold operation
  split
  · exact .inr rfl
  · exact .inl rfl

/-- A temporary that has been computed into is the result. -/
theorem computed_temporary {s s₁ s' : Lowering} {t : StaticType}
    (h₁ : Adds s [] (s.nesting.withTemps (t :: s.gen.temps)) s₁)
    (h : Stored cs s₁ s' s.gen.temps.length f) :
    Computed cs s ⟨.temporary, s.gen.temps.length, t⟩ s' f := by
  have htemps : s'.gen.temps = t :: s.gen.temps :=
    (congrArg Nesting.temps h.nesting).trans h₁.temps
  refine ⟨h₁.grows.then h.grows, h.ready, htemps ▸ holds_temporary _ _ _, ?_, by simp, ?_⟩
  · rw [h.nesting, h₁.nesting, htemps]
  intro I m ρ hi hm
  rw [← Image.here_of_adds h₁ m]
  refine (h.runs I m ρ hi hm).mono fun v c ⟨m', t', hc, hsame, hv⟩ => ?_
  exact ⟨m', hc, hsame, hv⟩

/-- A value is released when the stack is as its code left it. -/
theorem release_held {s₀ s₁ s₂ : Lowering} {a : Address} {is : List Instruction}
    (hh : GameScript.Holds s.gen.temps a s₁.gen.temps)
    (hn : s₁.nesting = s.nesting.withTemps s₁.gen.temps) (h : Adds s₀ is s₁.nesting s₂) :
    Ends (Gen.release a) ctx s₂ fun _ s₃ => Adds s₀ is s.nesting s₃ := by
  have htemps : s₂.gen.temps = s₁.gen.temps := h.temps
  refine (release_adds h.ready (htemps ▸ hh)).post fun _ s₃ h₃ => ?_
  have h₀₃ := h.trans h₃
  rw [List.append_nil, h.nesting, hn] at h₀₃
  exact h₀₃

theorem release_computed {s₀ s₁ s₂ : Lowering} {a : Address} {is : List Instruction}
    (hx : Computed cs s a s₁ f) (h : Adds s₀ is s₁.nesting s₂) :
    Ends (Gen.release a) ctx s₂ fun _ s₃ => Adds s₀ is s.nesting s₃ :=
  release_held hx.holds hx.nesting h

theorem unary_computes (t : StaticType) (op : Operator) (hx : Computes cs ctx x f) :
    Computes cs ctx (unary t op x) fun ρ => f ρ >>= Value.unary op := by
  intro s hs
  unfold unary
  refine (addTemporary_adds hs t).bind fun dst s₁ ⟨h₁, hdst⟩ => ?_
  subst hdst
  refine (hx s₁ h₁.ready).bind fun a s₂ hx => ?_
  refine (emit_adds hx.ready _ _).bind fun _ s₃ h₃ => ?_
  refine (release_computed hx h₃).bind fun _ s₄ h₄ => ?_
  have hdepth := h₁.depth_lt
  refine computed_temporary h₁ ⟨hx.grows.then h₄.grows, h₄.ready, h₄.nesting, fun I m ρ hi hm => ?_⟩
  refine (hx.runs I m ρ (hi.of_grows h₄.grows) hm).bind fun v c ⟨m', hc, hsame, hv⟩ => ?_
  subst hc
  have hroom := (hm.same hsame).room_for (hi.of_grows h₄.grows) hx.ready (hdepth.trans_le hx.depth_le)
  refine (Image.evaluates_unary (operation_cases _) h₄ hi hroom hv).mono fun r c ⟨u, hc, hu⟩ => ?_
  exact ⟨_, t, hc, (hsame.mono hdepth.le).trans (m'.same_setTemp _ u), Image.reads_setTemp hroom hu⟩

/-- An operation on two values stores its result, and all goes on as after that. -/
theorem operation_then {β : Type} {rest : Lower β} {Q : β → Lowering → Prop} {i : Nat} {t : StaticType}
    (op : Operator) {code : Address → Address → Opcode}
    (hcode : ∀ a b, code a b = .operator ∨ code a b = .operatorValidated) (hx : Computes cs ctx x f)
    (hy : Computes cs ctx y g) (hs : s.Ready) (hlt : i < s.gen.temps.length)
    (hrest : ∀ s', Stored cs s s' i (fun ρ => f ρ >>= fun a => g ρ >>= fun b => Value.binary op a b) →
      Ends rest ctx s' Q) :
    Ends (do
      let a ← x
      let b ← y
      Gen.emit (code a b) [Address.encode ⟨.temporary, i, t⟩, op.number, a.encode, b.encode]
      Gen.release b
      Gen.release a
      rest) ctx s Q := by
  refine (hx s hs).bind fun a s₁ hx => ?_
  refine (hy s₁ hx.ready).bind fun b s₂ hy => ?_
  refine (emit_adds hy.ready _ _).bind fun _ s₃ h₃ => ?_
  refine (release_computed hy h₃).bind fun _ s₄ h₄ => ?_
  refine (release_computed hx h₄).bind fun _ s₅ h₅ => hrest s₅ ?_
  refine ⟨hx.grows.then (hy.grows.then h₅.grows), h₅.ready, h₅.nesting, fun I m ρ hi hm => ?_⟩
  have hi₂ := hi.of_grows h₅.grows
  refine (hx.runs I m ρ (hi₂.of_grows hy.grows) hm).bind fun v c ⟨m₁, hc, hsame₁, hv⟩ => ?_
  subst hc
  refine (hy.runs I m₁ ρ hi₂ (hm.same hsame₁)).bind fun w c ⟨m₂, hc, hsame₂, hw⟩ => ?_
  subst hc
  have hm₂ := (hm.same hsame₁).same hsame₂
  have hroom := hm₂.room_for hi₂ hy.ready ((hlt.trans_le hx.depth_le).trans_le hy.depth_le)
  refine (Image.evaluates_binary (hcode a b) h₅ hi hroom (hv.same hsame₂ hx.index_lt) hw
    hy.readable).mono fun r c ⟨u, hc, hu⟩ => ?_
  have hsame := (hsame₁.mono hlt.le).trans (hsame₂.mono (hlt.le.trans hx.depth_le))
  exact ⟨_, t, hc, hsame.trans (m₂.same_setTemp i u), Image.reads_setTemp hroom hu⟩

/-- The value in a temporary is negated in place. -/
theorem stored_negate {s s₁ s₂ : Lowering} {i : Nat} {t : StaticType} (h : Stored cs s s₁ i f)
    (h₂ : Adds s₁ [⟨.operator, [Address.encode ⟨.temporary, i, t⟩, Operator.not.number,
      Address.encode ⟨.temporary, i, t⟩, Address.nil.encode]⟩] s₁.nesting s₂) :
    Stored cs s s₂ i fun ρ => f ρ >>= Value.unary .not := by
  refine ⟨h.grows.then h₂.grows, h₂.ready, h₂.nesting.trans h.nesting, fun I m ρ hi hm => ?_⟩
  refine (h.runs I m ρ (hi.of_grows h₂.grows) hm).bind fun v c ⟨m', u, hc, hsame, hv⟩ => ?_
  subst hc
  have hroom := hv.room
  refine (Image.evaluates_unary (.inl rfl) h₂ hi hroom hv).mono fun r c ⟨u, hc, hu⟩ => ?_
  exact ⟨_, t, hc, hsame.trans (m'.same_setTemp _ u), Image.reads_setTemp hroom hu⟩

theorem binary_computes (t : StaticType) (op : BinaryOp) (hx : Computes cs ctx x f)
    (hy : Computes cs ctx y g) : Computes cs ctx (binary t op x y) fun ρ => f ρ >>= fun a => g ρ >>= fun b =>
      Value.binary op.operator a b >>= fun r =>
        if op = .notWithin then Value.unary .not r else .ok r := by
  intro s hs
  unfold binary
  refine (addTemporary_adds hs t).bind fun dst s₁ ⟨h₁, hdst⟩ => ?_
  subst hdst
  refine operation_then op.operator (fun _ _ => operation_cases _) hx hy h₁.ready h₁.depth_lt
    fun s₂ h₂ => ?_
  split
  · refine (emit_adds h₂.ready _ _).bind fun _ s₃ h₃ => ?_
    have h := stored_negate h₂ h₃
    simp only [bind_assoc] at h
    exact computed_temporary h₁ h
  · have hpure : ∀ r : Except ValueError Value, (r >>= fun v => .ok v) = r := fun r => by
      cases r <;> rfl
    simp only [hpure]
    exact computed_temporary h₁ h₂

/-! ### Conditions -/

/-- The jump that is taken unless a value has the truth `sense`. -/
def jumpUnless (sense : Bool) : Opcode := if sense then .jumpIfNot else .jumpIf

/-- A value that a jump tests and that is released then. -/
theorem tested_of_jump {s₁ s₂ : Lowering} {a : Address} {sense : Bool} {l : Nat}
    (hx : Computed cs s a s₁ f) (h : Adds s₁ [⟨jumpUnless sense, [a.encode, l]⟩] s.nesting s₂) :
    Tested cs s s₂ sense l f := by
  refine ⟨hx.grows.then h.grows, h.ready, h.nesting, fun I m ρ hi hm => ?_⟩
  refine (hx.runs I m ρ (hi.of_grows h.grows) hm).step fun v c ⟨m', hc, hsame, hv⟩ => ?_
  subst hc
  refine ⟨_, ?_, m', hsame, rfl⟩
  cases sense with
  | true => exact Image.step_jumpIfNot h hi hv
  | false =>
    have hj := Image.step_jumpIf h hi hv
    cases ht : v.truth <;> simpa [ht] using hj

/-- An operand of a construct leaves for its first label unless it has the truth `sense`. -/
theorem operand_tests {decide : Address → Gen Unit} (sense : Bool) {fr : Frame} {fs : List Frame}
    (hd : ∀ (s : Lowering) (a : Address), s.Ready → s.gen.frames = fr :: fs →
      Ends (decide a) ctx s fun _ s' => Adds s [⟨jumpUnless sense, [a.encode, fr.skip]⟩] s.nesting s')
    (hx : Computes cs ctx x f) (hs : s.Ready) (hf : s.gen.frames = fr :: fs) :
    Ends (operand decide x) ctx s fun _ s' => Tested cs s s' sense fr.skip f := by
  unfold operand
  refine (hx s hs).bind fun a s₁ hx => ?_
  have hframes : s₁.gen.frames = fr :: fs := (congrArg Nesting.frames hx.nesting).trans hf
  refine (hd s₁ a hx.ready hframes).bind fun _ s₂ h₂ => ?_
  exact (release_computed hx h₂).post fun _ s₃ h₃ => tested_of_jump hx h₃

theorem decide_adds (sense : Bool) {kind : FrameKind} {fr : Frame} {fs : List Frame} (s : Lowering)
    (a : Address) (hs : s.Ready) (hf : s.gen.frames = fr :: fs) :
    Ends (do Gen.emit (jumpUnless sense) [a.encode, (← Gen.topFrame kind).skip] : Gen Unit) ctx s
      fun _ s' => Adds s [⟨jumpUnless sense, [a.encode, fr.skip]⟩] s.nesting s' := by
  rw [lift_bind]
  refine (topFrame_adds hs hf).bind fun f' s₁ ⟨hfr, h₁⟩ => ?_
  subst hfr
  refine (emit_adds h₁.ready _ _).post fun _ s₂ h₂ => ?_
  have h := h₁.trans h₂
  rwa [h₁.nesting] at h

theorem eq_bool_of_alike {v : Value} {b : Bool} (h : v.Alike (.bool b)) : v = .bool b := by
  unfold Value.Alike at h
  cases v <;> simp_all [Value.unify]

/-- The code between `s` and `s'` stores a boolean to the temporary `i`. -/
structure Sets (cs : List Value) (s s' : Lowering) (i : Nat) (b : Bool) : Prop where
  grows : Grows [] s s'
  ready : s'.Ready
  nesting : s'.nesting = s.nesting
  runs : ∀ (I : Image cs) (m : Memory), I.Includes s' → Image.Room m i →
    I.machine.Reaches (I.here s m) (I.here s' (m.setTemp i (.bool b)))

theorem assignBoolean_sets (cs : List Value) {s : Lowering} (hs : s.Ready) (i : Nat) (t : StaticType) (b : Bool) :
    Ends (do Gen.emit .assign [Address.encode ⟨.temporary, i, t⟩, (← Gen.boolean b).encode] : Gen Unit)
      ctx s fun _ s' => Sets cs s s' i b := by
  rw [lift_bind]
  refine (constant_found (Pool.told_bool cs b) hs).bind fun a s₁ ⟨h₁, _, hreads⟩ => ?_
  refine (emit_adds h₁.ready _ _).post fun _ s₂ h₂ => ?_
  refine ⟨h₁.grows.then h₂.grows, h₂.ready, h₂.nesting.trans h₁.nesting, fun I m hi hroom => ?_⟩
  obtain ⟨w, hw, halike⟩ := Image.reaches_assign h₂ hi hroom (hreads I m (hi.of_grows h₂.grows))
  rw [← Image.here_of_adds h₁, ← eq_bool_of_alike halike]
  exact hw

/-- The end of a conjunction or a disjunction. It is reached with the truth of the last operand if that is
`last`, and at the first label with that of the operand that has decided it. -/
structure Concluded (cs : List Value) (s s' : Lowering) (i skip : Nat) (last : Bool) (k : Nesting) : Prop where
  grows : Grows [] s s'
  ready : s'.Ready
  nesting : s'.nesting = k
  runs : ∀ (I : Image cs) (m : Memory) (b : Bool), I.Includes s' → Image.Room m i →
    I.machine.Reaches (if b = last then I.here s m else ⟨I.label skip, m⟩)
      (I.here s' (m.setTemp i (.bool b)))

theorem here_eq_label {I : Image cs} {s s' : Lowering} {l : Nat} (hi : I.Includes s')
    (hl : s'.gen.binds.getD l none = some s.gen.instructions.length) (m : Memory) :
    I.here s m = ⟨I.label l, m⟩ := by
  rw [hi.label hl]
  rfl

theorem endLogical_ends (cs : List Value) {s : Lowering} (hs : s.Ready) {kind : FrameKind} {fr : Frame}
    {fs : List Frame} (hf : s.gen.frames = fr :: fs) (hskip : fr.skip < s.gen.binds.length)
    (hdone : fr.done < s.gen.binds.length) (i : Nat) (t : StaticType) (last : Bool) :
    Ends (Gen.endLogical kind ⟨.temporary, i, t⟩ last) ctx s fun _ s' =>
      Concluded cs s s' i fr.skip last (s.nesting.withFrames fs) := by
  unfold Gen.endLogical
  rw [lift_bind]
  refine (popFrame_adds hs hf).bind fun f s₁ ⟨hfr, h₁⟩ => ?_
  subst hfr
  rw [← bind_assoc, lift_bind]
  refine (assignBoolean_sets cs h₁.ready i t last).bind fun _ s₂ h₂ => ?_
  rw [lift_bind]
  refine (emit_adds h₂.ready _ _).bind fun _ s₃ h₃ => ?_
  rw [lift_bind]
  have hg₃ := h₁.grows.then (h₂.grows.then h₃.grows)
  refine (bind_adds h₃.ready (hskip.trans_le hg₃.labels)).bind fun _ s₄ ⟨h₄, hl₄⟩ => ?_
  rw [← bind_assoc, lift_bind]
  refine (assignBoolean_sets cs h₄.ready i t !last).bind fun _ s₅ h₅ => ?_
  have hg₅ := hg₃.then (h₄.grows.then h₅.grows)
  refine (bind_adds h₅.ready (hdone.trans_le hg₅.labels)).post fun _ s₆ ⟨h₆, hl₆⟩ => ?_
  refine ⟨hg₅.then h₆.grows, h₆.ready, ?_, fun I m b hi hroom => ?_⟩
  · rw [h₆.nesting, h₅.nesting, h₄.nesting, h₃.nesting, h₂.nesting, h₁.nesting]
  have hi₅ := hi.of_grows h₆.grows
  have hi₄ := hi₅.of_grows h₅.grows
  have hi₃ := hi₄.of_grows h₄.grows
  split
  · rename_i hb
    subst hb
    have hend : ∀ m', I.here s₆ m' = ⟨I.label f.done, m'⟩ := fun m' => by
      rw [Image.here_of_adds h₆, here_eq_label hi hl₆]
    rw [← Image.here_of_adds h₁, hend]
    exact (h₂.runs I m (hi₃.of_grows h₃.grows) hroom).trans (Image.reaches_jump h₃ hi₃ _)
  · rename_i hb
    obtain rfl : b = !last := by cases b <;> cases last <;> simp_all
    rw [← here_eq_label (hi.of_grows (h₅.grows.then h₆.grows)) hl₄, ← Image.here_of_adds h₄,
      Image.here_of_adds h₆]
    exact h₅.runs I m hi₅ hroom

/-- Two operands, of which the second is computed only if the first has the truth `sense`. -/
theorem logical_stores (kind : FrameKind) (sense : Bool) {i : Nat} (t : StaticType)
    {decide : Address → Gen Unit} (hd : decide = fun a => do
      Gen.emit (jumpUnless sense) [a.encode, (← Gen.topFrame kind).skip])
    (hx : Computes cs ctx x f) (hy : Computes cs ctx y g) (hs : s.Ready) (hlt : i < s.gen.temps.length) :
    Ends (do
      Gen.pushFrame kind
      operand decide x
      operand decide y
      Gen.endLogical kind ⟨.temporary, i, t⟩ sense
      return ⟨.temporary, i, t⟩ : Lower Address) ctx s fun a s' => a = ⟨.temporary, i, t⟩ ∧
        Stored cs s s' i fun ρ => f ρ >>= fun a =>
          if a.truth = sense then g ρ >>= fun b => .ok (.bool b.truth) else .ok (.bool a.truth) := by
  subst hd
  refine (pushFrame_adds hs kind).bind fun _ s₁ ⟨skip, done, _, h₁, hskip, hdone⟩ => ?_
  have hf₁ := h₁.frames
  refine (operand_tests sense (decide_adds sense) hx h₁.ready hf₁).bind fun _ s₂ hx => ?_
  have hf₂ := (congrArg Nesting.frames hx.nesting).trans hf₁
  refine (operand_tests sense (decide_adds sense) hy hx.ready hf₂).bind fun _ s₃ hy => ?_
  have hf₃ := (congrArg Nesting.frames hy.nesting).trans hf₂
  have hg₃ := hx.grows.then hy.grows
  refine (endLogical_ends cs hy.ready hf₃ (hskip.trans_le hg₃.labels) (hdone.trans_le hg₃.labels) i t
    sense).bind fun _ s₄ h₄ => ?_
  refine ⟨rfl, h₁.grows.then (hg₃.then h₄.grows), h₄.ready, ?_, fun I m ρ hi hm => ?_⟩
  · rw [h₄.nesting, hy.nesting, hx.nesting, h₁.nesting]
    rfl
  have hi₃ := hi.of_grows h₄.grows
  have hdepth₁ : s₁.gen.temps.length = s.gen.temps.length := congrArg List.length h₁.temps
  have hdepth₂ : s₂.gen.temps.length = s.gen.temps.length :=
    (congrArg (List.length ∘ Nesting.temps) hx.nesting).trans hdepth₁
  -- Whatever operand has decided the result, it is stored at the end.
  have hend : ∀ m' b, Memory.Same s.gen.temps.length m m' →
      I.Evaluates (if b = sense then I.here s₃ m' else ⟨I.label skip, m'⟩) (.ok (.bool b)) fun v c =>
        ∃ m' t, c = I.here s₄ m' ∧ Memory.Same i m m' ∧ I.Reads m' ⟨.temporary, i, t⟩ v := by
    intro m' b hsame
    have hroom := (hm.same hsame).room_for (hi.of_grows (h₁.grows.then (hg₃.then h₄.grows))) hs hlt
    exact ⟨_, h₄.runs I m' b hi hroom, _, t, rfl, (hsame.mono hlt.le).trans (m'.same_setTemp i _),
      Image.reads_setTemp hroom rfl⟩
  rw [← Image.here_of_adds h₁ m]
  refine (hx.runs I m ρ (hi₃.of_grows hy.grows) hm).bind fun v c ⟨⟨m₁, hsame₁, hc⟩, _⟩ => ?_
  rw [hdepth₁] at hsame₁
  subst hc
  by_cases hv : v.truth = sense
  · rw [if_pos hv, if_pos hv]
    refine (hy.runs I m₁ ρ hi₃ (hm.same hsame₁)).bind fun w c ⟨⟨m₂, hsame₂, hc⟩, _⟩ => ?_
    rw [hdepth₂] at hsame₂
    subst hc
    exact hend m₂ w.truth (hsame₁.trans hsame₂)
  · have h := hend m₁ v.truth hsame₁
    rw [if_neg hv] at h
    rw [if_neg hv, if_neg hv]
    exact h

theorem logical_computes (isAnd : Bool) (hx : Computes cs ctx x f) (hy : Computes cs ctx y g) :
    Computes cs ctx (logical isAnd x y) fun ρ => f ρ >>= fun a =>
      if a.truth = isAnd then g ρ >>= fun b => .ok (.bool b.truth) else .ok (.bool a.truth) := by
  intro s hs
  unfold logical
  refine (addTemporary_adds hs _).bind fun dst s₁ ⟨h₁, hdst⟩ => ?_
  subst hdst
  cases isAnd with
  | true =>
    refine (logical_stores .and true _ rfl hx hy h₁.ready h₁.depth_lt).post fun a s' ⟨ha, h⟩ => ?_
    subst ha
    exact computed_temporary h₁ h
  | false =>
    refine (logical_stores .or false _ rfl hx hy h₁.ready h₁.depth_lt).post fun a s' ⟨ha, h⟩ => ?_
    subst ha
    exact computed_temporary h₁ h

/-! ### Choices -/

/-- A value is stored to a temporary that is live. -/
theorem branch_stores {i : Nat} (t : StaticType) (hx : Computes cs ctx x f) (hs : s.Ready)
    (hlt : i < s.gen.temps.length) :
    Ends (branch ⟨.temporary, i, t⟩ x) ctx s fun _ s' => Stored cs s s' i f := by
  unfold branch
  refine (hx s hs).bind fun a s₁ hx => ?_
  refine (emit_adds hx.ready _ _).bind fun _ s₂ h₂ => ?_
  refine (release_computed hx h₂).post fun _ s₃ h₃ => ?_
  refine ⟨hx.grows.then h₃.grows, h₃.ready, h₃.nesting, fun I m ρ hi hm => ?_⟩
  have hi₁ := hi.of_grows h₃.grows
  refine (hx.runs I m ρ hi₁ hm).reaches fun v c ⟨m', hc, hsame, hv⟩ => ?_
  subst hc
  have hroom := (hm.same hsame).room_for hi₁ hx.ready (hlt.trans_le hx.depth_le)
  obtain ⟨w, hw, halike⟩ := Image.reaches_assign h₃ hi hroom hv
  exact ⟨_, hw, _, t, rfl, (hsame.mono hlt.le).trans (m'.same_setTemp i w),
    Image.reads_setTemp hroom halike⟩

theorem ternaryElse_adds {fr : Frame} {fs : List Frame} (hs : s.Ready) (hf : s.gen.frames = fr :: fs)
    (hskip : fr.skip < s.gen.binds.length) : Ends Gen.ternaryElse ctx s fun _ s' => ∃ s₁,
      Adds s [⟨.jump, [fr.done]⟩] s.nesting s₁ ∧ Adds s₁ [] s.nesting s' ∧
        s'.gen.binds.getD fr.skip none = some s₁.gen.instructions.length := by
  unfold Gen.ternaryElse
  rw [lift_bind]
  refine (topFrame_adds hs hf).bind fun f s₁ ⟨hfr, h₁⟩ => ?_
  subst hfr
  rw [lift_bind]
  refine (emit_adds h₁.ready _ _).bind fun _ s₂ h₂ => ?_
  have h₁₂ := h₁.trans h₂
  rw [h₁.nesting] at h₁₂
  refine (bind_adds h₂.ready (hskip.trans_le h₁₂.grows.labels)).post fun _ s₃ ⟨h₃, hl⟩ => ?_
  rw [h₁₂.nesting] at h₃
  exact ⟨s₂, h₁₂, h₃, hl⟩

theorem endTernary_adds {fr : Frame} {fs : List Frame} (hs : s.Ready) (hf : s.gen.frames = fr :: fs)
    (hdone : fr.done < s.gen.binds.length) : Ends Gen.endTernary ctx s fun _ s' =>
      Adds s [] (s.nesting.withFrames fs) s' ∧
        s'.gen.binds.getD fr.done none = some s.gen.instructions.length := by
  unfold Gen.endTernary
  rw [lift_bind]
  refine (popFrame_adds hs hf).bind fun f s₁ ⟨hfr, h₁⟩ => ?_
  subst hfr
  refine (bind_adds h₁.ready (hdone.trans_le h₁.grows.labels)).post fun _ s₂ ⟨h₂, hl⟩ => ?_
  have hlen : s₁.gen.instructions.length = s.gen.instructions.length := by
    have := congrArg List.length h₁.code
    simpa [Lowering.code] using this
  have h := h₁.trans h₂
  rw [h₁.nesting] at h
  exact ⟨h, hlen ▸ hl⟩

theorem conditional_computes {z : Lower Address} {k : Env → Except ValueError Value} (t : StaticType)
    (hz : Computes cs ctx z k) (hx : Computes cs ctx x f) (hy : Computes cs ctx y g) :
    Computes cs ctx (conditional t z x y) fun ρ => k ρ >>= fun c => if c.truth then f ρ else g ρ := by
  intro s hs
  unfold conditional
  refine (addTemporary_adds hs t).bind fun dst s₁ ⟨h₁, hdst⟩ => ?_
  subst hdst
  refine (pushFrame_adds h₁.ready .ternary).bind fun _ s₂ ⟨skip, done, _, h₂, hskip, hdone⟩ => ?_
  have hf₂ := h₂.frames
  refine (operand_tests true (decide_adds true) hz h₂.ready hf₂).bind fun _ s₃ hz => ?_
  have hf₃ := (congrArg Nesting.frames hz.nesting).trans hf₂
  have hdepth₃ : s.gen.temps.length < s₃.gen.temps.length := by
    have := (congrArg Nesting.temps hz.nesting).trans h₂.temps
    rw [show s₃.gen.temps = _ from this]
    exact h₁.depth_lt
  refine (branch_stores t hx hz.ready hdepth₃).bind fun _ s₄ hx => ?_
  have hf₄ := (congrArg Nesting.frames hx.nesting).trans hf₃
  have hg₄ := hz.grows.then hx.grows
  refine (ternaryElse_adds hx.ready hf₄ (hskip.trans_le hg₄.labels)).bind
    fun _ s₆ ⟨s₅, h₅, h₆, hl₆⟩ => ?_
  have hf₆ := (congrArg Nesting.frames h₆.nesting).trans hf₄
  have hdepth₆ : s.gen.temps.length < s₆.gen.temps.length := by
    rw [show s₆.gen.temps = s₃.gen.temps from
      h₆.temps.trans (congrArg Nesting.temps hx.nesting)]
    exact hdepth₃
  refine (branch_stores t hy h₆.ready hdepth₆).bind fun _ s₇ hy => ?_
  have hf₇ := (congrArg Nesting.frames hy.nesting).trans hf₆
  have hg₇ := hg₄.then (h₅.grows.then (h₆.grows.then hy.grows))
  refine (endTernary_adds hy.ready hf₇ (hdone.trans_le hg₇.labels)).bind fun _ s₈ ⟨h₈, hl₈⟩ => ?_
  refine computed_temporary h₁ ⟨h₂.grows.then (hg₇.then h₈.grows), h₈.ready, ?_, fun I m ρ hi hm => ?_⟩
  · rw [h₈.nesting, hy.nesting, h₆.nesting, hx.nesting, hz.nesting, h₂.nesting]
    rfl
  have hi₇ := hi.of_grows h₈.grows
  have hi₆ := hi₇.of_grows hy.grows
  have hi₅ := hi₆.of_grows h₆.grows
  have hi₄ := hi₅.of_grows h₅.grows
  rw [← Image.here_of_adds h₂ m]
  refine (hz.runs I m ρ (hi₄.of_grows hx.grows) hm).bind fun v c ⟨⟨m₁, hsame₁, hc⟩, _⟩ => ?_
  subst hc
  have hdepth₂ : s.gen.temps.length ≤ s₂.gen.temps.length := by
    have := congrArg List.length h₂.temps
    simpa using this ▸ h₁.depth_lt.le
  have hm₁ := hm.same hsame₁
  have hend : ∀ m', I.here s₈ m' = ⟨I.label done, m'⟩ := fun m' => by
    rw [Image.here_of_adds h₈, here_eq_label hi hl₈]
  by_cases hv : v.truth
  · simp only [hv, if_true]
    refine (hx.runs I m₁ ρ hi₄ hm₁).reaches fun w c ⟨m₂, u, hc, hsame₂, hw⟩ => ?_
    subst hc
    exact ⟨_, Image.reaches_jump h₅ hi₅ m₂, m₂, u, (hend m₂).symm,
      (hsame₁.mono hdepth₂).trans hsame₂, hw⟩
  · have hrun := hy.runs I m₁ ρ hi₇ hm₁
    rw [Image.here_of_adds h₆, here_eq_label hi₆ hl₆] at hrun
    simp only [hv, if_false, Bool.false_eq_true]
    refine hrun.mono fun w c ⟨m₂, u, hc, hsame₂, hw⟩ => ?_
    subst hc
    exact ⟨m₂, u, (Image.here_of_adds h₈ m₂).symm, (hsame₁.mono hdepth₂).trans hsame₂, hw⟩

end Lower

end GameScript
