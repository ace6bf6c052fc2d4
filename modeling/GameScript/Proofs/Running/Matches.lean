import GameScript.Proofs.Running.Statements

/-!
# Code of patterns and matches

The code of a pattern computes whether the value of a match has the form of the pattern, and gives
values to the names of the pattern (`Judged`). A match runs the first branch whose patterns match
(`Tried`).
-/

namespace GameScript

/-- The code between `s` and `s'` computes into `a` whether the value at the temporary `i` matches, and
may give values to new variables. -/
structure Judged (cs : List Value) (declared : List Pos) (i : Nat) (s : Lowering) (a : Address) (s' : Lowering)
    (f : Value → Env → Except ValueError (Bool × Env)) : Prop where
  grows : Grows declared s s'
  ready : s'.Ready
  holds : Holds s.gen.temps a s'.gen.temps
  nesting : s'.nesting = s.nesting.withTemps s'.gen.temps
  runs : ∀ (I : Image cs) (t : StaticType) (m : Memory) (ρ : Env) (v : Value), I.Includes s' →
    I.Holds ρ m → I.Reads m ⟨.temporary, i, t⟩ v →
    I.Evaluates (I.here s m) (f v ρ) fun r c => ∃ m', c = I.here s' m' ∧
      Memory.Agree s.gen.temps.length m m' ∧ I.Holds r.2 m' ∧ I.Reads m' a (.bool r.1)

/-- Between `s` and `s'` the value at the temporary `i` is tested: unless the result is `sense`, the code
goes on at `skip`. -/
structure Sifted (cs : List Value) (declared : List Pos) (i : Nat) (s s' : Lowering) (sense : Bool) (skip : Nat)
    (f : Value → Env → Except ValueError (Bool × Env)) : Prop where
  grows : Grows declared s s'
  ready : s'.Ready
  nesting : s'.nesting = s.nesting
  runs : ∀ (I : Image cs) (t : StaticType) (m : Memory) (ρ : Env) (v : Value), I.Includes s' →
    I.Holds ρ m → I.Reads m ⟨.temporary, i, t⟩ v →
    I.Evaluates (I.here s m) (f v ρ) fun r c => ∃ m', Memory.Agree s.gen.temps.length m m' ∧
      I.Holds r.2 m' ∧ c = if r.1 = sense then I.here s' m' else ⟨I.label skip, m'⟩

namespace Lower

variable {cs : List Value} {ctx : LowerContext} {D D₁ D₂ : List Pos} {s s₁ s₂ : Lowering} {x : Lower Address} {i : Nat}
  {f g : Value → Env → Except ValueError (Bool × Env)} {a : Address}

/-- Code that tests the value at a temporary that is live. -/
def Judges (cs : List Value) (ctx : LowerContext) (i : Nat) (x : Lower Address) (declared : List Pos)
    (f : Value → Env → Except ValueError (Bool × Env)) : Prop :=
  ∀ s, s.Ready → s.Lacks declared → i < s.gen.temps.length →
    Ends x ctx s fun a s' => Judged cs declared i s a s' f

/-! ### Patterns -/

theorem wildcard_judges : Judges cs ctx i (Gen.boolean true) [] fun _ ρ => .ok (true, ρ) := by
  intro s hs _ _
  refine (constant_found (Pool.told_bool cs true) hs).post fun a s₁ ⟨h₁, hmode, hreads⟩ => ?_
  have hc := computed_constant h₁ hmode hreads
  refine ⟨h₁.grows, h₁.ready, hc.holds, hc.nesting, fun I t m ρ v hi hm _ => ?_⟩
  exact Image.evaluates_ok ⟨m, (Image.here_of_adds h₁ m).symm, .refl _ m, hm, hreads I m hi⟩

theorem bindPattern_judges (t : StaticType) (id : Ident) :
    Judges cs ctx i (bindPattern ⟨.temporary, i, t⟩ id) [id.pos] fun v ρ => .ok (true, ρ.set id.pos v) := by
  intro s hs hl hlt
  unfold bindPattern Ends
  rw [after_bind, after_note]
  refine Ends.bind (addLocal_ends hs id (hl id.pos (by simp)) _) fun dst s₁ ⟨_, h₁⟩ => ?_
  refine (emit_adds h₁.ready _ _).bind fun _ s₂ h₂ => ?_
  refine (constant_found (Pool.told_bool cs true) h₂.ready).post fun a s₃ ⟨h₃, hmode, hreads⟩ => ?_
  have hc := computed_constant h₃ hmode hreads
  have hnest : s₂.nesting = s.nesting := h₂.nesting.trans h₁.nesting
  have htemps : s₂.gen.temps = s.gen.temps := congrArg Nesting.temps hnest
  refine ⟨(h₁.grows.then h₂.grows).then h₃.grows, h₃.ready, htemps ▸ hc.holds, ?_,
    fun I u m ρ v hi hm hv => ?_⟩
  · rw [hc.nesting, hnest]
  have hi₂ := hi.of_grows h₃.grows
  have hvar := hi₂.vars id.pos dst (h₂.grows.vars _ _ h₁.found)
  obtain ⟨m', hreach, hm', htemps'⟩ := Image.reaches_assign_variable h₂ hi₂ hm hvar rfl hv
  have hstart : I.here s₁ m = I.here s m := by
    unfold Image.here
    rw [h₁.gen]
  refine ⟨_, hstart ▸ hreach, m', (Image.here_of_adds h₃ m').symm, ?_, hm', hreads I m' hi⟩
  exact ⟨by rw [htemps'], fun j _ => by rw [htemps']⟩

/-- A test whose result is stored to a new temporary at the end of a construct. -/
theorem judged_of_sifted {s₃ s₄ : Lowering} {t : StaticType} {fr : Frame} {sense : Bool}
    (h₁ : Adds s [] (s.nesting.withTemps (t :: s.gen.temps)) s₁)
    (h₂ : Adds s₁ [] (s₁.nesting.withFrames (fr :: s₁.gen.frames)) s₂)
    (h₃ : Sifted cs D i s₂ s₃ sense fr.skip f)
    (h₄ : Concluded cs s₃ s₄ s.gen.temps.length fr.skip sense (s₃.nesting.withFrames s₁.gen.frames)) :
    Judged cs D i s ⟨.temporary, s.gen.temps.length, t⟩ s₄ f := by
  have hnest : s₄.nesting = s.nesting.withTemps (t :: s.gen.temps) := by
    rw [h₄.nesting, h₃.nesting, h₂.nesting, ← h₁.nesting]
    rfl
  have htemps : s₄.gen.temps = t :: s.gen.temps := congrArg Nesting.temps hnest
  have htemps₂ : s₂.gen.temps = t :: s.gen.temps := h₂.temps.trans h₁.temps
  refine ⟨((h₃.grows.after h₂.grows).after h₁.grows).then h₄.grows, h₄.ready, htemps ▸ holds_temporary _ _ _,
    htemps ▸ hnest, fun I u m ρ v hi hm hv => ?_⟩
  have hi₃ := hi.of_grows h₄.grows
  have hi₂ := hi₃.of_grows h₃.grows
  rw [← Image.here_of_adds h₁ m, ← Image.here_of_adds h₂ m]
  refine (h₃.runs I u m ρ v hi₃ hm hv).reaches fun r c ⟨m', hagree, hm', hc⟩ => ?_
  subst hc
  have hroom := hm'.room_for hi₂ h₂.ready (i := s.gen.temps.length) (by simp [htemps₂])
  have hsame := m'.same_setTemp s.gen.temps.length (.bool r.1)
  refine ⟨_, h₄.runs I m' r.1 hi hroom, _, rfl, ?_, hm'.same hsame, Image.reads_setTemp hroom rfl⟩
  exact (hagree.mono (by simp [htemps₂])).trans hsame.toAgree

theorem equalPattern_judges {w : Value} {e : Expr} (t : StaticType) (hx : Computes cs ctx x fun _ => .ok w)
    (he : e.value? = some w) : Judges cs ctx i (equalPattern ⟨.temporary, i, t⟩ e x) [] fun v ρ => do
      return (← v.matches w, ρ) := by
  intro s hs _ hlt
  unfold equalPattern
  refine (addTemporary_adds hs _).bind fun dst s₁ ⟨h₁, hdst⟩ => ?_
  subst hdst
  refine (pushFrame_adds h₁.ready .and).bind fun _ s₂ ⟨skip, done, _, h₂, hskip, hdone⟩ => ?_
  refine (hx s₂ h₂.ready).bind fun c s₃ hx => ?_
  refine (addTemporary_adds hx.ready _).bind fun test s₄ ⟨h₄, htest⟩ => ?_
  subst htest
  have hf₄ : s₄.gen.frames = ⟨.and, skip, done⟩ :: s₁.gen.frames :=
    h₄.frames.trans ((congrArg Nesting.frames hx.nesting).trans h₂.frames)
  refine (emit_adds h₄.ready _ _).bind fun _ s₅ h₅ => ?_
  have hf₅ := h₅.frames.trans hf₄
  refine (decide_adds true s₅ _ h₅.ready hf₅).bind fun _ s₆ h₆ => ?_
  refine (emit_adds h₆.ready _ _).bind fun _ s₇ h₇ => ?_
  have hf₇ := h₇.frames.trans (h₆.frames.trans hf₅)
  refine (decide_adds true s₇ _ h₇.ready hf₇).bind fun _ s₈ h₈ => ?_
  have hnest₈ : s₈.nesting = s₃.nesting.withTemps (boolType :: s₃.gen.temps) := by
    rw [h₈.nesting, h₇.nesting, h₆.nesting, h₅.nesting, h₄.nesting]
  have htemps₈ : s₈.gen.temps = boolType :: s₃.gen.temps := congrArg Nesting.temps hnest₈
  have hheld : GameScript.Holds s₃.gen.temps ⟨.temporary, s₃.gen.temps.length, boolType⟩ s₈.gen.temps :=
    htemps₈ ▸ holds_temporary _ _ _
  refine (release_adds h₈.ready hheld).bind fun _ s₉ h₉ => ?_
  rw [hnest₈] at h₉
  refine (release_computed hx h₉).bind fun _ s₁₀ h₁₀ => ?_
  have hf₁₀ := h₁₀.frames.trans h₂.frames
  have hg₁₀ := hx.grows.then (h₄.grows.then (h₅.grows.then (h₆.grows.then (h₇.grows.then
    (h₈.grows.then h₁₀.grows)))))
  refine (endLogical_ends cs h₁₀.ready hf₁₀ (hskip.trans_le hg₁₀.labels) (hdone.trans_le hg₁₀.labels)
    s.gen.temps.length boolType true).bind fun _ s₁₁ h₁₁ => ?_
  refine judged_of_sifted h₁ h₂ ⟨hg₁₀, h₁₀.ready, h₁₀.nesting, fun I u m ρ v hi hm hv => ?_⟩ h₁₁
  have hi₈ := hi.of_grows h₁₀.grows
  have hi₇ := hi₈.of_grows h₈.grows
  have hi₆ := hi₇.of_grows h₇.grows
  have hi₅ := hi₆.of_grows h₆.grows
  have hi₄ := hi₅.of_grows h₅.grows
  have hlt₂ : i < s₂.gen.temps.length := by
    rw [h₂.temps, Nesting.temps_withFrames, Lowering.temps_nesting]
    exact hlt.trans h₁.depth_lt
  have hlt₃ := hlt₂.trans_le hx.depth_le
  -- The value of the match stays readable below the temporaries of the pattern.
  obtain ⟨_, hreach₁, m₁, rfl, hsame₁, hw⟩ := hx.runs I m ρ (hi₄.of_grows h₄.grows) hm
  have hroom := (hm.same hsame₁).room_for hi₄ h₄.ready h₄.depth_lt
  have hv₁ := hv.same hsame₁ fun _ => hlt₂
  have hmatch := Image.reaches_matchType h₅ hi₅ hroom hv₁
  rw [he] at hmatch
  rw [← Image.here_of_adds h₄] at hreach₁
  have hjump₁ := Image.step_jumpIfNot h₆ hi₆
    (Image.reads_setTemp (t := boolType) (v := .bool (v.type.mayEqual w.type)) hroom rfl)
  have hreach₂ := hreach₁.trans (hmatch.trans (.single hjump₁))
  have hset₂ := m₁.same_setTemp s₃.gen.temps.length (.bool (v.type.mayEqual w.type))
  have hsame₂ := hsame₁.trans (hset₂.mono hx.depth_le)
  unfold Value.matches
  by_cases hmay : v.type.mayEqual w.type
  · rw [if_pos hmay]
    rw [if_pos (show (Value.bool (v.type.mayEqual w.type)).truth = true from hmay)] at hreach₂
    have hroom₂ := (hm.same hsame₂).room_for hi₄ h₄.ready h₄.depth_lt
    have hop := Image.evaluates_binary (.inl rfl) h₇ hi₇ hroom₂ (hv₁.same hset₂ fun _ => hlt₃)
      (hw.same hset₂ hx.index_lt) hx.readable
    show I.Evaluates _ ((Value.binary .equal v w >>= fun r => .ok r.truth) >>= fun b => .ok (b, ρ)) _
    rw [bind_assoc]
    refine (hop.of_reaches hreach₂).bind fun r c ⟨r', hc, hr⟩ => ?_
    subst hc
    have hset₃ := (m₁.setTemp s₃.gen.temps.length (.bool (v.type.mayEqual w.type))).same_setTemp
      s₃.gen.temps.length r'
    have hsame₃ := hsame₂.trans (hset₃.mono hx.depth_le)
    have hjump₂ := Image.step_jumpIfNot h₈ hi₈ (Image.reads_setTemp (t := boolType) hroom₂ hr)
    rw [← Image.here_of_adds h₁₀] at hjump₂
    exact ⟨_, .single hjump₂, _, hsame₃.toAgree, hm.same hsame₃, rfl⟩
  · rw [if_neg hmay]
    rw [if_neg (show ¬ (Value.bool (v.type.mayEqual w.type)).truth = true from hmay)] at hreach₂
    exact ⟨_, hreach₂, _, hsame₂.toAgree, hm.same hsame₂, rfl⟩

/-! ### One of several patterns -/

/-- A test that a jump decides and whose result is released then. -/
theorem sifted_of_jump {sense : Bool} {l : Nat} (hx : Judged cs D i s a s₁ f)
    (h : Adds s₁ [⟨jumpUnless sense, [a.encode, l]⟩] s.nesting s₂) : Sifted cs D i s s₂ sense l f := by
  refine ⟨hx.grows.then h.grows, h.ready, h.nesting, fun I t m ρ v hi hm hv => ?_⟩
  refine (hx.runs I t m ρ v (hi.of_grows h.grows) hm hv).reaches fun r c ⟨m', hc, hagree, hm', hr⟩ => ?_
  subst hc
  refine ⟨_, .single ?_, m', hagree, hm', rfl⟩
  cases sense with
  | true => exact Image.step_jumpIfNot h hi hr
  | false =>
    have hj := Image.step_jumpIf h hi hr
    cases hb : r.1 <;> simpa [hb, Value.truth] using hj

/-- A test leaves for a label unless its result is `sense`. -/
theorem operand_sifts {decide : Address → Gen Unit} (sense : Bool) {fr : Frame} {fs : List Frame}
    (hd : ∀ (s : Lowering) (a : Address), s.Ready → s.gen.frames = fr :: fs →
      Ends (decide a) ctx s fun _ s' => Adds s [⟨jumpUnless sense, [a.encode, fr.skip]⟩] s.nesting s')
    (hx : Judges cs ctx i x D f) (hs : s.Ready) (hl : s.Lacks D) (hlt : i < s.gen.temps.length)
    (hf : s.gen.frames = fr :: fs) :
    Ends (operand decide x) ctx s fun _ s' => Sifted cs D i s s' sense fr.skip f := by
  unfold operand
  refine (hx s hs hl hlt).bind fun a s₁ hx => ?_
  have hframes : s₁.gen.frames = fr :: fs := (congrArg Nesting.frames hx.nesting).trans hf
  refine (hd s₁ a hx.ready hframes).bind fun _ s₂ h₂ => ?_
  exact (release_held hx.holds hx.nesting h₂).post fun _ s₃ h₃ => sifted_of_jump hx h₃

theorem Sifted.depth_eq {sense : Bool} {l : Nat} (h : Sifted cs D i s s₁ sense l f) :
    s₁.gen.temps.length = s.gen.temps.length := congrArg (List.length ∘ Nesting.temps) h.nesting

/-- Patterns are tested in order until one matches. -/
theorem sift_all {code : Pattern → Lower Address} {fr : Frame} {fs : List Frame} (ps : List Pattern)
    (h : ∀ p ∈ ps, Judges cs ctx i (code p) p.declared fun v ρ => p.test v ρ)
    (hd : (ps.flatMap Pattern.declared).Nodup) (hs : s.Ready)
    (hl : s.Lacks (ps.flatMap Pattern.declared)) (hlt : i < s.gen.temps.length)
    (hf : s.gen.frames = fr :: fs) :
    Ends ((ps.map code).forM fun p => operand Gen.orOperand p) ctx s fun _ s' =>
      Sifted cs (ps.flatMap Pattern.declared) i s s' false fr.skip fun v ρ => Pattern.testAny v ρ ps := by
  induction ps generalizing s with
  | nil =>
    refine ⟨.refl s, hs, rfl, fun I t m ρ v hi hm hv => Image.evaluates_ok ⟨m, .refl _ m, hm, rfl⟩⟩
  | cons p ps ih =>
    rw [List.flatMap_cons] at hd hl ⊢
    rw [List.nodup_append] at hd
    show Ends (operand Gen.orOperand (code p) >>= fun _ =>
      (ps.map code).forM fun p => operand Gen.orOperand p) ctx s _
    refine (operand_sifts false (decide_adds false) (h p List.mem_cons_self) hs
      (fun q hq => hl q (List.mem_append_left _ hq)) hlt hf).bind fun _ s₁ h₁ => ?_
    have hl₁ : s₁.Lacks (ps.flatMap Pattern.declared) :=
      h₁.grows.lacks (fun q hq => hl q (List.mem_append_right _ hq))
        fun q hq hq' => hd.2.2 q hq' q hq rfl
    have hf₁ := (congrArg Nesting.frames h₁.nesting).trans hf
    refine (ih (fun q hq => h q (List.mem_cons_of_mem _ hq)) hd.2.1 h₁.ready hl₁
      (Sifted.depth_eq h₁ ▸ hlt) hf₁).post fun _ s₂ h₂ => ?_
    refine ⟨h₁.grows.trans h₂.grows, h₂.ready, h₂.nesting.trans h₁.nesting,
      fun I t m ρ v hi hm hv => ?_⟩
    refine (h₁.runs I t m ρ v (hi.of_grows h₂.grows) hm hv).bind fun r c ⟨m₁, hagree, hm₁, hc⟩ => ?_
    subst hc
    obtain ⟨found, ρ₁⟩ := r
    cases found with
    | true => exact Image.evaluates_ok ⟨m₁, hagree, hm₁, rfl⟩
    | false =>
      have hrun := h₂.runs I t m₁ ρ₁ v hi hm₁ (hv.agree hagree rfl hlt)
      refine hrun.mono fun r c ⟨m₂, hagree₂, hm₂, hc⟩ => ⟨m₂, hagree.trans ?_, hm₂, hc⟩
      rwa [Sifted.depth_eq h₁] at hagree₂

theorem testAny_singleton (v : Value) (ρ : Env) (p : Pattern) :
    Pattern.testAny v ρ [p] = p.test v ρ := by
  unfold Pattern.testAny
  cases p.test v ρ with
  | error e => rfl
  | ok r =>
    obtain ⟨found, ρ'⟩ := r
    cases found <;> rfl

theorem anyPattern_judges {code : Pattern → Lower Address} (ps : List Pattern)
    (h : ∀ p ∈ ps, Judges cs ctx i (code p) p.declared fun v ρ => p.test v ρ)
    (hd : (ps.flatMap Pattern.declared).Nodup) :
    Judges cs ctx i (anyPattern (ps.map code)) (ps.flatMap Pattern.declared)
      fun v ρ => Pattern.testAny v ρ ps := by
  have hmany : Judges cs ctx i (do
      let dst ← Gen.addTemporary boolType
      Gen.beginOr
      (ps.map code).forM fun p => operand Gen.orOperand p
      Gen.endOr dst
      return dst) (ps.flatMap Pattern.declared) fun v ρ => Pattern.testAny v ρ ps := by
    intro s hs hl hlt
    refine (addTemporary_adds hs _).bind fun dst s₁ ⟨h₁, hdst⟩ => ?_
    subst hdst
    refine (pushFrame_adds h₁.ready .or).bind fun _ s₂ ⟨skip, done, _, h₂, hskip, hdone⟩ => ?_
    have hlt₂ : i < s₂.gen.temps.length := by
      rw [h₂.temps, Nesting.temps_withFrames, Lowering.temps_nesting]
      exact hlt.trans h₁.depth_lt
    have hl₂ := (h₁.grows.then h₂.grows).lacks hl (by simp)
    refine (sift_all ps h hd h₂.ready hl₂ hlt₂ h₂.frames).bind fun _ s₃ h₃ => ?_
    have hf₃ := (congrArg Nesting.frames h₃.nesting).trans h₂.frames
    exact (endLogical_ends cs h₃.ready hf₃ (hskip.trans_le h₃.grows.labels)
      (hdone.trans_le h₃.grows.labels) s.gen.temps.length boolType false).bind
      fun _ s₄ h₄ => judged_of_sifted h₁ h₂ h₃ h₄
  match ps, h, hmany with
  | [p], h, _ =>
    intro s hs hl hlt
    simp only [List.flatMap_cons, List.flatMap_nil, List.append_nil, testAny_singleton] at hl ⊢
    exact h p List.mem_cons_self s hs hl hlt
  | [], _, hmany => exact hmany
  | _ :: _ :: _, _, hmany => exact hmany

/-! ### Branches -/

/-- A change of the branches around adds no code. -/
theorem update_cases_ends (hs : s.Ready) (g : List Nat → List Nat) :
    Ends (update fun s => { s with cases := g s.cases }) ctx s fun _ s' => Adds s [] s.nesting s' := by
  unfold Ends
  rw [after_update]
  exact ⟨⟨List.prefix_refl _, fun _ _ h => h, le_rfl, List.prefix_refl _, le_rfl, le_rfl, rfl,
    fun _ _ h => h, fun _ _ h => .inl h, List.prefix_refl _⟩,
    ⟨hs.depth, hs.keyed, ⟨hs.placed.inside, hs.placed.distinct⟩⟩, by simp [Lowering.code], rfl⟩

/-- The code between `s` and `s'` tries branches on the value at the temporary `i`. Behind a branch that
has been run it goes on at the label `done`; where no branch matches, behind the last one. -/
structure Tried (cs : List Value) (declared : List Pos) (i done : Nat) (s s' : Lowering)
    (loop : Option LoopLabels) (f : Nat → Value → Env → Ending) : Prop where
  grows : Grows declared s s'
  ready : s'.Ready
  nesting : s'.nesting = s.nesting
  runs : ∀ (I : Image cs) (t : StaticType) (fuel : Nat) (m : Memory) (ρ : Env) (v : Value),
    I.Includes s' → I.Holds ρ m → I.Reads m ⟨.temporary, i, t⟩ v →
    I.Behaves s.gen.temps.length loop (fun pc => pc = I.label done ∨ pc = I.front s') fuel (I.here s m)
      (f fuel v ρ)

/-- Code that tries branches on the value at a temporary that is live. -/
def Tries (cs : List Value) (ctx : LowerContext) (i done : Nat) (x : Lower Unit) (declared : List Pos)
    (f : Nat → Value → Env → Ending) : Prop :=
  ∀ s, s.Ready → s.Lacks declared → i < s.gen.temps.length → done < s.gen.binds.length →
    Ends x ctx s fun _ s' => Tried cs declared i done s s' s.loops.head? f

variable {done : Nat} {body y : Lower Unit} {h : Nat → Env → Ending} {k : Nat → Value → Env → Ending}

theorem noBranches_tries : Tries cs ctx i done (pure ()) [] fun _ _ ρ => .next ρ := by
  intro s hs _ _ _
  refine ⟨.refl s, hs, rfl, fun I t fuel m ρ v hi hm hv => ?_⟩
  exact (Image.behaves_next hm).mono le_rfl fun _ hpc => .inr hpc

/-- A branch is run if its condition holds, and else the branches after it are tried. -/
theorem matchBranch_tries {D₃ : List Pos} (hx : Judges cs ctx i x D₁ f)
    (hbody : Performs cs ctx body D₂ h) (hy : Tries cs ctx i done y D₃ k)
    (hd₂ : ∀ p ∈ D₂, p ∉ D₁) (hd₃ : ∀ p ∈ D₃, p ∉ D₁ ++ D₂) :
    Tries cs ctx i done (matchBranch done x body >>= fun _ => y) (D₁ ++ D₂ ++ D₃) fun fuel v ρ =>
      match f v ρ with
      | .ok (true, ρ) => h fuel ρ
      | .ok (false, ρ) => k fuel v ρ
      | .error e => .failed e := by
  intro s hs hl hlt hdone
  unfold matchBranch
  simp only [bind_assoc]
  refine (newLabel_adds hs).bind fun next s₁ ⟨h₁, hnext⟩ => ?_
  have hdepth₁ : s₁.gen.temps.length = s.gen.temps.length := congrArg List.length h₁.temps
  have hl₁ : s₁.Lacks (D₁ ++ D₂ ++ D₃) := h₁.grows.lacks hl (by simp)
  refine (hx s₁ h₁.ready (fun p hp => hl₁ p (by simp [hp])) (hdepth₁ ▸ hlt)).bind fun a s₂ hx => ?_
  refine (emit_adds hx.ready _ _).bind fun _ s₃ h₃ => ?_
  refine (release_held hx.holds hx.nesting h₃).bind fun _ s₄ h₄ => ?_
  have hsift : Sifted cs D₁ i s₁ s₄ true next f := sifted_of_jump hx h₄
  refine (update_cases_ends hsift.ready _).bind fun _ s₅ h₅ => ?_
  have hg₅ : Grows D₁ s₁ s₅ := hsift.grows.then h₅.grows
  have hl₅ : s₅.Lacks D₂ := hg₅.lacks (fun p hp => hl₁ p (by simp [hp])) hd₂
  refine (hbody s₅ h₅.ready hl₅).bind fun _ s₆ hbody => ?_
  refine (update_cases_ends hbody.ready _).bind fun _ s₇ h₇ => ?_
  refine (emit_adds h₇.ready _ _).bind fun _ s₈ h₈ => ?_
  have hg₈ : Grows (D₁ ++ D₂) s₁ s₈ := (hg₅.trans hbody.grows).then (h₇.grows.then h₈.grows)
  refine (bind_adds h₈.ready (hnext.trans_le hg₈.labels)).bind fun _ s₉ ⟨h₉, hl₉⟩ => ?_
  have hg₉ : Grows (D₁ ++ D₂) s s₉ := (hg₈.then h₉.grows).after h₁.grows
  have hnest₅ : s₅.nesting = s.nesting := by rw [h₅.nesting, hsift.nesting, h₁.nesting]
  have hnest₉ : s₉.nesting = s.nesting := by
    rw [h₉.nesting, h₈.nesting, h₇.nesting, hbody.nesting, hnest₅]
  have hloops₅ : s₅.loops = s.loops := congrArg Nesting.loops hnest₅
  have hloops₉ : s₉.loops = s.loops := congrArg Nesting.loops hnest₉
  have hdepth₅ : s₅.gen.temps.length = s.gen.temps.length :=
    congrArg (List.length ∘ Nesting.temps) hnest₅
  have hdepth₉ : s₉.gen.temps.length = s.gen.temps.length :=
    congrArg (List.length ∘ Nesting.temps) hnest₉
  refine (hy s₉ h₉.ready (hg₉.lacks (fun p hp => hl p (by simp [hp])) hd₃) (hdepth₉ ▸ hlt)
    (hdone.trans_le hg₉.labels)).post fun _ s₁₀ hy => ?_
  refine ⟨hg₉.trans hy.grows, hy.ready, hy.nesting.trans hnest₉, fun I t fuel m ρ v hi hm hv => ?_⟩
  have hi₉ := hi.of_grows hy.grows
  have hi₈ := hi₉.of_grows h₉.grows
  have hi₆ := (hi₈.of_grows h₈.grows).of_grows h₇.grows
  have hi₅ := hi₆.of_grows hbody.grows
  have hrun := hsift.runs I t m ρ v (hi₅.of_grows h₅.grows) hm hv
  rw [Image.here_of_adds h₁] at hrun
  cases hr : f v ρ with
  | error e =>
    rw [hr] at hrun
    exact hrun
  | ok r =>
    rw [hr] at hrun
    obtain ⟨c, hreach, m₁, hagree, hm₁, rfl⟩ := hrun
    rw [hdepth₁] at hagree
    obtain ⟨found, ρ₁⟩ := r
    cases found with
    | true =>
      rw [if_pos rfl, ← Image.here_of_adds h₅] at hreach
      have hrest := hbody.runs I fuel m₁ ρ₁ hi₆ hm₁
      rw [hdepth₅, hloops₅] at hrest
      refine (hrest.of_reaches hreach hagree).reaches fun pc m hpc => ⟨I.label done, .inl rfl, ?_⟩
      subst hpc
      show I.machine.Reaches (I.here s₆ m) _
      rw [← Image.here_of_adds h₇]
      exact Image.reaches_jump h₈ hi₈ m
    | false =>
      rw [if_neg (by simp), ← here_eq_label hi₉ hl₉, ← Image.here_of_adds h₉] at hreach
      have hrest := hy.runs I t fuel m₁ ρ₁ v hi hm₁ (hv.agree hagree rfl hlt)
      rw [hdepth₉, hloops₉] at hrest
      exact hrest.of_reaches hreach hagree

/-! ### Matches -/

theorem matching_performs {z : Lower Address} {g : Env → Except ValueError Value} {t : StaticType}
    {code : Address → Nat → Lower Unit} (hz : Computes cs ctx z g)
    (hcode : ∀ i done, Tries cs ctx i done (code ⟨.temporary, i, t⟩ done) D k) :
    Performs cs ctx (matching t z code) D fun fuel ρ => .ofValue (g ρ) fun v => k fuel v ρ := by
  intro s hs hl
  unfold matching
  refine (addTemporary_adds hs t).bind fun value s₁ ⟨h₁, hvalue⟩ => ?_
  subst hvalue
  refine (hz s₁ h₁.ready).bind fun a s₂ hz => ?_
  refine (emit_adds hz.ready _ _).bind fun _ s₃ h₃ => ?_
  refine (release_computed hz h₃).bind fun _ s₄ h₄ => ?_
  refine (newLabel_adds h₄.ready).bind fun done s₅ ⟨h₅, hdone⟩ => ?_
  have hg₅ : Grows [] s s₅ := h₁.grows.then (hz.grows.then (h₄.grows.then h₅.grows))
  have hnest₅ : s₅.nesting = s.nesting.withTemps (t :: s.gen.temps) := by
    rw [h₅.nesting, h₄.nesting, h₁.nesting]
  have htemps₅ : s₅.gen.temps = t :: s.gen.temps := congrArg Nesting.temps hnest₅
  have hloops₅ : s₅.loops = s.loops := congrArg Nesting.loops hnest₅
  have hlt₅ : s.gen.temps.length < s₅.gen.temps.length := by simp [htemps₅]
  refine (hcode s.gen.temps.length done s₅ h₅.ready (hg₅.lacks hl (by simp)) hlt₅ hdone).bind
    fun _ s₆ htried => ?_
  refine (bind_adds htried.ready (hdone.trans_le htried.grows.labels)).bind fun _ s₇ ⟨h₇, hl₇⟩ => ?_
  have hheld : GameScript.Holds s.gen.temps ⟨.temporary, s.gen.temps.length, t⟩ s₇.gen.temps := by
    have htemps₇ : s₇.gen.temps = t :: s.gen.temps := by
      rw [h₇.temps, Lowering.temps_nesting]
      exact (congrArg Nesting.temps htried.nesting).trans htemps₅
    exact htemps₇ ▸ holds_temporary _ _ _
  refine (release_adds h₇.ready hheld).post fun _ s₈ h₈ => ?_
  have h₆₈ := h₇.trans h₈
  refine ⟨(htried.grows.after hg₅).then h₆₈.grows, h₈.ready, ?_, fun I fuel m ρ hi hm => ?_⟩
  · rw [h₈.nesting, h₇.nesting, htried.nesting, hnest₅]
    rfl
  have hi₇ := hi.of_grows h₈.grows
  have hi₆ := hi₇.of_grows h₇.grows
  have hi₄ := (hi₆.of_grows htried.grows).of_grows h₅.grows
  have hi₂ := hi₄.of_grows h₄.grows
  rw [← Image.here_of_adds h₁ m]
  refine (hz.runs I m ρ hi₂ hm).reaches (fun v c ⟨m₁, hc, hsame, hv⟩ => ?_) |>.behaves
    (Q := fun v c => ∃ m₂, c = I.here s₅ m₂ ∧ Memory.Same s.gen.temps.length m m₂ ∧
      I.Reads m₂ ⟨.temporary, s.gen.temps.length, t⟩ v) fun v c ⟨m₂, hc, hsame, hv⟩ => ?_
  · subst hc
    have hroom := (hm.same hsame).room_for hi₂ hz.ready (h₁.depth_lt.trans_le hz.depth_le)
    obtain ⟨w, hreach, halike⟩ := Image.reaches_assign h₄ hi₄ hroom hv
    rw [← Image.here_of_adds h₅] at hreach
    exact ⟨_, hreach, _, rfl, (hsame.mono h₁.depth_lt.le).trans (m₁.same_setTemp _ w),
      Image.reads_setTemp hroom halike⟩
  · subst hc
    refine ⟨hsame.toAgree, ?_⟩
    have hrun := htried.runs I t fuel m₂ ρ v hi₆ (hm.same hsame) hv
    rw [hloops₅] at hrun
    refine hrun.mono hlt₅.le fun pc hpc => ?_
    have hend : I.front s₈ = I.front s₆ := Image.front_of_adds h₆₈
    rcases hpc with rfl | rfl
    · rw [hend, hi₇.label hl₇]
      rfl
    · exact hend.symm

end Lower

end GameScript
