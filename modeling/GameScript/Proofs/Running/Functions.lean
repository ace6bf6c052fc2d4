import GameScript.Proofs.Running.Trees

/-!
# Code of functions

The parameters of a function have the first places of its memory, in order. Code for each optional one
stores its default; a call with some of them enters the code behind those (`Lower.Entered`). The code of the body
follows.
-/

namespace GameScript

/-! ### Parameters -/

namespace Param

/-- Gives the first parameters their arguments. -/
def give : List Param → List Value → Env → Env
  | p :: ps, v :: vs, ρ => give ps vs (ρ.set p.name.pos v)
  | _, _, ρ => ρ

/-- The parameters with an argument are given theirs, and then the others their defaults. -/
theorem bindAll_eq_give (ps : List Param) (vs : List Value) (ρ : Env) :
    bindAll ps vs ρ = bindAll (ps.drop vs.length) [] (give ps vs ρ) := by
  induction ps generalizing vs ρ with
  | nil => simp [give, bindAll]
  | cons p ps ih =>
    cases vs with
    | nil => rfl
    | cons v vs =>
      show bindAll ps vs _ = _
      rw [ih]
      rfl

theorem give_of_not_mem {ps : List Param} {q : Pos} (h : q ∉ ps.map (·.name.pos)) (vs : List Value)
    (ρ : Env) : give ps vs ρ q = ρ q := by
  induction ps generalizing vs ρ with
  | nil => rfl
  | cons p ps ih =>
    rw [List.map_cons, List.mem_cons, not_or] at h
    cases vs with
    | nil => rfl
    | cons v vs =>
      show give ps vs _ q = _
      rw [ih h.2]
      simp [Env.set, h.1]

/-- A parameter has its argument, if there is one for it. -/
theorem give_name {ps : List Param} (hd : (ps.map (·.name.pos)).Nodup) {j : Nat} {p : Param}
    (hp : ps[j]? = some p) (vs : List Value) (ρ : Env) :
    give ps vs ρ p.name.pos = (vs[j]?).getD (ρ p.name.pos) := by
  induction ps generalizing j vs ρ with
  | nil => cases hp
  | cons q ps ih =>
    rw [List.map_cons, List.nodup_cons] at hd
    cases vs with
    | nil => simp [give]
    | cons v vs =>
      show give ps vs _ p.name.pos = _
      cases j with
      | zero =>
        obtain rfl : q = p := by simpa using hp
        rw [give_of_not_mem hd.1]
        simp [Env.set]
      | succ j =>
        rw [List.getElem?_cons_succ] at hp
        have hne : p.name.pos ≠ q.name.pos := fun he =>
          hd.1 (he ▸ List.mem_map_of_mem (List.mem_of_getElem? hp))
        rw [ih hd.2 hp]
        simp [Env.set, hne]

/-- Optional parameters come after the others. -/
theorem OptionalLast.drop {ps : List Param} (h : OptionalLast ps) :
    ∀ p ∈ ps.drop (ps.filter (·.default.isNone)).length, p.default.isSome := by
  induction ps with
  | nil => simp
  | cons p ps ih =>
    cases hp : p.default with
    | none =>
      simpa [hp] using ih h.2
    | some x =>
      have hall := h.1 (by simp [hp])
      have hnone : ps.filter (·.default.isNone) = [] := by
        rw [List.filter_eq_nil_iff]
        intro q hq hn
        have := hall q hq
        simp_all
      simpa [hp, hnone] using hall

theorem OptionalLast.take {ps : List Param} (h : OptionalLast ps) :
    ∀ p ∈ ps.take (ps.filter (·.default.isNone)).length, p.default = none := by
  induction ps with
  | nil => simp
  | cons p ps ih =>
    cases hp : p.default with
    | none =>
      simpa [hp] using ih h.2
    | some x =>
      have hall := h.1 (by simp [hp])
      have hnone : ps.filter (·.default.isNone) = [] := by
        rw [List.filter_eq_nil_iff]
        intro q hq hn
        have := hall q hq
        simp_all
      simp [hp, hnone]

end Param

namespace Lower

variable {cs : List Value} {ctx : LowerContext} {s : Lowering}

/-- The parameters of a function have been added, each with its place. -/
structure Received (notes : Pos → Note) (ps : List Param) (s s' : Lowering) : Prop where
  ready : s'.Ready
  gen : s'.gen = s.gen
  loops : s'.loops = s.loops
  locals : s'.locals = s.locals
  params : s'.params.length = s.params.length + ps.length
  found : ∀ j p, ps[j]? = some p →
    s'.vars.get? p.name.pos = some ⟨.parameter, s.params.length + j, (notes p.name.pos).type⟩
  vars : ∀ q, q ∉ ps.map (·.name.pos) → s'.vars.get? q = s.vars.get? q

theorem addParam_ends (hs : s.Ready) (q : Pos) (name : Text) (pos : Pos) (t : StaticType) : Ends (addParam q name pos t) ctx s fun _ s' => s'.Ready ∧ s'.gen = s.gen ∧
      s'.loops = s.loops ∧ s'.locals = s.locals ∧ s'.params.length = s.params.length + 1 ∧
      s'.vars = s.vars.set q ⟨.parameter, s.params.length, t⟩ := by
  unfold addParam Ends
  simp only [after_bind, after_slotOf, after_current, after_bindVar, after_update, and_true, true_and]
  refine ⟨⟨hs.depth, hs.keyed, ?_⟩, by simp⟩
  exact hs.placed.insert rfl (by simp) le_rfl (.inl ⟨rfl, le_rfl, by simp⟩)

theorem addParams_ends (ps : List Param) (hs : s.Ready)
    (hd : (ps.map (·.name.pos)).Nodup) :
    Ends (addParams [] ps) ctx s fun _ s' => Received (ctx.session.noteAt ctx.unit) ps s s' := by
  show Ends (do
    for p in ps do
      addParam p.name.pos p.name.name p.name.pos (← note p.name.pos).type) ctx s _
  induction ps generalizing s with
  | nil => 
    exact ⟨hs, rfl, rfl, rfl, rfl, by simp, fun _ _ => rfl⟩
  | cons p ps ih =>
    rw [List.map_cons, List.nodup_cons] at hd
    rw [List.forIn_cons]
    simp only [bind_assoc, pure_bind]
    unfold Ends
    rw [after_bind, after_note]
    refine (addParam_ends hs p.name.pos _ _ _).bind fun _ s₁ h₁ => ?_
    obtain ⟨hs₁, hgen, hloops, hlocals, hparams, hvars⟩ := h₁
    have hget : ∀ q, q ≠ p.name.pos → s₁.vars.get? q = s.vars.get? q := fun q hq => by
      rw [hvars, Table.get?_set, if_neg (Ne.symm hq)]
    refine (ih hs₁ hd.2).post fun _ s₂ h₂ => ?_
    refine ⟨h₂.ready, h₂.gen.trans hgen, h₂.loops.trans hloops, h₂.locals.trans hlocals, ?_, ?_, ?_⟩
    · rw [h₂.params, hparams, List.length_cons]
      omega
    · intro j q hq
      cases j with
      | zero =>
        obtain rfl : p = q := by simpa using hq
        rw [h₂.vars _ hd.1, hvars, Table.get?_set, if_pos rfl]
        rfl
      | succ j =>
        rw [h₂.found j q (by simpa using hq), hparams, Nat.add_right_comm]
        rfl
    · intro q hq
      rw [List.map_cons, List.mem_cons, not_or] at hq
      rw [h₂.vars q hq.2, hget q hq.1]

/-! ### Defaults -/

/-- The default of a parameter is stored. -/
theorem default_ends {x : Expr} {id : Ident} {b : Address} (hx : x.Plain)
    (ht : ∀ v ∈ x.constants, Pool.Told cs v) (hs : s.Ready) (hb : s.vars.get? id.pos = some b)
    (hu : b.type.Untyped) :
    Ends (balanced do
      let src ← expr x
      assign (← paramAt id.pos) src (← note id.pos).converts
      Gen.release src) ctx s fun _ s' => Performed cs [] s s' none fun _ ρ =>
        .ofValue (x.eval ρ) fun v => .next (ρ.set id.pos v) := by
  refine balanced_ends ((expr_computes hx ht s hs).bind fun a s₁ hx => ?_)
  unfold paramAt Ends
  simp only [after_bind, after_current, after_note, pure_bind, hx.grows.vars _ _ hb, Option.getD_some,
    bind_assoc]
  refine (assign_adds hx.ready hu a _).post fun _ s₂ h₂ => ?_
  exact (release_computed hx h₂).post fun _ s₃ h₃ => performed_store hx hb rfl h₃

/-- The code between `s` and `s'` gives parameters their defaults; at the label of a parameter it begins
with that one. -/
structure Entered (cs : List Value) (ps : List Param) (s s' : Lowering) (ls : List Nat) : Prop where
  grows : Grows [] s s'
  ready : s'.Ready
  nesting : s'.nesting = s.nesting
  length : ls.length = ps.length
  start : ∀ (I : Image cs) (m : Memory) (ρ : Env), I.Includes s' → I.Holds ρ m →
    I.Evaluates (I.here s m) (Param.bindAll ps [] ρ) fun ρ' c => ∃ m', c = I.here s' m' ∧ I.Holds ρ' m'
  entry : ∀ (I : Image cs) (m : Memory) (ρ : Env) (j l : Nat), I.Includes s' → I.Holds ρ m →
    ls[j]? = some l → I.Evaluates ⟨I.label l, m⟩ (Param.bindAll (ps.drop j) [] ρ)
      fun ρ' c => ∃ m', c = I.here s' m' ∧ I.Holds ρ' m'

theorem entry_ends (hs : s.Ready) : Ends entry ctx s fun l s' => Adds s [] s.nesting s' ∧
    s'.gen.binds.getD l none = some s.gen.instructions.length := by
  unfold entry
  refine (newLabel_adds hs).bind fun l s₁ ⟨h₁, hl⟩ => ?_
  refine (bind_adds h₁.ready hl).bind fun _ s₂ ⟨h₂, hb⟩ => ?_
  have hlen : s₁.gen.instructions.length = s.gen.instructions.length := by
    have := congrArg List.length h₁.code
    simpa [Lowering.code] using this
  have h := h₁.trans h₂
  rw [h₁.nesting] at h
  exact ⟨h, hlen ▸ hb⟩

/-- A statement that stores a value, as a computation. -/
theorem evaluates_of_performed {I : Image cs} {s' : Lowering} {m : Memory} {ρ : Env} {p : Pos}
    {f : Env → Except ValueError Value} {loop : Option LoopLabels}
    (h : Performed cs [] s s' loop fun _ ρ => .ofValue (f ρ) fun v => .next (ρ.set p v))
    (hi : I.Includes s') (hm : I.Holds ρ m) : I.Evaluates (I.here s m) (f ρ) fun v c =>
      ∃ m', c = I.here s' m' ∧ I.Holds (ρ.set p v) m' := by
  have hrun := h.runs I 0 m ρ hi hm
  cases hv : f ρ with
  | error e =>
    rw [hv] at hrun
    exact hrun
  | ok v =>
    rw [hv] at hrun
    obtain ⟨c, hreach, pc, rfl, m', rfl, -, hm'⟩ := hrun
    exact ⟨_, hreach, m', rfl, hm'⟩

theorem defaults_ends {notes : Pos → Note} (ps : List Param) (hsome : ∀ p ∈ ps, p.default.isSome) (hp : ∀ p ∈ ps, p.Plain notes)
    (ht : ∀ p ∈ ps, ∀ x, p.default = some x → ∀ v ∈ x.constants, Pool.Told cs v) (hs : s.Ready)
    (hfound : ∀ p ∈ ps, ∃ b, s.vars.get? p.name.pos = some b ∧ b.type = (notes p.name.pos).type) :
    Ends (defaults ps) ctx s fun ls s' => Entered cs ps s s' ls := by
  induction ps generalizing s with
  | nil =>
    refine ⟨.refl s, hs, rfl, rfl, fun I m ρ hi hm => ?_, fun I m ρ j l hi hm hl => ?_⟩
    · exact Image.evaluates_ok ⟨m, rfl, hm⟩
    · simp at hl
  | cons p ps ih =>
    obtain ⟨id, spec, infer, default⟩ := p
    obtain ⟨x, rfl⟩ := Option.isSome_iff_exists.mp (hsome _ List.mem_cons_self)
    obtain ⟨hline, hx, hu⟩ := hp _ List.mem_cons_self x rfl
    obtain ⟨b, hb, hbt⟩ := hfound _ List.mem_cons_self
    unfold defaults
    refine (entry_ends hs).bind fun l s₁ h₁ => ?_
    obtain ⟨h₁, hl⟩ := h₁
    have hset : Performs cs ctx (setLine x.start) [] fun _ ρ => .next ρ := setLine_performs hline
    refine (hset s₁ h₁.ready fun _ h => by cases h).bind fun _ s₂ h₂ => ?_
    have hg₂ := h₁.grows.then h₂.grows
    refine (default_ends hx (ht _ List.mem_cons_self x rfl) h₂.ready (hg₂.vars _ _ hb)
      (hbt ▸ hu)).bind fun _ s₃ h₃ => ?_
    have hg₃ := hg₂.then h₃.grows
    refine (ih (fun p h => hsome p (List.mem_cons_of_mem _ h)) (fun p h => hp p (List.mem_cons_of_mem _ h))
      (fun p h => ht p (List.mem_cons_of_mem _ h)) h₃.ready fun p h => ?_).bind fun ls s₄ h₄ => ?_
    · obtain ⟨b, hb, hbt⟩ := hfound p (List.mem_cons_of_mem _ h)
      exact ⟨b, hg₃.vars _ _ hb, hbt⟩
    have hstart : ∀ (I : Image cs) (m : Memory) (ρ : Env), I.Includes s₄ → I.Holds ρ m →
        I.Evaluates (I.here s m) (Param.bindAll (⟨id, spec, infer, some x⟩ :: ps) [] ρ)
          fun ρ' c => ∃ m', c = I.here s₄ m' ∧ I.Holds ρ' m' := by
      intro I m ρ hi hm
      have hi₃ := hi.of_grows h₄.grows
      obtain ⟨_, hreach, _, rfl, m₁, rfl, -, hm₁⟩ := h₂.runs I 0 m ρ (hi₃.of_grows h₃.grows) hm
      rw [Image.here_of_adds h₁] at hreach
      refine ((evaluates_of_performed h₃ hi₃ hm₁).bind fun v c hc => ?_).of_reaches hreach
      obtain ⟨m', rfl, hm'⟩ := hc
      exact h₄.start I m' _ hi hm'
    refine ⟨hg₃.then h₄.grows, h₄.ready, ?_, by simp [h₄.length], hstart, fun I m ρ j l' hi hm hj => ?_⟩
    · rw [h₄.nesting, h₃.nesting, h₂.nesting, h₁.nesting]
    · cases j with
      | zero =>
        obtain rfl : l = l' := by simpa using hj
        have hi₁ := hi.of_grows ((h₂.grows.then h₃.grows).then h₄.grows)
        rw [← here_eq_label hi₁ hl]
        exact hstart I m ρ hi hm
      | succ j => exact h₄.entry I m ρ j l' hi hm (by simpa using hj)

end Lower

/-! ### Statements that return -/

namespace Ending

/-- Whether what follows is next. -/
def goesOn : Ending → Bool
  | next _ => true
  | _ => false

theorem goesOn_ofValue {r : Except ValueError Value} {k : Value → Ending}
    (h : ∀ v, (k v).goesOn = false) : (ofValue r k).goesOn = false := by
  cases r with
  | ok v => exact h v
  | error e => rfl

theorem goesOn_andThen {o : Ending} {k : Env → Ending}
    (h : o.goesOn = false ∨ ∀ ρ, (k ρ).goesOn = false) : (o.andThen k).goesOn = false := by
  cases o with
  | next ρ => exact h.resolve_left (by simp [goesOn]) ρ
  | _ => rfl

end Ending

/-- A pattern that matches everything does. -/
theorem Pattern.testAny_of_catchAll {v : Value} {ps : List Pattern} (ρ : Env)
    (h : ps.any Pattern.isCatchAll = true) {ρ' : Env} : testAny v ρ ps ≠ .ok (false, ρ') := by
  induction ps generalizing ρ with
  | nil => cases h
  | cons p ps ih =>
    rw [List.any_cons, Bool.or_eq_true] at h
    unfold testAny
    cases ht : p.test v ρ with
    | error e => exact fun he => by cases he
    | ok r =>
      obtain ⟨found, ρ₁⟩ := r
      cases found with
      | true => exact fun he => by cases he
      | false =>
        have hp : p.isCatchAll = false := by
          cases p <;> first | rfl | (cases ht)
        exact ih ρ₁ (h.resolve_left (by simp [hp]))

mutual

theorem Stmt.goesOn_eval {s : Stmt} (h : s.returns = true) (fuel : Nat) (ρ : Env) :
    (s.eval fuel ρ).goesOn = false := by
  match s with
  | .return _ none _ =>
    rw [Stmt.eval]
    rfl
  | .return _ (some x) _ =>
    rw [Stmt.eval]
    exact Ending.goesOn_ofValue fun _ => rfl
  | .cond _ c yes (some no) =>
    rw [Stmt.returns, Bool.and_eq_true] at h
    rw [Stmt.eval]
    refine Ending.goesOn_ofValue fun v => ?_
    split
    · exact Block.goesOn_eval h.1 fuel ρ
    · exact Block.goesOn_eval h.2 fuel ρ
  | .match _ x bs =>
    simp only [Stmt.returns, Bool.and_eq_true] at h
    rw [Stmt.eval]
    exact Ending.goesOn_ofValue fun v => Branch.goesOn_evalFirst h.1.2 h.2 fuel v ρ
  | .cond _ _ _ none | .assign .. | .expr _ | .loop .. | .while .. | .jump .. | .assert .. | .var _
  | .const _ => simp [Stmt.returns] at h

theorem Block.goesOn_eval {b : Block} (h : b.returns = true) (fuel : Nat) (ρ : Env) :
    (b.eval fuel ρ).goesOn = false := by
  match b, h with
  | ⟨_, ss, _, _, _, _, _⟩, h =>
    rw [Block.returns, Bool.and_eq_true] at h
    rw [Block.eval]
    exact Stmt.goesOn_evalAll h.2 fuel ρ

theorem Stmt.goesOn_evalAll {ss : List Stmt} (h : Stmt.anyReturns ss = true) (fuel : Nat) (ρ : Env) :
    (Stmt.evalAll fuel ρ ss).goesOn = false := by
  match ss, h with
  | s :: ss, h =>
    rw [Stmt.anyReturns, Bool.or_eq_true] at h
    rw [Stmt.evalAll]
    exact Ending.goesOn_andThen
      (h.imp (fun h => Stmt.goesOn_eval h fuel ρ) fun h ρ => Stmt.goesOn_evalAll h fuel ρ)

/-- Branches that all return, one of which is taken. -/
theorem Branch.goesOn_evalFirst {bs : List Branch} (h : Branch.allReturn bs = true)
    (hc : bs.any (·.patterns.any Pattern.isCatchAll) = true) (fuel : Nat) (v : Value) (ρ : Env) :
    (Branch.evalFirst fuel v ρ bs).goesOn = false := by
  match bs, h, hc with
  | ⟨ps, body, _⟩ :: bs, h, hc =>
    rw [Branch.allReturn, Bool.and_eq_true] at h
    rw [List.any_cons, Bool.or_eq_true] at hc
    unfold Branch.evalFirst
    split
    · exact Block.goesOn_eval h.1 fuel _
    · rename_i ρ' ht
      have hps : ¬ ps.any Pattern.isCatchAll = true := fun hps =>
        Pattern.testAny_of_catchAll ρ hps ht
      exact Branch.goesOn_evalFirst h.2 (hc.resolve_left hps) fuel v ρ'
    · rfl

end

/-! ### Instructions at their places -/

namespace Assembly

/-- The place of an instruction is the length of the code before it. -/
theorem getD_starts (is : List Instruction) (pc k : Nat) (hk : k ≤ is.length) :
    (starts pc (is.map Instruction.size)).getD k 0 =
      pc + ((is.take k).flatMap Instruction.encode).length := by
  induction is generalizing pc k with
  | nil =>
    obtain rfl : k = 0 := by simpa using hk
    simp [starts]
  | cons i is ih =>
    cases k with
    | zero => simp [starts]
    | succ k =>
      have h := ih (pc + i.size) k (by simpa using hk)
      simp only [List.map_cons, starts, List.getD_cons_succ, h, List.take_succ_cons, List.flatMap_cons,
        List.length_append, Instruction.length_encode]
      omega

/-- What follows the place of an instruction is the code of it and of those behind it. -/
theorem code_at_place (a : Assembly) {k : Nat} (hk : k ≤ a.instructions.length) :
    a.machineCode.code.drop (a.places.getD k 0) = ((a.resolved a.places).drop k).flatMap Instruction.encode ∧
      a.places.getD k 0 + (((a.resolved a.places).drop k).flatMap Instruction.encode).length =
        a.machineCode.code.length := by
  have hplace : a.places.getD k 0 = (((a.resolved a.places).take k).flatMap Instruction.encode).length := by
    have h := getD_starts (a.resolved a.places) 0 k (by simpa [length_resolved] using hk)
    have hstarts : a.places = starts 0 ((a.resolved a.places).map Instruction.size) := a.places_eq_starts
    rwa [← hstarts, Nat.zero_add] at h
  have hcode : a.machineCode.code = ((a.resolved a.places).take k).flatMap Instruction.encode ++
      ((a.resolved a.places).drop k).flatMap Instruction.encode := by
    rw [← List.flatMap_append, List.take_append_drop]
    rfl
  rw [hplace, hcode, List.drop_left, List.length_append]
  exact ⟨rfl, rfl⟩

end Assembly

/-- In the code of an assembly each instruction is read at its place, and the next one follows. -/
theorem Machine.fetch_place {M : Machine} {a : Assembly} (hcode : M.function.code = a.machineCode.code)
    (hsize : a.machineCode.code.length < twoTo 32) {k : Nat} {i : SourceInstruction}
    (hi : a.instructions[k]? = some i) (hr : i.instruction.Readable) :
    M.fetch (a.places.getD k 0) =
      .ok (i.instruction.resolve (a.target a.places), a.places.getD (k + 1) 0) := by
  obtain ⟨hlt, -⟩ := List.getElem?_eq_some_iff.mp hi
  obtain ⟨hdrop, -⟩ := a.code_at_place hlt.le
  obtain ⟨-, hnext⟩ := a.code_at_place (k := k + 1) hlt
  have hget : (a.resolved a.places)[k]? = some (i.instruction.resolve (a.target a.places)) := by
    simp [Assembly.resolved, hi]
  have hfits := (Instruction.fits_of_arity hr.fits).resolve (a.target a.places)
  have hnarrow : ∀ x ∈ (i.instruction.resolve (a.target a.places)).args, x < twoTo 32 := by
    intro x hx
    obtain ⟨⟨kind, n⟩, ho, rfl⟩ := List.mem_map.mp hx
    dsimp only
    split
    · exact (a.target_le_length_code _).trans_lt hsize
    · rename_i hne
      exact (hr.narrow _ ho).resolve_left hne
  obtain ⟨hk', hget'⟩ := List.getElem?_eq_some_iff.mp hget
  rw [List.drop_eq_getElem_cons hk', List.flatMap_cons, hget'] at hdrop
  unfold fetch
  rw [hcode, hdrop]
  have hdecode := Instruction.decode_encode hfits hnarrow (a.places.getD k 0)
    (((a.resolved a.places).drop (k + 1)).flatMap Instruction.encode)
  simp only [Instruction.encode, List.cons_append] at hdecode ⊢
  simp only [hdecode, ← hnext, Nat.add_sub_cancel]

/-! ### Results of calls -/

/-- A result of the machine is that of the source, up to the bits of NaNs. -/
def Answers : Except RunFault Value → Except ValueError Value → Prop
  | .ok w, .ok v => w.Alike v
  | .error (.operation e'), .error e => e' = e
  | _, _ => False

/-- The calls of a function have the results that its source has: each result of one is a result of the
other, so if one goes on forever so does the other. -/
structure Function.Implements (fn : Function) (cs : List Value) (f : Func) (args : List Value) : Prop where
  complete : ∀ n e, f.eval args n = some e → ∃ k r, fn.run cs args k = some r ∧ Answers r e
  sound : ∀ k r, fn.run cs args k = some r → ∃ n e, f.eval args n = some e ∧ Answers r e

/-- The numbers in the code of a function have 32 bits. -/
structure Function.Addressable (fn : Function) (cs : List Value) : Prop where
  code : fn.code.length < 2 ^ 32
  params : fn.params.length ≤ Address.limit
  locals : fn.locals.length ≤ Address.limit
  temps : fn.maxTemps.toNat ≤ Address.limit
  constants : cs.length ≤ Address.limit

namespace Image

variable {cs : List Value} {I : Image cs} {c c₁ : Config} {fuel : Nat}

/-- The machine has a result, or it goes on for as long as loops may be repeated. -/
def Yields (I : Image cs) (fuel : Nat) (c : Config) (r : Option (Except ValueError Value)) : Prop :=
  match r with
  | some e => ∃ r, I.machine.Stops c r ∧ Answers r e
  | none => I.machine.Lasts fuel c

theorem Yields.of_reaches {r : Option (Except ValueError Value)} (h : I.Yields fuel c₁ r)
    (hc : I.machine.Reaches c c₁) : I.Yields fuel c r := by
  cases r with
  | some e =>
    obtain ⟨r, hr, ha⟩ := h
    exact ⟨r, hc.stops hr, ha⟩
  | none => exact hc.lasts h

/-- What follows the parameters. -/
theorem Evaluates.yields {r : Except ValueError Env} {Q : Env → Config → Prop}
    {k : Env → Option (Except ValueError Value)} (hk : ∀ ρ c', Q ρ c' → I.Yields fuel c' (k ρ)) :
    I.Evaluates c r Q → I.Yields fuel c (match r with
      | .error e => some (.error e)
      | .ok ρ => k ρ) := by
  intro h
  cases r with
  | error e => exact ⟨_, h, rfl⟩
  | ok ρ =>
    obtain ⟨c', hc, hQ⟩ := h
    exact (hk ρ c' hQ).of_reaches hc

/-- A body that does not go on to what follows. -/
theorem Behaves.yields {d : Nat} {pcs : Nat → Prop} {o : Ending} (h : I.Behaves d none pcs fuel c o)
    (ho : o.goesOn = false) : I.Yields fuel c o.result := by
  cases o with
  | next ρ => cases ho
  | broke ρ | continued ρ =>
    obtain ⟨c', -, l, hl, -⟩ := h
    cases hl
  | returned v =>
    obtain ⟨w, hw, hv⟩ := h
    exact ⟨_, hw, hv⟩
  | failed e => exact ⟨_, h, rfl⟩
  | exhausted => exact h

end Image

/-- A function that yields what its source does implements it. -/
theorem Function.implements_of_yields {cs : List Value} {fn : Function} {f : Func} {args : List Value}
    (hcount : fn.minArgs ≤ args.length ∧ (args.length : Int) ≤ fn.maxArgs) (I : Image cs)
    (hI : I.machine = ⟨fn, cs, args.length⟩)
    (h : ∀ fuel, I.Yields fuel ⟨0, fn.memory args⟩ (f.eval args fuel)) : fn.Implements cs f args := by
  have hrun : ∀ n, fn.run cs args n = I.machine.runFrom n ⟨0, fn.memory args⟩ := by
    intro n
    unfold Function.run
    rw [if_neg (by simp; omega), hI]
  refine ⟨fun n e he => ?_, fun k r hr => ?_⟩
  · have hy := h n
    rw [he] at hy
    obtain ⟨r, hs, ha⟩ := hy
    obtain ⟨k, hk⟩ := hs.runFrom
    exact ⟨k, r, (hrun k).trans hk, ha⟩
  · rw [hrun] at hr
    have hy := h k
    cases he : f.eval args k with
    | none =>
      rw [he] at hy
      have hlasts : I.machine.runFrom k ⟨0, fn.memory args⟩ = none := hy
      rw [hr] at hlasts
      cases hlasts
    | some e =>
      rw [he] at hy
      obtain ⟨r', hs, ha⟩ := hy
      obtain rfl := hs.eq_of_runFrom hr
      exact ⟨k, e, he, ha⟩

namespace Lower

variable {cs : List Value} {ctx : LowerContext} {s s₁ s₂ : Lowering}

/-- The body of a function and the return behind it. -/
theorem body_performs {b : Block} (hp : b.Plain (ctx.session.noteAt ctx.unit))
    (ht : ∀ v ∈ b.constants, Pool.Told cs v) (hd : b.declared.Nodup) (hs : s.Ready)
    (hl : s.Lacks b.declared) {β : Type} {rest : Lower β} {Q : β → Lowering → Prop}
    (hrest : ∀ s', Performed cs b.declared s s' s.loops.head? (fun fuel ρ =>
      (b.eval fuel ρ).andThen fun _ => .returned .nil) → Ends rest ctx s' Q) :
    Ends (do
      block b
      if !b.returns then returnNil
      rest) ctx s Q := by
  refine (block_performs hp ht hd s hs hl).bind fun _ s₁ h₁ => ?_
  dsimp only
  split
  · have hnil : Performs cs ctx returnNil [] fun _ _ => .returned .nil := returnNil_performs
    refine (hnil s₁ h₁.ready fun _ h => by cases h).bind fun _ s₂ h₂ => hrest s₂ ?_
    have hloops : s₁.loops = s.loops := congrArg Nesting.loops h₁.nesting
    rw [hloops] at h₂
    simpa using h₁.andThen h₂
  · rename_i hr
    have hr : b.returns = true := by simpa using hr
    refine hrest s₁ ?_
    have heq : (fun fuel ρ => (b.eval fuel ρ).andThen fun _ => .returned .nil) =
        fun fuel ρ => b.eval fuel ρ := by
      funext fuel ρ
      have hgo := Block.goesOn_eval hr fuel ρ
      cases he : b.eval fuel ρ with
      | next ρ' =>
        rw [he] at hgo
        cases hgo
      | _ => rfl
    rw [heq]
    exact h₁

end Lower

end GameScript
