import GameScript.Proofs.Running.Functions

/-!
# Calls of functions

A call begins with the arguments in the variables of the parameters (`Image.holds_memory`). It enters the
code behind the defaults of the parameters that have an argument (`Opened`), and the code of the body
follows. So the code that is lowered for a plain function has the results of the function:
`Lower.func_realizes`.
-/

namespace GameScript

namespace Image

variable {cs : List Value} {I : Image cs}

/-- At the start of a call, parameters have their arguments and everything else is null. -/
theorem holds_memory {ps : List Param} (hd : (ps.map (·.name.pos)).Nodup)
    (hparams : I.machine.function.params.length = ps.length)
    (hvars : ∀ q a, I.vars.get? q = some a →
      (∃ j p, ps[j]? = some p ∧ q = p.name.pos ∧ a.mode = .parameter ∧ a.index = j) ∨
      (q ∉ ps.map (·.name.pos) ∧ a.mode = .localVar ∧ a.index < I.machine.function.locals.length))
    (args : List Value) :
    I.Holds (Param.give ps args .empty) (I.machine.function.memory args) := by
  refine ⟨fun q a ha => ?_, by simp [Function.memory]⟩
  rw [Machine.load_encode]
  rcases hvars q a ha with ⟨j, p, hp, rfl, hmode, rfl⟩ | ⟨hq, hmode, hlt⟩
  · have hlt : a.index < ps.length := (List.getElem?_eq_some_iff.mp hp).1
    rw [hmode, Param.give_name hd hp]
    show ∃ v, ((args ++ List.replicate _ Value.nil).take _)[a.index]? = some v ∧ _
    rw [hparams, List.getElem?_take_of_lt hlt]
    by_cases hargs : a.index < args.length
    · rw [List.getElem?_append_left hargs]
      exact ⟨args[a.index], List.getElem?_eq_getElem hargs,
        by simp [List.getElem?_eq_getElem hargs, Value.Alike]⟩
    · rw [List.getElem?_append_right (by omega)]
      refine ⟨.nil, by rw [List.getElem?_replicate, if_pos (by omega)], ?_⟩
      rw [List.getElem?_eq_none (by omega)]
      rfl
  · rw [hmode, Param.give_of_not_mem hq]
    exact ⟨.nil, by simp [Function.memory, hlt], rfl⟩

end Image

namespace Lower

variable {cs : List Value} {ctx : LowerContext} {s s₁ s₂ : Lowering}

theorem finish_ends (f : Function) (entries : List Nat) :
    Ends (finish f entries) ctx s fun fn s' => s' = s ∧ fn = { f with
      script := some ctx.scriptIndex
      code := s.gen.assembly.machineCode.code
      lines := s.gen.assembly.machineCode.lines
      params := s.params
      locals := s.locals
      entries := entries.map fun l => s.gen.assembly.machineCode.labels.getD l 0
      maxTemps := s.gen.maxTemps
      allocated := s.gen.allocated
      released := s.gen.released } := by
  unfold finish Ends
  rw [after_bind, after_current]
  dsimp only
  split
  · trivial
  · rw [after_bind, after_lift]
    unfold Gen.machineCode
    rw [Gen.after_bind, Gen.after_get]
    split
    · trivial
    · dsimp only
      split
      · trivial
      · exact ⟨rfl, rfl⟩

end Lower

theorem Assembly.places_head (a : Assembly) : a.places.getD 0 0 = 0 := by
  rw [places_eq_starts]
  cases a.sizes a.places <;> rfl

/-- The table of labels holds the place of each label. -/
theorem Assembly.getD_labels (a : Assembly) (l : Nat) :
    a.machineCode.labels.getD l 0 = a.target a.places l := by
  show ((List.range a.binds.length).map (a.target a.places)).getD l 0 = _
  by_cases hl : l < a.binds.length
  · simp [List.getD_eq_getElem?_getD, hl]
  · simp [List.getD_eq_getElem?_getD, hl, Assembly.target]

/-- The image of a function whose lowering has ended in a state. -/
def Lowering.image (s : Lowering) (hs : s.Ready) {fn : Function} {cs : List Value} (arguments : Nat)
    (hcode : fn.code = s.gen.assembly.machineCode.code) (hparams : fn.params = s.params)
    (hlocals : fn.locals = s.locals) (hsmall : fn.Addressable cs) : Image cs where
  machine := ⟨fn, cs, arguments⟩
  constants := rfl
  assembly := s.gen.assembly
  vars := s.vars
  fetch k i hi hr := Machine.fetch_place hcode (hcode ▸ hsmall.code) hi hr
  modes p a ha := hs.placed.mode ha
  few p a ha := by
    have h₁ := hsmall.params
    have h₂ := hsmall.locals
    rw [hparams] at h₁
    rw [hlocals] at h₂
    rcases hs.placed.inside p a ha with ⟨-, h⟩ | ⟨-, h⟩
    · exact h.trans_le h₁
    · exact h.trans_le h₂
  fewConstants := hsmall.constants
  fewTemps := hsmall.temps
  distinct := hs.placed.distinct

/-- A function of a program is the code of a function of the source, and its calls have the same
results. -/
structure Function.Realizes (fn : Function) (cs : List Value) (f : Func) (name : Text) : Prop where
  name : fn.name = name
  place : fn.place = .ofPos f.pos
  minArgs : fn.minArgs = (f.params.filter (·.default.isNone)).length
  maxArgs : fn.maxArgs = f.params.length
  implements : fn.Addressable cs → ∀ args : List Value, fn.minArgs ≤ args.length →
    (args.length : Int) ≤ fn.maxArgs → fn.Implements cs f args

namespace Lower

variable {cs : List Value} {ctx : LowerContext} {s s₁ s₂ : Lowering}

theorem separately_ends {name : Text} {property : Option Text} {line : Int} {x : Lower Function}
    {Q : Nat → Lowering → Prop}
    (h : Ends x { ctx with function := name, property } { gen := { pool := s.gen.pool, line } }
      fun f inner => Q inner.gen.pool.functions.length
        { s with gen := { s.gen with pool := (inner.gen.pool.add f).2 } }) :
    Ends (separately name property line x) ctx s Q := by
  unfold Ends After at h ⊢
  unfold separately
  split at h
  · rename_i f inner heq
    rw [heq]
    exact h
  · rename_i heq
    rw [heq]
    trivial

/-! ### Entering a function -/

/-- The code between `s` and `s'` gives the parameters without an argument their defaults. It uses the
entries of the function, which are at the labels `ls`. -/
structure Opened (cs : List Value) (ps : List Param) (s s' : Lowering) (ls : List Nat) : Prop where
  grows : Grows [] s s'
  ready : s'.Ready
  nesting : s'.nesting = s.nesting
  runs : ∀ (I : Image cs) (m : Memory) (ρ : Env), I.Includes s' → I.Holds ρ m →
    I.machine.function.entries = ls.map I.label →
    I.machine.function.minArgs = (ps.filter (·.default.isNone)).length →
    (ps.filter (·.default.isNone)).length ≤ I.machine.arguments → I.machine.arguments ≤ ps.length →
    I.Evaluates (I.here s m) (Param.bindAll (ps.drop I.machine.arguments) [] ρ)
      fun ρ' c => ∃ m', c = I.here s' m' ∧ I.Holds ρ' m'

theorem opened_of_no_defaults {ps : List Param} (hs : s.Ready)
    (hmin : ¬ (ps.filter (·.default.isNone)).length < ps.length) : Opened cs ps s s [] := by
  refine ⟨.refl s, hs, rfl, fun I m ρ _ hm _ _ hle hge => ?_⟩
  rw [List.drop_eq_nil_of_le (by omega)]
  exact Image.evaluates_ok ⟨m, rfl, hm⟩

theorem defaults_append {ps qs : List Param} (h : ∀ p ∈ ps, p.default = none) :
    defaults (ps ++ qs) = defaults qs := by
  induction ps with
  | nil => rfl
  | cons p ps ih =>
    obtain ⟨id, spec, infer, default⟩ := p
    obtain rfl : default = none := h _ List.mem_cons_self
    rw [List.cons_append, defaults]
    exact ih fun p hp => h p (List.mem_cons_of_mem _ hp)

/-- The entries of a function with optional parameters: one for each of them, and one behind. -/
theorem opening_ends {notes : Pos → Note} {ps : List Param} (hlast : Param.OptionalLast ps)
    (hp : ∀ p ∈ ps, p.Plain notes)
    (ht : ∀ p ∈ ps, ∀ x, p.default = some x → ∀ v ∈ x.constants, Pool.Told cs v) (hs : s.Ready)
    (hfound : ∀ p ∈ ps, ∃ b, s.vars.get? p.name.pos = some b ∧ b.type = (notes p.name.pos).type)
    {β : Type} {rest : List Nat → Lower β} {Q : β → Lowering → Prop}
    (hrest : ∀ ls s', Opened cs ps s s' ls → Ends (rest ls) ctx s' Q) :
    Ends (do
      Gen.emit .jumpToDefArgument []
      let starts ← defaults ps
      let l ← entry
      let ls ← pure (starts ++ [l])
      rest ls) ctx s Q := by
  let min := (ps.filter (·.default.isNone)).length
  have hsplit : defaults ps = defaults (ps.drop min) := by
    conv_lhs => rw [← List.take_append_drop min ps]
    exact defaults_append hlast.take
  have hmem : ∀ p ∈ ps.drop min, p ∈ ps := fun p h => List.mem_of_mem_drop h
  rw [hsplit]
  refine (emit_adds hs _ _).bind fun _ s₁ h₁ => ?_
  refine (defaults_ends (ps.drop min) hlast.drop (fun p h => hp p (hmem p h))
    (fun p h => ht p (hmem p h)) h₁.ready fun p h => ?_).bind fun starts s₂ h₂ => ?_
  · obtain ⟨b, hb, hbt⟩ := hfound p (hmem p h)
    exact ⟨b, h₁.grows.vars _ _ hb, hbt⟩
  refine (entry_ends h₂.ready).bind fun l s₃ h₃ => ?_
  obtain ⟨h₃, hl⟩ := h₃
  rw [pure_bind]
  refine hrest _ s₃ ?_
  refine ⟨h₁.grows.then (h₂.grows.then h₃.grows), h₃.ready, ?_,
    fun I m ρ hi hm hentries hminArgs hle hge => ?_⟩
  · rw [h₃.nesting, h₂.nesting, h₁.nesting]
  have hi₂ := hi.of_grows h₃.grows
  have hi₁ := hi₂.of_grows h₂.grows
  have hlen : starts.length = ps.length - min := by rw [h₂.length, List.length_drop]
  have hj : ((I.machine.arguments : Int) - I.machine.function.minArgs).toNat =
      I.machine.arguments - min := by
    rw [hminArgs]
    omega
  have hstep : I.machine.step (I.here s m) = Machine.withSome
      (((starts ++ [l]).map I.label)[I.machine.arguments - min]?) fun pc => .next ⟨pc, m⟩ := by
    rw [← hentries, ← hj]
    exact Image.step_of_adds h₁ hi₁ ⟨rfl, by simp [Instruction.operands, Instruction.operandsFrom]⟩
  rw [List.getElem?_map] at hstep
  have hend : ∀ m', I.here s₂ m' = I.here s₃ m' := fun m' => (Image.here_of_adds h₃ m').symm
  rcases Nat.lt_or_ge (I.machine.arguments - min) starts.length with hlt | hge'
  · rw [List.getElem?_append_left hlt, List.getElem?_eq_getElem hlt] at hstep
    have hrun := h₂.entry I m ρ _ _ hi₂ hm (List.getElem?_eq_getElem hlt)
    rw [List.drop_drop, Nat.add_sub_cancel' hle] at hrun
    refine (hrun.of_reaches (.single hstep)).mono fun ρ' c hc => ?_
    obtain ⟨m', rfl, hm'⟩ := hc
    exact ⟨m', hend m', hm'⟩
  · have hall : I.machine.arguments - min = starts.length := by omega
    rw [hall, List.getElem?_append_right le_rfl, Nat.sub_self] at hstep
    rw [List.drop_eq_nil_of_le (by omega)]
    refine ⟨_, .single hstep, m, ?_, hm⟩
    rw [← hend, here_eq_label hi hl]

/-! ### Functions -/

/-- What follows the entries of a function. -/
theorem realizes_of_finish {f : Func} {name : Text} {fn : Function} {s₀ s₃ : Lowering} {ls : List Nat}
    {notes : Pos → Note} (hd : (f.params.map (·.name.pos) ++ f.body.declared).Nodup)
    (hfresh : s₀.params = [] ∧ s₀.vars.entries = [] ∧ s₀.gen.instructions = [] ∧ s₀.loops = [])
    (h₁ : Received notes f.params s₀ s₁) (h₂ : Opened cs f.params s₁ s₂ ls)
    (h₃ : Performed cs f.body.declared s₂ s₃ s₂.loops.head? fun fuel ρ =>
      (f.body.eval fuel ρ).andThen fun _ => .returned .nil)
    (hcode : fn.code = s₃.gen.assembly.machineCode.code) (hparams : fn.params = s₃.params)
    (hlocals : fn.locals = s₃.locals) (htemps : fn.maxTemps = s₃.gen.maxTemps)
    (hentries : fn.entries = ls.map fun l => s₃.gen.assembly.machineCode.labels.getD l 0)
    (hname : fn.name = name) (hplace : fn.place = .ofPos f.pos)
    (hmin : fn.minArgs = (f.params.filter (·.default.isNone)).length)
    (hmax : fn.maxArgs = f.params.length)
    (hconstants : s₃.gen.pool.constants.map Prod.snd <+: cs) : fn.Realizes cs f name := by
  refine ⟨hname, hplace, hmin, hmax, fun hsmall args hle hge => ?_⟩
  let I : Image cs := s₃.image h₃.ready args.length hcode hparams hlocals hsmall
  have hi : I.Includes s₃ := by
    refine ⟨List.prefix_refl _, fun _ _ h => h, hconstants, ?_, fun _ _ h => h⟩
    show s₃.gen.maxTemps ≤ fn.maxTemps.toNat
    rw [htemps]
    simp
  have hi₂ := hi.of_grows h₃.grows
  rw [List.nodup_append] at hd
  obtain ⟨hdparams, -, hdisjoint⟩ := hd
  have hgrows := h₃.grows.after h₂.grows
  have hlen : fn.params.length = f.params.length := by
    rw [hparams, hgrows.params, h₁.params, hfresh.1]
    simp
  have hvars : ∀ q a, I.vars.get? q = some a →
      (∃ j p, f.params[j]? = some p ∧ q = p.name.pos ∧ a.mode = .parameter ∧ a.index = j) ∨
      (q ∉ f.params.map (·.name.pos) ∧ a.mode = .localVar ∧ a.index < fn.locals.length) := by
    intro q a ha
    have hfound : ∀ j p, f.params[j]? = some p →
        ∃ t, s₃.vars.get? p.name.pos = some ⟨.parameter, j, t⟩ := by
      intro j p hp
      have hget := hgrows.vars _ _ (h₁.found j p hp)
      rw [hfresh.1, List.length_nil, Nat.zero_add] at hget
      exact ⟨_, hget⟩
    by_cases hq : q ∈ f.params.map (·.name.pos)
    · obtain ⟨p, hp, rfl⟩ := List.mem_map.mp hq
      obtain ⟨j, hj⟩ := List.mem_iff_getElem?.mp hp
      obtain ⟨t, ht⟩ := hfound j p hj
      obtain rfl : a = ⟨.parameter, j, t⟩ := Option.some.inj (ha.symm.trans ht)
      exact .inl ⟨j, p, hj, rfl, rfl, rfl⟩
    · refine .inr ⟨hq, ?_⟩
      rcases h₃.ready.placed.inside q a ha with ⟨hmode, hlt⟩ | ⟨hmode, hlt⟩
      · -- the place of a parameter is taken by the parameter
        have hlt' : a.index < f.params.length := by rwa [← hlen, hparams]
        obtain ⟨t, ht⟩ := hfound a.index _ (List.getElem?_eq_getElem hlt')
        have heq := h₃.ready.placed.distinct q _ a _ ha ht hmode rfl
        exact absurd (heq ▸ List.mem_map_of_mem (List.getElem_mem hlt')) hq
      · exact ⟨hmode, hlocals ▸ hlt⟩
  have hm : I.Holds (Param.give f.params args .empty) (fn.memory args) :=
    Image.holds_memory hdparams hlen hvars args
  have hstart : ∀ m, I.here s₁ m = ⟨0, m⟩ := by
    intro m
    unfold Image.here Image.place
    rw [h₁.gen, hfresh.2.2.1]
    exact congrArg (Config.mk · m) (Assembly.places_head _)
  have hopen := h₂.runs I _ _ hi₂ hm (hentries.trans (by simp only [Assembly.getD_labels]; rfl)) hmin
    (by rw [hmin] at hle; exact_mod_cast hle) (by rw [hmax] at hge; exact_mod_cast hge)
  rw [hstart] at hopen
  refine Function.implements_of_yields ⟨hle, hge⟩ I rfl fun fuel => ?_
  unfold Func.eval
  rw [Param.bindAll_eq_give]
  refine Image.Evaluates.yields ?_ hopen
  rintro ρ _ ⟨m, rfl, hm⟩
  have hrun := h₃.runs I fuel m ρ hi hm
  have hloops : s₂.loops = [] := (congrArg Nesting.loops h₂.nesting).trans (h₁.loops.trans hfresh.2.2.2)
  rw [hloops] at hrun
  have hyields := hrun.yields (Ending.goesOn_andThen (.inr fun _ => rfl))
  have hresult : ((f.body.eval fuel ρ).andThen fun _ => .returned .nil).result =
      (f.body.eval fuel ρ).result := by
    cases f.body.eval fuel ρ <;> rfl
  rwa [hresult] at hyields

theorem returnType_ends (t : StaticType) : Ends (returnType t) ctx s fun _ s' => s' = s := by
  unfold returnType Ends
  split
  · simp only [after_bind, after_types, after_pure]
  · rw [after_bind, after_current]
    split <;> exact rfl

/-- The body of a function and its end, after its entries. -/
theorem body_realizes {f : Func} {name : Text} {s₀ : Lowering} {ls : List Nat} {notes : Pos → Note}
    {g : RuntimeType → Function} (t : StaticType) (hnotes : notes = ctx.session.noteAt ctx.unit)
    (hp : f.Plain notes) (ht : ∀ v ∈ f.constants, Pool.Told cs v)
    (hfresh : s₀.params = [] ∧ s₀.vars.entries = [] ∧ s₀.gen.instructions = [] ∧ s₀.loops = [])
    (h₁ : Received notes f.params s₀ s₁) (h₂ : Opened cs f.params s₁ s₂ ls)
    (hg : ∀ r, (g r).name = name ∧ (g r).place = .ofPos f.pos ∧
      (g r).minArgs = (f.params.filter (·.default.isNone)).length ∧ (g r).maxArgs = f.params.length) :
    Ends (do
      block f.body
      if !f.body.returns then returnNil
      finish (g (← returnType t)) ls) ctx s₂ fun fn s' =>
        s'.gen.pool.constants.map Prod.snd <+: cs → fn.Realizes cs f name := by
  subst hnotes
  have hd := List.nodup_append.mp hp.declared
  have hlacks : s₂.Lacks f.body.declared := by
    refine h₂.grows.lacks (fun q hq => ?_) (by simp)
    rw [h₁.vars q fun hq' => hd.2.2 q hq' q hq rfl, Table.get?, hfresh.2.1]
    rfl
  refine body_performs hp.body (fun v hv => ht v (by simp [Func.constants, hv])) hd.2.1 h₂.ready hlacks
    fun s₃ h₃ => ?_
  refine (returnType_ends t).bind fun r s₄ hs₄ => ?_
  subst hs₄
  refine (finish_ends (g r) ls).post fun fn s₅ ⟨hs₅, hfn⟩ hconstants => ?_
  subst hs₅ hfn
  obtain ⟨hname, hplace, hmin, hmax⟩ := hg r
  exact realizes_of_finish hp.declared hfresh h₁ h₂ h₃ rfl rfl rfl rfl rfl hname hplace hmin hmax
    hconstants

/-- The steps of lowering a function. -/
theorem func_eq (f : Func) (name : Text) (captures : List Ident) : func f name captures = (do
    let n ← note f.anchor
    separately name f.role.property? f.pos.line do
      addParams captures f.params
      let min := (f.params.filter (·.default.isNone)).length
      let starts ← if min < f.params.length then do
          Gen.emit .jumpToDefArgument []
          let starts ← defaults f.params
          pure (starts ++ [← entry])
        else pure []
      block f.body
      if !f.body.returns then returnNil
      finish {
        name
        place := .ofPos f.pos
        isStatic := f.isStatic
        isCoroutine := n.isCoroutine
        captures := captures.length
        minArgs := min
        maxArgs := f.params.length
        returns := ← returnType n.type } starts) := by
  cases f
  rw [func]

/-- **The code of a plain function has the results of the function**, in every program whose constants
begin with those of the pool. -/
theorem func_realizes {f : Func} {name : Text} (hp : f.Plain (ctx.session.noteAt ctx.unit))
    (ht : ∀ v ∈ f.constants, Pool.Told cs v)
    (hkeyed : s.gen.pool.Keyed) :
    Ends (func f name []) ctx s fun n s' => s'.gen.pool.constants.map Prod.snd <+: cs →
      ∃ fn, s'.gen.pool.functions[n]? = some fn ∧ fn.Realizes cs f name := by
  have hfresh : Lowering.Ready { gen := { pool := s.gen.pool, line := f.pos.line } } :=
    ⟨le_rfl, hkeyed, by simp [Table.get?], by simp [Table.get?]⟩
  have hdefaults : ∀ p ∈ f.params, ∀ x, p.default = some x → ∀ v ∈ x.constants, Pool.Told cs v := by
    intro p hp x hx v hv
    refine ht v (List.mem_append_left _ (List.mem_flatMap.mpr ⟨p, hp, ?_⟩))
    rw [hx]
    exact hv
  rw [func_eq, Ends, after_bind, after_note]
  refine separately_ends (Ends.post (Q := fun fn s' => s'.gen.pool.constants.map Prod.snd <+: cs →
    fn.Realizes cs f name) ?_ fun fn inner h hc => ⟨fn, by simp [Pool.add], h hc⟩)
  refine (addParams_ends f.params hfresh (List.nodup_append.mp hp.declared).1).bind fun _ s₁ h₁ => ?_
  have hfound : ∀ p ∈ f.params, ∃ b, s₁.vars.get? p.name.pos = some b ∧
      b.type = (ctx.session.noteAt ctx.unit p.name.pos).type := by
    intro p hp
    obtain ⟨j, hj⟩ := List.mem_iff_getElem?.mp hp
    exact ⟨_, h₁.found j p hj, rfl⟩
  dsimp only
  split
  · refine opening_ends hp.optionalLast hp.params hdefaults h₁.ready hfound fun ls s₂ h₂ => ?_
    exact body_realizes _ rfl hp ht ⟨rfl, rfl, rfl, rfl⟩ h₁ h₂ fun _ => ⟨rfl, rfl, rfl, rfl⟩
  · rename_i hmin
    exact body_realizes _ rfl hp ht ⟨rfl, rfl, rfl, rfl⟩ h₁ (opened_of_no_defaults h₁.ready hmin)
      fun _ => ⟨rfl, rfl, rfl, rfl⟩

end Lower

end GameScript
