import GameScript.Proofs.Running.Values

/-!
# Code of statements

The code of a statement does what the statement does (`Performed`): it goes on behind the statement or
where the loop around says, it ends the call, or, where a loop is repeated more often than `fuel` allows,
it goes on for `fuel` steps.
-/

namespace GameScript

namespace Image

variable {cs : List Value} {I : Image cs} {d e : Nat} {m m₁ : Memory} {pc : Nat} {ρ : Env} {c : Config}

/-- The machine is at `pc`, its variables have the values of `ρ`, and the temporaries below `d` are those
of `m`. -/
def Arrives (I : Image cs) (d : Nat) (m : Memory) (pc : Nat) (ρ : Env) (c : Config) : Prop :=
  ∃ m', c = ⟨pc, m'⟩ ∧ Memory.Agree d m m' ∧ I.Holds ρ m'

theorem Arrives.of_agree (h : I.Arrives d m₁ pc ρ c) (hm : Memory.Agree d m m₁) :
    I.Arrives d m pc ρ c := by
  obtain ⟨m', hc, hm', hρ⟩ := h
  exact ⟨m', hc, hm.trans hm', hρ⟩

theorem Arrives.mono (h : I.Arrives e m pc ρ c) (hd : d ≤ e) : I.Arrives d m pc ρ c := by
  obtain ⟨m', hc, hm, hρ⟩ := h
  exact ⟨m', hc, hm.mono hd, hρ⟩

theorem Reads.agree {a : Address} {v : Value} (h : I.Reads m a v) (hm : Memory.Agree d m m₁)
    (ha : a.mode = .temporary) (hlt : a.index < d) : I.Reads m₁ a v := by
  obtain ⟨hnarrow, w, hw, hv⟩ := h
  refine ⟨hnarrow, w, ?_, hv⟩
  rw [Machine.load_encode, ha] at hw ⊢
  exact (hm.temps _ hlt).trans hw

/-- Where a jump of a loop leads to. -/
def Leaves (I : Image cs) (d : Nat) (m : Memory) (loop : Option LoopLabels) (target : LoopLabels → Nat)
    (ρ : Env) (c : Config) : Prop :=
  ∃ l, loop = some l ∧ I.Arrives d m (I.label (target l)) ρ c

theorem Leaves.of_agree {loop : Option LoopLabels} {target : LoopLabels → Nat}
    (h : I.Leaves d m₁ loop target ρ c) (hm : Memory.Agree d m m₁) : I.Leaves d m loop target ρ c := by
  obtain ⟨l, hl, hc⟩ := h
  exact ⟨l, hl, hc.of_agree hm⟩

theorem Leaves.mono {loop : Option LoopLabels} {target : LoopLabels → Nat}
    (h : I.Leaves e m loop target ρ c) (hd : d ≤ e) : I.Leaves d m loop target ρ c := by
  obtain ⟨l, hl, hc⟩ := h
  exact ⟨l, hl, hc.mono hd⟩

/-- The place of the next instruction of a state. -/
def front (I : Image cs) (s : Lowering) : Nat := I.place s.gen.instructions.length

theorem front_of_adds {I : Image cs} {s s' : Lowering} {k : Nesting} (h : Adds s [] k s') :
    I.front s' = I.front s := congrArg Config.pc (here_of_adds h default)

/-- The machine does what a statement inside of a loop does; behind the statement it is at a place of
`pcs`. -/
def Behaves (I : Image cs) (d : Nat) (loop : Option LoopLabels) (pcs : Nat → Prop) (fuel : Nat) (c : Config)
    (o : Ending) : Prop :=
  I.Follows fuel c o (fun ρ c' => ∃ pc, pcs pc ∧ I.Arrives d c.memory pc ρ c')
    (I.Leaves d c.memory loop LoopLabels.exit) (I.Leaves d c.memory loop LoopLabels.next)

section Behaves

variable {loop : Option LoopLabels} {pcs pcs' : Nat → Prop} {fuel : Nat} {c₁ : Config} {o : Ending}

theorem behaves_next {s : Lowering} (hρ : I.Holds ρ m) :
    I.Behaves d loop (· = I.front s) fuel (I.here s m) (.next ρ) :=
  follows_next ⟨_, rfl, m, rfl, .refl d _, hρ⟩

theorem Behaves.follows (h : I.Behaves d loop pcs fuel c o) (hm : Memory.Agree d m c.memory) :
    I.Follows fuel c o (fun ρ c' => ∃ pc, pcs pc ∧ I.Arrives d m pc ρ c')
      (I.Leaves d m loop LoopLabels.exit) (I.Leaves d m loop LoopLabels.next) := by
  refine Follows.mono h ?_ (fun _ _ hl => hl.of_agree hm) (fun _ _ hl => hl.of_agree hm)
  rintro ρ c' ⟨pc, hpc, ha⟩
  exact ⟨pc, hpc, ha.of_agree hm⟩

theorem Behaves.of_reaches (h : I.Behaves d loop pcs fuel c₁ o) (hc : I.machine.Reaches c c₁)
    (hm : Memory.Agree d c.memory c₁.memory) : I.Behaves d loop pcs fuel c o :=
  (h.follows hm).of_reaches hc

/-- After a step, the machine lasts for one more. -/
theorem Behaves.succ (h : I.Behaves d loop pcs fuel c₁ o) (hc : I.machine.Reaches c c₁)
    (hm : Memory.Agree d c.memory c₁.memory)
    (hl : I.machine.Lasts fuel c₁ → I.machine.Lasts (fuel + 1) c) :
    I.Behaves d loop pcs (fuel + 1) c o := by
  have h' := h.of_reaches hc hm
  cases o with
  | exhausted => exact hl h
  | next ρ | broke ρ | continued ρ | returned v | failed e => exact h'

theorem Behaves.mono (h : I.Behaves e loop pcs fuel c o) (hd : d ≤ e) (hpcs : ∀ pc, pcs pc → pcs' pc) :
    I.Behaves d loop pcs' fuel c o := by
  refine Follows.mono h ?_ (fun _ _ hl => hl.mono hd) (fun _ _ hl => hl.mono hd)
  rintro ρ c' ⟨pc, hpc, ha⟩
  exact ⟨pc, hpcs pc hpc, ha.mono hd⟩

/-- The machine goes on from where a statement leads to. -/
theorem Behaves.reaches (h : I.Behaves d loop pcs fuel c o)
    (hr : ∀ pc m, pcs pc → ∃ pc', pcs' pc' ∧ I.machine.Reaches ⟨pc, m⟩ ⟨pc', m⟩) :
    I.Behaves d loop pcs' fuel c o := by
  unfold Behaves at h ⊢
  cases o with
  | next ρ =>
    obtain ⟨_, h₁, pc, hpc, m', rfl, hm⟩ := h
    obtain ⟨pc', hpc', h₂⟩ := hr pc m' hpc
    exact ⟨_, h₁.trans h₂, pc', hpc', m', rfl, hm⟩
  | broke ρ | continued ρ | returned v | failed e | exhausted => exact h

/-- One statement after another. -/
theorem Behaves.andThen {k : Env → Ending} (h : I.Behaves d loop pcs fuel c o)
    (hk : ∀ pc m ρ, pcs pc → I.Holds ρ m → I.Behaves d loop pcs' fuel ⟨pc, m⟩ (k ρ)) :
    I.Behaves d loop pcs' fuel c (o.andThen k) := by
  refine Follows.andThen h ?_
  rintro ρ c' ⟨pc, hpc, m', rfl, hm, hρ⟩
  exact (hk pc m' ρ hpc hρ).follows hm

/-- What follows a value. -/
theorem Evaluates.behaves {r : Except ValueError Value} {Q : Value → Config → Prop} {k : Value → Ending}
    (h : I.Evaluates c r Q) (hk : ∀ v c', Q v c' → Memory.Agree d c.memory c'.memory ∧
      I.Behaves d loop pcs fuel c' (k v)) : I.Behaves d loop pcs fuel c (.ofValue r k) :=
  h.follows fun v c' hc => (hk v c' hc).2.follows (hk v c' hc).1

end Behaves

end Image

/-- The code between `s` and `s'`, which may be inside of a loop, does what `f` says. -/
structure Performed (cs : List Value) (declared : List Pos) (s s' : Lowering) (loop : Option LoopLabels)
    (f : Nat → Env → Ending) : Prop where
  grows : Grows declared s s'
  ready : s'.Ready
  nesting : s'.nesting = s.nesting
  runs : ∀ (I : Image cs) (fuel : Nat) (m : Memory) (ρ : Env), I.Includes s' → I.Holds ρ m →
    I.Behaves s.gen.temps.length loop (· = I.front s') fuel (I.here s m) (f fuel ρ)

section Performed

variable {cs : List Value} {D D₁ D₂ : List Pos} {s s₁ s₂ : Lowering} {f g : Nat → Env → Ending} {loop : Option LoopLabels}

/-- What adds no code does nothing. -/
theorem performed_of_adds (h : Adds s [] s.nesting s₁) : Performed cs [] s s₁ loop fun _ ρ => .next ρ :=
  ⟨h.grows, h.ready, h.nesting, fun _ _ m _ _ hm =>
    Image.here_of_adds h m ▸ Image.behaves_next hm⟩

theorem Performed.depth_eq (h : Performed cs D s s₁ loop f) :
    s₁.gen.temps.length = s.gen.temps.length := congrArg (List.length ∘ Nesting.temps) h.nesting

theorem Performed.andThen (h₁ : Performed cs D₁ s s₁ loop f) (h₂ : Performed cs D₂ s₁ s₂ loop g) :
    Performed cs (D₁ ++ D₂) s s₂ loop fun fuel ρ => (f fuel ρ).andThen (g fuel) := by
  refine ⟨h₁.grows.trans h₂.grows, h₂.ready, h₂.nesting.trans h₁.nesting, fun I fuel m ρ hi hm => ?_⟩
  refine (h₁.runs I fuel m ρ (hi.of_grows h₂.grows) hm).andThen ?_
  rintro pc m' ρ' rfl hm'
  rw [← h₁.depth_eq]
  exact h₂.runs I fuel m' ρ' hi hm'

end Performed

namespace Lower

variable {cs : List Value} {ctx : LowerContext} {D D₁ D₂ : List Pos} {s s₁ s₂ : Lowering} {x y : Lower Unit}
  {f g : Nat → Env → Ending} {loop : Option LoopLabels}

/-- Code that does what `f` says and declares variables at `declared`. -/
def Performs (cs : List Value) (ctx : LowerContext) (x : Lower Unit) (declared : List Pos) (f : Nat → Env → Ending) : Prop :=
  ∀ s, s.Ready → s.Lacks declared → Ends x ctx s fun _ s' => Performed cs declared s s' s.loops.head? f

theorem Performs.andThen (hx : Performs cs ctx x D₁ f) (hy : Performs cs ctx y D₂ g)
    (hd : ∀ p ∈ D₂, p ∉ D₁) :
    Performs cs ctx (x >>= fun _ => y) (D₁ ++ D₂) fun fuel ρ => (f fuel ρ).andThen (g fuel) := by
  intro s hs hl
  refine (hx s hs fun p hp => hl p (List.mem_append_left _ hp)).bind fun _ s₁ h₁ => ?_
  have hl₁ : s₁.Lacks D₂ := h₁.grows.lacks (fun p hp => hl p (List.mem_append_right _ hp)) hd
  refine (hy s₁ h₁.ready hl₁).post fun _ s₂ h₂ => h₁.andThen ?_
  have hloops : s₁.loops = s.loops := congrArg Nesting.loops h₁.nesting
  rwa [hloops] at h₂

theorem pure_performs : Performs cs ctx (pure ()) [] fun _ ρ => .next ρ := fun _ hs _ => performed_of_adds (.refl hs)

/-! ### Lines and balance -/

theorem setLine_performs {p : Pos} (hp : p.line < twoTo 32) : Performs cs ctx (setLine p) [] fun _ ρ => .next ρ := by
  intro s hs _
  unfold setLine Ends
  rw [after_bind, after_current]
  split
  · rw [after_bind, after_lift]
    have h₁ : Adds s [] s.nesting { s with gen := { s.gen with line := p.line } } :=
      adds_of_gen hs { s.gen with line := p.line } [] (by simp) (fun _ _ h => h) le_rfl rfl le_rfl hs.depth
    rw [Gen.after_setLine, after_bind, after_read]
    split
    · refine (emit_adds h₁.ready _ _).post fun _ s₂ h₂ => ?_
      refine ⟨h₁.grows.then h₂.grows, h₂.ready, h₂.nesting.trans h₁.nesting, fun I fuel m ρ hi hm => ?_⟩
      rw [← Image.here_of_adds h₁ m]
      exact (Image.behaves_next hm).of_reaches (Image.reaches_line h₂ hi hp m) (.refl _ m)
    · exact performed_of_adds h₁
  · exact performed_of_adds (.refl hs)

theorem balanced_ends {Q : Unit → Lowering → Prop} (h : Ends x ctx s Q) : Ends (balanced x) ctx s Q := by
  unfold balanced Ends
  rw [after_bind, after_current]
  refine After.bind h fun _ s₁ h₁ => ?_
  rw [after_bind, after_current]
  dsimp only
  split
  · rw [after_bind]
    trivial
  · exact h₁

theorem balanced_performs (hx : Performs cs ctx x D f) : Performs cs ctx (balanced x) D f :=
  fun s hs hl => balanced_ends (hx s hs hl)

/-! ### Values -/

variable {z : Lower Address} {v w : Env → Except ValueError Value} {p : Pos} {a b dst : Address}

/-- A value that is computed and dropped. -/
theorem release_performs (hz : Computes cs ctx z v) :
    Performs cs ctx (do Gen.release (← z)) [] fun _ ρ => .ofValue (v ρ) fun _ => .next ρ := by
  intro s hs _
  refine (hz s hs).bind fun a s₁ hz => ?_
  refine (release_computed hz (.refl hz.ready)).post fun _ s₂ h₂ => ?_
  refine ⟨hz.grows.then h₂.grows, h₂.ready, h₂.nesting, fun I fuel m ρ hi hm => ?_⟩
  refine (hz.runs I m ρ (hi.of_grows h₂.grows) hm).behaves fun u c ⟨m', hc, hsame, _⟩ => ?_
  subst hc
  rw [← Image.here_of_adds h₂ m']
  exact ⟨hsame.toAgree, Image.behaves_next (hm.same hsame)⟩

theorem returnValue_performs (hz : Computes cs ctx z v) :
    Performs cs ctx (returnValue z) [] fun _ ρ => .ofValue (v ρ) .returned := by
  intro s hs _
  unfold returnValue Ends
  rw [after_bind, after_update]
  have h₁ : Adds s [] s.nesting { s with returnsValue := true } :=
    ⟨⟨List.prefix_refl _, fun _ _ h => h, le_rfl, List.prefix_refl _, le_rfl, le_rfl, rfl,
      fun _ _ h => h, fun _ _ h => .inl h, List.prefix_refl _⟩,
      ⟨hs.depth, hs.keyed, ⟨hs.placed.inside, hs.placed.distinct⟩⟩, by simp [Lowering.code], rfl⟩
  refine Ends.bind (hz _ h₁.ready) fun a s₂ hz => ?_
  refine (emit_adds hz.ready _ _).bind fun _ s₃ h₃ => ?_
  refine (release_computed hz h₃).post fun _ s₄ h₄ => ?_
  refine ⟨h₁.grows.then (hz.grows.then h₄.grows), h₄.ready, h₄.nesting, fun I fuel m ρ hi hm => ?_⟩
  refine (hz.runs I m ρ (hi.of_grows h₄.grows) hm).behaves fun u c hc => ?_
  obtain ⟨m', rfl, hsame, hu⟩ := hc
  exact ⟨hsame.toAgree, Image.stops_return h₄ hi hu⟩

theorem returnNil_performs : Performs cs ctx returnNil [] fun _ _ => .returned .nil := by
  intro s hs _
  refine (emit_adds hs _ _).post fun _ s₁ h₁ => ⟨h₁.grows, h₁.ready, h₁.nesting, fun I fuel m ρ hi hm => ?_⟩
  refine Image.stops_return h₁ hi ⟨by decide, .nil, ?_, rfl⟩
  rw [Machine.load_encode]
  rfl

/-! ### Assignments -/

/-- A value is stored to a variable that has been declared. -/
theorem performed_store (hz : Computed cs s a s₁ v) (hp : s.vars.get? p = some b)
    (hab : dst.encode = b.encode) (h : Adds s₁ [⟨.assign, [dst.encode, a.encode]⟩] s.nesting s₂) :
    Performed cs [] s s₂ loop fun _ ρ => .ofValue (v ρ) fun u => .next (ρ.set p u) := by
  refine ⟨hz.grows.then h.grows, h.ready, h.nesting, fun I fuel m ρ hi hm => ?_⟩
  have hi₁ := hi.of_grows h.grows
  refine (hz.runs I m ρ hi₁ hm).behaves fun u c ⟨m', hc, hsame, hu⟩ => ?_
  subst hc
  have hvar := hi.vars p b (h.grows.vars p b (hz.grows.vars p b hp))
  obtain ⟨m₂, hreach, hm₂, htemps⟩ :=
    Image.reaches_assign_variable h hi (hm.same hsame) hvar hab hu
  refine ⟨hsame.toAgree, (Image.behaves_next hm₂).of_reaches hreach ?_⟩
  show Memory.Agree _ m' m₂
  exact ⟨by rw [htemps], fun i _ => by rw [htemps]⟩

/-- To a place without a type values are stored as they are. -/
theorem assign_adds (hs : s.Ready) (ht : dst.type.Untyped) (src : Address) (converts : Bool) :
    Ends (assign dst src converts) ctx s fun _ s' =>
      Adds s [⟨.assign, [dst.encode, src.encode]⟩] s.nesting s' := by
  unfold assign
  have hplain : (!converts || !dst.type.isHard || dst.type.isVariant) = true := by
    rcases ht with ht | ht <;> simp [ht]
  dsimp only
  rw [if_pos hplain]
  exact emit_adds hs _ _

theorem store_ends (dst : Address) (hz : Computes cs ctx z v) (hs : s.Ready) (hp : s.vars.get? p = some b)
    (hab : dst.encode = b.encode) (ht : dst.type.Untyped) (converts : Bool) :
    Ends (do
      let src ← z
      assign dst src converts
      Gen.release src) ctx s fun _ s' =>
        Performed cs [] s s' loop fun _ ρ => .ofValue (v ρ) fun u => .next (ρ.set p u) := by
  refine (hz s hs).bind fun a s₁ hz => ?_
  refine (assign_adds hz.ready ht a converts).bind fun _ s₂ h₂ => ?_
  exact (release_computed hz h₂).post fun _ s₃ h₃ => performed_store hz hp hab h₃

theorem storedValue_computes (u : StoredValue) (hz : Computes cs ctx z v) (hu : Computes cs ctx u.rhs w) :
    Computes cs ctx (storedValue u z) fun ρ =>
      match u.op with
      | none => w ρ
      | some op => v ρ >>= fun a => w ρ >>= fun b => Value.binary op a b := by
  unfold storedValue
  cases u.op with
  | none => exact hu
  | some op =>
    intro s hs
    refine (addTemporary_adds hs _).bind fun dst s₁ ⟨h₁, hdst⟩ => ?_
    subst hdst
    exact operation_then op (fun _ _ => .inl rfl) hz hu h₁.ready h₁.depth_lt fun s₂ h₂ =>
      computed_temporary h₁ h₂

theorem name_eq_localVar {id : Ident} (h : id.source.isVariable) : name id = localVar id := by
  unfold name
  cases hs : id.source <;> first | rfl | simp [hs, NameSource.isVariable] at h

theorem name_computes {id : Ident} {r : LocalRef} (h : id.source.isVariable)
    (hb : id.binding = .toLocal r) : Computes cs ctx (name id) fun ρ => .ok (ρ r.anchor) :=
  name_eq_localVar h ▸ localVar_computes hb

theorem assignName_performs {id : Ident} {r : LocalRef} {u : StoredValue} (h : id.source.isVariable)
    (hb : id.binding = .toLocal r) (ht : id.info.type.Untyped) (hu : Computes cs ctx u.rhs w) :
    Performs cs ctx (assignName id u) [] fun _ ρ =>
      .ofValue (match u.op with
        | none => w ρ
        | some op => w ρ >>= Value.binary op (ρ r.anchor)) fun v => .next (ρ.set r.anchor v) := by
  intro s hs _
  have hstore : Ends (do
      let dst ← localVar id
      let src ← storedValue u (name id)
      assign dst src u.converts
      Gen.release src) ctx s fun _ s' => Performed cs [] s s' s.loops.head? fun _ ρ =>
        .ofValue (match u.op with
          | none => w ρ
          | some op => w ρ >>= Value.binary op (ρ r.anchor)) fun v => .next (ρ.set r.anchor v) := by
    refine (localVar_ends hb).bind fun dst s₁ ⟨hs₁, b, hget, hdst⟩ => ?_
    subst hs₁ hdst
    exact store_ends { b with type := id.info.type } (storedValue_computes u (name_computes h hb) hu)
      hs hget rfl ht _
  unfold assignName
  cases hs : id.source <;> first | exact hstore | simp [hs, NameSource.isVariable] at h

/-! ### Declarations -/

/-- A state in which the variable at `p` has been given the place `a`, and no code has been added. -/
structure Declared (s s' : Lowering) (p : Pos) (a : Address) : Prop where
  grows : Grows [p] s s'
  ready : s'.Ready
  nesting : s'.nesting = s.nesting
  gen : s'.gen = s.gen
  found : s'.vars.get? p = some a

theorem Declared.performed {s' : Lowering} (h : Declared s s₁ p a) (h₁ : Performed cs [] s₁ s' loop f) :
    Performed cs [p] s s' loop f := by
  refine ⟨h.grows.then h₁.grows, h₁.ready, h₁.nesting.trans h.nesting, fun I fuel m ρ hi hm => ?_⟩
  have hrun := h₁.runs I fuel m ρ hi hm
  unfold Image.here at hrun ⊢
  rwa [h.gen] at hrun

theorem addLocal_ends (hs : s.Ready) (id : Ident) (hl : s.vars.get? id.pos = none) (t : StaticType) :
    Ends (addLocal id t) ctx s fun a s' => a.type = t ∧ Declared s s' id.pos a := by
  unfold addLocal Ends
  simp only [after_bind, after_slotOf, after_current, after_bindVar, after_update, after_pure, true_and]
  refine ⟨⟨List.prefix_refl _, fun _ _ h => h, le_rfl, List.prefix_refl _, le_rfl, by simp, rfl,
    fun q b hq => ?_, fun q b hq => ?_, List.prefix_refl _⟩, ⟨hs.depth, hs.keyed, ?_⟩, rfl, rfl, ?_⟩
  · rw [Table.get?_set, if_neg, hq]
    rintro rfl
    rw [hl] at hq
    cases hq
  · rw [Table.get?_set] at hq
    split at hq
    · rename_i hq'
      exact .inr (by simp [hq'])
    · exact .inl hq
  · exact hs.placed.insert rfl le_rfl (by simp) (.inr ⟨rfl, le_rfl, by simp⟩)
  · rw [Table.get?_set, if_pos rfl]

theorem initVariable_performs {id : Ident} {n : Note} (ht : n.type.Untyped) (hz : Computes cs ctx z v) :
    Performs cs ctx (do initVariable (← addLocal id n.type) n (some z)) [id.pos] fun _ ρ =>
      .ofValue (v ρ) fun u => .next (ρ.set id.pos u) := by
  intro s hs hl
  refine (addLocal_ends hs id (hl id.pos (by simp)) _).bind fun dst s₁ ⟨htype, h₁⟩ => ?_
  have hloops : s₁.loops = s.loops := congrArg Nesting.loops h₁.nesting
  rw [← hloops]
  exact (store_ends dst hz h₁.ready h₁.found rfl (htype ▸ ht) _).post fun _ s₂ h₂ => h₁.performed h₂

/-- The default of a variable without a type is null. -/
theorem storeDefault_eq {dst : Address} {t : StaticType} (ht : t.Untyped) :
    storeDefault dst t = (do Gen.emit .assign [dst.encode, (← Gen.constant .nil).encode]) := by
  unfold storeDefault
  dsimp only
  split
  · rfl
  · rename_i hhard
    have hvariant : t.isVariant = true := ht.resolve_left (by simpa using hhard)
    unfold StaticType.isVariant at hvariant
    split at hvariant
    all_goals simp_all

theorem initDefault_performs {id : Ident} {n : Note} (ht : n.type.Untyped) :
    Performs cs ctx (do initVariable (← addLocal id n.type) n none) [id.pos] fun _ ρ =>
      .next (ρ.set id.pos .nil) := by
  intro s hs hl
  refine (addLocal_ends hs id (hl id.pos (by simp)) _).bind fun dst s₁ ⟨_, h₁⟩ => ?_
  have hloops : s₁.loops = s.loops := congrArg Nesting.loops h₁.nesting
  rw [← hloops]
  show Ends (storeDefault dst n.type) ctx s₁ _
  rw [storeDefault_eq ht]
  refine (constant_found (Pool.told_nil cs) h₁.ready).bind fun a s₂ ⟨h₂, hmode, hreads⟩ => ?_
  refine (emit_adds h₂.ready _ _).post fun _ s₃ h₃ => h₁.performed ?_
  rw [h₂.nesting] at h₃
  exact performed_store (computed_constant h₂ hmode hreads) h₁.found rfl h₃

/-! ### Choices -/

/-- A condition is tested: unless it is true, the code goes on at a label. -/
theorem test_then {β : Type} {rest : Lower β} {Q : β → Lowering → Prop} {l : Nat}
    (hz : Computed cs s a s₁ v) (h₂ : Adds s₁ [] s₁.nesting s₂)
    (hrest : ∀ s', Tested cs s s' true l v → Grows [] s₂ s' → Ends rest ctx s' Q) :
    Ends (do
      Gen.jumpIfNot a l
      Gen.release a
      rest) ctx s₂ Q := by
  refine (emit_adds h₂.ready _ _).bind fun _ s₃ h₃ => ?_
  rw [h₂.nesting] at h₃
  refine (release_computed hz h₃).bind fun _ s₄ h₄ => ?_
  exact hrest s₄ (tested_of_jump hz (h₂.trans h₄)) h₄.grows

theorem Tested.depth_eq {sense : Bool} {l : Nat} (h : Tested cs s s₁ sense l v) :
    s₁.gen.temps.length = s.gen.temps.length := congrArg (List.length ∘ Nesting.temps) h.nesting

/-- What follows a condition, at the place behind it or at its label. -/
theorem Tested.behaves {I : Image cs} {l fuel : Nat} {m : Memory} {ρ : Env} {pcs : Nat → Prop}
    {k : Value → Ending} (h : Tested cs s s₁ true l v) (hi : I.Includes s₁) (hm : I.Holds ρ m)
    (hk : ∀ u m', I.Holds ρ m' → I.Behaves s.gen.temps.length loop pcs fuel
      (if u.truth then I.here s₁ m' else ⟨I.label l, m'⟩) (k u)) :
    I.Behaves s.gen.temps.length loop pcs fuel (I.here s m) (.ofValue (v ρ) k) := by
  refine (h.runs I m ρ hi hm).behaves fun u c ⟨⟨m', hsame, hc⟩, _⟩ => ?_
  subst hc
  refine ⟨?_, hk u m' (hm.same hsame)⟩
  split <;> exact hsame.toAgree

/-- A condition decides which code follows. -/
theorem choose_performs {yes no : Lower Unit} (hz : Computes cs ctx z v) (hy : Performs cs ctx yes D₁ f)
    (hn : Performs cs ctx no D₂ g) (hd : ∀ p ∈ D₂, p ∉ D₁) :
    Performs cs ctx (choose z yes (some no)) (D₁ ++ D₂) fun fuel ρ =>
      .ofValue (v ρ) fun c => if c.truth then f fuel ρ else g fuel ρ := by
  intro s hs hl
  unfold choose
  refine (hz s hs).bind fun a s₁ hz => ?_
  refine (newLabel_adds hz.ready).bind fun otherwise s₂ ⟨h₂, hother⟩ => ?_
  refine test_then hz h₂ fun s₃ hz hg₃ => ?_
  have hl₁ : s₃.Lacks D₁ := hz.grows.lacks (fun p hp => hl p (List.mem_append_left _ hp)) (by simp)
  refine (hy s₃ hz.ready hl₁).bind fun _ s₄ hy => ?_
  refine (newLabel_adds hy.ready).bind fun done s₅ ⟨h₅, hdone⟩ => ?_
  refine (emit_adds h₅.ready _ _).bind fun _ s₆ h₆ => ?_
  have hg₆ := hg₃.trans (hy.grows.trans (h₅.grows.trans h₆.grows))
  refine (bind_adds h₆.ready (hother.trans_le hg₆.labels)).bind fun _ s₇ ⟨h₇, hl₇⟩ => ?_
  have hl₂ : s₇.Lacks D₂ := by
    have hg : Grows D₁ s s₇ := ((hy.grows.after hz.grows).then h₅.grows).then (h₆.grows.then h₇.grows)
    exact hg.lacks (fun p hp => hl p (List.mem_append_right _ hp)) hd
  refine (hn s₇ h₇.ready hl₂).bind fun _ s₈ hn => ?_
  have hg₈ := h₆.grows.trans (h₇.grows.trans hn.grows)
  refine (bind_adds hn.ready (hdone.trans_le hg₈.labels)).post fun _ s₉ ⟨h₉, hl₉⟩ => ?_
  have hnest₇ : s₇.nesting = s.nesting := by
    rw [h₇.nesting, h₆.nesting, h₅.nesting, hy.nesting, hz.nesting]
  have hloops : s₃.loops = s.loops := congrArg Nesting.loops hz.nesting
  have hloops₇ : s₇.loops = s.loops := congrArg Nesting.loops hnest₇
  have hgrows : Grows (D₁ ++ D₂) s s₉ :=
    ((((hy.grows.after hz.grows).then h₅.grows).then (h₆.grows.then h₇.grows)).trans hn.grows).then
      h₉.grows
  refine ⟨hgrows, h₉.ready, ?_, fun I fuel m ρ hi hm => ?_⟩
  · rw [h₉.nesting, hn.nesting, hnest₇]
  have hi₈ := hi.of_grows h₉.grows
  have hi₇ := hi₈.of_grows hn.grows
  have hi₆ := hi₇.of_grows h₇.grows
  have hi₄ := (hi₆.of_grows h₆.grows).of_grows h₅.grows
  refine Tested.behaves hz (hi₄.of_grows hy.grows) hm fun u m' hm' => ?_
  by_cases hu : u.truth
  · rw [if_pos hu, if_pos hu]
    have hrun := hy.runs I fuel m' ρ hi₄ hm'
    rw [Tested.depth_eq hz, hloops] at hrun
    refine hrun.reaches fun pc m hpc => ⟨I.front s₉, rfl, ?_⟩
    subst hpc
    show I.machine.Reaches (I.here s₄ m) (I.here s₉ m)
    rw [← Image.here_of_adds h₅, Image.here_of_adds h₉, here_eq_label hi hl₉]
    exact Image.reaches_jump h₆ hi₆ m
  · have hrun := hn.runs I fuel m' ρ hi₈ hm'
    have hdepth : s₇.gen.temps.length = s.gen.temps.length :=
      congrArg (List.length ∘ Nesting.temps) hnest₇
    rw [hdepth, hloops₇, Image.here_of_adds h₇, here_eq_label hi₇ hl₇] at hrun
    rw [if_neg hu, if_neg hu]
    exact hrun.mono le_rfl fun pc hpc => hpc.trans (Image.front_of_adds h₉).symm

/-- Code that is skipped unless a condition is true. -/
theorem chooseOnly_performs {yes : Lower Unit} (hz : Computes cs ctx z v) (hy : Performs cs ctx yes D f) :
    Performs cs ctx (choose z yes none) D fun fuel ρ =>
      .ofValue (v ρ) fun c => if c.truth then f fuel ρ else .next ρ := by
  intro s hs hl
  unfold choose
  refine (hz s hs).bind fun a s₁ hz => ?_
  refine (newLabel_adds hz.ready).bind fun otherwise s₂ ⟨h₂, hother⟩ => ?_
  refine test_then hz h₂ fun s₃ hz hg₃ => ?_
  refine (hy s₃ hz.ready (hz.grows.lacks hl (by simp))).bind fun _ s₄ hy => ?_
  have hg₄ := hg₃.trans hy.grows
  refine (bind_adds hy.ready (hother.trans_le hg₄.labels)).post fun _ s₅ ⟨h₅, hl₅⟩ => ?_
  have hloops : s₃.loops = s.loops := congrArg Nesting.loops hz.nesting
  refine ⟨(hy.grows.after hz.grows).then h₅.grows, h₅.ready, ?_, fun I fuel m ρ hi hm => ?_⟩
  · rw [h₅.nesting, hy.nesting, hz.nesting]
  have hi₄ := hi.of_grows h₅.grows
  refine Tested.behaves hz (hi₄.of_grows hy.grows) hm fun u m' hm' => ?_
  by_cases hu : u.truth
  · have hrun := hy.runs I fuel m' ρ hi₄ hm'
    rw [Tested.depth_eq hz, hloops] at hrun
    rw [if_pos hu, if_pos hu]
    exact hrun.mono le_rfl fun pc hpc => hpc.trans (Image.front_of_adds h₅).symm
  · rw [if_neg hu, if_neg hu, ← here_eq_label hi hl₅, ← Image.here_of_adds h₅]
    exact Image.behaves_next hm'

/-! ### Loops -/

/-- Inside of a loop its jumps lead to its labels. -/
theorem inLoop_ends (l : LoopLabels) (hx : Performs cs ctx x D f) (hs : s.Ready) (hl : s.Lacks D) :
    Ends (inLoop l x) ctx s fun _ s' => Performed cs D s s' (some l) f := by
  unfold inLoop Ends
  rw [after_bind, after_update]
  have hs₁ : Lowering.Ready { s with loops := l :: s.loops } :=
    ⟨hs.depth, hs.keyed, ⟨hs.placed.inside, hs.placed.distinct⟩⟩
  refine After.bind (hx _ hs₁ hl) fun _ s₂ h₂ => ?_
  rw [after_update]
  have htemps : s₂.gen.temps = s.gen.temps := congrArg Nesting.temps h₂.nesting
  have hframes : s₂.gen.frames = s.gen.frames := congrArg Nesting.frames h₂.nesting
  have hloops : s₂.loops = l :: s.loops := congrArg Nesting.loops h₂.nesting
  refine ⟨⟨h₂.grows.code, h₂.grows.binds, h₂.grows.labels, h₂.grows.constants, h₂.grows.maxTemps,
    h₂.grows.locals, h₂.grows.params, h₂.grows.vars, h₂.grows.declares, h₂.grows.names⟩, ⟨h₂.ready.depth, h₂.ready.keyed,
    ⟨h₂.ready.placed.inside, h₂.ready.placed.distinct⟩⟩, ?_, fun I fuel m ρ hi hm => ?_⟩
  · simp [Lowering.nesting, htemps, hframes, hloops]
  · exact h₂.runs I fuel m ρ ⟨hi.code, hi.binds, hi.constants, hi.temps, hi.vars⟩ hm

/-- Each repetition takes a step at least, so a loop that is repeated `n` times lasts for `n` steps. The
induction is on how often the loop may be repeated; the body may take more. -/
theorem looped_behaves (loop : Option LoopLabels) {I : Image cs} {head done fuel : Nat} {s₃ : Lowering}
    (htested : Tested cs s s₁ true done v) (hbody : Performed cs D s₁ s₂ (some ⟨done, head⟩) f)
    (hback : Adds s₂ [⟨.jump, [head]⟩] s₂.nesting s₃) (hi : I.Includes s₃)
    (hhead : ∀ m, I.here s m = ⟨I.label head, m⟩) (n : Nat) (hn : n ≤ fuel) {m : Memory} {ρ : Env}
    (hm : I.Holds ρ m) : I.Behaves s.gen.temps.length loop (· = I.label done) n (I.here s m)
      (.repeated v (f fuel) n ρ) := by
  have hi₂ := hi.of_grows hback.grows
  have hi₁ := hi₂.of_grows hbody.grows
  induction n generalizing m ρ with
  | zero => exact Machine.lasts_zero _
  | succ n ih =>
    have hrun := htested.runs I m ρ hi₁ hm
    unfold Ending.repeated Ending.ofValue
    cases hv : v ρ with
    | error e =>
      rw [hv] at hrun
      exact hrun
    | ok u =>
      rw [hv] at hrun
      obtain ⟨c, hreach, ⟨m₁, hsame, rfl⟩, hlasts⟩ := hrun
      by_cases hu : u.truth
      · rw [if_pos hu] at hreach hlasts
        have hm₁ := hm.same hsame
        have hrun := hbody.runs I fuel m₁ ρ hi₂ hm₁
        rw [Tested.depth_eq htested] at hrun
        -- Back at the first label, a step at least has been taken.
        have hagain : ∀ m₂ ρ', I.machine.Reaches (I.here s₁ m₁) ⟨I.label head, m₂⟩ →
            Memory.Agree s.gen.temps.length m₁ m₂ → I.Holds ρ' m₂ →
            I.Behaves s.gen.temps.length loop (· = I.label done) (n + 1) (I.here s m)
              (.repeated v (f fuel) n ρ') := by
          intro m₂ ρ' hr hagree hm₂
          have hrest := ih (by omega) hm₂
          rw [hhead] at hrest
          exact hrest.succ (hreach.trans hr) (hsame.toAgree.trans hagree)
            fun hl => hlasts n (hr.lasts hl)
        simp only [hu, if_true]
        revert hrun
        cases f fuel ρ with
        | next ρ' =>
          rintro ⟨c, hr, pc, rfl, m₂, rfl, hagree, hm₂⟩
          exact hagain m₂ ρ' (hr.trans (Image.reaches_jump hback hi m₂)) hagree hm₂
        | continued ρ' =>
          rintro ⟨c, hr, l, hl, m₂, rfl, hagree, hm₂⟩
          obtain rfl := Option.some.inj hl
          exact hagain m₂ ρ' hr hagree hm₂
        | broke ρ' =>
          rintro ⟨c, hr, l, hl, m₂, rfl, hagree, hm₂⟩
          obtain rfl := Option.some.inj hl
          exact ⟨_, hreach.trans hr, _, rfl, m₂, rfl, hsame.toAgree.trans hagree, hm₂⟩
        | returned u =>
          rintro ⟨w, hstops, hw⟩
          exact ⟨w, hreach.stops hstops, hw⟩
        | failed e => exact fun hstops => hreach.stops hstops
        | exhausted => exact fun hl => (hreach.lasts hl).mono hn
      · rw [if_neg hu] at hreach
        simp only [hu, if_false, Bool.false_eq_true]
        exact ⟨_, hreach, _, rfl, m₁, rfl, hsame.toAgree, hm.same hsame⟩

theorem repeatWhile_performs (hz : Computes cs ctx z v) (hx : Performs cs ctx x D f) :
    Performs cs ctx (repeatWhile z x) D fun fuel ρ => .repeated v (f fuel) fuel ρ := by
  intro s hs hl
  unfold repeatWhile
  refine (newLabel_adds hs).bind fun head s₁ ⟨h₁, hhead⟩ => ?_
  refine (newLabel_adds h₁.ready).bind fun done s₂ ⟨h₂, hdone⟩ => ?_
  refine (bind_adds h₂.ready (hhead.trans_le h₂.grows.labels)).bind fun _ s₃ ⟨h₃, hl₃⟩ => ?_
  refine (hz s₃ h₃.ready).bind fun a s₄ hz => ?_
  refine test_then hz (.refl hz.ready) fun s₅ ht hg₅ => ?_
  have hg := h₁.grows.then (h₂.grows.then (h₃.grows.then ht.grows))
  refine (inLoop_ends ⟨done, head⟩ hx ht.ready (hg.lacks hl (by simp))).bind fun _ s₆ h₆ => ?_
  refine (emit_adds h₆.ready _ _).bind fun _ s₇ h₇ => ?_
  have hg₇ := h₃.grows.trans (ht.grows.trans (h₆.grows.trans h₇.grows))
  refine (bind_adds h₇.ready (hdone.trans_le hg₇.labels)).post fun _ s₈ ⟨h₈, hl₈⟩ => ?_
  refine ⟨(h₆.grows.after hg).then (h₇.grows.then h₈.grows), h₈.ready, ?_, fun I fuel m ρ hi hm => ?_⟩
  · rw [h₈.nesting, h₇.nesting, h₆.nesting, ht.nesting, h₃.nesting, h₂.nesting, h₁.nesting]
  have hi₇ := hi.of_grows h₈.grows
  have hi₃ := ((hi₇.of_grows h₇.grows).of_grows h₆.grows).of_grows ht.grows
  have hstart : ∀ m, I.here s₃ m = I.here s m := fun m => by
    rw [Image.here_of_adds h₃, Image.here_of_adds h₂, Image.here_of_adds h₁]
  have hlabel : ∀ m, I.here s₃ m = ⟨I.label head, m⟩ := fun m => by
    rw [Image.here_of_adds h₃, here_eq_label hi₃ hl₃]
  have hdepth : s₃.gen.temps.length = s.gen.temps.length := by
    rw [show s₃.gen.temps = s₂.gen.temps from h₃.temps, show s₂.gen.temps = s₁.gen.temps from h₂.temps,
      show s₁.gen.temps = s.gen.temps from h₁.temps]
  have hrun := looped_behaves s.loops.head? ht h₆ h₇ hi₇ hlabel fuel le_rfl hm
  rw [hstart, hdepth] at hrun
  refine hrun.mono le_rfl fun pc hpc => hpc.trans ?_
  have hend := here_eq_label hi hl₈ m
  rw [Image.front_of_adds h₈]
  exact (congrArg Config.pc hend).symm

/-- A jump leads to a label of the innermost loop. -/
theorem leave_ends (cs : List Value) {l : LoopLabels} {ls : List LoopLabels} (hs : s.Ready) (hl : s.loops = l :: ls)
    (target : LoopLabels → Nat) : Ends (Gen.jump (target l)) ctx s fun _ s' =>
      Adds s [⟨.jump, [target l]⟩] s.nesting s' ∧ ∀ (I : Image cs) (m : Memory) (ρ : Env), I.Includes s' →
        I.Holds ρ m → ∃ c, I.machine.Reaches (I.here s m) c ∧
          I.Leaves s.gen.temps.length m s.loops.head? target ρ c := by
  refine (emit_adds hs _ _).post fun _ s₁ h₁ => ⟨h₁, fun I m ρ hi hm => ?_⟩
  exact ⟨_, Image.reaches_jump h₁ hi m, l, by rw [hl]; rfl, m, rfl, .refl _ m, hm⟩

theorem break_performs (pos : Pos) : Performs cs ctx (jump pos .break) [] fun _ ρ => .broke ρ := by
  intro s hs _
  unfold jump Ends
  rw [after_bind, after_current]
  dsimp only
  split
  · rename_i l ls hl
    refine (leave_ends cs hs hl LoopLabels.exit).post fun _ s₁ ⟨h₁, hrun⟩ => ?_
    exact ⟨h₁.grows, h₁.ready, h₁.nesting, fun I _ m ρ hi hm => hrun I m ρ hi hm⟩
  · trivial

theorem continue_performs (pos : Pos) :
    Performs cs ctx (jump pos (.continue false)) [] fun _ ρ => .continued ρ := by
  intro s hs _
  unfold jump Ends
  rw [after_bind, after_current]
  dsimp only
  split
  · rename_i l ls hl
    refine (leave_ends cs hs hl LoopLabels.next).post fun _ s₁ ⟨h₁, hrun⟩ => ?_
    exact ⟨h₁.grows, h₁.ready, h₁.nesting, fun I _ m ρ hi hm => hrun I m ρ hi hm⟩
  · trivial

end Lower

end GameScript
