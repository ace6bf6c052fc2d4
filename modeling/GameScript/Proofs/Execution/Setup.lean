import GameScript.Proofs.Execution.Host
import GameScript.Proofs.Running.Calls

/-!
# Code in a host

A setup is a complete function in a machine with a host. As with an image, what lowering has added to a
state says what the machine does there (`Setup.Covers`).
-/

namespace GameScript

namespace Instruction

theorem length_shape_le_arity (op : Opcode) (args : List Nat) : op.shape.length ≤ arity op args := by
  unfold arity
  split <;> omega

/-- Operands of which none is a label stay as they are. -/
theorem map_operandsFrom {ks : List OperandKind} (h : .label ∉ ks) {as : List Nat}
    (hlen : ks.length ≤ as.length) (f : Nat → Nat) :
    (operandsFrom ks as).map (fun o => if o.1 = .label then f o.2 else o.2) = as := by
  induction ks generalizing as with
  | nil => simp [operandsFrom, Function.comp_def]
  | cons k ks ih =>
    cases as with
    | nil => simp at hlen
    | cons a as =>
      rw [List.mem_cons, not_or] at h
      simp only [operandsFrom, List.map_cons, if_neg (Ne.symm h.1)]
      rw [ih h.2 (by simpa using hlen)]

/-- An operation of the host refers to no labels. -/
theorem resolve_of_target {op : Opcode} {args : List Nat} {t : Target} (ht : op.target? = some t)
    (hr : (⟨op, args⟩ : Instruction).Readable) (f : Nat → Nat) :
    (⟨op, args⟩ : Instruction).resolve f = ⟨op, args⟩ := by
  have hshape : .label ∉ op.shape := by
    revert ht
    cases op <;> first | (intro; decide) | (intro h; cases h)
  have hmap := map_operandsFrom hshape ((length_shape_le_arity op args).trans hr.fits.symm.le) f
  unfold resolve
  exact congrArg (Instruction.mk op) hmap

/-- The operands of an instruction are its arguments. -/
theorem mem_of_mem_operandsFrom {ks : List OperandKind} {as : List Nat} {o : OperandKind × Nat}
    (h : o ∈ operandsFrom ks as) : o.2 ∈ as := by
  induction ks generalizing as with
  | nil =>
    obtain ⟨a, ha, rfl⟩ := List.mem_map.mp h
    exact ha
  | cons k ks ih =>
    cases as with
    | nil => cases h
    | cons a as =>
      rcases List.mem_cons.mp h with rfl | h
      · exact List.mem_cons_self
      · exact List.mem_cons_of_mem _ (ih h)

/-- An instruction that ends with a list of addresses. -/
theorem readable_list {op : Opcode} (args : List Nat) (as : List Address)
    (hop : op.shape.getLast? = some .list) (hlen : args.length + 1 = op.shape.length)
    (hargs : ∀ n ∈ args, n < twoTo 32) (has : as.length < twoTo 32) (hsmall : ∀ a ∈ as, a.encode < twoTo 32) :
    (⟨op, args ++ as.length :: as.map Address.encode⟩ : Instruction).Readable := by
  refine ⟨?_, fun o ho => .inr ?_⟩
  · simp only [arity, hop, ← hlen, Nat.add_sub_cancel, List.length_append, List.length_cons, List.length_map,
      List.getD_append_right _ _ _ _ (le_refl _), Nat.sub_self, List.getD_cons_zero]
    omega
  · rcases List.mem_append.mp (mem_of_mem_operandsFrom ho) with h | h
    · exact hargs _ h
    · rcases List.mem_cons.mp h with h | h
      · exact h ▸ has
      · obtain ⟨a, ha, hao⟩ := List.mem_map.mp h
        exact hao ▸ hsmall a ha

end Instruction

/-- A complete function in a machine with a host. -/
structure Setup {V W : Type} (cs : List Value) (H : Host V W) extends Image cs where
  /-- The names of the program. -/
  names : List Text
  fewNames : names.length ≤ twoTo 32

namespace Setup

variable {cs : List Value} {V W : Type} {H : Host V W} (S : Setup cs H)

def hosted : HostMachine V W := { S.machine with names := S.names, host := H }

/-- The machine at the end of the code of a state. -/
def atEnd (s : Lowering) (m : Cells V) (w : W) : Moment V W := ⟨S.place s.gen.instructions.length, m, w⟩

/-- The machine at a label. -/
def atLabel (l : Nat) (m : Cells V) (w : W) : Moment V W := ⟨S.label l, m, w⟩

/-- The code of a state and what it refers to are part of the setup. -/
structure Covers (s : Lowering) : Prop where
  includes : S.Includes s
  names : s.gen.pool.names <+: S.names

/-- The value of the variable that is declared at a place. -/
def value (m : Cells V) (p : Pos) : Option V := (S.vars.get? p).bind m.stored?

/-- There is room for all temporaries, and every variable has a value. -/
structure Full (m : Cells V) : Prop where
  temps : m.temps.length = S.machine.function.maxTemps.toNat
  vars : ∀ p a, S.vars.get? p = some a → (S.value m p).isSome

/-- An address holds a value. -/
def Reads (m : Cells V) (w : W) (a : Address) (v : V) : Prop :=
  a.encode < twoTo 32 ∧ S.hosted.load m w a.encode = some v

/-- An address holds a value whatever the world is like: it is no variable of the instance. -/
structure Steady (m : Cells V) (a : Address) (v : V) : Prop where
  narrow : a.encode < twoTo 32
  outside : a.mode ≠ .member
  load : ∀ w, S.hosted.load m w a.encode = some v

/-- A temporary can be stored to. -/
structure Room (m : Cells V) (i : Nat) : Prop where
  lt : i < m.temps.length
  narrow : ∀ t, Address.encode ⟨.temporary, i, t⟩ < twoTo 32

variable {S} {D : List Pos} {s s' s₁ : Lowering} {m m' : Cells V} {w w' : W} {a x y : Address} {v u : V}
  {d i l : Nat} {k : Nesting} {op : Opcode} {args : List Nat}

/-! ### What a setup knows -/

theorem Covers.of_grows (h : S.Covers s') (hg : Grows D s s') : S.Covers s :=
  ⟨h.includes.of_grows hg, hg.names.trans h.names⟩

/-- A name of a state is one of the program. -/
theorem Covers.name {n : Text} (h : S.Covers s) (hn : s.gen.pool.names[i]? = some n) :
    S.names[i]? = some n := by
  obtain ⟨t, ht⟩ := h.names
  rw [← ht, List.getElem?_append_left (List.getElem?_eq_some_iff.mp hn).1]
  exact hn

theorem name_lt {n : Text} (hn : S.names[i]? = some n) : i < twoTo 32 :=
  (List.getElem?_eq_some_iff.mp hn).1.trans_le S.fewNames

/-- A constant of a state is one of the program. -/
theorem Covers.constant {key : Text} {c : Value} (h : S.Covers s)
    (hc : s.gen.pool.constants[i]? = some (key, c)) : S.machine.constants[i]? = some c := by
  have hget : (s.gen.pool.constants.map Prod.snd)[i]? = some c := by
    rw [List.getElem?_map, hc]
    rfl
  obtain ⟨t, ht⟩ := h.includes.constants
  rw [← ht, List.getElem?_append_left (List.getElem?_eq_some_iff.mp hget).1]
  exact hget

theorem atEnd_of_adds (h : Adds s [] k s') (m : Cells V) (w : W) : S.atEnd s' m w = S.atEnd s m w := by
  have hlen : s'.gen.instructions.length = s.gen.instructions.length := by
    have := congrArg List.length h.code
    simpa [Lowering.code] using this
  unfold atEnd
  rw [hlen]

/-- A label that has been bound to the end of the code. -/
theorem atEnd_eq_label (hi : S.Covers s') (hl : s'.gen.binds.getD l none = some s.gen.instructions.length)
    (m : Cells V) (w : W) : S.atEnd s m w = S.atLabel l m w := by
  unfold atLabel
  rw [hi.includes.label hl]
  rfl

theorem value_same (hm : Cells.Same d m m') (p : Pos) : S.value m' p = S.value m p := by
  unfold value Cells.stored?
  rw [hm.params, hm.locals]

theorem Full.same (h : S.Full m) (hm : Cells.Same d m m') : S.Full m' := by
  refine ⟨hm.length.trans h.temps, fun p a hp => ?_⟩
  rw [value_same hm]
  exact h.vars p a hp

theorem Full.room (h : S.Full m) (hi : S.Covers s) (hs : s.Ready) (hlt : i < s.gen.temps.length) :
    Room m i := by
  have h₁ := hs.depth
  have h₂ := hi.includes.temps
  refine ⟨by rw [h.temps]; omega, fun t => Address.encode_lt ?_⟩
  exact lt_of_lt_of_le (show i < _ by omega) S.fewTemps

/-! ### Reading and storing -/

theorem load_encode (S : Setup cs H) (m : Cells V) (w : W) (a : Address) : S.hosted.load m w a.encode =
    match a.mode with
    | .self => some H.self
    | .cls => some H.cls
    | .nil => some H.nil
    | .member => H.slot w a.index
    | .parameter => m.params[a.index]?
    | .localVar => m.locals[a.index]?
    | .temporary => m.temps[a.index]?
    | .constant => (S.machine.constants[a.index]?).map H.constant := by
  unfold HostMachine.load
  rw [a.ofNumber_encode, a.encode_div]
  rfl

theorem store_temporary {t : StaticType} (h : Room m i) (w : W) (v : V) :
    S.hosted.store m w (Address.encode ⟨.temporary, i, t⟩) v = some (m.setTemp i v, w) := by
  unfold HostMachine.store
  rw [Address.ofNumber_encode, Address.encode_div]
  simp only [h.lt, if_true]
  rfl

theorem reads_setTemp {t : StaticType} (h : Room m i) (w : W) (v : V) :
    S.Reads (m.setTemp i v) w ⟨.temporary, i, t⟩ v := by
  refine ⟨h.narrow t, ?_⟩
  rw [load_encode]
  simp [Cells.setTemp, h.lt]

theorem Reads.room {t : StaticType} (h : S.Reads m w ⟨.temporary, i, t⟩ v) : Room m i := by
  obtain ⟨hlt, hv⟩ := h
  rw [load_encode] at hv
  exact ⟨(List.getElem?_eq_some_iff.mp hv).1, fun _ => hlt⟩

theorem Steady.reads (h : S.Steady m a v) (w : W) : S.Reads m w a v := ⟨h.narrow, h.load w⟩

theorem steady_setTemp {t : StaticType} (h : Room m i) (v : V) :
    S.Steady (m.setTemp i v) ⟨.temporary, i, t⟩ v :=
  ⟨h.narrow t, nofun, fun w => (reads_setTemp h w v).2⟩

theorem Reads.steady {t : StaticType} (h : S.Reads m w ⟨.temporary, i, t⟩ v) : S.Steady m ⟨.temporary, i, t⟩ v := by
  refine ⟨h.1, nofun, fun w' => ?_⟩
  have hv := h.2
  rw [load_encode] at hv ⊢
  exact hv

/-- What is neither in a variable nor in a temporary from `d` on stays there. -/
theorem Steady.agree (h : S.Steady m a v) (hm : Cells.Agree d m m')
    (ha : a.mode ≠ .parameter ∧ a.mode ≠ .localVar) (hlt : a.mode = .temporary → a.index < d) :
    S.Steady m' a v := by
  refine ⟨h.narrow, h.outside, fun w => ?_⟩
  have hv := h.load w
  rw [load_encode] at hv ⊢
  cases hmode : a.mode with
  | member => exact absurd hmode h.outside
  | parameter => exact absurd hmode ha.1
  | localVar => exact absurd hmode ha.2
  | temporary =>
    rw [hmode] at hv
    exact (hm.temps _ (hlt hmode)).trans hv
  | _ =>
    rw [hmode] at hv
    exact hv

/-- Storing to a temporary changes no other address. -/
theorem Steady.setTemp (h : S.Steady m a v) (ha : a.mode = .temporary → a.index ≠ i) (u : V) :
    S.Steady (m.setTemp i u) a v := by
  refine ⟨h.narrow, h.outside, fun w => ?_⟩
  have hv := h.load w
  rw [load_encode] at hv ⊢
  cases hmode : a.mode with
  | member => exact absurd hmode h.outside
  | temporary =>
    rw [hmode] at hv
    simp only [Cells.setTemp]
    rw [List.getElem?_set_ne (ha hmode).symm]
    exact hv
  | _ =>
    rw [hmode] at hv
    exact hv

/-- An address that is no temporary from `d` on stays as it is if the variables do. -/
theorem Steady.same (h : S.Steady m a v) (hm : Cells.Same d m m')
    (ha : a.mode = .temporary → a.index < d) : S.Steady m' a v := by
  refine ⟨h.narrow, h.outside, fun w => ?_⟩
  have hv := h.load w
  rw [load_encode] at hv ⊢
  rw [hm.params, hm.locals]
  cases hmode : a.mode with
  | member => exact absurd hmode h.outside
  | temporary =>
    rw [hmode] at hv
    exact (hm.temps _ (ha hmode)).trans hv
  | _ =>
    rw [hmode] at hv
    exact hv

/-- A value is stored to a variable, and the others stay as they are. -/
theorem store_variable {p : Pos} (h : S.Full m) (hp : S.vars.get? p = some a) (hab : x.encode = a.encode)
    (v : V) (w : W) : ∃ m', S.hosted.store m w x.encode v = some (m', w) ∧ m'.temps = m.temps ∧ S.Full m' ∧
      S.value m' p = some v ∧ ∀ q ≠ p, S.value m' q = S.value m q := by
  have hsome := h.vars p a hp
  unfold value at hsome
  rw [hp, Option.bind_some] at hsome
  obtain ⟨m', hstore, htemps, hget⟩ : ∃ m', S.hosted.store m w a.encode v = some (m', w) ∧
      m'.temps = m.temps ∧ ∀ b : Address, m'.stored? b =
        if b.mode = a.mode ∧ b.index = a.index then some v else m.stored? b := by
    unfold Cells.stored? at hsome
    unfold HostMachine.store
    rw [Address.ofNumber_encode, Address.encode_div]
    rcases S.modes p a hp with ha | ha
    · rw [ha] at hsome ⊢
      have hlt : a.index < m.params.length := by simpa using hsome
      refine ⟨{ m with params := m.params.set a.index v }, by simp [hlt], rfl, fun b => ?_⟩
      unfold Cells.stored?
      cases hb : b.mode <;> simp [List.getElem?_set, hlt, eq_comm]
    · rw [ha] at hsome ⊢
      have hlt : a.index < m.locals.length := by simpa using hsome
      refine ⟨{ m with locals := m.locals.set a.index v }, by simp [hlt], rfl, fun b => ?_⟩
      unfold Cells.stored?
      cases hb : b.mode <;> simp [List.getElem?_set, hlt, eq_comm]
  have hvalue : ∀ q, S.value m' q = if q = p then some v else S.value m q := by
    intro q
    unfold value
    cases hq : S.vars.get? q with
    | none =>
      rw [if_neg]
      · rfl
      · rintro rfl
        rw [hq] at hp
        cases hp
    | some b =>
      rw [Option.bind_some, Option.bind_some, hget]
      by_cases hqp : q = p
      · subst hqp
        rw [hp] at hq
        obtain rfl := Option.some.inj hq
        simp
      · rw [if_neg hqp, if_neg fun hb => hqp (S.distinct q p b a hq hp hb.1 hb.2)]
  refine ⟨m', hab ▸ hstore, htemps, ⟨htemps ▸ h.temps, fun q b hq => ?_⟩, ?_, fun q hqp => ?_⟩
  · rw [hvalue]
    split
    · rfl
    · exact h.vars q b hq
  · rw [hvalue, if_pos rfl]
  · rw [hvalue, if_neg hqp]

/-! ### Single instructions -/

/-- The instruction that has been added is the next one. -/
theorem step_of_adds (h : Adds s [⟨op, args⟩] k s') (hi : S.Covers s')
    (hr : (⟨op, args⟩ : Instruction).Readable) : S.hosted.step (S.atEnd s m w) =
      S.hosted.perform (S.place s'.gen.instructions.length)
        ((⟨op, args⟩ : Instruction).resolve S.label) m w := by
  have hfetch : S.hosted.fetch (S.place s.gen.instructions.length) = _ :=
    Image.fetch_of_adds h hi.includes hr
  unfold HostMachine.step
  rw [show (S.atEnd s m w).pc = S.place s.gen.instructions.length from rfl, hfetch]
  rfl

theorem reaches_jump (h : Adds s [⟨.jump, [l]⟩] k s') (hi : S.Covers s') (m : Cells V) (w : W) :
    S.hosted.Reaches (S.atEnd s m w) (S.atLabel l m w) :=
  .single (step_of_adds h hi (Image.readable rfl (by simp)))

variable (op) in
/-- A conditional jump. -/
theorem reaches_branch {taken : V → Bool} (ht : H.takes? op = some taken)
    (h : Adds s [⟨op, [x.encode, l]⟩] k s') (hi : S.Covers s') (hx : S.Reads m w x v) :
    S.hosted.Reaches (S.atEnd s m w) (if taken v then S.atLabel l m w else S.atEnd s' m w) := by
  obtain ⟨hlt, hv⟩ := hx
  have hresult : S.hosted.step (S.atEnd s m w) = (do
      let taken ← S.hosted.host.takes? op
      return ⟨if taken (← S.hosted.load m w x.encode) then S.label l else S.place s'.gen.instructions.length,
        m, w⟩) := by
    have hop : op = .jumpIf ∨ op = .jumpIfNot ∨ op = .jumpIfShared := by
      revert ht
      cases op <;> simp [Host.takes?]
    rcases hop with rfl | rfl | rfl <;>
      exact step_of_adds h hi (Image.readable rfl (by simp [hlt]))
  refine .single (hresult.trans ?_)
  have ht' : S.hosted.host.takes? op = some taken := ht
  simp only [ht', hv, Option.bind_eq_bind, Option.bind_some]
  split <;> rfl

/-- A value is copied. -/
theorem reaches_assign (h : Adds s [⟨.assign, [a.encode, x.encode]⟩] k s') (hi : S.Covers s')
    (ha : a.encode < twoTo 32) (hx : S.Reads m w x v)
    (hstore : S.hosted.store m w a.encode v = some (m', w')) :
    S.hosted.Reaches (S.atEnd s m w) (S.atEnd s' m' w') := by
  obtain ⟨hlt, hv⟩ := hx
  refine .single ((step_of_adds h hi (Image.readable rfl (by simp [hlt, ha]))).trans ?_)
  show (do
    let p ← S.hosted.store m w a.encode (← S.hosted.load m w x.encode)
    return (⟨_, p.1, p.2⟩ : Moment V W)) = _
  simp only [hv, hstore, Option.bind_eq_bind, Option.bind_some]
  rfl

/-- The host does an operation. -/
theorem step_operation {t : Target} (ht : op.target? = some t) (h : Adds s [⟨op, args⟩] k s')
    (hi : S.Covers s') (hr : (⟨op, args⟩ : Instruction).Readable) (m : Cells V) (w : W) :
    S.hosted.step (S.atEnd s m w) =
      S.hosted.operate (S.place s'.gen.instructions.length) t ⟨op, args⟩ m w := by
  rw [step_of_adds h hi hr, Instruction.resolve_of_target ht hr]
  unfold HostMachine.perform
  rw [ht]

variable {os : List (Operand V)}

/-- An operation with a result. -/
theorem reaches_operation {t : Target} (ht : op.target? = some t) (hn : t ≠ .none)
    (h : Adds s [⟨op, a.encode :: args⟩] k s') (hi : S.Covers s')
    (hr : (⟨op, a.encode :: args⟩ : Instruction).Readable)
    (hos : S.hosted.operands m w t ⟨op, a.encode :: args⟩ = some os)
    (hact : H.act op os w = some (v, w')) {w₁ : W}
    (hstore : S.hosted.store m w' a.encode v = some (m', w₁)) :
    S.hosted.Reaches (S.atEnd s m w) (S.atEnd s' m' w₁) := by
  refine .single ((step_operation ht h hi hr m w).trans ?_)
  have hact' : S.hosted.host.act op os w = some (v, w') := hact
  unfold HostMachine.operate
  simp only [hos, hact', hstore, hn, Option.bind_eq_bind, Option.bind_some, if_false, List.headD_cons]
  rfl

/-- An operation whose result is put into a temporary. -/
theorem reaches_result {t : StaticType} (ht : op.target? = some .written)
    (h : Adds s [⟨op, Address.encode ⟨.temporary, i, t⟩ :: args⟩] k s') (hi : S.Covers s')
    (hr : (⟨op, Address.encode ⟨.temporary, i, t⟩ :: args⟩ : Instruction).Readable) (hroom : Room m i)
    (hos : S.hosted.operands m w .written ⟨op, Address.encode ⟨.temporary, i, t⟩ :: args⟩ = some os)
    (hact : H.act op os w = some (v, w')) :
    S.hosted.Reaches (S.atEnd s m w) (S.atEnd s' (m.setTemp i v) w') :=
  reaches_operation ht nofun h hi hr hos hact (store_temporary hroom w' v)

theorem operand_address (hx : S.Reads m w x v) :
    S.hosted.operand m w (.address, x.encode) = some (.value v) := by
  unfold HostMachine.operand
  simp [hx.2]

end Setup

/-! ### Complete functions -/

namespace Lowering

variable {V W : Type} {H : Host V W}

/-- The function that is complete with what has been lowered so far. -/
def complete (s : Lowering) : Function where
  code := s.gen.assembly.machineCode.code
  params := s.params
  locals := s.locals
  maxTemps := s.gen.maxTemps

/-- The constants of the program so far. -/
def constants (s : Lowering) : List Value := s.gen.pool.constants.map Prod.snd

/-- What has been lowered so far, in a host. -/
def setup (s : Lowering) (H : Host V W) (hs : s.Ready) (hsmall : s.complete.Addressable s.constants)
    (hnames : s.gen.pool.names.length ≤ twoTo 32) : Setup s.constants H where
  toImage := s.image hs 0 rfl rfl rfl hsmall
  names := s.gen.pool.names
  fewNames := hnames

theorem covers_setup {s : Lowering} (hs : s.Ready) (hsmall : s.complete.Addressable s.constants)
    (hnames : s.gen.pool.names.length ≤ twoTo 32) : (s.setup H hs hsmall hnames).Covers s :=
  ⟨⟨List.prefix_refl _, fun _ _ h => h, List.prefix_refl _, le_rfl, fun _ _ h => h⟩, List.prefix_refl _⟩

theorem full_setup {s : Lowering} {hs : s.Ready} {hsmall : s.complete.Addressable s.constants}
    {hnames : s.gen.pool.names.length ≤ twoTo 32} {m : Cells V} (htemps : m.temps.length = s.gen.maxTemps)
    (hvars : ∀ p a, s.vars.get? p = some a → (m.stored? a).isSome) : (s.setup H hs hsmall hnames).Full m := by
  refine ⟨htemps, fun p a hp => ?_⟩
  unfold Setup.value
  rw [hp]
  exact hvars p a hp

end Lowering

/-! ### Names -/

namespace Lower

variable {ctx : LowerContext} {s : Lowering}

/-- A name is found among those of the program. -/
theorem name_adds (hs : s.Ready) (n : Text) : Ends (Gen.name n) ctx s fun i s' =>
    Adds s [] s.nesting s' ∧ s'.gen.pool.names[i]? = some n := by
  unfold Ends
  rw [after_lift, Gen.after_name]
  unfold Pool.name
  cases hf : s.gen.pool.names.findIdx? (· = n) with
  | some i =>
    obtain ⟨hi, hn, -⟩ := List.findIdx?_eq_some_iff_getElem.mp hf
    refine ⟨.refl hs, ?_⟩
    rw [List.getElem?_eq_getElem hi]
    simpa using hn
  | none =>
    refine ⟨⟨⟨List.prefix_refl _, fun _ _ h => h, le_rfl, List.prefix_refl _, le_rfl, le_rfl, rfl,
      fun _ _ h => h, fun _ _ h => .inl h, List.prefix_append _ _⟩,
      ⟨hs.depth, hs.keyed, ⟨hs.placed.inside, hs.placed.distinct⟩⟩, by simp [Lowering.code], rfl⟩, ?_⟩
    simp

end Lower

end GameScript
