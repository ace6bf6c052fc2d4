import GameScript.Proofs.Running.Alike
import GameScript.Proofs.Running.Growth

/-!
# Code in a machine

An image is a complete function in a machine, together with the assembly its code is made from and the
places of its variables. The code of a state of lowering is a part of it (`Image.Includes`), so what
lowering has added to a state says what the machine does there.

* `Image.Holds` — the variables of the machine have the values of the source;
* `Image.Evaluates` — the machine computes a value, or ends with its error;
* `Image.Follows` — the machine does what a statement does.
-/

namespace GameScript

/-! ### Memory -/

namespace Memory

def setTemp (m : Memory) (i : Nat) (v : Value) : Memory := { m with temps := m.temps.set i v }

/-- The temporaries below `d` are the same. -/
structure Agree (d : Nat) (m m' : Memory) : Prop where
  length : m'.temps.length = m.temps.length
  temps : ∀ i < d, m'.temps[i]? = m.temps[i]?

/-- The variables and the temporaries below `d` are the same. -/
structure Same (d : Nat) (m m' : Memory) : Prop extends Agree d m m' where
  params : m'.params = m.params
  locals : m'.locals = m.locals

variable {d e : Nat} {m m₁ m₂ : Memory}

theorem Agree.refl (d : Nat) (m : Memory) : Agree d m m := ⟨rfl, fun _ _ => rfl⟩

theorem Agree.trans (h₁ : Agree d m m₁) (h₂ : Agree d m₁ m₂) : Agree d m m₂ :=
  ⟨h₂.length.trans h₁.length, fun i hi => (h₂.temps i hi).trans (h₁.temps i hi)⟩

theorem Agree.mono (h : Agree e m m₁) (hde : d ≤ e) : Agree d m m₁ :=
  ⟨h.length, fun i hi => h.temps i (by omega)⟩

theorem Same.refl (d : Nat) (m : Memory) : Same d m m := ⟨.refl d m, rfl, rfl⟩

theorem Same.trans (h₁ : Same d m m₁) (h₂ : Same d m₁ m₂) : Same d m m₂ :=
  ⟨h₁.toAgree.trans h₂.toAgree, h₂.params.trans h₁.params, h₂.locals.trans h₁.locals⟩

theorem Same.mono (h : Same e m m₁) (hde : d ≤ e) : Same d m m₁ :=
  ⟨h.toAgree.mono hde, h.params, h.locals⟩

theorem same_setTemp (m : Memory) (d : Nat) (v : Value) : Same d m (m.setTemp d v) := by
  refine ⟨⟨by simp [setTemp], fun i hi => ?_⟩, rfl, rfl⟩
  simp only [setTemp]
  rw [List.getElem?_set_ne (by omega)]

end Memory

namespace Machine

variable {M : Machine} {m m' : Memory} {a : Address} {v : Value} {d : Nat}

theorem load_encode (M : Machine) (m : Memory) (a : Address) : M.load m a.encode =
    match a.mode with
    | .parameter => m.params[a.index]?
    | .localVar => m.locals[a.index]?
    | .temporary => m.temps[a.index]?
    | .constant => M.constants[a.index]?
    | _ => some .nil := by
  cases h : a.mode <;> simp [load, a.ofNumber_encode, a.encode_div, h]

/-- A temporary that the memory has room for is stored to. -/
theorem put_temporary {i pc : Nat} {t : StaticType} (h : i < m.temps.length) (v : Value) :
    put m pc (Address.encode ⟨.temporary, i, t⟩) v = .next ⟨pc, m.setTemp i v⟩ := by
  unfold put Memory.store
  rw [Address.ofNumber_encode, Address.encode_div]
  simp only [h, if_true]
  rfl

/-- An address that is above no depth reads the same if memory is the same below it. -/
theorem load_same (h : Memory.Same d m m') (ha : a.mode = .temporary → a.index < d) :
    M.load m' a.encode = M.load m a.encode := by
  rw [load_encode, load_encode, h.params, h.locals]
  cases hm : a.mode with
  | temporary => exact h.temps _ (ha hm)
  | _ => rfl

end Machine

/-! ### Images -/

/-- An instruction whose bytes can be read: its operands fit the operation and, apart from labels, have
at most 32 bits. -/
structure Instruction.Readable (i : Instruction) : Prop where
  fits : i.args.length = arity i.op i.args
  narrow : ∀ o ∈ i.operands, o.1 = .label ∨ o.2 < twoTo 32

/-- The most variables, temporaries or constants whose addresses have 32 bits. -/
def Address.limit : Nat := 2 ^ 29

theorem Address.encode_lt {a : Address} (h : a.index < Address.limit) : a.encode < twoTo 32 := by
  have := number_lt a.mode
  have htwo : twoTo 32 = 2 ^ 29 * 8 := rfl
  unfold Address.limit at h
  unfold encode
  omega

/-- A complete function in a machine with the constants `cs`. -/
structure Image (cs : List Value) where
  machine : Machine
  constants : machine.constants = cs
  /-- What its code is made from. -/
  assembly : Assembly
  /-- Where its variables are. -/
  vars : Table Pos Address
  /-- Each instruction is read at its place, and the next one follows. -/
  fetch : ∀ k i, assembly.instructions[k]? = some i → i.instruction.Readable →
    machine.fetch (assembly.places.getD k 0) =
      .ok (i.instruction.resolve (assembly.target assembly.places), assembly.places.getD (k + 1) 0)
  modes : ∀ p a, vars.get? p = some a → a.mode = .parameter ∨ a.mode = .localVar
  few : ∀ p a, vars.get? p = some a → a.index < Address.limit
  fewConstants : machine.constants.length ≤ Address.limit
  fewTemps : machine.function.maxTemps.toNat ≤ Address.limit
  /-- Each variable has a place of its own. -/
  distinct : ∀ p q a b, vars.get? p = some a → vars.get? q = some b → a.mode = b.mode →
    a.index = b.index → p = q

namespace Image

variable {cs : List Value} (I : Image cs)

/-- The place of an instruction. -/
def place (k : Nat) : Nat := I.assembly.places.getD k 0

/-- The machine at the end of the code of a state. -/
def here (s : Lowering) (m : Memory) : Config := ⟨I.place s.gen.instructions.length, m⟩

/-- The place of a label. -/
def label (l : Nat) : Nat := I.assembly.target I.assembly.places l

/-- The code of a state is part of the image. -/
structure Includes (s : Lowering) : Prop where
  code : s.gen.instructions <+: I.assembly.instructions
  binds : ∀ l k, s.gen.binds.getD l none = some k → I.assembly.binds.getD l none = some k
  constants : s.gen.pool.constants.map Prod.snd <+: I.machine.constants
  temps : s.gen.maxTemps ≤ I.machine.function.maxTemps.toNat
  vars : ∀ p a, s.vars.get? p = some a → I.vars.get? p = some a

/-- The variables of the machine have values like those of the source, and there is room for all
temporaries. -/
structure Holds (ρ : Env) (m : Memory) : Prop where
  vars : ∀ p a, I.vars.get? p = some a → ∃ v, I.machine.load m a.encode = some v ∧ v.Alike (ρ p)
  room : m.temps.length = I.machine.function.maxTemps.toNat

/-- An address holds a value like `v`. -/
def Reads (m : Memory) (a : Address) (v : Value) : Prop :=
  a.encode < twoTo 32 ∧ ∃ w, I.machine.load m a.encode = some w ∧ w.Alike v

variable {I} {D : List Pos} {s s' s₁ : Lowering} {m m' m₁ : Memory} {ρ : Env} {a : Address} {v w : Value}
  {d : Nat}

theorem Includes.of_grows (h : I.Includes s') (hg : Grows D s s') : I.Includes s where
  code := hg.code.trans h.code
  binds l k hl := h.binds l k (hg.binds l k hl)
  constants := (hg.constants.map Prod.snd).trans h.constants
  temps := hg.maxTemps.trans h.temps
  vars p a hp := h.vars p a (hg.vars p a hp)

/-- A label that a state has bound stands for the place it is bound to. -/
theorem Includes.label {l k : Nat} (h : I.Includes s) (hl : s.gen.binds.getD l none = some k) :
    I.label l = I.place k := by
  unfold Image.label Assembly.target
  rw [h.binds l k hl]
  rfl

theorem Holds.same (h : I.Holds ρ m) (hm : Memory.Same d m m') : I.Holds ρ m' where
  vars p a hp := by
    obtain ⟨v, hv, hw⟩ := h.vars p a hp
    refine ⟨v, ?_, hw⟩
    rw [Machine.load_same hm, hv]
    intro ht
    rcases I.modes p a hp with h | h <;> simp [h] at ht
  room := hm.length.trans h.room

theorem Reads.same (h : I.Reads m a v) (hm : Memory.Same d m m')
    (ha : a.mode = .temporary → a.index < d) : I.Reads m' a v := by
  obtain ⟨hlt, w, hw, hv⟩ := h
  exact ⟨hlt, w, by rw [Machine.load_same hm ha, hw], hv⟩

/-- A temporary of the machine can be stored to. -/
structure Room (m : Memory) (i : Nat) : Prop where
  lt : i < m.temps.length
  narrow : ∀ t, Address.encode ⟨.temporary, i, t⟩ < twoTo 32

theorem Holds.room_of_lt {i : Nat} (hm : I.Holds ρ m) (h : i < m.temps.length) : Room m i := by
  refine ⟨h, fun t => Address.encode_lt ?_⟩
  rw [hm.room] at h
  exact lt_of_lt_of_le h I.fewTemps

theorem Reads.room {i : Nat} {t : StaticType} (h : I.Reads m ⟨.temporary, i, t⟩ v) : Room m i := by
  obtain ⟨hlt, w, hw, -⟩ := h
  rw [Machine.load_encode] at hw
  exact ⟨(List.getElem?_eq_some_iff.mp hw).1, fun _ => hlt⟩

theorem reads_setTemp {i : Nat} {t : StaticType} (h : Room m i) (hv : w.Alike v) :
    I.Reads (m.setTemp i w) ⟨.temporary, i, t⟩ v := by
  refine ⟨h.narrow t, w, ?_, hv⟩
  rw [Machine.load_encode]
  simp [Memory.setTemp, h.lt]

/-! ### What the machine does -/

/-- The machine computes a value and gets to a configuration of `Q`, or it ends with the error. -/
def Evaluates {α : Type} (I : Image cs) (c : Config) (r : Except ValueError α) (Q : α → Config → Prop) :
    Prop :=
  match r with
  | .ok a => ∃ c', I.machine.Reaches c c' ∧ Q a c'
  | .error e => I.machine.Stops c (.error (.operation e))

section Evaluates

variable {α β : Type} {c c₁ : Config} {r : Except ValueError α} {Q : α → Config → Prop}
  {R : β → Config → Prop}

theorem evaluates_ok {a : α} (h : Q a c) : I.Evaluates c (.ok a) Q := ⟨c, .refl c, h⟩

theorem Evaluates.of_reaches (h : I.Evaluates c₁ r Q) (hc : I.machine.Reaches c c₁) :
    I.Evaluates c r Q := by
  cases r with
  | ok a =>
    obtain ⟨c', h₁, h₂⟩ := h
    exact ⟨c', hc.trans h₁, h₂⟩
  | error e => exact hc.stops h

theorem Evaluates.bind {k : α → Except ValueError β} (h : I.Evaluates c r Q)
    (hk : ∀ a c', Q a c' → I.Evaluates c' (k a) R) : I.Evaluates c (r >>= k) R := by
  cases r with
  | ok a =>
    obtain ⟨c', h₁, h₂⟩ := h
    exact (hk a c' h₂).of_reaches h₁
  | error e => exact h

/-- The machine goes on by at least one step from where a value has been computed. -/
theorem Evaluates.step {Q' : α → Config → Prop} (h : I.Evaluates c r Q)
    (hQ : ∀ a c', Q a c' → ∃ c₂, I.machine.step c' = .next c₂ ∧ Q' a c₂) :
    I.Evaluates c r fun a c₂ => Q' a c₂ ∧ ∀ n, I.machine.Lasts n c₂ → I.machine.Lasts (n + 1) c := by
  cases r with
  | ok a =>
    obtain ⟨c', h₁, h₂⟩ := h
    obtain ⟨c₂, h₃, h₄⟩ := hQ a c' h₂
    exact ⟨c₂, h₁.trans (.single h₃), h₄, fun n hn => h₁.lasts (hn.succ h₃)⟩
  | error e => exact h

/-- The machine goes on from where a value has been computed. -/
theorem Evaluates.reaches {Q' : α → Config → Prop} (h : I.Evaluates c r Q)
    (hQ : ∀ a c', Q a c' → ∃ c₂, I.machine.Reaches c' c₂ ∧ Q' a c₂) : I.Evaluates c r Q' := by
  cases r with
  | ok a =>
    obtain ⟨c', h₁, h₂⟩ := h
    obtain ⟨c₂, h₃, h₄⟩ := hQ a c' h₂
    exact ⟨c₂, h₁.trans h₃, h₄⟩
  | error e => exact h

theorem Evaluates.mono {Q' : α → Config → Prop} (h : I.Evaluates c r Q)
    (hQ : ∀ a c', Q a c' → Q' a c') : I.Evaluates c r Q' :=
  h.reaches fun a c' hc => ⟨c', .refl c', hQ a c' hc⟩

end Evaluates

/-- The machine does what a statement does: it gets to where that leads to, it ends with its value or
its error, or it goes on for as long as loops may be repeated. -/
def Follows (I : Image cs) (fuel : Nat) (c : Config) (o : Ending) (next broke continued : Env → Config → Prop) :
    Prop :=
  match o with
  | .next ρ => ∃ c', I.machine.Reaches c c' ∧ next ρ c'
  | .broke ρ => ∃ c', I.machine.Reaches c c' ∧ broke ρ c'
  | .continued ρ => ∃ c', I.machine.Reaches c c' ∧ continued ρ c'
  | .returned v => ∃ w, I.machine.Stops c (.ok w) ∧ w.Alike v
  | .failed e => I.machine.Stops c (.error (.operation e))
  | .exhausted => I.machine.Lasts fuel c

section Follows

variable {fuel : Nat} {c c₁ : Config} {o : Ending} {N N' B B' C C' : Env → Config → Prop}

theorem Follows.of_reaches (h : I.Follows fuel c₁ o N B C) (hc : I.machine.Reaches c c₁) :
    I.Follows fuel c o N B C := by
  cases o with
  | next ρ | broke ρ | continued ρ =>
    obtain ⟨c', h₁, h₂⟩ := h
    exact ⟨c', hc.trans h₁, h₂⟩
  | returned v =>
    obtain ⟨w, h₁, h₂⟩ := h
    exact ⟨w, hc.stops h₁, h₂⟩
  | failed e => exact hc.stops h
  | exhausted => exact hc.lasts h

theorem Follows.mono (h : I.Follows fuel c o N B C) (hN : ∀ ρ c', N ρ c' → N' ρ c')
    (hB : ∀ ρ c', B ρ c' → B' ρ c') (hC : ∀ ρ c', C ρ c' → C' ρ c') :
    I.Follows fuel c o N' B' C' := by
  cases o with
  | next ρ =>
    obtain ⟨c', h₁, h₂⟩ := h
    exact ⟨c', h₁, hN ρ c' h₂⟩
  | broke ρ =>
    obtain ⟨c', h₁, h₂⟩ := h
    exact ⟨c', h₁, hB ρ c' h₂⟩
  | continued ρ =>
    obtain ⟨c', h₁, h₂⟩ := h
    exact ⟨c', h₁, hC ρ c' h₂⟩
  | returned v | failed e | exhausted => exact h

theorem follows_next {ρ : Env} (h : N ρ c) : I.Follows fuel c (.next ρ) N B C := ⟨c, .refl c, h⟩

/-- What follows a value. -/
theorem Evaluates.follows {r : Except ValueError Value} {Q : Value → Config → Prop}
    {k : Value → Ending} (h : I.Evaluates c r Q)
    (hk : ∀ v c', Q v c' → I.Follows fuel c' (k v) N B C) : I.Follows fuel c (.ofValue r k) N B C := by
  cases r with
  | ok v =>
    obtain ⟨c', h₁, h₂⟩ := h
    exact (hk v c' h₂).of_reaches h₁
  | error e => exact h

/-- One statement after another. -/
theorem Follows.andThen {k : Env → Ending} (h : I.Follows fuel c o N B C)
    (hk : ∀ ρ c', N ρ c' → I.Follows fuel c' (k ρ) N' B C) :
    I.Follows fuel c (o.andThen k) N' B C := by
  cases o with
  | next ρ =>
    obtain ⟨c', h₁, h₂⟩ := h
    exact (hk ρ c' h₂).of_reaches h₁
  | broke ρ | continued ρ | returned v | failed e | exhausted => exact h

end Follows

/-! ### Single instructions -/

section Instructions

variable {k : Nesting} {x y : Address} {op : Opcode} {args : List Nat}

theorem here_of_adds (h : Adds s [] k s') (m : Memory) : I.here s' m = I.here s m := by
  have hlen : s'.gen.instructions.length = s.gen.instructions.length := by
    have := congrArg List.length h.code
    simpa [Lowering.code] using this
  unfold here
  rw [hlen]

/-- Operands that go with the kinds of an operation without a list. -/
theorem readable {ks : List OperandKind} (hs : op.shape = ks) (h : args.length = ks.length ∧
    .list ∉ ks ∧ ∀ o ∈ Instruction.operandsFrom ks args, o.1 = .label ∨ o.2 < twoTo 32) :
    (⟨op, args⟩ : Instruction).Readable := by
  subst hs
  obtain ⟨hlen, hlist, hnarrow⟩ := h
  refine ⟨?_, hnarrow⟩
  unfold Instruction.arity
  split
  · rename_i hlast
    exact absurd (List.mem_of_getLast? hlast) hlist
  · exact hlen

/-- An instruction that has been added is read at the place behind the code before it. -/
theorem fetch_of_adds (h : Adds s [⟨op, args⟩] k s') (hi : I.Includes s')
    (hr : (⟨op, args⟩ : Instruction).Readable) :
    I.machine.fetch (I.place s.gen.instructions.length) =
      .ok ((⟨op, args⟩ : Instruction).resolve I.label, I.place s'.gen.instructions.length) := by
  have hcode := h.code
  have hlen : s'.gen.instructions.length = s.gen.instructions.length + 1 := by
    have := congrArg List.length hcode
    simpa [Lowering.code] using this
  have hat : (s'.gen.instructions.map (·.instruction))[s.gen.instructions.length]? =
      some ⟨op, args⟩ := by
    show s'.code[_]? = _
    rw [hcode, List.getElem?_append_right (by simp [Lowering.code])]
    simp [Lowering.code]
  rw [List.getElem?_map] at hat
  obtain ⟨i, hget, hins⟩ := Option.map_eq_some_iff.mp hat
  have hall : I.assembly.instructions[s.gen.instructions.length]? = some i := by
    obtain ⟨t, ht⟩ := hi.code
    rw [← ht, List.getElem?_append_left (by omega)]
    exact hget
  have hf := I.fetch _ i hall (hins ▸ hr)
  rw [hins, ← hlen] at hf
  exact hf

/-- The instruction that has been added is the next one. -/
theorem step_of_adds (h : Adds s [⟨op, args⟩] k s') (hi : I.Includes s')
    (hr : (⟨op, args⟩ : Instruction).Readable) :
    I.machine.step (I.here s m) = I.machine.perform (I.here s m).pc (I.here s' m).pc
      ((⟨op, args⟩ : Instruction).resolve I.label) m := by
  have hfetch : I.machine.fetch (I.here s m).pc = _ := fetch_of_adds h hi hr
  unfold Machine.step
  rw [hfetch]
  rfl

theorem reaches_line {n : Nat} (h : Adds s [⟨.line, [n]⟩] k s') (hi : I.Includes s')
    (hn : n < twoTo 32) (m : Memory) : I.machine.Reaches (I.here s m) (I.here s' m) :=
  .single (step_of_adds h hi (readable rfl (by simp [hn])))

theorem reaches_jump {l : Nat} (h : Adds s [⟨.jump, [l]⟩] k s') (hi : I.Includes s') (m : Memory) :
    I.machine.Reaches (I.here s m) ⟨I.label l, m⟩ :=
  .single (step_of_adds h hi (readable rfl (by simp)))

/-- A jump that is taken unless the condition is true. -/
theorem step_jumpIfNot {l : Nat} (h : Adds s [⟨.jumpIfNot, [x.encode, l]⟩] k s')
    (hi : I.Includes s') (hx : I.Reads m x v) : I.machine.step (I.here s m) =
      .next (if v.truth then I.here s' m else ⟨I.label l, m⟩) := by
  obtain ⟨hlt, w, hw, hv⟩ := hx
  refine (step_of_adds h hi (readable rfl (by simp [hlt]))).trans ?_
  show Machine.withSome (I.machine.load m x.encode) _ = _
  rw [hw, ← hv.truth_eq]
  dsimp only [Machine.withSome]
  split <;> rfl

/-- A jump that is taken if the condition is true. -/
theorem step_jumpIf {l : Nat} (h : Adds s [⟨.jumpIf, [x.encode, l]⟩] k s')
    (hi : I.Includes s') (hx : I.Reads m x v) : I.machine.step (I.here s m) =
      .next (if v.truth then ⟨I.label l, m⟩ else I.here s' m) := by
  obtain ⟨hlt, w, hw, hv⟩ := hx
  refine (step_of_adds h hi (readable rfl (by simp [hlt]))).trans ?_
  show Machine.withSome (I.machine.load m x.encode) _ = _
  rw [hw, ← hv.truth_eq]
  dsimp only [Machine.withSome]
  split <;> rfl

theorem stops_return (h : Adds s [⟨.return, [x.encode]⟩] k s') (hi : I.Includes s')
    (hx : I.Reads m x v) : ∃ w, I.machine.Stops (I.here s m) (.ok w) ∧ w.Alike v := by
  obtain ⟨hlt, w, hw, hv⟩ := hx
  refine ⟨w, Machine.stops_of_step ((step_of_adds h hi (readable rfl (by simp [hlt]))).trans ?_), hv⟩
  show Machine.withSome (I.machine.load m x.encode) _ = _
  rw [hw]
  rfl

section Temporary

variable {i : Nat} {t : StaticType}

/-- A value is copied to a temporary. -/
theorem reaches_assign (h : Adds s [⟨.assign, [Address.encode ⟨.temporary, i, t⟩, x.encode]⟩] k s')
    (hi : I.Includes s') (hm : Room m i) (hx : I.Reads m x v) :
    ∃ w, I.machine.Reaches (I.here s m) (I.here s' (m.setTemp i w)) ∧ w.Alike v := by
  obtain ⟨hlt, w, hw, hv⟩ := hx
  refine ⟨w, .single ((step_of_adds h hi (readable rfl (by simp [hlt, hm.narrow]))).trans ?_), hv⟩
  show Machine.withSome (I.machine.load m x.encode) _ = _
  rw [hw]
  exact Machine.put_temporary hm.lt w

/-- A type test of a pattern. -/
theorem reaches_matchType {u : BuiltinType}
    (h : Adds s [⟨.matchType, [Address.encode ⟨.temporary, i, t⟩, x.encode, u.number]⟩] k s')
    (hi : I.Includes s') (hm : Room m i) (hx : I.Reads m x v) :
    I.machine.Reaches (I.here s m) (I.here s' (m.setTemp i (.bool (v.type.mayEqual u)))) := by
  obtain ⟨hlt, w, hw, hv⟩ := hx
  have hu : u.number < twoTo 32 := by cases u <;> decide
  refine .single ((step_of_adds h hi (readable rfl (by simp [hlt, hm.narrow, hu]))).trans ?_)
  show Machine.withSome (I.machine.load m x.encode) _ = _
  rw [hw]
  show Machine.put m _ (Address.encode ⟨.temporary, i, t⟩)
    (.bool ((BuiltinType.ofNumber? u.number).any w.type.mayEqual)) = _
  rw [BuiltinType.ofNumber?_number, Machine.put_temporary hm.lt, hv.type_eq]
  rfl

/-- An operation puts its result into a temporary, or stops with its error. -/
theorem step_operator {o : Operator} (hop : op = .operator ∨ op = .operatorValidated)
    (h : Adds s [⟨op, [Address.encode ⟨.temporary, i, t⟩, o.number, x.encode, y.encode]⟩] k s')
    (hi : I.Includes s') (hm : Room m i) (hx : x.encode < twoTo 32) (hy : y.encode < twoTo 32) :
    I.machine.step (I.here s m) =
      match I.machine.operate m o.number x.encode y.encode with
      | .ok v => Machine.put m (I.here s' m).pc (Address.encode ⟨.temporary, i, t⟩) v
      | .error e => .done (.error e) := by
  have ho : o.number < twoTo 32 := by cases o <;> decide
  rcases hop with rfl | rfl <;>
    exact step_of_adds h hi (readable rfl (by simp [hx, hy, ho, hm.narrow]))

/-- An operation whose result, up to the bits of NaNs, is `r`. -/
theorem evaluates_operator {o : Operator} {r : Except ValueError Value}
    (hop : op = .operator ∨ op = .operatorValidated)
    (h : Adds s [⟨op, [Address.encode ⟨.temporary, i, t⟩, o.number, x.encode, y.encode]⟩] k s')
    (hi : I.Includes s') (hm : Room m i) (hx : x.encode < twoTo 32) (hy : y.encode < twoTo 32)
    {r' : Except ValueError Value}
    (hr' : I.machine.operate m o.number x.encode y.encode = r'.mapError .operation)
    (hr : r'.map Value.unify = r.map Value.unify) :
    I.Evaluates (I.here s m) r fun v c => ∃ w, c = I.here s' (m.setTemp i w) ∧ w.Alike v := by
  have hstep := step_operator hop h hi hm hx hy
  rw [hr'] at hstep
  cases r' with
  | ok w =>
    cases r with
    | ok v =>
      refine ⟨_, .single (hstep.trans (Machine.put_temporary hm.lt w)), w, rfl, ?_⟩
      exact Except.ok.inj hr
    | error e => cases hr
  | error e' =>
    cases r with
    | ok v => cases hr
    | error e =>
      obtain rfl : e' = e := Except.error.inj hr
      exact Machine.stops_of_step hstep

theorem operator_number (o : Operator) : Operator.ofNumber? o.number = some o := by
  cases o <;> rfl

theorem evaluates_binary {o : Operator} (hop : op = .operator ∨ op = .operatorValidated)
    (h : Adds s [⟨op, [Address.encode ⟨.temporary, i, t⟩, o.number, x.encode, y.encode]⟩] k s')
    (hi : I.Includes s') (hm : Room m i) (hx : I.Reads m x v) (hy : I.Reads m y w)
    (hn : y.mode ≠ .nil) : I.Evaluates (I.here s m) (Value.binary o v w) fun r c =>
      ∃ u, c = I.here s' (m.setTemp i u) ∧ u.Alike r := by
  obtain ⟨hx, v', hv', hv⟩ := hx
  obtain ⟨hy, w', hw', hw⟩ := hy
  refine evaluates_operator hop h hi hm hx hy ?_ (hv.binary_eq hw o)
  unfold Machine.operate
  rw [operator_number, hv', hw']
  simp [Address.ofNumber_encode, hn]

theorem evaluates_unary {o : Operator} (hop : op = .operator ∨ op = .operatorValidated)
    (h : Adds s [⟨op, [Address.encode ⟨.temporary, i, t⟩, o.number, x.encode, Address.nil.encode]⟩] k s')
    (hi : I.Includes s') (hm : Room m i) (hx : I.Reads m x v) :
    I.Evaluates (I.here s m) (Value.unary o v) fun r c =>
      ∃ u, c = I.here s' (m.setTemp i u) ∧ u.Alike r := by
  obtain ⟨hx, v', hv', hv⟩ := hx
  refine evaluates_operator hop h hi hm hx (by decide) ?_ (hv.unary_eq o)
  unfold Machine.operate
  rw [operator_number, hv', Machine.load_encode]
  simp [Address.ofNumber_encode, Address.nil]

end Temporary

/-- A value is stored to a variable, and all else stays as it is. -/
theorem reaches_assign_variable {p : Pos} {b : Address}
    (h : Adds s [⟨.assign, [a.encode, x.encode]⟩] k s') (hi : I.Includes s') (hm : I.Holds ρ m)
    (hp : I.vars.get? p = some b) (hab : a.encode = b.encode) (hx : I.Reads m x v) :
    ∃ m', I.machine.Reaches (I.here s m) (I.here s' m') ∧ I.Holds (ρ.set p v) m' ∧
      m'.temps = m.temps := by
  obtain ⟨hlt, w, hw, hv⟩ := hx
  have hlt' : a.encode < twoTo 32 := hab ▸ Address.encode_lt (I.few p b hp)
  obtain ⟨m', hstore, htemps, hload⟩ : ∃ m', m.store b.encode w = some m' ∧ m'.temps = m.temps ∧
      ∀ c : Address, c.mode = .parameter ∨ c.mode = .localVar → I.machine.load m' c.encode =
        if c.mode = b.mode ∧ c.index = b.index then some w else I.machine.load m c.encode := by
    obtain ⟨u, hu, -⟩ := hm.vars p b hp
    rw [Machine.load_encode] at hu
    simp only [Memory.store, Address.ofNumber_encode, Address.encode_div, Machine.load_encode]
    rcases I.modes p b hp with hb | hb
    · rw [hb] at hu ⊢
      obtain ⟨hlt, -⟩ := List.getElem?_eq_some_iff.mp hu
      refine ⟨{ m with params := m.params.set b.index w }, by simp [hlt], rfl, fun c hc => ?_⟩
      rcases hc with hc | hc
      · by_cases hci : c.index = b.index
        · simp [hc, hci, hlt]
        · simp [hc, hci, List.getElem?_set_ne (Ne.symm hci)]
      · simp [hc]
    · rw [hb] at hu ⊢
      obtain ⟨hlt, -⟩ := List.getElem?_eq_some_iff.mp hu
      refine ⟨{ m with locals := m.locals.set b.index w }, by simp [hlt], rfl, fun c hc => ?_⟩
      rcases hc with hc | hc
      · simp [hc]
      · by_cases hci : c.index = b.index
        · simp [hc, hci, hlt]
        · simp [hc, hci, List.getElem?_set_ne (Ne.symm hci)]
  refine ⟨m', .single ((step_of_adds h hi (readable rfl (by simp [hlt, hlt']))).trans ?_),
    ⟨fun q c hq => ?_, ?_⟩, htemps⟩
  · show Machine.withSome (I.machine.load m x.encode) _ = _
    rw [hw]
    show Machine.withSome (m.store a.encode w) _ = _
    rw [hab, hstore]
    rfl
  · rw [hload c (I.modes q c hq)]
    by_cases hqp : q = p
    · subst hqp
      rw [hp] at hq
      obtain rfl := Option.some.inj hq
      exact ⟨w, by simp, by simpa [Env.set] using hv⟩
    · have hne : ¬ (c.mode = b.mode ∧ c.index = b.index) := fun hc =>
        hqp (I.distinct q p c b hq hp hc.1 hc.2)
      obtain ⟨u, hu, hul⟩ := hm.vars q c hq
      exact ⟨u, by rw [if_neg hne, hu], by simpa [Env.set, hqp] using hul⟩
  · rw [htemps]
    exact hm.room

end Instructions

end Image

end GameScript
