import GameScript.Lowering.Body
import GameScript.Lowering.Generator
import GameScript.Proofs.Code.Reading

/-!
# What the steps of a generator do

`Gen.After x g Q E` says how a step ends when it is taken in `g`: with a result and a generator for
which `Q` holds, or with a fault for which `E` holds. One lemma for each step says what it does; later
proofs use these lemmas and do not look into the steps.
-/

namespace GameScript

/-! ### Changes of a generator -/

namespace Generator

/-- One more instruction. -/
def push (g : Generator) (op : Opcode) (args : List Nat) : Generator :=
  { g with instructions := g.instructions ++ [⟨⟨op, args⟩, g.line⟩] }

/-- One more label, which is not bound. -/
def addLabel (g : Generator) : Generator := { g with binds := g.binds ++ [none] }

/-- A label bound to the next instruction. -/
def bindLabel (g : Generator) (l : Nat) : Generator :=
  { g with binds := g.binds.set l (some g.instructions.length) }

/-- One more temporary. -/
def alloc (g : Generator) (t : StaticType) : Generator :=
  { g with
    temps := t :: g.temps
    allocated := g.allocated + 1
    maxTemps := max g.maxTemps (g.temps.length + 1) }

/-- The innermost temporary released. -/
def free (g : Generator) : Generator :=
  { g with temps := g.temps.drop 1, released := g.released + 1 }

/-- The assembly that the code is made from. -/
def assembly (g : Generator) : Assembly := ⟨g.instructions, g.binds⟩

end Generator

/-! ### Pools that grow -/

namespace Pool

/-- The constants of a pool have their keys. -/
def Keyed (p : Pool) : Prop := ∀ c ∈ p.constants, c.1 = key c.2

/-- The constants and functions of a pool keep their numbers. -/
structure Le (p p' : Pool) : Prop where
  constants : p.constants <+: p'.constants
  functions : p.functions <+: p'.functions
  keyed : p.Keyed → p'.Keyed

variable {p p' p'' : Pool}

theorem Le.refl (p : Pool) : p.Le p := ⟨List.prefix_refl _, List.prefix_refl _, fun h => h⟩

theorem Le.trans (h : p.Le p') (h' : p'.Le p'') : p.Le p'' :=
  ⟨h.constants.trans h'.constants, h.functions.trans h'.functions, fun hp => h'.keyed (h.keyed hp)⟩

theorem le_name (p : Pool) (n : Text) : p.Le (p.name n).2 := by
  unfold name
  split
  · exact .refl p
  · exact ⟨List.prefix_refl _, List.prefix_refl _, fun h => h⟩

theorem le_constant (p : Pool) (v : Value) : p.Le (p.constant v).2 := by
  unfold constant
  dsimp only
  split
  · exact .refl p
  · refine ⟨List.prefix_append _ _, List.prefix_refl _, fun h c hc => ?_⟩
    rcases List.mem_append.mp hc with hc | hc
    · exact h c hc
    · rw [List.mem_singleton.mp hc]

theorem le_add (p : Pool) (f : Function) : p.Le (p.add f).2 :=
  ⟨List.prefix_refl _, List.prefix_append _ _, fun h => h⟩

end Pool

namespace Gen

variable {α β : Type} {g : Generator} {E : InternalFault → Prop}

/-! ### Ends of steps -/

/-- Taken in `g`, the step `x` ends in a state of `Q`, or with a fault of `E`. -/
def After (x : Gen α) (g : Generator) (Q : α → Generator → Prop) (E : InternalFault → Prop) : Prop :=
  match x.run g with
  | (.ok a, g') => Q a g'
  | (.error f, _) => E f

theorem After.mono {x : Gen α} {Q Q' : α → Generator → Prop} {E' : InternalFault → Prop}
    (h : After x g Q E) (hQ : ∀ a g', Q a g' → Q' a g') (hE : ∀ f, E f → E' f) : After x g Q' E' := by
  unfold After at h ⊢
  split at h
  · exact hQ _ _ h
  · exact hE _ h

theorem After.of_run {x : Gen α} {Q : α → Generator → Prop} {a : α} {g' : Generator}
    (h : After x g Q E) (hr : x.run g = (.ok a, g')) : Q a g' := by
  unfold After at h
  rw [hr] at h
  exact h

theorem run_bind (x : Gen α) (f : α → Gen β) (g : Generator) :
    (x >>= f).run g = match x.run g with
      | (.ok a, g') => (f a).run g'
      | (.error e, g') => (.error e, g') := by
  show (match x.run g with | (r, g') => (ExceptT.bindCont f r) g') = _
  rcases x.run g with ⟨_ | _, _⟩ <;> rfl

@[simp] theorem after_pure {a : α} {Q : α → Generator → Prop} : After (pure a) g Q E ↔ Q a g := Iff.rfl

@[simp] theorem after_bind {x : Gen α} {f : α → Gen β} {Q : β → Generator → Prop} :
    After (x >>= f) g Q E ↔ After x g (fun a g' => After (f a) g' Q E) E := by
  unfold After
  rw [run_bind]
  rcases x.run g with ⟨_ | _, _⟩ <;> rfl

@[simp] theorem after_throw {f : InternalFault} {Q : α → Generator → Prop} :
    After (throw f) g Q E ↔ E f := Iff.rfl

@[simp] theorem after_get {Q : Generator → Generator → Prop} : After get g Q E ↔ Q g g := Iff.rfl

@[simp] theorem after_set {g' : Generator} {Q : PUnit → Generator → Prop} :
    After (set g') g Q E ↔ Q () g' := Iff.rfl

@[simp] theorem after_modify {f : Generator → Generator} {Q : PUnit → Generator → Prop} :
    After (modify f) g Q E ↔ Q () (f g) := Iff.rfl

theorem after_ite {c : Prop} [Decidable c] {x y : Gen α} {Q : α → Generator → Prop} :
    After (if c then x else y) g Q E ↔ if c then After x g Q E else After y g Q E := by
  split <;> rfl

/-! ### Instructions and labels -/

/-- The fault of an instruction whose operands do not fit. -/
def operandFault (op : Opcode) (args : List Nat) : InternalFault :=
  if op.shape.getLast? = some .list && args.length < op.shape.length then
    .tooFewOperands op args.length op.shape.length
  else .operandCount op args.length (Instruction.arity op args)

theorem after_emit {op : Opcode} {args : List Nat} {Q : Unit → Generator → Prop} :
    After (emit op args) g Q E ↔
      if args.length = Instruction.arity op args then Q () (g.push op args)
      else E (operandFault op args) := by
  have hfew : args.length = Instruction.arity op args → ¬ args.length < op.shape.length := by
    intro h
    have : op.shape.length ≤ Instruction.arity op args := by
      unfold Instruction.arity
      split <;> omega
    omega
  unfold emit operandFault
  by_cases h : args.length = Instruction.arity op args
  · have hn : ¬ (op.shape.getLast? = some .list ∧ args.length < op.shape.length) :=
      fun hc => hfew h hc.2
    simp only [Bool.and_eq_true, decide_eq_true_eq, hn, if_false, ne_eq, eq_true h,
      not_true_eq_false, if_true]
    rfl
  · by_cases hl : op.shape.getLast? = some .list ∧ args.length < op.shape.length
    · simp only [hl, h, after_bind, after_throw, ne_eq, not_false_eq_true, decide_true, Bool.and_self, if_true,
        if_false]
    · simp only [Bool.and_eq_true, decide_eq_true_eq, hl, if_false, after_bind, after_throw, ne_eq, h,
        not_false_eq_true, if_true]

/-- An instruction whose operands are known to fit. -/
theorem after_emit_of_fits {op : Opcode} {args : List Nat} {Q : Unit → Generator → Prop}
    (h : args.length = Instruction.arity op args) :
    After (emit op args) g Q E ↔ Q () (g.push op args) := by
  rw [after_emit, if_pos h]

/-- An instruction that ends with a list fits if it has the operands before the list. -/
theorem after_emitList {op : Opcode} {list : List Address} {args : List Nat}
    {Q : Unit → Generator → Prop} (hl : op.shape.getLast? = some .list)
    (ha : args.length + 1 = op.shape.length) :
    After (emitList op list args) g Q E ↔
      Q () (g.push op (args ++ list.length :: list.map Address.encode)) := by
  unfold emitList
  apply after_emit_of_fits
  simp only [Instruction.arity, hl, ← ha, Nat.add_sub_cancel, List.length_append, List.length_cons,
    List.length_map, List.getD_append_right _ _ _ _ (le_refl _), Nat.sub_self, List.getD_cons_zero]
  omega

@[simp] theorem after_newLabel {Q : Nat → Generator → Prop} :
    After newLabel g Q E ↔ Q g.binds.length g.addLabel := Iff.rfl

theorem after_bindLabel {l : Nat} {Q : Unit → Generator → Prop} :
    After (bind l) g Q E ↔
      if (g.binds.getD l none).isSome then E (.boundTwice l) else Q () (g.bindLabel l) := by
  unfold Gen.bind
  split <;> simp_all [Generator.bindLabel]

@[simp] theorem after_setLine {line : Int} {Q : Unit → Generator → Prop} :
    After (setLine line) g Q E ↔ Q () { g with line } := Iff.rfl

/-! ### Temporaries -/

@[simp] theorem after_addTemporary {t : StaticType} {Q : Address → Generator → Prop} :
    After (addTemporary t) g Q E ↔ Q ⟨.temporary, g.temps.length, t⟩ (g.alloc t) := Iff.rfl

theorem after_release {a : Address} {Q : Unit → Generator → Prop} :
    After (release a) g Q E ↔
      if a.isTemporary then
        if g.temps.length = a.index + 1 then Q () g.free else E (.releaseOrder a.mode g.temps.length)
      else Q () g := by
  unfold release
  by_cases ha : a.isTemporary
  · have hm : a.mode = .temporary := by simpa [Address.isTemporary] using ha
    unfold popTemporary
    by_cases hl : g.temps.length = a.index + 1
    · simp [hm, hl, ha, Generator.free]
    · simp [hm, hl, ha]
  · simp [ha]

/-! ### Names, constants and frames -/

@[simp] theorem after_name {n : Text} {Q : Nat → Generator → Prop} :
    After (name n) g Q E ↔ Q (g.pool.name n).1 { g with pool := (g.pool.name n).2 } := Iff.rfl

@[simp] theorem after_constant {v : Value} {Q : Address → Generator → Prop} :
    After (constant v) g Q E ↔
      Q ⟨.constant, (g.pool.constant v).1, .ofValue v⟩ { g with pool := (g.pool.constant v).2 } :=
  Iff.rfl

@[simp] theorem after_pushFrame {kind : FrameKind} {Q : Unit → Generator → Prop} :
    After (pushFrame kind) g Q E ↔
      Q () { g.addLabel.addLabel with
        frames := ⟨kind, g.binds.length, g.addLabel.binds.length⟩ :: g.frames } := Iff.rfl

theorem after_topFrame {kind : FrameKind} {Q : Frame → Generator → Prop} :
    After (topFrame kind) g Q E ↔
      match g.frames with
      | f :: _ => if f.kind = kind then Q f g else E (.unmatched kind)
      | [] => E (.unmatched kind) := by
  unfold topFrame
  simp only [after_bind, after_get]
  rcases g.frames with _ | ⟨f, fs⟩
  · rfl
  · show After (if f.kind = kind then pure f else throw (.unmatched kind)) g Q E ↔ _
    rw [after_ite]
    rfl

theorem after_popFrame {kind : FrameKind} {Q : Frame → Generator → Prop} :
    After (popFrame kind) g Q E ↔
      match g.frames with
      | f :: fs => if f.kind = kind then Q f { g with frames := fs } else E (.unmatched kind)
      | [] => E (.unmatched kind) := by
  unfold popFrame
  simp only [after_bind, after_topFrame, after_modify, after_pure]
  rcases g.frames with _ | ⟨f, fs⟩ <;> rfl

end Gen

end GameScript

/-!
## How steps of lowering end

`Lower.After x ctx s Q E` says how a step ends when it is taken in `s`: with a result and a state for
which `Q` holds, or with an error for which `E` holds. Proofs about lowering put the ends of steps
together with `After.bind`.
-/

namespace GameScript

namespace Table

variable {κ α : Type} [DecidableEq κ]

theorem get?_set (t : Table κ α) (k k' : κ) (a : α) :
    (t.set k a).get? k' = if k = k' then some a else t.get? k' := by
  have key : ∀ es : List (κ × α), ((setIn k a es).find? (·.1 = k')).map Prod.snd =
      if k = k' then some a else (es.find? (·.1 = k')).map Prod.snd := by
    intro es
    induction es with
    | nil => by_cases h : k = k' <;> simp [setIn, h]
    | cons e es ih =>
      rw [setIn]
      by_cases he : e.1 = k
      · by_cases h : k = k' <;> simp [he, h]
      · by_cases h : k = k'
        · have : e.1 ≠ k' := fun h' => he (h'.trans h.symm)
          simpa [he, h, this] using ih
        · by_cases h' : e.1 = k' <;> simp_all
  exact key t.entries

end Table

namespace Lower

variable {α β : Type} {ctx : LowerContext} {s : Lowering} {E : LowerError → Prop}

/-- Taken in `s`, the step `x` ends in a state of `Q`, or with an error of `E`. -/
def After (x : Lower α) (ctx : LowerContext) (s : Lowering) (Q : α → Lowering → Prop)
    (E : LowerError → Prop) : Prop :=
  match x ctx s with
  | (.ok a, s') => Q a s'
  | (.error e, _) => E e

theorem After.mono {x : Lower α} {Q Q' : α → Lowering → Prop} {E' : LowerError → Prop}
    (h : After x ctx s Q E) (hQ : ∀ a s', Q a s' → Q' a s') (hE : ∀ e, E e → E' e) :
    After x ctx s Q' E' := by
  unfold After at h ⊢
  split at h
  · exact hQ _ _ h
  · exact hE _ h

/-- A stronger condition on the state in which a step ends. -/
theorem After.post {x : Lower α} {Q Q' : α → Lowering → Prop} (h : After x ctx s Q E)
    (hQ : ∀ a s', Q a s' → Q' a s') : After x ctx s Q' E :=
  h.mono hQ fun _ h => h

theorem After.and {x : Lower α} {P Q : α → Lowering → Prop} (hP : After x ctx s P E) (hQ : After x ctx s Q E) :
    After x ctx s (fun a s' => P a s' ∧ Q a s') E := by
  unfold After at *
  revert hP hQ
  rcases x ctx s with ⟨_ | a, s'⟩
  · exact fun h _ => h
  · exact fun hP hQ => ⟨hP, hQ⟩

theorem After.of_run {x : Lower α} {Q : α → Lowering → Prop} {a : α} {s' : Lowering}
    (h : After x ctx s Q E) (hr : x ctx s = (.ok a, s')) : Q a s' := by
  unfold After at h
  rw [hr] at h
  exact h

theorem run_bind (x : Lower α) (f : α → Lower β) (ctx : LowerContext) (s : Lowering) :
    (x >>= f) ctx s = match x ctx s with
      | (.ok a, s') => f a ctx s'
      | (.error e, s') => (.error e, s') := by
  show (match x ctx s with | (r, s') => (ExceptT.bindCont (fun a => f a ctx) r) s') = _
  rcases x ctx s with ⟨_ | _, _⟩ <;> rfl

@[simp] theorem after_bind {x : Lower α} {f : α → Lower β} {Q : β → Lowering → Prop} :
    After (x >>= f) ctx s Q E ↔ After x ctx s (fun a s' => After (f a) ctx s' Q E) E := by
  unfold After
  rw [run_bind]
  rcases x ctx s with ⟨_ | _, _⟩ <;> rfl

/-- One step after another. -/
theorem After.bind {x : Lower α} {f : α → Lower β} {P : α → Lowering → Prop}
    {Q : β → Lowering → Prop} (hx : After x ctx s P E)
    (hf : ∀ a s', P a s' → After (f a) ctx s' Q E) : After (x >>= f) ctx s Q E :=
  after_bind.mpr (hx.post hf)

@[simp] theorem after_pure {a : α} {Q : α → Lowering → Prop} :
    After (pure a) ctx s Q E ↔ Q a s := Iff.rfl

@[simp] theorem after_read {Q : LowerContext → Lowering → Prop} :
    After read ctx s Q E ↔ Q ctx s := Iff.rfl

@[simp] theorem after_current {Q : Lowering → Lowering → Prop} :
    After current ctx s Q E ↔ Q s s := Iff.rfl

@[simp] theorem after_update {f : Lowering → Lowering} {Q : Unit → Lowering → Prop} :
    After (update f) ctx s Q E ↔ Q () (f s) := Iff.rfl

@[simp] theorem after_throw {e : LowerError} {Q : α → Lowering → Prop} :
    After (throw e) ctx s Q E ↔ E e := Iff.rfl

@[simp] theorem after_contradiction {f : InternalFault} {Q : α → Lowering → Prop} :
    After (contradiction f) ctx s Q E ↔ E { fault := .internal f } := Iff.rfl

@[simp] theorem after_report {pos : Pos} {f : CompileFault} {Q : α → Lowering → Prop} :
    After (report pos f) ctx s Q E ↔ E ⟨some pos, f⟩ := Iff.rfl

/-- A step of generation changes the generator only. -/
@[simp] theorem after_lift {x : Gen α} {Q : α → Lowering → Prop} :
    After (liftM x) ctx s Q E ↔
      Gen.After x s.gen (fun a g => Q a { s with gen := g }) fun f => E { fault := .internal f } := by
  show (match ofGen x ctx s with
    | (.ok a, s') => Q a s'
    | (.error e, _) => E e) ↔ _
  unfold ofGen Gen.After
  rcases x.run s.gen with ⟨_ | _, _⟩ <;> rfl

/-- A step of generation in two parts is one part after the other. -/
theorem lift_bind (x : Gen α) (f : α → Gen β) :
    (liftM (x >>= f) : Lower β) = liftM x >>= fun a => liftM (f a) := by
  funext ctx s
  rw [run_bind]
  show ofGen (x >>= f) ctx s = match ofGen x ctx s with
    | (.ok a, s') => ofGen (f a) ctx s'
    | (.error e, s') => (.error e, s')
  unfold ofGen
  rw [Gen.run_bind]
  rcases x.run s.gen with ⟨_ | _, _⟩ <;> rfl

/-! ### Steps that only look something up -/

@[simp] theorem after_note {p : Pos} {Q : Note → Lowering → Prop} :
    After (note p) ctx s Q E ↔ Q (ctx.session.note ⟨ctx.unit, p⟩) s := Iff.rfl

@[simp] theorem after_types {Q : TypeContext → Lowering → Prop} :
    After types ctx s Q E ↔ Q ctx.session.types s := Iff.rfl

@[simp] theorem after_placeText {p : Pos} {Q : Text → Lowering → Prop} :
    After (placeText p) ctx s Q E ↔ Q (p.textIn (ctx.session.pathOf ctx.unit)) s := Iff.rfl

@[simp] theorem after_inAccessor {m : MemberSlot} {Q : Bool → Lowering → Prop} :
    After (inAccessor m) ctx s Q E ↔
      Q (!ctx.function.isEmpty && (ctx.function = m.getter || ctx.function = m.setter)) s := Iff.rfl

@[simp] theorem after_slotOf {name : Text} {pos : Pos} {t : StaticType} {Q : VarSlot → Lowering → Prop} :
    After (slotOf name pos t) ctx s Q E ↔
      Q { name, place := .ofPos pos, type := .ofStatic ctx.session.types t } s := Iff.rfl

@[simp] theorem after_bindVar {anchor : Pos} {a : Address} {Q : Unit → Lowering → Prop} :
    After (bindVar anchor a) ctx s Q E ↔ Q () { s with vars := s.vars.set anchor a } := Iff.rfl

/-- Both operations of an operator have the same operands. -/
theorem shape_operation (ts : List StaticType) :
    (operation ts).shape = [.address, .operator, .address, .address] := by
  unfold operation
  split <;> rfl

end Lower

end GameScript
