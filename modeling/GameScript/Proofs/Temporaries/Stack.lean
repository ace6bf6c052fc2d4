import GameScript.Proofs.Lowering.Generator
import GameScript.Proofs.Temporaries.Operands
import Mathlib.Data.List.Induction

/-!
# The stack of temporaries

Code that computes a value leaves the stack of temporaries as it was, with one more slot if the value is
in a temporary (`Holds`); code of a statement leaves it as it was. `Generator.Sound` is what every step
keeps up: what is live has been allocated and not released, and no instruction refers to a temporary
beyond the greatest depth of the stack.
-/

namespace GameScript

/-- Whether a fault says that temporaries are released in the wrong order or not at all. -/
def InternalFault.aboutTemporaries : InternalFault → Bool
  | releaseOrder .. | unbalanced .. | liveAtEnd .. => true
  | _ => false

/-! ### Stacks -/

/-- The stack `after` is `before` with a slot for `a` if `a` is a temporary, and `before` if not. -/
def Holds (before : List StaticType) (a : Address) (after : List StaticType) : Prop :=
  if a.isTemporary then a.index = before.length ∧ ∃ t, after = t :: before else after = before

/-- The stack `after` is `before` with a slot for each temporary of a list. -/
inductive HoldsAll : List StaticType → List Address → List StaticType → Prop
  | nil (before) : HoldsAll before [] before
  | cons {before a mid as after} :
    Holds before a mid → HoldsAll mid as after → HoldsAll before (a :: as) after

theorem holds_temporary (before : List StaticType) (t t' : StaticType) :
    Holds before ⟨.temporary, before.length, t⟩ (t' :: before) := by
  simp [Holds, Address.isTemporary]

theorem holds_of_not_temporary {a : Address} (h : a.isTemporary = false) (before : List StaticType) :
    Holds before a before := by
  simp [Holds, h]

theorem Holds.length_le {before after : List StaticType} {a : Address} (h : Holds before a after) :
    before.length ≤ after.length := by
  unfold Holds at h
  split at h
  · obtain ⟨-, t, rfl⟩ := h
    simp
  · rw [h]

theorem Holds.below {before after : List StaticType} {a : Address} (h : Holds before a after) {m : Nat}
    (hm : after.length ≤ m) : a.Below m := by
  intro ha
  unfold Holds at h
  rw [if_pos ha] at h
  obtain ⟨hi, t, rfl⟩ := h
  simp only [List.length_cons] at hm
  omega

theorem HoldsAll.length_le {before after : List StaticType} {as : List Address}
    (h : HoldsAll before as after) : before.length ≤ after.length := by
  induction h with
  | nil => exact le_rfl
  | cons ha _ ih => exact le_trans ha.length_le ih

theorem HoldsAll.below_of_le {before after : List StaticType} {as : List Address}
    (h : HoldsAll before as after) {m : Nat} (hm : after.length ≤ m) : ∀ a ∈ as, a.Below m := by
  induction h with
  | nil => simp
  | cons ha has ih =>
    intro x hx
    rcases List.mem_cons.mp hx with rfl | hx
    · exact ha.below (le_trans has.length_le hm)
    · exact ih hm x hx

theorem HoldsAll.snoc {before after : List StaticType} {as : List Address} {a : Address}
    (h : HoldsAll before (as ++ [a]) after) : ∃ mid, HoldsAll before as mid ∧ Holds mid a after := by
  induction as generalizing before with
  | nil =>
    cases h with
    | cons ha hn =>
      cases hn
      exact ⟨before, .nil before, ha⟩
  | cons b as ih =>
    cases h with
    | cons hb h =>
      obtain ⟨mid, h₁, h₂⟩ := ih h
      exact ⟨mid, .cons hb h₁, h₂⟩

/-! ### Generators -/

/-- What every step of generation keeps up. -/
structure Generator.Sound (g : Generator) : Prop where
  allocated : g.allocated = g.released + g.temps.length
  depth : g.temps.length ≤ g.maxTemps
  below : ∀ s ∈ g.instructions, s.instruction.TempsBelow g.maxTemps
  fits : ∀ s ∈ g.instructions, Instruction.Fits s.instruction.op.shape s.instruction.args
  functions : ∀ f ∈ g.pool.functions, f.Balanced

namespace Gen

/-- A fault that is not about temporaries. -/
def Benign (f : InternalFault) : Prop := f.aboutTemporaries = false

variable {g : Generator}

theorem sound_alloc (hg : g.Sound) (t : StaticType) : (g.alloc t).Sound := by
  refine ⟨?_, le_max_right _ _, fun s hs => (hg.below s hs).mono (le_max_left _ _), hg.fits,
    hg.functions⟩
  have := hg.allocated
  simp only [Generator.alloc, List.length_cons]
  omega

theorem sound_free (hg : g.Sound) (h : g.temps ≠ []) : g.free.Sound := by
  have hpos := List.length_pos_iff.mpr h
  have h₁ := hg.allocated
  have h₂ := hg.depth
  refine ⟨?_, ?_, hg.below, hg.fits, hg.functions⟩
  · simp only [Generator.free, List.length_drop]
    omega
  · simp only [Generator.free, List.length_drop]
    omega

theorem sound_push (hg : g.Sound) {op : Opcode} {args : List Nat}
    (hfit : args.length = Instruction.arity op args)
    (h : (⟨op, args⟩ : Instruction).TempsBelow g.maxTemps) : (g.push op args).Sound := by
  refine ⟨hg.allocated, hg.depth, ?_, ?_, hg.functions⟩
  · intro s hs
    rcases List.mem_append.mp hs with hs | hs
    · exact hg.below s hs
    · rw [List.mem_singleton.mp hs]
      exact h
  · intro s hs
    rcases List.mem_append.mp hs with hs | hs
    · exact hg.fits s hs
    · rw [List.mem_singleton.mp hs]
      exact Instruction.fits_of_arity hfit

end Gen

/-! ### Lowering -/

/-- What every step of lowering keeps up: the generator is sound, and no variable is in a temporary. -/
structure Lowering.Sound (s : Lowering) : Prop where
  gen : s.gen.Sound
  vars : ∀ p a, s.vars.get? p = some a → a.isTemporary = false

/-- A sound state `s'` after `s`, with the same stack. -/
structure Kept (s s' : Lowering) : Prop where
  sound : s'.Sound
  temps : s'.gen.temps = s.gen.temps
  maxTemps : s.gen.maxTemps ≤ s'.gen.maxTemps

/-- A sound state `s'` after `s`, with a slot for `a` on the stack if `a` is a temporary. -/
structure Yielded (s : Lowering) (a : Address) (s' : Lowering) : Prop where
  sound : s'.Sound
  holds : Holds s.gen.temps a s'.gen.temps
  maxTemps : s.gen.maxTemps ≤ s'.gen.maxTemps

/-- A sound state `s'` after `s`, with a slot for each temporary of a list. -/
structure YieldedAll (s : Lowering) (as : List Address) (s' : Lowering) : Prop where
  sound : s'.Sound
  holds : HoldsAll s.gen.temps as s'.gen.temps
  maxTemps : s.gen.maxTemps ≤ s'.gen.maxTemps

attribute [grind →] Kept.maxTemps Yielded.maxTemps YieldedAll.maxTemps

section Relations

variable {s s₁ s₂ : Lowering} {a : Address} {as : List Address}

theorem Kept.refl (h : s.Sound) : Kept s s := ⟨h, rfl, le_rfl⟩

theorem Kept.trans (h₁ : Kept s s₁) (h₂ : Kept s₁ s₂) : Kept s s₂ :=
  ⟨h₂.sound, h₂.temps.trans h₁.temps, le_trans h₁.maxTemps h₂.maxTemps⟩

theorem Kept.yielded (h₁ : Kept s s₁) (h₂ : Yielded s₁ a s₂) : Yielded s a s₂ :=
  ⟨h₂.sound, h₁.temps ▸ h₂.holds, le_trans h₁.maxTemps h₂.maxTemps⟩

theorem Yielded.kept (h₁ : Yielded s a s₁) (h₂ : Kept s₁ s₂) : Yielded s a s₂ :=
  ⟨h₂.sound, h₂.temps.symm ▸ h₁.holds, le_trans h₁.maxTemps h₂.maxTemps⟩

theorem YieldedAll.kept (h₁ : YieldedAll s as s₁) (h₂ : Kept s₁ s₂) : YieldedAll s as s₂ :=
  ⟨h₂.sound, h₂.temps.symm ▸ h₁.holds, le_trans h₁.maxTemps h₂.maxTemps⟩

/-- An address that is no temporary needs no slot. -/
theorem Kept.yields (h : Kept s s₁) (ha : a.isTemporary = false) : Yielded s a s₁ :=
  ⟨h.sound, h.temps.symm ▸ holds_of_not_temporary ha _, h.maxTemps⟩

theorem Yielded.below (h : Yielded s a s₁) : a.Below s₁.gen.maxTemps := h.holds.below h.sound.gen.depth

@[grind .] theorem Yielded.operand (h : Yielded s a s₁) {m : Nat} (hm : s₁.gen.maxTemps ≤ m) :
    TempBelow m a.encode :=
  (h.below.mono hm).encode

@[grind .] theorem YieldedAll.operands (h : YieldedAll s as s₁) {m : Nat}
    (hm : s₁.gen.maxTemps ≤ m) (ha : a ∈ as) : TempBelow m a.encode :=
  (h.holds.below_of_le (le_trans h.sound.gen.depth hm) a ha).encode

@[grind .] theorem tempBelow_of_not_temporary (h : a.isTemporary = false) (m : Nat) :
    TempBelow m a.encode :=
  Address.Below.encode fun ht => by simp [h] at ht

theorem YieldedAll.nil (h : s.Sound) : YieldedAll s [] s := ⟨h, .nil _, le_rfl⟩

theorem Yielded.cons (h₁ : Yielded s a s₁) (h₂ : YieldedAll s₁ as s₂) : YieldedAll s (a :: as) s₂ :=
  ⟨h₂.sound, .cons h₁.holds h₂.holds, le_trans h₁.maxTemps h₂.maxTemps⟩

end Relations

namespace Lower

/-- An error that is not about temporaries. -/
def Benign (e : LowerError) : Prop := ∀ f, e.fault = .internal f → f.aboutTemporaries = false

/-- Code that computes a value. -/
def Yields (x : Lower Address) : Prop :=
  ∀ ctx s, s.Sound → After x ctx s (fun a s' => Yielded s a s') Benign

/-- Code that computes several values. -/
def YieldsAll (x : Lower (List Address)) : Prop :=
  ∀ ctx s, s.Sound → After x ctx s (fun as s' => YieldedAll s as s') Benign

/-- Code that finds a value which is in no temporary. -/
def Finds (x : Lower Address) : Prop :=
  ∀ ctx s, s.Sound → After x ctx s (fun a s' => Kept s s' ∧ a.isTemporary = false) Benign

/-- Code that leaves the stack as it was. -/
def Keeps {α : Type} (x : Lower α) : Prop :=
  ∀ ctx s, s.Sound → After x ctx s (fun _ s' => Kept s s') Benign

variable {α : Type} {ctx : LowerContext} {s s₁ : Lowering} {a : Address} {as : List Address}

theorem benign_internal {f : InternalFault} (h : f.aboutTemporaries = false) :
    Benign { fault := .internal f } := by
  intro f' hf
  cases hf
  exact h

/-! ### Steps of generation -/

/-- A change of the generator that keeps it sound and its stack as it was. -/
theorem kept_of_gen (hs : s.Sound) {g : Generator} (hg : g.Sound) (ht : g.temps = s.gen.temps)
    (hm : s.gen.maxTemps ≤ g.maxTemps) : Kept s { s with gen := g } :=
  ⟨⟨hg, hs.vars⟩, ht, hm⟩

/-- A step of generation that changes neither the instructions nor the stack. -/
theorem keeps_of_still {x : Gen α} (h : ∀ g, Gen.After x g
    (fun _ g' => g'.instructions = g.instructions ∧ g'.temps = g.temps ∧ g'.maxTemps = g.maxTemps ∧
      g'.allocated = g.allocated ∧ g'.released = g.released ∧ g'.pool.functions = g.pool.functions)
    fun f => f.aboutTemporaries = false) : Keeps (liftM x : Lower α) := by
  intro ctx s hs
  rw [after_lift]
  refine (h s.gen).mono ?_ fun f hf => benign_internal hf
  rintro a g' ⟨hi, ht, hm, ha, hr, hp⟩
  refine kept_of_gen hs ⟨?_, ?_, ?_, ?_, ?_⟩ ht (le_of_eq hm.symm)
  · rw [ha, hr, ht]
    exact hs.gen.allocated
  · rw [ht, hm]
    exact hs.gen.depth
  · rw [hi, hm]
    exact hs.gen.below
  · rw [hi]
    exact hs.gen.fits
  · rw [hp]
    exact hs.gen.functions

theorem newLabel_keeps : Keeps Gen.newLabel := keeps_of_still fun g => by simp [Generator.addLabel]

theorem bind_keeps (l : Nat) : Keeps (Gen.bind l) := keeps_of_still fun g => by
  rw [Gen.after_bindLabel]
  split
  · rfl
  · simp [Generator.bindLabel]

theorem setLine_gen_keeps (line : Int) : Keeps (Gen.setLine line) := keeps_of_still fun g => by simp

theorem name_gen_keeps (n : Text) : Keeps (Gen.name n) := keeps_of_still fun g => by
  rw [Gen.after_name]
  unfold Pool.name
  split <;> simp

theorem pushFrame_keeps (k : FrameKind) : Keeps (Gen.pushFrame k) := keeps_of_still fun g => by
  simp [Generator.addLabel]

theorem topFrame_keeps (k : FrameKind) : Keeps (Gen.topFrame k) := keeps_of_still fun g => by
  rw [Gen.after_topFrame]
  split
  · split
    · simp
    · rfl
  · rfl

theorem popFrame_keeps (k : FrameKind) : Keeps (Gen.popFrame k) := keeps_of_still fun g => by
  rw [Gen.after_popFrame]
  split
  · split
    · simp
    · rfl
  · rfl

theorem Finds.yields {x : Lower Address} (h : Finds x) : Yields x := fun ctx s hs =>
  (h ctx s hs).post fun _ _ ⟨hk, ha⟩ => hk.yields ha

theorem constant_finds (v : Value) : Finds (Gen.constant v) := by
  have hkeeps : Keeps (Gen.constant v) := keeps_of_still fun g => by
    rw [Gen.after_constant]
    unfold Pool.constant
    simp only
    split <;> simp
  intro ctx s hs
  have h := hkeeps ctx s hs
  rw [after_lift, Gen.after_constant] at h ⊢
  exact ⟨h, rfl⟩

theorem addTemporary_yields (t : StaticType) : Yields (Gen.addTemporary t) := by
  intro ctx s hs
  rw [after_lift, Gen.after_addTemporary]
  exact ⟨⟨Gen.sound_alloc hs.gen t, hs.vars⟩, holds_temporary _ _ _, le_max_left _ _⟩

theorem emit_keeps (hs : s.Sound) {op : Opcode} {args : List Nat}
    (h : (⟨op, args⟩ : Instruction).TempsBelow s.gen.maxTemps) :
    After (Gen.emit op args) ctx s (fun _ s' => Kept s s') Benign := by
  rw [after_lift, Gen.after_emit]
  split
  · rename_i hfit
    exact kept_of_gen hs (Gen.sound_push hs.gen hfit h) rfl le_rfl
  · apply benign_internal
    unfold Gen.operandFault
    split <;> rfl

/-- Releasing the value on top returns to the stack before it. -/
theorem after_release {before : List StaticType} (hs : s.Sound) (hh : Holds before a s.gen.temps) :
    After (Gen.release a) ctx s
      (fun _ s' => s'.Sound ∧ s'.gen.temps = before ∧ s.gen.maxTemps ≤ s'.gen.maxTemps) Benign := by
  rw [after_lift, Gen.after_release]
  unfold Holds at hh
  split
  · rename_i ha
    rw [if_pos ha] at hh
    obtain ⟨hi, t, ht⟩ := hh
    have hlen : s.gen.temps.length = a.index + 1 := by simp [ht, hi]
    rw [if_pos hlen]
    refine ⟨⟨Gen.sound_free hs.gen (by simp [ht]), hs.vars⟩, ?_, le_rfl⟩
    simp [Generator.free, ht]
  · rename_i ha
    rw [if_neg ha] at hh
    exact ⟨hs, hh, le_rfl⟩

theorem release_keeps (h : Yielded s a s₁) :
    After (Gen.release a) ctx s₁ (fun _ s' => Kept s s') Benign :=
  (after_release h.sound h.holds).post fun _ _ ⟨hs, ht, hm⟩ => ⟨hs, ht, le_trans h.maxTemps hm⟩

theorem releaseAll_snoc (as : List Address) (a : Address) :
    Gen.releaseAll (as ++ [a]) = (do Gen.release a; Gen.releaseAll as) := by
  unfold Gen.releaseAll
  rw [List.reverse_append]
  rfl

/-- Releasing values in the reverse order returns to the stack before them. -/
theorem releaseAll_keeps (h : YieldedAll s as s₁) :
    After (Gen.releaseAll as) ctx s₁ (fun _ s' => Kept s s') Benign := by
  induction as using List.reverseRecOn generalizing s₁ with
  | nil =>
    have hh := h.holds
    generalize hb : s₁.gen.temps = after at hh
    cases hh
    exact ⟨h.sound, hb, h.maxTemps⟩
  | append_singleton as a ih =>
    obtain ⟨mid, has, ha⟩ := h.holds.snoc
    rw [releaseAll_snoc, lift_bind]
    refine (after_release h.sound ha).bind ?_
    intro _ s' ⟨hs', ht, hm⟩
    exact ih ⟨hs', ht ▸ has, le_trans h.maxTemps hm⟩

end Lower

end GameScript
