import GameScript.Proofs.Lowering.Emission
import GameScript.Proofs.Lowering.Generator
import GameScript.Proofs.Temporaries.Stack

/-!
# How lowering adds code

Lowering only adds: instructions go to the end, a label that is bound stays bound, constants and
variables stay where they are (`Grows`). A step that neither begins nor ends anything else is described
by the instructions it adds and by the stack of temporaries it leaves (`Adds`).
-/

namespace GameScript

/-! ### Growing -/

/-- Variables are parameters and locals of the function, each with a place of its own. -/
structure Lowering.Placed (s : Lowering) : Prop where
  inside : ∀ p a, s.vars.get? p = some a → a.mode = .parameter ∧ a.index < s.params.length ∨
    a.mode = .localVar ∧ a.index < s.locals.length
  distinct : ∀ p q a b, s.vars.get? p = some a → s.vars.get? q = some b → a.mode = b.mode →
    a.index = b.index → p = q

/-- What lowering relies on: temporaries are counted, constants are found by their own keys, and
variables have places. -/
structure Lowering.Ready (s : Lowering) : Prop where
  depth : s.gen.temps.length ≤ s.gen.maxTemps
  keyed : s.gen.pool.Keyed
  placed : s.Placed

theorem Lowering.Placed.mode {s : Lowering} (h : s.Placed) {p : Pos} {a : Address}
    (ha : s.vars.get? p = some a) : a.mode = .parameter ∨ a.mode = .localVar :=
  (h.inside p a ha).imp And.left And.left

/-- A new variable gets a place behind those of the others. -/
theorem Lowering.Placed.insert {s s' : Lowering} (h : s.Placed) {p : Pos} {a : Address}
    (hvars : s'.vars = s.vars.set p a) (hparams : s.params.length ≤ s'.params.length)
    (hlocals : s.locals.length ≤ s'.locals.length)
    (ha : a.mode = .parameter ∧ s.params.length ≤ a.index ∧ a.index < s'.params.length ∨
      a.mode = .localVar ∧ s.locals.length ≤ a.index ∧ a.index < s'.locals.length) : s'.Placed := by
  have hget : ∀ q b, s'.vars.get? q = some b → p = q ∧ b = a ∨ s.vars.get? q = some b := by
    intro q b hq
    rw [hvars, Table.get?_set] at hq
    split at hq
    · rename_i hpq
      exact .inl ⟨hpq, (Option.some.inj hq).symm⟩
    · exact .inr hq
  -- the place of `a` is behind those of the variables before
  have hnew : ∀ q b, s.vars.get? q = some b → b.mode = a.mode → b.index < a.index := by
    intro q b hq hmode
    rcases h.inside q b hq with ⟨hb, hlt⟩ | ⟨hb, hlt⟩ <;> rcases ha with ⟨ha, hle, -⟩ | ⟨ha, hle, -⟩
    · omega
    · simp [hb, ha] at hmode
    · simp [hb, ha] at hmode
    · omega
  refine ⟨fun q b hq => ?_, fun q q' b b' hq hq' hmode hindex => ?_⟩
  · rcases hget q b hq with ⟨-, rfl⟩ | hq
    · exact ha.imp (fun h => ⟨h.1, h.2.2⟩) (fun h => ⟨h.1, h.2.2⟩)
    · exact (h.inside q b hq).imp (fun h => ⟨h.1, by omega⟩) (fun h => ⟨h.1, by omega⟩)
  · rcases hget q b hq with ⟨rfl, rfl⟩ | hq <;> rcases hget q' b' hq' with ⟨rfl, rfl⟩ | hq'
    · rfl
    · have := hnew q' b' hq' hmode.symm
      omega
    · have := hnew q b hq hmode
      omega
    · exact h.distinct q q' b b' hq hq' hmode hindex

/-- The state `s'` has all that `s` has, and new variables only for the names at `declared`. -/
structure Grows (declared : List Pos) (s s' : Lowering) : Prop where
  code : s.gen.instructions <+: s'.gen.instructions
  binds : ∀ l k, s.gen.binds.getD l none = some k → s'.gen.binds.getD l none = some k
  labels : s.gen.binds.length ≤ s'.gen.binds.length
  constants : s.gen.pool.constants <+: s'.gen.pool.constants
  maxTemps : s.gen.maxTemps ≤ s'.gen.maxTemps
  locals : s.locals.length ≤ s'.locals.length
  params : s'.params = s.params
  vars : ∀ p a, s.vars.get? p = some a → s'.vars.get? p = some a
  declares : ∀ p a, s'.vars.get? p = some a → s.vars.get? p = some a ∨ p ∈ declared
  names : s.gen.pool.names <+: s'.gen.pool.names

section Growing

variable {D D₁ D₂ : List Pos} {s s₁ s₂ : Lowering}

theorem Grows.refl (s : Lowering) : Grows [] s s :=
  ⟨List.prefix_refl _, fun _ _ h => h, le_rfl, List.prefix_refl _, le_rfl, le_rfl, rfl, fun _ _ h => h,
    fun _ _ h => .inl h, List.prefix_refl _⟩

theorem Grows.trans (h₁ : Grows D₁ s s₁) (h₂ : Grows D₂ s₁ s₂) : Grows (D₁ ++ D₂) s s₂ where
  code := h₁.code.trans h₂.code
  binds l k h := h₂.binds l k (h₁.binds l k h)
  labels := h₁.labels.trans h₂.labels
  constants := h₁.constants.trans h₂.constants
  maxTemps := h₁.maxTemps.trans h₂.maxTemps
  locals := h₁.locals.trans h₂.locals
  params := h₂.params.trans h₁.params
  vars p a h := h₂.vars p a (h₁.vars p a h)
  declares p a h := by
    rcases h₂.declares p a h with h | h
    · rcases h₁.declares p a h with h | h
      · exact .inl h
      · exact .inr (List.mem_append_left _ h)
    · exact .inr (List.mem_append_right _ h)
  names := h₁.names.trans h₂.names

theorem Grows.mono (h : Grows D₁ s s₁) (hD : D₁ ⊆ D₂) : Grows D₂ s s₁ :=
  { h with declares := fun p a ha => (h.declares p a ha).imp_right (hD ·) }

/-- After more code without declarations. -/
theorem Grows.then (h₁ : Grows D s s₁) (h₂ : Grows [] s₁ s₂) : Grows D s s₂ :=
  (h₁.trans h₂).mono (by simp)

/-- After code without declarations. -/
theorem Grows.after (h₂ : Grows D s₁ s₂) (h₁ : Grows [] s s₁) : Grows D s s₂ :=
  (h₁.trans h₂).mono (by simp)

/-- No variable has been declared at some places. -/
def Lowering.Lacks (s : Lowering) (D : List Pos) : Prop := ∀ p ∈ D, s.vars.get? p = none

theorem Grows.lacks (h : Grows D₁ s s₁) (hs : s.Lacks D₂) (hd : ∀ p ∈ D₂, p ∉ D₁) : s₁.Lacks D₂ := by
  intro p hp
  cases hv : s₁.vars.get? p with
  | none => rfl
  | some a =>
    rcases h.declares p a hv with h | h
    · rw [hs p hp] at h
      cases h
    · exact absurd h (hd p hp)

end Growing

/-! ### Adding instructions -/

/-- The instructions of a state, without their lines. -/
def Lowering.code (s : Lowering) : List Instruction := s.gen.instructions.map (·.instruction)

/-- What is open at a place of the code: the live temporaries, the constructs that have been begun and
the loops around. -/
structure Nesting where
  temps : List StaticType
  frames : List Frame
  loops : List LoopLabels

namespace Nesting

def withTemps (k : Nesting) (ts : List StaticType) : Nesting := { k with temps := ts }

def withFrames (k : Nesting) (fs : List Frame) : Nesting := { k with frames := fs }

def withLoops (k : Nesting) (ls : List LoopLabels) : Nesting := { k with loops := ls }

variable (k : Nesting)

@[simp] theorem temps_withTemps (ts : List StaticType) : (k.withTemps ts).temps = ts := rfl

@[simp] theorem frames_withTemps (ts : List StaticType) : (k.withTemps ts).frames = k.frames := rfl

@[simp] theorem loops_withTemps (ts : List StaticType) : (k.withTemps ts).loops = k.loops := rfl

@[simp] theorem temps_withFrames (fs : List Frame) : (k.withFrames fs).temps = k.temps := rfl

@[simp] theorem frames_withFrames (fs : List Frame) : (k.withFrames fs).frames = fs := rfl

@[simp] theorem temps_withLoops (ls : List LoopLabels) : (k.withLoops ls).temps = k.temps := rfl

@[simp] theorem loops_withLoops (ls : List LoopLabels) : (k.withLoops ls).loops = ls := rfl

@[simp] theorem withTemps_withTemps (ts us : List StaticType) :
    (k.withTemps ts).withTemps us = k.withTemps us := rfl

@[simp] theorem withFrames_withFrames (fs gs : List Frame) :
    (k.withFrames fs).withFrames gs = k.withFrames gs := rfl

@[simp] theorem withLoops_withLoops (ls ms : List LoopLabels) :
    (k.withLoops ls).withLoops ms = k.withLoops ms := rfl

end Nesting

def Lowering.nesting (s : Lowering) : Nesting := ⟨s.gen.temps, s.gen.frames, s.loops⟩

namespace Lowering

variable (s : Lowering)

@[simp] theorem temps_nesting : s.nesting.temps = s.gen.temps := rfl

@[simp] theorem frames_nesting : s.nesting.frames = s.gen.frames := rfl

@[simp] theorem loops_nesting : s.nesting.loops = s.loops := rfl

@[simp] theorem nesting_withTemps : s.nesting.withTemps s.gen.temps = s.nesting := rfl

@[simp] theorem nesting_withFrames : s.nesting.withFrames s.gen.frames = s.nesting := rfl

@[simp] theorem nesting_withLoops : s.nesting.withLoops s.loops = s.nesting := rfl

end Lowering

/-- The state `s'` is `s` with more instructions and the given nesting. -/
structure Adds (s : Lowering) (is : List Instruction) (k : Nesting) (s' : Lowering) : Prop where
  grows : Grows [] s s'
  ready : s'.Ready
  code : s'.code = s.code ++ is
  nesting : s'.nesting = k

theorem Adds.refl {s : Lowering} (h : s.Ready) : Adds s [] s.nesting s := ⟨.refl s, h, by simp, rfl⟩

theorem Adds.trans {s s₁ s₂ : Lowering} {is js : List Instruction} {k₁ k₂ : Nesting}
    (h₁ : Adds s is k₁ s₁) (h₂ : Adds s₁ js k₂ s₂) : Adds s (is ++ js) k₂ s₂ :=
  ⟨h₁.grows.then h₂.grows, h₂.ready, by rw [h₂.code, h₁.code, List.append_assoc], h₂.nesting⟩

theorem Adds.temps {s s' : Lowering} {is : List Instruction} {k : Nesting} (h : Adds s is k s') :
    s'.gen.temps = k.temps := congrArg Nesting.temps h.nesting

theorem Adds.frames {s s' : Lowering} {is : List Instruction} {k : Nesting} (h : Adds s is k s') :
    s'.gen.frames = k.frames := congrArg Nesting.frames h.nesting

/-- A change of the generator that leaves the pool and the variables. -/
theorem adds_of_gen {s : Lowering} (hs : s.Ready) (g : Generator) (is : List SourceInstruction)
    (hcode : g.instructions = s.gen.instructions ++ is)
    (hbinds : ∀ l k, s.gen.binds.getD l none = some k → g.binds.getD l none = some k)
    (hlabels : s.gen.binds.length ≤ g.binds.length) (hpool : g.pool = s.gen.pool)
    (hmax : s.gen.maxTemps ≤ g.maxTemps) (hdepth : g.temps.length ≤ g.maxTemps) :
    Adds s (is.map (·.instruction)) ⟨g.temps, g.frames, s.loops⟩ { s with gen := g } where
  grows := ⟨hcode ▸ List.prefix_append _ _, hbinds, hlabels, hpool ▸ List.prefix_refl _, hmax, le_rfl, rfl,
    fun _ _ h => h, fun _ _ h => .inl h, hpool ▸ List.prefix_refl _⟩
  ready := ⟨hdepth, by rw [hpool]; exact hs.keyed, ⟨hs.placed.inside, hs.placed.distinct⟩⟩
  code := by simp [Lowering.code, hcode]
  nesting := rfl

namespace Lower

variable {α β : Type} {ctx : LowerContext} {s s₁ : Lowering} {a : Address}

/-- If the step `x` ends well, then in a state of `Q`. -/
def Ends (x : Lower α) (ctx : LowerContext) (s : Lowering) (Q : α → Lowering → Prop) : Prop :=
  After x ctx s Q fun _ => True

theorem Ends.bind {x : Lower α} {f : α → Lower β} {P : α → Lowering → Prop} {Q : β → Lowering → Prop}
    (hx : Ends x ctx s P) (hf : ∀ a s', P a s' → Ends (f a) ctx s' Q) : Ends (x >>= f) ctx s Q :=
  After.bind hx hf

theorem Ends.post {x : Lower α} {Q Q' : α → Lowering → Prop} (h : Ends x ctx s Q)
    (hQ : ∀ a s', Q a s' → Q' a s') : Ends x ctx s Q' :=
  After.post h hQ

/-! ### Steps of generation -/

theorem emit_adds (hs : s.Ready) (op : Opcode) (args : List Nat) :
    Ends (Gen.emit op args) ctx s fun _ s' => Adds s [⟨op, args⟩] s.nesting s' := by
  unfold Ends
  rw [after_lift, Gen.after_emit]
  split
  · exact adds_of_gen hs (s.gen.push op args) [_] rfl (fun _ _ h => h) le_rfl rfl le_rfl hs.depth
  · trivial

theorem newLabel_adds (hs : s.Ready) : Ends Gen.newLabel ctx s fun l s' =>
    Adds s [] s.nesting s' ∧ l < s'.gen.binds.length := by
  unfold Ends
  rw [after_lift, Gen.after_newLabel]
  refine ⟨adds_of_gen hs s.gen.addLabel [] (by simp [Generator.addLabel]) (fun l k h => ?_)
    (by simp [Generator.addLabel]) rfl le_rfl hs.depth, by simp [Generator.addLabel]⟩
  show (s.gen.binds ++ [none]).getD l none = some k
  rwa [GenCall.getD_append_none]

/-- A label that has been made is bound to the next instruction. -/
theorem bind_adds (hs : s.Ready) {l : Nat} (hl : l < s.gen.binds.length) :
    Ends (Gen.bind l) ctx s fun _ s' =>
      Adds s [] s.nesting s' ∧ s'.gen.binds.getD l none = some s.gen.instructions.length := by
  unfold Ends
  rw [after_lift, Gen.after_bindLabel]
  split
  · trivial
  · rename_i hnone
    have hb : s.gen.binds.getD l none = none := by simpa using hnone
    have hset := GenCall.getD_set_some s.gen.binds hl s.gen.instructions.length
    refine ⟨adds_of_gen hs (s.gen.bindLabel l) [] (by simp [Generator.bindLabel]) (fun k i h => ?_)
      (by simp [Generator.bindLabel]) rfl le_rfl hs.depth, ?_⟩
    · show (s.gen.binds.set l _).getD k none = some i
      rw [hset]
      split
      · rename_i hlk
        rw [← hlk, hb] at h
        cases h
      · exact h
    · show (s.gen.binds.set l _).getD l none = _
      rw [hset, if_pos rfl]

theorem addTemporary_adds (hs : s.Ready) (t : StaticType) :
    Ends (Gen.addTemporary t) ctx s fun a s' =>
      Adds s [] (s.nesting.withTemps (t :: s.gen.temps)) s' ∧
        a = ⟨.temporary, s.gen.temps.length, t⟩ := by
  unfold Ends
  rw [after_lift, Gen.after_addTemporary]
  exact ⟨adds_of_gen hs (s.gen.alloc t) [] (by simp [Generator.alloc]) (fun _ _ h => h) le_rfl rfl
    (le_max_left _ _) (le_max_right _ _), rfl⟩

theorem release_adds (hs : s.Ready) {before : List StaticType} (hh : Holds before a s.gen.temps) :
    Ends (Gen.release a) ctx s fun _ s' => Adds s [] (s.nesting.withTemps before) s' := by
  unfold Ends
  rw [after_lift, Gen.after_release]
  unfold Holds at hh
  split
  · rename_i ha
    rw [if_pos ha] at hh
    obtain ⟨hi, t, ht⟩ := hh
    have hlen : s.gen.temps.length = a.index + 1 := by simp [ht, hi]
    rw [if_pos hlen]
    have hdepth := hs.depth
    have hdrop : before = s.gen.free.temps := by simp [Generator.free, ht]
    rw [hdrop]
    refine adds_of_gen hs s.gen.free [] (by simp [Generator.free]) (fun _ _ h => h) le_rfl rfl le_rfl ?_
    simp only [Generator.free, List.length_drop]
    omega
  · rename_i ha
    rw [if_neg ha] at hh
    rw [← hh]
    exact .refl hs

/-- A construct is begun, with two new labels. -/
theorem pushFrame_adds (hs : s.Ready) (kind : FrameKind) :
    Ends (Gen.pushFrame kind) ctx s fun _ s' => ∃ skip done, skip ≠ done ∧
      Adds s [] (s.nesting.withFrames (⟨kind, skip, done⟩ :: s.gen.frames)) s' ∧
      skip < s'.gen.binds.length ∧ done < s'.gen.binds.length := by
  unfold Ends
  rw [after_lift, Gen.after_pushFrame]
  refine ⟨s.gen.binds.length, s.gen.addLabel.binds.length, by simp [Generator.addLabel],
    adds_of_gen hs { s.gen.addLabel.addLabel with frames := _ } [] (by simp [Generator.addLabel])
      (fun l k h => ?_) (by simp [Generator.addLabel]) rfl le_rfl hs.depth, ?_, ?_⟩
  · show (s.gen.binds ++ [none] ++ [none]).getD l none = some k
    rwa [GenCall.getD_append_none, GenCall.getD_append_none]
  · simp [Generator.addLabel]
  · simp [Generator.addLabel]

theorem topFrame_adds (hs : s.Ready) {kind : FrameKind} {f : Frame} {fs : List Frame}
    (hf : s.gen.frames = f :: fs) :
    Ends (Gen.topFrame kind) ctx s fun f' s' => f' = f ∧ Adds s [] s.nesting s' := by
  unfold Ends
  rw [after_lift, Gen.after_topFrame, hf]
  dsimp only
  split
  · exact ⟨rfl, .refl hs⟩
  · trivial

/-- The innermost construct is ended. -/
theorem popFrame_adds (hs : s.Ready) {kind : FrameKind} {f : Frame} {fs : List Frame}
    (hf : s.gen.frames = f :: fs) : Ends (Gen.popFrame kind) ctx s fun f' s' =>
      f' = f ∧ Adds s [] (s.nesting.withFrames fs) s' := by
  unfold Ends
  rw [after_lift, Gen.after_popFrame, hf]
  dsimp only
  split
  · exact ⟨rfl, adds_of_gen hs { s.gen with frames := fs } [] (by simp) (fun _ _ h => h) le_rfl rfl le_rfl hs.depth⟩
  · trivial

/-- A constant is found among those of the program by its key. -/
theorem constant_adds (hs : s.Ready) (v : Value) : Ends (Gen.constant v) ctx s fun a s' =>
    Adds s [] s.nesting s' ∧ a.mode = .constant ∧
      ∃ c, s'.gen.pool.constants[a.index]? = some (Pool.key v, c) ∧ Pool.key c = Pool.key v := by
  unfold Ends
  rw [after_lift, Gen.after_constant]
  unfold Pool.constant
  cases hf : s.gen.pool.constants.findIdx? (·.1 = Pool.key v) with
  | some i =>
    simp only [hf]
    obtain ⟨hi, hk, -⟩ := List.findIdx?_eq_some_iff_getElem.mp hf
    have hkey : (s.gen.pool.constants[i]).1 = Pool.key v := by simpa using hk
    refine ⟨.refl hs, trivial, (s.gen.pool.constants[i]).2, ?_, ?_⟩
    · rw [List.getElem?_eq_getElem hi, ← hkey]
    · rw [← hs.keyed _ (List.getElem_mem hi), hkey]
  | none =>
    simp only [hf]
    refine ⟨⟨⟨List.prefix_refl _, fun _ _ h => h, le_rfl, List.prefix_append _ _, le_rfl, le_rfl, rfl,
      fun _ _ h => h, fun _ _ h => .inl h, List.prefix_refl _⟩, ⟨hs.depth, ?_, ⟨hs.placed.inside, hs.placed.distinct⟩⟩, ?_,
      rfl⟩, trivial, v, ?_, rfl⟩
    · have hle := (Pool.le_constant s.gen.pool v).keyed hs.keyed
      simpa only [Pool.constant, hf] using hle
    · simp [Lowering.code]
    · simp

end Lower

end GameScript
