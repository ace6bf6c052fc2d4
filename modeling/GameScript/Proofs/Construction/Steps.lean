import GameScript.Proofs.Lowering.Generator
import Mathlib.Data.Set.Insert

/-!
# Labels, constructs and operands

A generator refuses an instruction with the wrong number of operands, a label that is bound twice or never,
and a construct that is ended without being begun. None of this depends on the tree that is lowered: each
piece of code binds the labels it makes and ends the constructs it begins. So proofs about it need only the
labels that are not bound yet and the constructs that are under way, the `Site` of a state.

* `Lower.Moves σ x R` — from the site `σ`, the step `x` goes on to a site of which `R` holds;
* `Lower.Tidy` — a step that leaves the site as it was;
* `Lower.TidyIn k` — the same inside of a construct of kind `k`.
-/

namespace GameScript

/-- Whether a fault says that code is put together in the wrong way: operands that do not fit, labels that
are not bound once, constructs that do not match. -/
def InternalFault.aboutConstruction : InternalFault → Bool
  | tooFewOperands .. | operandCount .. | boundTwice .. | unbound .. | unmatched .. | unterminated .. => true
  | _ => false

/-- Whether a fault is about the tables of classes, which are drafted before any code is made. -/
def CompileFault.aboutTables : CompileFault → Bool
  | cyclicClass _ | base .. => true
  | _ => false

/-- What code under construction waits for. -/
structure Site where
  /-- The labels that are not bound. -/
  pending : Set Nat := ∅
  /-- The constructs that have been begun. -/
  frames : List Frame := []
  /-- How many labels there are at least. -/
  made : Nat := 0

namespace Site

/-- One more label to bind. -/
def await (σ : Site) (l : Nat) : Site := { σ with pending := insert l σ.pending }

/-- One label less to bind. -/
def settle (σ : Site) (l : Nat) : Site := { σ with pending := σ.pending \ {l} }

/-- One more construct, with its labels. -/
def begin (σ : Site) (f : Frame) : Site :=
  { (σ.await f.skip).await f.done with frames := f :: σ.frames }

/-- The same site with more labels. -/
def knowing (σ : Site) (n : Nat) : Site := { σ with made := n }

/-- The innermost construct is of a kind, and there is a label to skip it. -/
def Inside (k : FrameKind) (σ : Site) : Prop :=
  ∃ f fs, σ.frames = f :: fs ∧ f.kind = k ∧ f.skip < σ.made

/-- A label that exists and is not waited for. -/
def Free (σ : Site) (l : Nat) : Prop := l ∉ σ.pending ∧ l < σ.made

variable {σ : Site} {l : Nat}

@[simp] theorem mem_await {k : Nat} : k ∈ (σ.await l).pending ↔ k = l ∨ k ∈ σ.pending := Iff.rfl

@[simp] theorem mem_settle {k : Nat} : k ∈ (σ.settle l).pending ↔ k ∈ σ.pending ∧ k ≠ l := Iff.rfl

theorem knowing_await (σ : Site) (l n : Nat) : (σ.await l).knowing n = (σ.knowing n).await l := rfl

/-- A label that is bound is no longer waited for. -/
theorem settle_await (h : l ∉ σ.pending) : (σ.await l).settle l = σ := by
  unfold await settle
  rw [Set.insert_sdiff_self_of_notMem h]

/-- Labels may be bound in any order. -/
theorem settle_await_of_ne {k : Nat} (h : k ≠ l) : (σ.await k).settle l = (σ.settle l).await k := by
  unfold await settle
  rw [Set.insert_sdiff_of_notMem _ (by simpa using h)]

end Site

/-- The labels of a construct that is begun are new. -/
structure Frame.Fresh (f : Frame) (σ : Site) : Prop where
  skip : σ.Free f.skip
  done : σ.Free f.done
  ne : f.done ≠ f.skip

theorem Frame.Fresh.inside {f : Frame} {σ : Site} (h : f.Fresh σ) : (σ.begin f).Inside f.kind :=
  ⟨f, σ.frames, rfl, rfl, h.skip.2⟩

/-- Whether a label exists. -/
def Generator.Made (g : Generator) (l : Nat) : Prop := l < g.binds.length

/-- A state at a site. The labels to which its code leads have been made. -/
structure Lowering.At (s : Lowering) (σ : Site) : Prop where
  pending : ∀ l, s.gen.binds[l]? = some none ↔ l ∈ σ.pending
  frames : s.gen.frames = σ.frames
  made : σ.made ≤ s.gen.binds.length
  code : ∀ i ∈ s.gen.instructions, ∀ l ∈ i.instruction.labels, s.gen.Made l
  loops : ∀ l ∈ s.loops, s.gen.Made l.exit ∧ s.gen.Made l.next
  cases : ∀ l ∈ s.cases, s.gen.Made l

namespace Lowering.At

variable {s s' : Lowering} {σ : Site}

theorem forget {n : Nat} (h : s.At (σ.knowing n)) (hn : σ.made ≤ n) : s.At σ :=
  { h with made := le_trans hn h.made }

/-- A state that differs neither in labels and constructs nor in the code. -/
theorem same (h : s.At σ) (hb : s'.gen.binds = s.gen.binds) (hf : s'.gen.frames = s.gen.frames)
    (hi : s'.gen.instructions = s.gen.instructions) (hl : s'.loops = s.loops)
    (hc : s'.cases = s.cases) : s'.At σ := by
  constructor
  · rw [hb]
    exact h.pending
  · rw [hf]
    exact h.frames
  · rw [hb]
    exact h.made
  · unfold Generator.Made
    rw [hi, hb]
    exact h.code
  · unfold Generator.Made
    rw [hl, hb]
    exact h.loops
  · unfold Generator.Made
    rw [hc, hb]
    exact h.cases

/-- An instruction may lead to labels that have been made. -/
theorem push {op : Opcode} {args : List Nat} (h : s.At σ)
    (hl : ∀ l ∈ (⟨op, args⟩ : Instruction).labels, s.gen.Made l) :
    Lowering.At { s with gen := s.gen.push op args } σ where
  pending := h.pending
  frames := h.frames
  made := h.made
  code i hi := by
    rcases List.mem_append.mp hi with hi | hi
    · exact h.code i hi
    · rw [List.mem_singleton.mp hi]
      exact hl
  loops := h.loops
  cases := h.cases

theorem addLabel (h : s.At σ) :
    Lowering.At { s with gen := s.gen.addLabel }
      ((σ.knowing (s.gen.binds.length + 1)).await s.gen.binds.length) := by
  have hlength : s.gen.addLabel.binds.length = s.gen.binds.length + 1 := by simp [Generator.addLabel]
  have hmade : ∀ l, s.gen.Made l → s.gen.addLabel.Made l := fun l hl => by
    unfold Generator.Made at *
    omega
  refine ⟨fun l => ?_, h.frames, hlength.ge, fun i hi l hl => hmade l (h.code i hi l hl),
    fun l hl => (h.loops l hl).imp (hmade _) (hmade _), fun l hl => hmade l (h.cases l hl)⟩
  show (s.gen.binds ++ [none])[l]? = some none ↔ l = s.gen.binds.length ∨ l ∈ σ.pending
  rw [← h.pending l]
  rcases Nat.lt_trichotomy l s.gen.binds.length with hl | rfl | hl
  · rw [List.getElem?_append_left hl]
    exact ⟨.inr, fun h => h.resolve_left (by omega)⟩
  · simp
  · rw [List.getElem?_append_right hl.le, List.getElem?_eq_none hl.le,
      List.getElem?_eq_none (by simp; omega)]
    simp
    omega

theorem bindLabel {l : Nat} (h : s.At σ) (hl : l ∈ σ.pending) :
    Lowering.At { s with gen := s.gen.bindLabel l } (σ.settle l) := by
  have hlength : (s.gen.bindLabel l).binds.length = s.gen.binds.length := List.length_set
  have hmade : ∀ k, s.gen.Made k → (s.gen.bindLabel l).Made k := fun k hk => by
    unfold Generator.Made at *
    omega
  refine ⟨fun k => ?_, h.frames, h.made.trans hlength.ge, fun i hi k hk => hmade k (h.code i hi k hk),
    fun k hk => (h.loops k hk).imp (hmade _) (hmade _), fun k hk => hmade k (h.cases k hk)⟩
  obtain ⟨hlt, -⟩ := List.getElem?_eq_some_iff.mp ((h.pending l).mpr hl)
  rw [Site.mem_settle, ← h.pending k]
  show (s.gen.binds.set l (some s.gen.instructions.length))[k]? = some none ↔ _
  rw [List.getElem?_set]
  by_cases hk : l = k
  · subst hk
    simp [hlt]
  · simp [hk, Ne.symm hk]

theorem made_of_pending {l : Nat} (h : s.At σ) (hl : l ∈ σ.pending) : s.gen.Made l :=
  (List.getElem?_eq_some_iff.mp ((h.pending l).mpr hl)).1

end Lowering.At

namespace Lower

variable {α β : Type} {σ : Site} {k : FrameKind}

/-- An error that is about neither the construction of code nor the tables of classes. -/
def Sturdy (e : LowerError) : Prop :=
  (∀ f, e.fault = .internal f → f.aboutConstruction = false) ∧ e.fault.aboutTables = false

theorem sturdy_internal {f : InternalFault} (h : f.aboutConstruction = false) :
    Sturdy { fault := .internal f } := by
  refine ⟨fun f' hf => ?_, rfl⟩
  cases hf
  exact h

/-- From the site `σ`, the step goes on to a site of which `R` holds. -/
def Moves (σ : Site) (x : Lower α) (R : α → Site → Prop) : Prop :=
  ∀ ctx s, s.At σ → After x ctx s (fun a s' => ∃ σ', s'.At σ' ∧ R a σ') Sturdy

/-- A step that leaves the site as it was. -/
def Stays (σ : Site) (x : Lower α) : Prop := Moves σ x fun _ σ' => σ' = σ

/-- A step that leaves every site as it was. -/
def Tidy (x : Lower α) : Prop := ∀ σ, Stays σ x

/-- A step that leads to a label, which has to exist, and leaves the site as it was. -/
def Reaches (l : Nat) (x : Lower α) : Prop := ∀ σ : Site, l < σ.made → Stays σ x

/-- A step inside of a construct that leaves the site as it was. -/
def TidyIn (k : FrameKind) (x : Lower α) : Prop := ∀ σ, σ.Inside k → Stays σ x

theorem Tidy.reaches {x : Lower α} (h : Tidy x) (l : Nat) : Reaches l x := fun σ _ => h σ

theorem Tidy.within {x : Lower α} (h : Tidy x) : TidyIn k x := fun σ _ => h σ

theorem Moves.bind {x : Lower α} {f : α → Lower β} {P : α → Site → Prop} {R : β → Site → Prop}
    (hx : Moves σ x P) (hf : ∀ a σ', P a σ' → Moves σ' (f a) R) : Moves σ (x >>= f) R :=
  fun ctx s hs => (hx ctx s hs).bind fun a s' ⟨σ', hs', ha⟩ => hf a σ' ha ctx s' hs'

/-- How many labels there are need not be known further on. -/
theorem Moves.forget {τ : Site} {n : Nat} {x : Lower α} (hn : τ.made ≤ n)
    (h : Moves σ x fun _ σ' => σ' = τ.knowing n) : Moves σ x fun _ σ' => σ' = τ := by
  intro ctx s hs
  refine (h ctx s hs).post fun a s' ⟨σ', hs', hσ⟩ => ⟨τ, ?_, rfl⟩
  subst hσ
  exact hs'.forget hn

theorem Stays.bind {x : Lower α} {f : α → Lower β} {R : β → Site → Prop} (hx : Stays σ x)
    (hf : ∀ a, Moves σ (f a) R) : Moves σ (x >>= f) R :=
  Moves.bind hx fun a _ h => h ▸ hf a

theorem Tidy.bind {x : Lower α} {f : α → Lower β} (hx : Tidy x) (hf : ∀ a, Tidy (f a)) :
    Tidy (x >>= f) := fun σ => (hx σ).bind fun a => hf a σ

theorem Reaches.bind {l : Nat} {x : Lower α} {f : α → Lower β} (hx : Reaches l x)
    (hf : ∀ a, Reaches l (f a)) : Reaches l (x >>= f) :=
  fun σ h => (hx σ h).bind fun a => hf a σ h

theorem TidyIn.bind {x : Lower α} {f : α → Lower β} (hx : TidyIn k x)
    (hf : ∀ a, TidyIn k (f a)) : TidyIn k (x >>= f) :=
  fun σ h => (hx σ h).bind fun a => hf a σ h

/-- A step that leaves the state as it was. -/
theorem tidy_of_looks {x : Lower α} (h : ∀ ctx s, After x ctx s (fun _ s' => s' = s) fun _ => False) :
    Tidy x := by
  intro σ ctx s hs
  refine (h ctx s).mono ?_ fun _ => False.elim
  rintro a s' rfl
  exact ⟨σ, hs, rfl⟩

theorem pure_tidy (a : α) : Tidy (pure a : Lower α) := tidy_of_looks fun _ _ => rfl

theorem Tidy.ite {c : Prop} [Decidable c] {x y : Lower α} (hx : Tidy x) (hy : Tidy y) :
    Tidy (if c then x else y) := by
  split
  · exact hx
  · exact hy

/-- A step that stops with an error. -/
theorem stops_tidy {e : LowerError} (h : Sturdy e) : Tidy (throw e : Lower α) := fun _ _ _ _ => h

theorem contradiction_tidy {f : InternalFault} (h : f.aboutConstruction = false) :
    Tidy (contradiction f : Lower α) := stops_tidy (sturdy_internal h)

/-- A fault of the source. -/
theorem report_tidy {pos : Pos} {f : CompileFault} (h : ∀ f', f ≠ .internal f')
    (ht : f.aboutTables = false) : Tidy (report pos f : Lower α) :=
  stops_tidy ⟨fun f' hf => absurd hf (h f'), ht⟩

theorem read_tidy : Tidy (read : Lower LowerContext) := tidy_of_looks fun _ _ => rfl

theorem current_tidy : Tidy current := tidy_of_looks fun _ _ => rfl

theorem note_tidy (p : Pos) : Tidy (note p) := tidy_of_looks fun _ _ => rfl

theorem types_tidy : Tidy types := tidy_of_looks fun _ _ => rfl

theorem placeText_tidy (p : Pos) : Tidy (placeText p) := tidy_of_looks fun _ _ => rfl

theorem inAccessor_tidy (m : MemberSlot) : Tidy (inAccessor m) := tidy_of_looks fun _ _ => rfl

theorem slotOf_tidy (name : Text) (pos : Pos) (t : StaticType) : Tidy (slotOf name pos t) :=
  tidy_of_looks fun _ _ => rfl

/-- A change of what is neither code nor a label. -/
theorem update_tidy {f : Lowering → Lowering}
    (h : ∀ s, (f s).gen = s.gen ∧ (f s).loops = s.loops ∧ (f s).cases = s.cases) :
    Tidy (update f) := by
  intro σ ctx s hs
  obtain ⟨hg, hl, hc⟩ := h s
  rw [after_update]
  exact ⟨σ, hs.same (by rw [hg]) (by rw [hg]) (by rw [hg]) hl hc, rfl⟩

theorem bindVar_tidy (anchor : Pos) (a : Address) : Tidy (bindVar anchor a) :=
  update_tidy fun _ => ⟨rfl, rfl, rfl⟩

/-! ### Steps of generation -/

/-- A step of generation that changes neither code nor labels nor constructs. -/
theorem tidy_of_still {x : Gen α} (h : ∀ g, Gen.After x g
    (fun _ g' => g'.binds = g.binds ∧ g'.frames = g.frames ∧ g'.instructions = g.instructions)
    fun f => f.aboutConstruction = false) :
    Tidy (liftM x : Lower α) := by
  intro σ ctx s hs
  rw [after_lift]
  refine (h s.gen).mono ?_ fun f hf => sturdy_internal hf
  rintro a g' ⟨hb, hf, hi⟩
  exact ⟨σ, hs.same hb hf hi rfl rfl, rfl⟩

/-- **An instruction is accepted** if it has as many operands as its shape asks for. Its labels have to
exist. -/
theorem emit_stays {op : Opcode} {args : List Nat} (h : args.length = Instruction.arity op args)
    (hl : ∀ l ∈ (⟨op, args⟩ : Instruction).labels, l < σ.made) :
    Stays σ (Gen.emit op args : Lower Unit) := by
  intro ctx s hs
  rw [after_lift, Gen.after_emit_of_fits h]
  exact ⟨σ, hs.push fun l hmem => lt_of_lt_of_le (hl l hmem) hs.made, rfl⟩

theorem labels_eq_nil {op : Opcode} (h : OperandKind.label ∉ op.shape) (args : List Nat) :
    (⟨op, args⟩ : Instruction).labels = [] := by
  have hkinds : ∀ (ks : List OperandKind) (as : List Nat), OperandKind.label ∉ ks →
      ∀ x ∈ Instruction.operandsFrom ks as, x.1 ≠ .label := by
    intro ks as hks
    fun_induction Instruction.operandsFrom ks as with
    | case1 k ks a as ih =>
      rw [List.mem_cons, not_or] at hks
      intro x hx
      rcases List.mem_cons.mp hx with rfl | hx
      · exact Ne.symm hks.1
      · exact ih hks.2 x hx
    | case2 as =>
      intro x hx
      obtain ⟨_, -, rfl⟩ := List.mem_map.mp hx
      nofun
    | case3 => simp
  unfold Instruction.labels
  rw [List.map_eq_nil_iff, List.filter_eq_nil_iff]
  intro x hx
  simpa using hkinds _ _ h x hx

theorem emit_tidy {op : Opcode} {args : List Nat} (h : args.length = Instruction.arity op args)
    (hl : OperandKind.label ∉ op.shape) : Tidy (Gen.emit op args : Lower Unit) :=
  fun _ => emit_stays h (by simp [labels_eq_nil hl])

theorem emitList_tidy {op : Opcode} {list : List Address} {args : List Nat}
    (hlist : op.shape.getLast? = some .list) (ha : args.length + 1 = op.shape.length) :
    Tidy (Gen.emitList op list args : Lower Unit) := by
  have hl : OperandKind.label ∉ op.shape := by
    cases op <;> first | decide | cases hlist
  intro σ ctx s hs
  rw [after_lift, Gen.after_emitList hlist ha]
  exact ⟨σ, hs.push (by simp [labels_eq_nil hl]), rfl⟩

theorem addTemporary_tidy (t : StaticType) : Tidy (Gen.addTemporary t : Lower Address) :=
  tidy_of_still fun _ => ⟨rfl, rfl, rfl⟩

theorem release_tidy (a : Address) : Tidy (Gen.release a : Lower Unit) := tidy_of_still fun g => by
  rw [Gen.after_release]
  split
  · split
    · exact ⟨rfl, rfl, rfl⟩
    · rfl
  · exact ⟨rfl, rfl, rfl⟩

theorem releaseAll_tidy (as : List Address) : Tidy (Gen.releaseAll as : Lower Unit) := by
  unfold Gen.releaseAll
  induction as.reverse with
  | nil => exact pure_tidy _
  | cons a as ih =>
    show Tidy (liftM (Gen.release a >>= fun _ => as.forM Gen.release) : Lower Unit)
    rw [lift_bind]
    exact (release_tidy a).bind fun _ => ih

theorem name_gen_tidy (n : Text) : Tidy (Gen.name n : Lower Nat) :=
  tidy_of_still fun _ => ⟨rfl, rfl, rfl⟩

theorem constant_tidy (v : Value) : Tidy (Gen.constant v : Lower Address) :=
  tidy_of_still fun _ => ⟨rfl, rfl, rfl⟩

theorem boolean_tidy (b : Bool) : Tidy (Gen.boolean b : Lower Address) := constant_tidy _

theorem setLine_gen_tidy (line : Int) : Tidy (Gen.setLine line : Lower Unit) :=
  tidy_of_still fun _ => ⟨rfl, rfl, rfl⟩

/-- An instruction that leads to one label. -/
theorem emit_reaches {op : Opcode} {args : List Nat} {l : Nat}
    (h : args.length = Instruction.arity op args) (hl : (⟨op, args⟩ : Instruction).labels = [l]) :
    Reaches l (Gen.emit op args : Lower Unit) := fun σ hlt => emit_stays h fun k hk => by
  rw [hl, List.mem_singleton] at hk
  rwa [hk]

theorem jump_reaches (l : Nat) : Reaches l (Gen.jump l : Lower Unit) := emit_reaches rfl rfl

theorem jumpIf_reaches (cond : Address) (l : Nat) : Reaches l (Gen.jumpIf cond l : Lower Unit) :=
  emit_reaches rfl rfl

theorem jumpIfNot_reaches (cond : Address) (l : Nat) : Reaches l (Gen.jumpIfNot cond l : Lower Unit) :=
  emit_reaches rfl rfl

/-! ### Labels -/

/-- A new label is waited for. -/
theorem newLabel_moves : Moves σ (Gen.newLabel : Lower Nat) fun l σ' =>
    ∃ n, σ.made ≤ n ∧ (σ.knowing n).Free l ∧ σ' = (σ.knowing n).await l := by
  intro ctx s hs
  rw [after_lift, Gen.after_newLabel]
  refine ⟨_, hs.addLabel, _, le_trans hs.made (Nat.le_succ _), ⟨?_, Nat.lt_succ_self _⟩, rfl⟩
  intro hmem
  exact absurd (hs.made_of_pending hmem) (lt_irrefl _)

/-- A label that is waited for is bound. -/
theorem bind_moves {l : Nat} (h : l ∈ σ.pending) :
    Moves σ (Gen.bind l : Lower Unit) fun _ σ' => σ' = σ.settle l := by
  intro ctx s hs
  have hfree : (s.gen.binds.getD l none).isSome = false := by
    simp [List.getD_eq_getElem?_getD, (hs.pending l).mpr h]
  rw [after_lift, Gen.after_bindLabel, hfree]
  exact ⟨_, hs.bindLabel h, rfl⟩

/-- The label that was made last is bound. -/
theorem bind_last {l : Nat} (h : σ.Free l) :
    Moves (σ.await l) (Gen.bind l : Lower Unit) fun _ σ' => σ' = σ := by
  have hbind : Moves (σ.await l) (Gen.bind l : Lower Unit) fun _ σ' => σ' = (σ.await l).settle l :=
    bind_moves (.inl rfl)
  rwa [Site.settle_await h.1] at hbind

/-- The label that was made before the last one is bound. -/
theorem bind_earlier {k l : Nat} (h : σ.Free k) (hne : l ≠ k) :
    Moves ((σ.await k).await l) (Gen.bind k : Lower Unit) fun _ σ' => σ' = σ.await l := by
  have hbind : Moves ((σ.await k).await l) (Gen.bind k : Lower Unit) fun _ σ' =>
      σ' = ((σ.await k).await l).settle k := bind_moves (.inr (.inl rfl))
  rwa [Site.settle_await_of_ne hne, Site.settle_await h.1] at hbind

/-! ### Constructs -/

theorem pushFrame_moves (k : FrameKind) : Moves σ (Gen.pushFrame k : Lower Unit) fun _ σ' =>
    ∃ f n, f.kind = k ∧ σ.made ≤ n ∧ f.Fresh (σ.knowing n) ∧ σ' = (σ.knowing n).begin f := by
  unfold Gen.pushFrame
  rw [lift_bind]
  refine newLabel_moves.bind fun skip σ₁ ⟨n, hn, hskip, h₁⟩ => ?_
  rw [lift_bind]
  refine newLabel_moves.bind fun done σ₂ ⟨m, hm, hdone, h₂⟩ => ?_
  subst h₁ h₂
  have hnm : n ≤ m := hm
  have hdone' : done ≠ skip ∧ done ∉ σ.pending := not_or.mp hdone.1
  intro ctx s hs
  rw [after_lift, Gen.after_modify]
  refine ⟨(σ.knowing m).begin ⟨k, skip, done⟩, { hs with frames := congrArg _ hs.frames },
    ⟨k, skip, done⟩, m, rfl, hn.trans hnm, ?_, rfl⟩
  exact ⟨⟨hskip.1, lt_of_lt_of_le hskip.2 hnm⟩, ⟨hdone'.2, hdone.2⟩, hdone'.1⟩

theorem topFrame_moves {f : Frame} {fs : List Frame} (hf : σ.frames = f :: fs) :
    Moves σ (Gen.topFrame f.kind : Lower Frame) fun f' σ' => f' = f ∧ σ' = σ := by
  intro ctx s hs
  rw [after_lift, Gen.after_topFrame, hs.frames.trans hf]
  dsimp only
  rw [if_pos rfl]
  exact ⟨σ, hs, rfl, rfl⟩

theorem popFrame_moves {f : Frame} {fs : List Frame} (hf : σ.frames = f :: fs) :
    Moves σ (Gen.popFrame f.kind : Lower Frame) fun f' σ' => f' = f ∧ σ' = { σ with frames := fs } := by
  intro ctx s hs
  have hframes : s.gen.frames = f :: fs := hs.frames.trans hf
  rw [after_lift, Gen.after_popFrame, hframes]
  dsimp only
  rw [if_pos rfl]
  exact ⟨{ σ with frames := fs }, { hs with frames := rfl }, rfl, rfl⟩

end Lower

end GameScript
