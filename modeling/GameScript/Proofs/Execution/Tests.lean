import GameScript.Proofs.Execution.Patterns
import GameScript.Proofs.Execution.Setup
import GameScript.Proofs.Running.Values

/-!
# Code of tests

The code of a pattern is a sequence of tests, each of which leaves for a label if it fails. What such
code does is described for a fixed setup whose values are those of `Value.host`.

* `Supplied` — code that computes a value without testing anything;
* `Checked` — code that goes on if a condition holds of the values, and leaves for a label if not;
* `Determined` — code that computes whether a condition holds.
-/

namespace GameScript

variable {cs : List Value} {E : Scene}
  {S : Setup cs (Value.host E)} {D D₁ D₂ : List Pos} {d : Nat} {b : Bool} {P P₁ P₂ : Prop}
  {B B₁ B₂ : List (Pos × Value)}

/-! ### Outcomes -/

/-- What becomes of cells by tests that find out whether `P` holds: the names of `B` have got their values
if it does, the variables that are not in `D` and the temporaries below `d` are the same, and what has
been looked at ends with the first test that fails. -/
structure Verdict (S : Setup cs (Value.host E)) (D : List Pos) (d : Nat) (m m' : Cells Value) (l : List Probe)
    (b : Bool) (P : Prop) (B : List (Pos × Value)) : Prop where
  agree : Cells.Agree d m m'
  full : S.Full m'
  correct : b = true ↔ P
  passed : b = true → Pattern.Passed l
  stopped : b = false → Pattern.Stopped l
  bound : b = true → ∀ e ∈ B, S.value m' e.1 = some e.2
  frame : ∀ p, p ∉ D → S.value m' p = S.value m p

namespace Verdict

variable {m m₁ m₂ : Cells Value} {l l₁ l₂ : List Probe}

/-- Nothing needs to be tested. -/
theorem refl (hm : S.Full m) (hP : P) : Verdict S [] d m m [] true P [] :=
  ⟨.refl d m, hm, by simp [hP], fun _ => Pattern.passed_nil, nofun, nofun, fun _ _ => rfl⟩

/-- Tests behind others that have passed. -/
theorem and (h₁ : Verdict S D₁ d m m₁ l₁ true P₁ B₁) (h₂ : Verdict S D₂ d m₁ m₂ l₂ b P₂ B₂)
    (hB : ∀ e ∈ B₁, e.1 ∈ D₁) (hD : ∀ p ∈ D₁, p ∉ D₂) :
    Verdict S (D₁ ++ D₂) d m m₂ (l₁ ++ l₂) b (P₁ ∧ P₂) (B₁ ++ B₂) where
  agree := h₁.agree.trans h₂.agree
  full := h₂.full
  correct := h₂.correct.trans (by simp [h₁.correct.mp rfl])
  passed hb := (h₁.passed rfl).append (h₂.passed hb)
  stopped hb := (h₁.passed rfl).stopped (h₂.stopped hb)
  bound hb e he := by
    rcases List.mem_append.mp he with he | he
    · rw [h₂.frame _ (hD _ (hB e he))]
      exact h₁.bound rfl e he
    · exact h₂.bound hb e he
  frame p hp := by
    rw [List.mem_append, not_or] at hp
    exact (h₂.frame p hp.2).trans (h₁.frame p hp.1)

/-- Nothing is tested behind a test that has failed. -/
theorem and_left (h₁ : Verdict S D₁ d m m₁ l₁ false P₁ B₁) :
    Verdict S (D₁ ++ D₂) d m m₁ l₁ false (P₁ ∧ P₂) (B₁ ++ B₂) where
  agree := h₁.agree
  full := h₁.full
  correct := by
    have hP : ¬ P₁ := fun hP => by simpa using h₁.correct.mpr hP
    simp [hP]
  passed := nofun
  stopped := h₁.stopped
  bound := nofun
  frame p hp := h₁.frame p fun h => hp (List.mem_append_left _ h)

/-- The condition and the names may be written otherwise. -/
theorem congr (h : Verdict S D₁ d m m₁ l b P₁ B₁) (hP : P₁ ↔ P₂) (hB : P₁ → ∀ e ∈ B₂, e ∈ B₁)
    (hD : D₁ ⊆ D₂) : Verdict S D₂ d m m₁ l b P₂ B₂ :=
  { h with
    correct := h.correct.trans hP
    bound := fun hb e he => h.bound hb e (hB (h.correct.mp hb) e he)
    frame := fun p hp => h.frame p fun hp' => hp (hD hp') }

theorem mono {e : Nat} (h : Verdict S D e m m₁ l b P B) (hde : d ≤ e) : Verdict S D d m m₁ l b P B :=
  { h with agree := h.agree.mono hde }

/-- Behind code that neither tests nor assigns anything. -/
theorem after (h : Verdict S D d m₁ m₂ l₂ b P B) (hm : Cells.Same d m m₁) (hl : Pattern.Passed l₁) :
    Verdict S D d m m₂ (l₁ ++ l₂) b P B :=
  { h with
    agree := hm.toAgree.trans h.agree
    passed := fun hb => hl.append (h.passed hb)
    stopped := fun hb => hl.stopped (h.stopped hb)
    frame := fun p hp => (h.frame p hp).trans (Setup.value_same hm p) }

/-- Before code that neither tests nor assigns anything. -/
theorem then_same (h : Verdict S D d m m₁ l b P B) (hm : Cells.Same d m₁ m₂) : Verdict S D d m m₂ l b P B :=
  { h with
    agree := h.agree.trans hm.toAgree
    full := h.full.same hm
    bound := fun hb e he => (Setup.value_same hm e.1).trans (h.bound hb e he)
    frame := fun p hp => (Setup.value_same hm p).trans (h.frame p hp) }

end Verdict

/-! ### Code -/

/-- The code between `s` and `s'` computes `v` into `a` and tests nothing. -/
structure Supplied (S : Setup cs (Value.host E)) (s : Lowering) (a : Address) (s' : Lowering) (v : Value) :
    Prop where
  grows : Grows [] s s'
  ready : s'.Ready
  holds : Holds s.gen.temps a s'.gen.temps
  nesting : s'.nesting = s.nesting.withTemps s'.gen.temps
  place : a.mode ≠ .parameter ∧ a.mode ≠ .localVar
  runs : S.Covers s' → ∀ m w, S.Full m → ∃ m' l, S.hosted.Reaches (S.atEnd s m w) (S.atEnd s' m' (w ++ l)) ∧
    Cells.Same s.gen.temps.length m m' ∧ Pattern.Passed l ∧ S.Steady m' a v

/-- The code between `s` and `s'` goes from cells of `Pre` to cells of `Post` and tests nothing. -/
structure Prepared (S : Setup cs (Value.host E)) (d : Nat) (Pre Post : Cells Value → Prop) (s s' : Lowering) :
    Prop where
  grows : Grows [] s s'
  runs : S.Covers s' → ∀ m w, S.Full m → Pre m → ∃ m' l,
    S.hosted.Reaches (S.atEnd s m w) (S.atEnd s' m' (w ++ l)) ∧ Cells.Same d m m' ∧ Pattern.Passed l ∧ Post m'

/-- Between `s` and `s'`, at the nesting `k`, it is tested whether `P` holds, from cells of `Pre` on: if not,
the code goes on at `skip`. -/
structure Checked (S : Setup cs (Value.host E)) (D : List Pos) (d : Nat) (Pre : Cells Value → Prop)
    (s s' : Lowering) (k : Nesting) (skip : Nat) (P : Prop) (B : List (Pos × Value)) : Prop where
  grows : Grows D s s'
  ready : s'.Ready
  nesting : s'.nesting = k
  runs : S.Covers s' → ∀ m w, S.Full m → Pre m → ∃ b m' l, S.hosted.Reaches (S.atEnd s m w)
    (if b then S.atEnd s' m' (w ++ l) else S.atLabel skip m' (w ++ l)) ∧ Verdict S D d m m' l b P B

/-- Between `s` and `s'` one test, whose result is put into the temporary `j`, finds out whether `P` holds. -/
structure Probed (S : Setup cs (Value.host E)) (j : Nat) (Pre : Cells Value → Prop) (s s' : Lowering)
    (k : Nesting) (skip : Nat) (P : Prop) : Prop where
  grows : Grows [] s s'
  ready : s'.Ready
  nesting : s'.nesting = k
  runs : S.Covers s' → ∀ m w, S.Full m → Pre m → Setup.Room m j ∧ ∃ b t,
    S.hosted.Reaches (S.atEnd s m w) (if b then S.atEnd s' (m.setTemp j (.bool b)) (w ++ [t])
      else S.atLabel skip (m.setTemp j (.bool b)) (w ++ [t])) ∧
    t.IsTest ∧ t.result = .bool b ∧ (b = true ↔ P)

/-- The code between `s` and `s'` computes into `a` whether `P` holds, from cells of `Pre` on. -/
structure Determined (S : Setup cs (Value.host E)) (D : List Pos) (Pre : Cells Value → Prop)
    (s : Lowering) (a : Address) (s' : Lowering) (P : Prop) (B : List (Pos × Value)) : Prop where
  grows : Grows D s s'
  ready : s'.Ready
  holds : Holds s.gen.temps a s'.gen.temps
  nesting : s'.nesting = s.nesting.withTemps s'.gen.temps
  runs : S.Covers s' → ∀ m w, S.Full m → Pre m → ∃ b m' l,
    S.hosted.Reaches (S.atEnd s m w) (S.atEnd s' m' (w ++ l)) ∧
    Verdict S D s.gen.temps.length m m' l b P B ∧ S.Steady m' a (.bool b)

/-- The code between `s` and `s'` stores a boolean to the temporary `i`. -/
structure Marks (S : Setup cs (Value.host E)) (s s' : Lowering) (i : Nat) (b : Bool) : Prop where
  grows : Grows [] s s'
  ready : s'.Ready
  nesting : s'.nesting = s.nesting
  runs : S.Covers s' → ∀ m w, S.Full m → Setup.Room m i →
    S.hosted.Reaches (S.atEnd s m w) (S.atEnd s' (m.setTemp i (.bool b)) w)

/-- The end of a conjunction or a disjunction. It is reached with the truth of the last operand if that is
`last`, and at the label `skip` with that of the operand that has decided it. -/
structure Concludes (S : Setup cs (Value.host E)) (s s' : Lowering) (i skip : Nat) (last : Bool) (k : Nesting) :
    Prop where
  grows : Grows [] s s'
  ready : s'.Ready
  nesting : s'.nesting = k
  runs : S.Covers s' → ∀ m w b, S.Full m → Setup.Room m i →
    S.hosted.Reaches (if b = last then S.atEnd s m w else S.atLabel skip m w)
      (S.atEnd s' (m.setTemp i (.bool b)) w)

section Relations

variable {s s₁ s₂ : Lowering} {a : Address} {v : Value} {Pre Pre₁ Pre₂ Post : Cells Value → Prop} {skip : Nat}
  {k k₁ k₂ : Nesting}

theorem Supplied.depth_le (h : Supplied S s a s₁ v) : s.gen.temps.length ≤ s₁.gen.temps.length :=
  h.holds.length_le

theorem Supplied.index (h : Supplied S s a s₁ v) (ha : a.mode = .temporary) :
    a.index = s.gen.temps.length ∧ a.index < s₁.gen.temps.length := by
  have hh := h.holds
  unfold GameScript.Holds at hh
  rw [if_pos (by simp [Address.isTemporary, ha])] at hh
  obtain ⟨hi, t, ht⟩ := hh
  exact ⟨hi, by simp [ht, hi]⟩

theorem prepared_of_adds (h : Adds s [] k s₁) : Prepared S d Pre Pre s s₁ := by
  refine ⟨h.grows, fun _ m w _ hp => ⟨m, [], ?_, .refl d m, Pattern.passed_nil, hp⟩⟩
  rw [List.append_nil, Setup.atEnd_of_adds h]
  exact .refl _

/-- A value has been computed, and what was known of the cells below is known still. -/
theorem Supplied.prepared (h : Supplied S s a s₁ v) (hd : d ≤ s.gen.temps.length)
    (hpre : ∀ m m', Pre m → Cells.Same s.gen.temps.length m m' → Pre m') :
    Prepared S d Pre (fun m => Pre m ∧ S.Steady m a v) s s₁ := by
  refine ⟨h.grows, fun hi m w hm hp => ?_⟩
  obtain ⟨m', l, hreach, hsame, hl, ha⟩ := h.runs hi m w hm
  exact ⟨m', l, hreach, hsame.mono hd, hl, hpre m m' hp hsame, ha⟩

theorem Prepared.trans (h₁ : Prepared S d Pre Pre₁ s s₁) (h₂ : Prepared S d Pre₁ Post s₁ s₂) :
    Prepared S d Pre Post s s₂ := by
  refine ⟨h₁.grows.then h₂.grows, fun hi m w hm hp => ?_⟩
  obtain ⟨m₁, l₁, hreach₁, hsame₁, hl₁, hp₁⟩ := h₁.runs (hi.of_grows h₂.grows) m w hm hp
  obtain ⟨m₂, l₂, hreach₂, hsame₂, hl₂, hp₂⟩ := h₂.runs hi m₁ (w ++ l₁) (hm.same hsame₁) hp₁
  rw [List.append_assoc] at hreach₂
  exact ⟨m₂, l₁ ++ l₂, hreach₁.trans hreach₂, hsame₁.trans hsame₂, hl₁.append hl₂, hp₂⟩

/-- Tests behind code that prepares them. -/
theorem Checked.after (h : Checked S D d Post s₁ s₂ k skip P B) (h₁ : Prepared S d Pre Post s s₁) :
    Checked S D d Pre s s₂ k skip P B := by
  refine ⟨h.grows.after h₁.grows, h.ready, h.nesting, fun hi m w hm hp => ?_⟩
  obtain ⟨m₁, l₁, hreach₁, hsame, hl, hp₁⟩ := h₁.runs (hi.of_grows h.grows) m w hm hp
  obtain ⟨b, m₂, l₂, hreach₂, ho⟩ := h.runs hi m₁ (w ++ l₁) (hm.same hsame) hp₁
  rw [List.append_assoc] at hreach₂
  exact ⟨b, m₂, l₁ ++ l₂, hreach₁.trans hreach₂, ho.after hsame hl⟩

/-- Tests before a change of the stack. -/
theorem Checked.then (h : Checked S D d Pre s s₁ k₁ skip P B) (h₂ : Adds s₁ [] k s₂) :
    Checked S D d Pre s s₂ k skip P B := by
  refine ⟨h.grows.then h₂.grows, h₂.ready, h₂.nesting, fun hi m w hm hp => ?_⟩
  obtain ⟨b, m', l, hreach, ho⟩ := h.runs (hi.of_grows h₂.grows) m w hm hp
  refine ⟨b, m', l, ?_, ho⟩
  rw [Setup.atEnd_of_adds h₂]
  exact hreach

theorem Checked.mono {e : Nat} (h : Checked S D e Pre s s₁ k skip P B) (hde : d ≤ e) :
    Checked S D d Pre s s₁ k skip P B := by
  refine ⟨h.grows, h.ready, h.nesting, fun hi m w hm hp => ?_⟩
  obtain ⟨b, m', l, hreach, ho⟩ := h.runs hi m w hm hp
  exact ⟨b, m', l, hreach, ho.mono hde⟩

/-- One test after another. -/
theorem Checked.trans (h₁ : Checked S D₁ d Pre₁ s s₁ k₁ skip P₁ B₁)
    (h₂ : Checked S D₂ d Pre₂ s₁ s₂ k₂ skip P₂ B₂) (hpre : ∀ m m', Pre₁ m → Cells.Agree d m m' → P₁ → Pre₂ m')
    (hB : ∀ e ∈ B₁, e.1 ∈ D₁) (hD : ∀ p ∈ D₁, p ∉ D₂) :
    Checked S (D₁ ++ D₂) d Pre₁ s s₂ k₂ skip (P₁ ∧ P₂) (B₁ ++ B₂) := by
  refine ⟨h₁.grows.trans h₂.grows, h₂.ready, h₂.nesting, fun hi m w hm hp => ?_⟩
  obtain ⟨b₁, m₁, l₁, hreach₁, ho₁⟩ := h₁.runs (hi.of_grows h₂.grows) m w hm hp
  cases b₁ with
  | false => exact ⟨false, m₁, l₁, hreach₁, ho₁.and_left⟩
  | true =>
    obtain ⟨b₂, m₂, l₂, hreach₂, ho₂⟩ := h₂.runs hi m₁ (w ++ l₁) ho₁.full
      (hpre m m₁ hp ho₁.agree (ho₁.correct.mp rfl))
    refine ⟨b₂, m₂, l₁ ++ l₂, hreach₁.trans ?_, ho₁.and ho₂ hB hD⟩
    rw [← List.append_assoc]
    exact hreach₂

theorem Checked.temps (h : Checked S D d Pre s s₁ s.nesting skip P B) : s₁.gen.temps = s.gen.temps :=
  congrArg Nesting.temps h.nesting

theorem Checked.frames (h : Checked S D d Pre s s₁ s.nesting skip P B) : s₁.gen.frames = s.gen.frames :=
  congrArg Nesting.frames h.nesting

theorem Checked.congr (h : Checked S D₁ d Pre s s₁ k skip P₁ B₁) (hP : ∀ m, Pre m → (P₁ ↔ P₂))
    (hB : P₁ → ∀ e ∈ B₂, e ∈ B₁) (hD : D₁ ⊆ D₂) : Checked S D₂ d Pre s s₁ k skip P₂ B₂ := by
  refine ⟨h.grows.mono hD, h.ready, h.nesting, fun hi m w hm hp => ?_⟩
  obtain ⟨b, m', l, hreach, ho⟩ := h.runs hi m w hm hp
  exact ⟨b, m', l, hreach, ho.congr (hP m hp) hB hD⟩

theorem Checked.weaken (h : Checked S D d Pre₁ s s₁ k skip P B) (hpre : ∀ m, Pre₂ m → Pre₁ m) :
    Checked S D d Pre₂ s s₁ k skip P B :=
  ⟨h.grows, h.ready, h.nesting, fun hi m w hm hp => h.runs hi m w hm (hpre m hp)⟩

theorem Determined.congr (h : Determined S D Pre s a s₁ P₁ B) (hP : P₁ ↔ P₂) : Determined S D Pre s a s₁ P₂ B := by
  refine ⟨h.grows, h.ready, h.holds, h.nesting, fun hi m w hm hp => ?_⟩
  obtain ⟨b, m', l, hreach, ho, ha⟩ := h.runs hi m w hm hp
  exact ⟨b, m', l, hreach, ho.congr hP (fun _ _ he => he) fun _ hq => hq, ha⟩

/-- A single test. -/
theorem Probed.checked {j : Nat} (h : Probed S j Pre s s₁ k skip P) (hd : d ≤ j) :
    Checked S [] d Pre s s₁ k skip P [] := by
  refine ⟨h.grows, h.ready, h.nesting, fun hi m w hm hp => ?_⟩
  obtain ⟨-, b, t, hreach, ht, hresult, hP⟩ := h.runs hi m w hm hp
  have hsame := m.same_setTemp hd (.bool b)
  exact ⟨b, _, [t], hreach, hsame.toAgree, hm.same hsame, hP,
    fun hb => Pattern.passed_singleton fun _ => by rw [hresult, hb]; rfl,
    fun hb => Pattern.stopped_singleton ht (by rw [hresult, hb]; rfl), nofun, fun p _ => Setup.value_same hsame p⟩

/-- Tests behind a single one, which has changed nothing but its temporary. -/
theorem Probed.then {j : Nat} (h₁ : Probed S j Pre₁ s s₁ k₁ skip P₁) (h₂ : Checked S D d Pre₂ s₁ s₂ k₂ skip P₂ B)
    (hd : d ≤ j) (hpre : ∀ m, Pre₁ m → P₁ → Pre₂ (m.setTemp j (.bool true))) :
    Checked S D d Pre₁ s s₂ k₂ skip (P₁ ∧ P₂) B := by
  refine ⟨h₂.grows.after h₁.grows, h₂.ready, h₂.nesting, fun hi m w hm hp => ?_⟩
  obtain ⟨-, b, t, hreach, ht, hresult, hP⟩ := h₁.runs (hi.of_grows h₂.grows) m w hm hp
  have hsame := m.same_setTemp hd (.bool b)
  cases b with
  | false =>
    have hfalse : ¬ P₁ := fun h => by simpa using hP.mpr h
    exact ⟨false, _, [t], hreach, hsame.toAgree, hm.same hsame, by simp [hfalse], nofun,
      fun _ => Pattern.stopped_singleton ht (by rw [hresult]; rfl), nofun, fun p _ => Setup.value_same hsame p⟩
  | true =>
    obtain ⟨b, m', l, hreach₂, ho⟩ := h₂.runs hi _ (w ++ [t]) (hm.same hsame) (hpre m hp (hP.mp rfl))
    rw [List.append_assoc] at hreach₂
    refine ⟨b, m', [t] ++ l, hreach.trans hreach₂, ?_⟩
    exact (ho.after hsame (Pattern.passed_singleton fun _ => by rw [hresult]; rfl)).congr (by simp [hP.mp rfl])
      (fun _ _ he => he) fun _ hq => hq

/-- Nothing is tested. -/
theorem checked_nothing (hs : s.Ready) (hP : ∀ m, Pre m → P) : Checked S [] d Pre s s s.nesting skip P [] := by
  refine ⟨.refl s, hs, rfl, fun hi m w hm hp => ⟨true, m, [], ?_, .refl hm (hP m hp)⟩⟩
  rw [List.append_nil]
  exact .refl _

end Relations

/-! ### Single tests -/

namespace Lower

variable {ctx : LowerContext} {s s₁ s₂ s₃ s₄ : Lowering} {a : Address} {Pre : Cells Value → Prop} {skip : Nat}

/-- What holds of a step for each setup holds for all of them. -/
theorem ends_forall {α : Type} {ι : Sort*} {x : Lower α} {Q : ι → α → Lowering → Prop}
    (h : ∀ i, Ends x ctx s (Q i)) : Ends x ctx s fun a s' => ∀ i, Q i a s' := by
  unfold Ends After at h ⊢
  split
  · rename_i a s' heq
    intro i
    have hi := h i
    rw [heq] at hi
    exact hi
  · trivial

/-- A constant is found in the program. -/
theorem constant_steady {v : Value} (hv : Pool.Told cs v) (hs : s.Ready) (S : Setup cs (Value.host E)) :
    Ends (Gen.constant v) ctx s fun a s' => Adds s [] s.nesting s' ∧ a.mode = .constant ∧
      ∃ u, S.Covers s' → u.Alike v ∧ ∀ m, S.Steady m a u := by
  refine (constant_adds hs v).post fun a s' ⟨h, hmode, c, hc, hkey⟩ => ⟨h, hmode, c, fun hi => ?_⟩
  have hget := hi.constant hc
  have hlt := (List.getElem?_eq_some_iff.mp hget).1.trans_le S.fewConstants
  refine ⟨hv c (S.constants ▸ List.mem_of_getElem? hget) hkey, fun m => ⟨Address.encode_lt hlt, ?_, fun w => ?_⟩⟩
  · simp [hmode]
  · rw [Setup.load_encode, hmode, hget]
    rfl

/-- A constant needs no code. -/
theorem supplied_constant {u : Value} (h : Adds s [] s.nesting s₁) (hmode : a.mode = .constant)
    (hu : S.Covers s₁ → ∀ m, S.Steady m a u) : Supplied S s a s₁ u := by
  refine ⟨h.grows, h.ready, ?_, ?_, by simp [hmode], fun hi m w hm => ?_⟩
  · rw [h.temps]
    exact holds_of_not_temporary (by simp [Address.isTemporary, hmode]) _
  · rw [h.temps, h.nesting]
    rfl
  · refine ⟨m, [], ?_, .refl _ m, Pattern.passed_nil, hu hi m⟩
    rw [List.append_nil, Setup.atEnd_of_adds h]
    exact .refl _

/-- An operation whose result is a boolean is followed by a jump for the case that it is false. -/
theorem test_probes {op : Opcode} {args : List Nat} {j : Nat} {t : StaticType} {k k₂ : Nesting}
    (hop : op = .matchType ∨ op = .typeTestBuiltin ∨ op = .operator)
    (h₁ : Adds s [⟨op, Address.encode ⟨.temporary, j, t⟩ :: args⟩] k s₁)
    (h₂ : Adds s₁ [⟨.jumpIfNot, [Address.encode ⟨.temporary, j, t⟩, skip]⟩] k₂ s₂)
    (hready : s.Ready) (hj : j < s.gen.temps.length)
    (hact : S.Covers s₁ → ∀ m w, S.Full m → Pre m →
      (⟨op, Address.encode ⟨.temporary, j, t⟩ :: args⟩ : Instruction).Readable ∧ ∃ os b,
        S.hosted.operands m w .written ⟨op, Address.encode ⟨.temporary, j, t⟩ :: args⟩ = some os ∧
        Value.operate E.lookup op os = some (.bool b) ∧ (b = true ↔ P)) :
    Probed S j Pre s s₂ k₂ skip P := by
  refine ⟨h₁.grows.then h₂.grows, h₂.ready, h₂.nesting, fun hi m w hm hp => ?_⟩
  have hi₁ := hi.of_grows h₂.grows
  obtain ⟨hr, os, b, hos, hresult, hP⟩ := hact hi₁ m w hm hp
  have hroom := hm.room (hi₁.of_grows h₁.grows) hready hj
  have htarget : op.target? = some .written := by rcases hop with rfl | rfl | rfl <;> rfl
  have hdone : (Value.host E).act op os w = some (.bool b, w ++ [⟨op, os, .bool b⟩]) := by
    simp [Value.host, hresult]
  have hreach := (Setup.reaches_result htarget h₁ hi₁ hr hroom hos hdone).trans
    (Setup.reaches_branch .jumpIfNot rfl h₂ hi (Setup.reads_setTemp hroom _ _))
  refine ⟨hroom, b, ⟨op, os, .bool b⟩, ?_, hop, rfl, hP⟩
  cases b <;> exact hreach

/-- A result decides by a jump. -/
theorem Checked.of_determined {k : Nesting} (h : Determined S D Pre s a s₁ P B)
    (h₂ : Adds s₁ [⟨.jumpIfNot, [a.encode, skip]⟩] k s₂) (hd : d ≤ s.gen.temps.length) :
    Checked S D d Pre s s₂ k skip P B := by
  refine ⟨h.grows.then h₂.grows, h₂.ready, h₂.nesting, fun hi m w hm hp => ?_⟩
  obtain ⟨b, m', l, hreach, ho, ha⟩ := h.runs (hi.of_grows h₂.grows) m w hm hp
  have hjump := Setup.reaches_branch .jumpIfNot rfl h₂ hi (ha.reads (w ++ l))
  refine ⟨b, m', l, hreach.trans ?_, ho.mono hd⟩
  cases b <;> exact hjump

/-! ### Constructs -/

theorem boolean_marks (S : Setup cs (Value.host E)) (hs : s.Ready) (i : Nat) (t : StaticType) (b : Bool) :
    Ends (do Gen.emit .assign [Address.encode ⟨.temporary, i, t⟩, (← Gen.boolean b).encode] : Gen Unit)
      ctx s fun _ s' => Marks S s s' i b := by
  rw [lift_bind]
  refine (constant_steady (Pool.told_bool cs b) hs S).bind fun a s₁ ⟨h₁, _, u, hu⟩ => ?_
  refine (emit_adds h₁.ready _ _).post fun _ s₂ h₂ => ?_
  refine ⟨h₁.grows.then h₂.grows, h₂.ready, h₂.nesting.trans h₁.nesting, fun hi m w hm hroom => ?_⟩
  obtain ⟨hu, hsteady⟩ := hu (hi.of_grows h₂.grows)
  obtain rfl : u = .bool b := eq_bool_of_alike hu
  rw [← Setup.atEnd_of_adds h₁]
  exact Setup.reaches_assign h₂ hi (hroom.narrow t) ((hsteady m).reads w) (Setup.store_temporary hroom w _)

/-- The end of a construct that stops early. -/
theorem endLogical_concludes (S : Setup cs (Value.host E)) (hs : s.Ready) {kind : FrameKind} {fr : Frame}
    {fs : List Frame} (hf : s.gen.frames = fr :: fs) (hskip : fr.skip < s.gen.binds.length)
    (hdone : fr.done < s.gen.binds.length) (i : Nat) (t : StaticType) (last : Bool) :
    Ends (Gen.endLogical kind ⟨.temporary, i, t⟩ last) ctx s fun _ s' =>
      Concludes S s s' i fr.skip last (s.nesting.withFrames fs) := by
  unfold Gen.endLogical
  rw [lift_bind]
  refine (popFrame_adds hs hf).bind fun f s₁ ⟨hfr, h₁⟩ => ?_
  subst hfr
  rw [← bind_assoc, lift_bind]
  refine (boolean_marks S h₁.ready i t last).bind fun _ s₂ h₂ => ?_
  rw [lift_bind]
  refine (emit_adds h₂.ready _ _).bind fun _ s₃ h₃ => ?_
  rw [lift_bind]
  have hg₃ := h₁.grows.then (h₂.grows.then h₃.grows)
  refine (bind_adds h₃.ready (hskip.trans_le hg₃.labels)).bind fun _ s₄ ⟨h₄, hl₄⟩ => ?_
  rw [← bind_assoc, lift_bind]
  refine (boolean_marks S h₄.ready i t !last).bind fun _ s₅ h₅ => ?_
  have hg₅ := hg₃.then (h₄.grows.then h₅.grows)
  refine (bind_adds h₅.ready (hdone.trans_le hg₅.labels)).post fun _ s₆ ⟨h₆, hl₆⟩ => ?_
  refine ⟨hg₅.then h₆.grows, h₆.ready, ?_, fun hi m w b hm hroom => ?_⟩
  · rw [h₆.nesting, h₅.nesting, h₄.nesting, h₃.nesting, h₂.nesting, h₁.nesting]
  have hi₅ := hi.of_grows h₆.grows
  have hi₄ := hi₅.of_grows h₅.grows
  have hi₃ := hi₄.of_grows h₄.grows
  by_cases hb : b = last
  · subst hb
    have hend : ∀ m', S.atEnd s₆ m' w = S.atLabel f.done m' w := fun m' => by
      rw [Setup.atEnd_of_adds h₆, Setup.atEnd_eq_label hi hl₆]
    rw [if_pos rfl, ← Setup.atEnd_of_adds h₁, hend]
    exact (h₂.runs (hi₃.of_grows h₃.grows) m w hm hroom).trans (Setup.reaches_jump h₃ hi₃ _ w)
  · obtain rfl : b = !last := by cases b <;> cases last <;> simp_all
    rw [if_neg hb, ← Setup.atEnd_eq_label (hi.of_grows (h₅.grows.then h₆.grows)) hl₄,
      ← Setup.atEnd_of_adds h₄, Setup.atEnd_of_adds h₆]
    exact h₅.runs hi₅ m w hm hroom

/-- Tests whose result is stored to a new temporary at the end of a construct. -/
theorem determined_of_checked {t : StaticType} {fr : Frame} {k : Nesting}
    (h₁ : Adds s [] (s.nesting.withTemps (t :: s.gen.temps)) s₁)
    (h₂ : Adds s₁ [] (s₁.nesting.withFrames (fr :: s₁.gen.frames)) s₂)
    (h₃ : Checked S D (s.gen.temps.length + 1) Pre s₂ s₃ k fr.skip P B) (hk : k = s₂.nesting)
    (h₄ : Concludes S s₃ s₄ s.gen.temps.length fr.skip true (s₃.nesting.withFrames s₁.gen.frames)) :
    Determined S D Pre s ⟨.temporary, s.gen.temps.length, t⟩ s₄ P B := by
  have hnest : s₄.nesting = s.nesting.withTemps (t :: s.gen.temps) := by
    rw [h₄.nesting, h₃.nesting, hk, h₂.nesting, ← h₁.nesting]
    rfl
  have htemps : s₄.gen.temps = t :: s.gen.temps := congrArg Nesting.temps hnest
  have htemps₂ : s₂.gen.temps = t :: s.gen.temps := h₂.temps.trans h₁.temps
  refine ⟨((h₃.grows.after h₂.grows).after h₁.grows).then h₄.grows, h₄.ready, htemps ▸ holds_temporary _ _ _,
    htemps ▸ hnest, fun hi m w hm hp => ?_⟩
  have hi₃ := hi.of_grows h₄.grows
  rw [← Setup.atEnd_of_adds h₁ m, ← Setup.atEnd_of_adds h₂ m]
  obtain ⟨b, m', l, hreach, ho⟩ := h₃.runs hi₃ m w hm hp
  have hroom := ho.full.room (hi₃.of_grows h₃.grows) h₂.ready (i := s.gen.temps.length) (by simp [htemps₂])
  have hsame := Cells.same_setTemp m' (d := s.gen.temps.length) le_rfl (.bool b)
  refine ⟨b, _, l, hreach.trans (h₄.runs hi m' (w ++ l) b ho.full hroom), ?_, Setup.steady_setTemp hroom _⟩
  exact (ho.mono (by omega)).then_same hsame

end Lower

end GameScript
