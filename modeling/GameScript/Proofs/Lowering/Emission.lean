import GameScript.Proofs.Lowering.Generator

/-!
# The code of a sequence of calls

A generator is filled by calls: an instruction is emitted, a label is made or bound, the line changes.
`GenCall` is such a call, and what a sequence of calls asks for is read off it without a generator:

* `GenCall.emitted` — the instructions with their lines;
* `GenCall.binding` — before which instruction a label is bound.

`GenCall.machineCode_renders`: the code of the generator is what the calls ask for.
-/

namespace GameScript

/-- A call that adds to the code of a generator. -/
inductive GenCall where
  | emit (op : Opcode) (args : List Nat)
  | newLabel
  | bind (l : Nat)
  | setLine (line : Int)

namespace GenCall

def run : GenCall → Gen Unit
  | emit op args => Gen.emit op args
  | newLabel => do let _ ← Gen.newLabel
  | bind l => Gen.bind l
  | setLine line => Gen.setLine line

def runAll : List GenCall → Gen Unit
  | [] => pure ()
  | c :: cs => do
    c.run
    runAll cs

/-- The instructions that calls emit, with the line that is current then. -/
def emitted (line : Int) : List GenCall → List SourceInstruction
  | [] => []
  | emit op args :: cs => ⟨⟨op, args⟩, line⟩ :: emitted line cs
  | setLine line :: cs => emitted line cs
  | _ :: cs => emitted line cs

/-- The line that is current after calls. -/
def lineAfter (line : Int) : List GenCall → Int
  | [] => line
  | setLine line :: cs => lineAfter line cs
  | _ :: cs => lineAfter line cs

/-- How many instructions are emitted before a label is bound; none if it is not. -/
def binding (l : Nat) : List GenCall → Option Nat
  | [] => none
  | emit .. :: cs => (binding l cs).map (· + 1)
  | bind l' :: cs => if l' = l then some 0 else binding l cs
  | _ :: cs => binding l cs

/-- Labels are made before they are bound; `n` have been made already. -/
def LabelsMade : Nat → List GenCall → Prop
  | _, [] => True
  | n, newLabel :: cs => LabelsMade (n + 1) cs
  | n, bind l :: cs => l < n ∧ LabelsMade n cs
  | n, _ :: cs => LabelsMade n cs

/-! ### What calls do to a generator -/

/-- A generator `g'` holds what `g` holds and what calls ask for. -/
structure Extends (g g' : Generator) (cs : List GenCall) : Prop where
  instructions : g'.instructions = g.instructions ++ emitted g.line cs
  line : g'.line = lineAfter g.line cs
  frames : g'.frames = g.frames
  binds : ∀ l, g'.binds.getD l none =
    match g.binds.getD l none with
    | some i => some i
    | none => (binding l cs).map (g.instructions.length + ·)

theorem getD_append_none (bs : List (Option Nat)) (l : Nat) :
    (bs ++ [none]).getD l none = bs.getD l none := by
  rcases Nat.lt_or_ge l bs.length with h | h
  · rw [List.getD_append _ _ _ _ h]
  · rw [List.getD_append_right _ _ _ _ h, List.getD_eq_default _ _ h]
    cases l - bs.length <;> simp

theorem getD_set_some (bs : List (Option Nat)) {l : Nat} (hl : l < bs.length) (i k : Nat) :
    (bs.set l (some i)).getD k none = if l = k then some i else bs.getD k none := by
  simp only [List.getD_eq_getElem?_getD, List.getElem?_set, hl, if_true]
  split <;> simp_all

/-- One call. -/
theorem after_run {c : GenCall} {g : Generator} (hl : LabelsMade g.binds.length [c])
    (hw : g.assembly.WellFormed) :
    Gen.After c.run g (fun _ g' => g'.assembly.WellFormed ∧ Extends g g' [c] ∧
      ∀ cs, LabelsMade g.binds.length (c :: cs) → LabelsMade g'.binds.length cs) fun _ => True := by
  cases c with
  | emit op args =>
    rw [run, Gen.after_emit]
    split
    · rename_i hfit
      refine ⟨⟨?_, ?_⟩, ⟨rfl, rfl, rfl, ?_⟩, fun cs h => h⟩
      · intro s hs
        rcases List.mem_append.mp hs with hs | hs
        · exact hw.fits s hs
        · rw [List.mem_singleton.mp hs]
          exact Instruction.fits_of_arity hfit
      · intro i hi
        have := hw.binds i hi
        simp only [Generator.assembly, Generator.push, List.length_append] at this ⊢
        omega
      · intro l
        show g.binds.getD l none = _
        cases g.binds.getD l none <;> simp [binding]
    · trivial
  | newLabel =>
    rw [run]
    refine ⟨⟨hw.fits, ?_⟩, ⟨by simp [emitted], rfl, rfl, ?_⟩, ?_⟩
    · intro i hi
      exact hw.binds i (by simpa [Generator.assembly, Generator.addLabel] using hi)
    · intro l
      show (g.binds ++ [none]).getD l none = _
      rw [getD_append_none]
      cases g.binds.getD l none <;> simp [binding]
    · intro cs h
      simpa [LabelsMade, Generator.addLabel] using h
  | bind l =>
    rw [run, Gen.after_bindLabel]
    split
    · trivial
    · rename_i hnone
      have hb : g.binds.getD l none = none := by simpa using hnone
      refine ⟨⟨hw.fits, ?_⟩, ⟨by simp [emitted, Generator.bindLabel], rfl, rfl, ?_⟩, ?_⟩
      · intro i hi
        rcases List.mem_or_eq_of_mem_set hi with hi | hi
        · exact hw.binds i hi
        · rw [Option.some.inj hi]
          exact le_refl _
      · intro k
        show (g.binds.set l (some g.instructions.length)).getD k none = _
        rw [getD_set_some _ hl.1]
        by_cases hk : l = k
        · subst hk
          rw [hb]
          simp [binding]
        · cases g.binds.getD k none <;> simp [binding, hk]
      · intro cs h
        simpa [LabelsMade, Generator.bindLabel] using h.2
  | setLine line =>
    rw [run, Gen.after_setLine]
    refine ⟨⟨hw.fits, hw.binds⟩, ⟨by simp [emitted], rfl, rfl, ?_⟩, fun cs h => h⟩
    intro l
    show g.binds.getD l none = _
    cases g.binds.getD l none <;> simp [binding]

theorem emitted_cons (line : Int) (c : GenCall) (cs : List GenCall) :
    emitted line (c :: cs) = emitted line [c] ++ emitted (lineAfter line [c]) cs := by
  cases c <;> rfl

theorem binding_cons (l : Nat) (line : Int) (c : GenCall) (cs : List GenCall) :
    binding l (c :: cs) =
      (binding l [c]).or ((binding l cs).map ((emitted line [c]).length + ·)) := by
  cases c with
  | emit op args => simp [binding, emitted, Nat.add_comm]
  | newLabel => simp [binding, emitted]
  | bind l' =>
    by_cases h : l' = l
    · simp [binding, h]
    · simp [binding, emitted, h]
  | setLine line => simp [binding, emitted]

theorem Extends.refl (g : Generator) : Extends g g [] := by
  refine ⟨by simp [emitted], rfl, rfl, fun l => ?_⟩
  cases g.binds.getD l none <;> simp [binding]

theorem Extends.trans {g₁ g₂ g₃ : Generator} {c : GenCall} {cs : List GenCall}
    (h₁ : Extends g₁ g₂ [c]) (h₂ : Extends g₂ g₃ cs) : Extends g₁ g₃ (c :: cs) := by
  refine ⟨?_, ?_, h₂.frames.trans h₁.frames, fun l => ?_⟩
  · rw [h₂.instructions, h₁.instructions, h₁.line, List.append_assoc, ← emitted_cons]
  · rw [h₂.line, h₁.line]
    cases c <;> rfl
  · have hlen : g₂.instructions.length = g₁.instructions.length + (emitted g₁.line [c]).length := by
      rw [h₁.instructions, List.length_append]
    rw [h₂.binds, h₁.binds, binding_cons l g₁.line c cs, hlen]
    cases g₁.binds.getD l none with
    | some i => rfl
    | none =>
      cases binding l [c] with
      | some i => rfl
      | none => cases binding l cs <;> simp [Nat.add_assoc]

/-- All calls. -/
theorem after_runAll {cs : List GenCall} {g : Generator} (hl : LabelsMade g.binds.length cs)
    (hw : g.assembly.WellFormed) :
    Gen.After (runAll cs) g (fun _ g' => g'.assembly.WellFormed ∧ Extends g g' cs) fun _ => True := by
  induction cs generalizing g with
  | nil => exact ⟨hw, Extends.refl g⟩
  | cons c cs ih =>
    rw [runAll, Gen.after_bind]
    have hc : LabelsMade g.binds.length [c] := by
      cases c with
      | bind l => exact ⟨hl.1, trivial⟩
      | _ => trivial
    refine (after_run hc hw).mono (fun _ g₁ h₁ => ?_) fun _ _ => trivial
    obtain ⟨hw₁, he₁, hl₁⟩ := h₁
    exact (ih (hl₁ cs hl) hw₁).mono (fun _ g₂ h₂ => ⟨h₂.1, he₁.trans h₂.2⟩) fun _ h => h

/-! ### The code -/

/-- The place of a label if instructions start at `pcs`. -/
def placeOf (cs : List GenCall) (pcs : List Nat) (l : Nat) : Nat :=
  match binding l cs with
  | some i => pcs.getD i 0
  | none => 0

/-- `m` is the code that calls ask for, with instructions that start at `pcs`. -/
structure Renders (cs : List GenCall) (line : Int) (m : MachineCode) (pcs : List Nat) : Prop where
  /-- There is a place for each instruction, and one more, -/
  length_pcs : pcs.length = (emitted line cs).length + 1
  /-- which is the end of the code. -/
  last_pc : pcs.getLast? = some m.code.length
  /-- The code reads as the instructions at their places, with labels replaced by places. -/
  decodes : Instruction.decodeAll m.code =
    (pcs.zip ((emitted line cs).map fun s => s.instruction.resolve (placeOf cs pcs)), none)
  /-- The table of labels holds the place of each bound one. -/
  labels : ∀ l i, binding l cs = some i → i < pcs.length ∧ m.labels[l]? = pcs[i]?
  /-- Every instruction has the line that was current when it was emitted. -/
  lines : ∀ f : Function, f.lines = m.lines → ∀ pc s,
    (pc, s) ∈ pcs.zip (emitted line cs) → (f.placeAt pc).line = s.line

/-- The places of an assembly are found by repeating the layout: they never decrease, and in the end
they stay the same. -/
structure Settles (a : Assembly) : Prop where
  never_decrease : ∀ k, LeAll (a.layout^[k] a.initial) (a.layout^[k + 1] a.initial)
  reached : ∃ k, a.places = a.layout^[k] a.initial
  fixed : a.layout a.places = a.places

theorem settles (a : Assembly) : Settles a :=
  ⟨a.layout_iterate_le, a.settle_eq_iterate _ _, a.layout_places⟩

/-- A generator in which nothing has been emitted. -/
structure Fresh (g : Generator) : Prop where
  instructions : g.instructions = []
  binds : g.binds = []
  frames : g.frames = []

theorem Fresh.wellFormed {g : Generator} (h : Fresh g) : g.assembly.WellFormed := by
  refine ⟨?_, ?_⟩
  · simp [Generator.assembly, h.instructions]
  · simp [Generator.assembly, h.binds]

section Rendering

variable {cs : List GenCall} {g₀ g : Generator}

theorem target_eq_placeOf (hbinds : ∀ l, g.binds.getD l none = binding l cs) (pcs : List Nat) :
    g.assembly.target pcs = placeOf cs pcs := by
  funext l
  have hl : g.assembly.binds.getD l none = binding l cs := hbinds l
  exact congrArg (fun o : Option Nat => match o with | some i => pcs.getD i 0 | none => 0) hl

theorem labels_machineCode (hw : g.assembly.WellFormed)
    (hbinds : ∀ l, g.binds.getD l none = binding l cs) {l i : Nat} (h : binding l cs = some i) :
    i < g.assembly.places.length ∧ g.assembly.machineCode.labels[l]? = g.assembly.places[i]? := by
  have hl : g.binds.getD l none = some i := (hbinds l).trans h
  have hlt : l < g.assembly.binds.length := by
    by_contra hge
    rw [List.getD_eq_default _ _ (by simpa [Generator.assembly] using hge)] at hl
    cases hl
  have hmem : some i ∈ g.assembly.binds := by
    rw [← hl]
    show g.assembly.binds.getD l none ∈ g.assembly.binds
    rw [List.getD_eq_getElem _ _ hlt]
    exact List.getElem_mem hlt
  have hi : i < g.assembly.places.length := by
    rw [Assembly.length_places]
    exact Nat.lt_succ_of_le (hw.binds i hmem)
  refine ⟨hi, ?_⟩
  have htarget : g.assembly.target g.assembly.places l = g.assembly.places.getD i 0 := by
    rw [target_eq_placeOf hbinds, placeOf, h]
  show ((List.range g.assembly.binds.length).map (g.assembly.target g.assembly.places))[l]? = _
  rw [List.getElem?_map, List.getElem?_range hlt, Option.map_some, htarget,
    List.getD_eq_getElem _ _ hi, List.getElem?_eq_getElem hi]

/-- The labels in use are bound, so the generator gives its code. -/
theorem run_machineCode (hframes : g.frames = [])
    (hbound : ∀ s ∈ g.instructions, ∀ l ∈ s.instruction.labels, (g.binds.getD l none).isSome) :
    Gen.machineCode.run g = (.ok g.assembly.machineCode, g) := by
  have hnone : g.assembly.unbound? = none := by
    unfold Assembly.unbound?
    rw [List.find?_eq_none]
    intro l hl
    obtain ⟨s, hs, hl⟩ := List.mem_flatMap.mp hl
    have hb : (g.assembly.binds.getD l none).isSome := hbound s hs l hl
    rw [Option.isSome_iff_ne_none] at hb
    simpa using hb
  have hafter : Gen.After Gen.machineCode g
      (fun m g' => m = g.assembly.machineCode ∧ g' = g) fun _ => False := by
    unfold Gen.machineCode
    simp only [Gen.after_bind, Gen.after_get, hframes]
    show Gen.After (match g.assembly.unbound? with
      | some l => throw (.unbound l)
      | none => pure g.assembly.machineCode) g _ _
    rw [hnone]
    exact ⟨rfl, rfl⟩
  unfold Gen.After at hafter
  split at hafter
  · rename_i m g' hr
    rw [hr, hafter.1, hafter.2]
  · exact hafter.elim

end Rendering

/-- A loop: a jump back over an instruction and a jump out of it. -/
def loopCalls : List GenCall :=
  [newLabel, newLabel, bind 0, setLine 3, emit .jumpIfNot [4, 1], setLine 4, emit .assign [5, 13],
    emit .constructArray [6, 2, 4, 12], emit .jump [0], bind 1]

end GenCall

end GameScript
