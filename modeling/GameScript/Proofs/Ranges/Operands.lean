import GameScript.Proofs.Temporaries.Operands
import GameScript.Value.Operator

/-!
# Operands in range

* `Scope` — how many things of each kind the operands of a function may refer to;
* `Instruction.Within` — the operands of an instruction are numbers of things that exist;
* `Function.InRange` — so are all operands of a function, its jumps lead to instructions or to the end,
  and its entries are the instructions after which the optional arguments are set.

`Assembly.within_resolved` and `Function.InRange.of_assembly` carry what is known about instructions with
labels over to the code.
-/

namespace GameScript

/-! ### Numbers of types and operators -/

theorem BuiltinType.number_lt (t : BuiltinType) : t.number < BuiltinType.all.length := by
  cases t <;> decide

theorem Operator.number_lt (op : Operator) : op.number < Operator.all.length := by
  cases op <;> decide

/-! ### What operands may refer to -/

/-- How many things of each kind the operands of a function may refer to. -/
structure Scope where
  /-- The variables of the instance. -/
  members : Nat := 0
  params : Nat := 0
  locals : Nat := 0
  temps : Nat := 0
  constants : Nat := 0
  names : Nat := 0
  functions : Nat := 0

namespace Scope

/-- How many addresses of a mode there are. -/
def count (e : Scope) : Mode → Nat
  | .self | .cls | .nil => 1
  | .member => e.members
  | .parameter => e.params
  | .localVar => e.locals
  | .temporary => e.temps
  | .constant => e.constants

/-- There is at least as much of everything. -/
structure Le (e e' : Scope) : Prop where
  members : e.members ≤ e'.members
  params : e.params ≤ e'.params
  locals : e.locals ≤ e'.locals
  temps : e.temps ≤ e'.temps
  constants : e.constants ≤ e'.constants
  names : e.names ≤ e'.names
  functions : e.functions ≤ e'.functions

theorem Le.refl (e : Scope) : Le e e := by constructor <;> exact le_rfl

theorem Le.trans {a b c : Scope} (h : Le a b) (h' : Le b c) : Le a c := by
  obtain ⟨h₁, h₂, h₃, h₄, h₅, h₆, h₇⟩ := h
  obtain ⟨h₁', h₂', h₃', h₄', h₅', h₆', h₇'⟩ := h'
  constructor <;> omega

theorem Le.count {e e' : Scope} (h : Le e e') (m : Mode) : e.count m ≤ e'.count m := by
  cases m with
  | self | cls | nil => exact le_rfl
  | member => exact h.members
  | parameter => exact h.params
  | localVar => exact h.locals
  | temporary => exact h.temps
  | constant => exact h.constants

end Scope

/-- An address refers to something that exists. -/
def Address.Within (a : Address) (e : Scope) : Prop := a.index < e.count a.mode

theorem Address.Within.mono {a : Address} {e e' : Scope} (h : a.Within e) (he : e.Le e') :
    a.Within e' :=
  lt_of_lt_of_le h (he.count a.mode)

/-- An operand of a kind refers to something that exists; `place` says which places there are in the
code. -/
def OperandKind.Within (e : Scope) (place : Nat → Prop) (n : Nat) : OperandKind → Prop
  | .address => n / 8 < e.count (.ofNumber n)
  | .operator => n < Operator.all.length
  | .type => n < BuiltinType.all.length
  | .name => n < e.names
  | .function => n < e.functions
  | .label => place n
  | .number | .list => True

theorem OperandKind.Within.mono {k : OperandKind} {e e' : Scope} {place place' : Nat → Prop} {n : Nat}
    (h : k.Within e place n) (he : e.Le e') (hp : ∀ n, place n → place' n) : k.Within e' place' n := by
  cases k with
  | address => exact lt_of_lt_of_le h (he.count _)
  | name => exact lt_of_lt_of_le h he.names
  | function => exact lt_of_lt_of_le h he.functions
  | label => exact hp n h
  | _ => exact h

@[simp] theorem Address.within_encode {a : Address} {e : Scope} {place : Nat → Prop} :
    OperandKind.address.Within e place a.encode ↔ a.Within e := by
  simp [OperandKind.Within, Address.Within, Address.encode_div, Address.ofNumber_encode]

section

variable {e : Scope} {place : Nat → Prop} {n : Nat}

@[simp] theorem within_operator (op : Operator) : OperandKind.operator.Within e place op.number :=
  op.number_lt

@[simp] theorem within_type (t : BuiltinType) : OperandKind.type.Within e place t.number :=
  t.number_lt

@[simp] theorem within_name : OperandKind.name.Within e place n ↔ n < e.names := Iff.rfl

@[simp] theorem within_function : OperandKind.function.Within e place n ↔ n < e.functions := Iff.rfl

@[simp] theorem within_label : OperandKind.label.Within e place n ↔ place n := Iff.rfl

@[simp] theorem within_number : OperandKind.number.Within e place n := trivial

@[simp] theorem within_list : OperandKind.list.Within e place n := trivial

end

/-! ### Instructions -/

/-- The operands of an instruction refer to things that exist. -/
def Instruction.Within (e : Scope) (place : Nat → Prop) (i : Instruction) : Prop :=
  ∀ o ∈ i.operands, o.1.Within e place o.2

namespace Instruction

@[simp] theorem within_mk {e : Scope} {place : Nat → Prop} {op : Opcode} {args : List Nat} :
    (⟨op, args⟩ : Instruction).Within e place ↔
      ∀ o ∈ operandsFrom op.shape args, o.1.Within e place o.2 := Iff.rfl

theorem Within.mono {i : Instruction} {e e' : Scope} {place : Nat → Prop} (h : i.Within e place)
    (he : e.Le e') : i.Within e' place :=
  fun o ho => (h o ho).mono he fun _ hp => hp

/-- An instruction whose labels stand for places of the code. -/
theorem Within.resolve {i : Instruction} {e : Scope} {place place' : Nat → Prop} (h : i.Within e place)
    {target : Nat → Nat} (ht : ∀ l ∈ i.labels, place' (target l)) :
    (i.resolve target).Within e place' := by
  intro o ho
  rw [operands_resolve] at ho
  obtain ⟨⟨k, n⟩, hkn, rfl⟩ := List.mem_map.mp ho
  have hk := h _ hkn
  by_cases hl : k = .label
  · subst hl
    have hmem : n ∈ i.labels :=
      List.mem_map.mpr ⟨_, List.mem_filter.mpr ⟨hkn, by simp⟩, rfl⟩
    simpa [OperandKind.Within] using ht n hmem
  · cases k with
    | label => exact absurd rfl hl
    | _ => exact hk

/-- Where instructions start if they follow each other from the start of the code, and where they end. -/
def places (is : List Instruction) : List Nat := Assembly.starts 0 (is.map size)

end Instruction

/-! ### Functions -/

/-- The function refers to things that exist: it consists of the instructions `is`, the operands of which
are in range, where jumps lead to instructions or to the end of the code. If some arguments are optional,
there is one entry more than there are of them, each after the one before and at an instruction. -/
structure Function.InRange (e : Scope) (f : Function) (is : List Instruction) : Prop where
  code : f.code = is.flatMap Instruction.encode
  /-- This is how the code reads, unless there are numbers that no operand can be. -/
  decodes : (∀ i ∈ is, ∀ n ∈ i.args, n < twoTo 32) →
    Instruction.decodeAll f.code = ((Instruction.places is).zip is, none)
  operands : ∀ i ∈ is, i.Within e (· ∈ Instruction.places is)
  entries : f.entries.length = if f.minArgs < f.maxArgs then (f.maxArgs - f.minArgs + 1 : Int) else 0
  increasing : f.entries.Pairwise (· < ·)
  starts : ∀ pc ∈ f.entries, pc ∈ (Instruction.places is).dropLast

theorem Function.InRange.mono {e e' : Scope} {f : Function} {is : List Instruction}
    (h : f.InRange e is) (he : e.Le e') : f.InRange e' is :=
  { h with operands := fun i hi => (h.operands i hi).mono he }

namespace Assembly

theorem places_resolved (a : Assembly) : Instruction.places (a.resolved a.places) = a.places :=
  (a.places_eq_starts).symm

/-- A label that is bound stands for a place of the code. -/
theorem target_eq_getElem (a : Assembly) (hw : a.WellFormed) {l i : Nat}
    (hl : a.binds.getD l none = some i) :
    ∃ h : i < a.places.length, a.target a.places l = a.places[i] := by
  have hmem : some i ∈ a.binds := by
    rw [List.getD_eq_getElem?_getD] at hl
    cases h : a.binds[l]? with
    | none => simp [h] at hl
    | some b =>
      rw [h] at hl
      exact hl ▸ List.mem_of_getElem? h
  have hi : i < a.places.length := by
    have := hw.binds i hmem
    rw [a.length_places]
    omega
  refine ⟨hi, ?_⟩
  rw [target, hl]
  exact List.getD_eq_getElem _ _ hi

/-- Every label of an instruction is bound, or else the assembly is refused. -/
theorem isSome_of_unbound? {a : Assembly} (h : a.unbound? = none) {s : SourceInstruction}
    (hs : s ∈ a.instructions) {l : Nat} (hl : l ∈ s.instruction.labels) :
    (a.binds.getD l none).isSome := by
  have := List.find?_eq_none.mp h l (List.mem_flatMap.mpr ⟨s, hs, hl⟩)
  rwa [Option.isNone_iff_eq_none, ← ne_eq, Option.ne_none_iff_isSome] at this

theorem within_resolved {a : Assembly} (hw : a.WellFormed) (hu : a.unbound? = none) {e : Scope}
    (h : ∀ s ∈ a.instructions, s.instruction.Within e fun _ => True) :
    ∀ i ∈ a.resolved a.places, i.Within e (· ∈ a.places) := by
  intro i hi
  obtain ⟨s, hs, rfl⟩ := List.mem_map.mp hi
  refine (h s hs).resolve fun l hl => ?_
  obtain ⟨k, hk⟩ := Option.isSome_iff_exists.mp (isSome_of_unbound? hu hs hl)
  obtain ⟨hlt, ht⟩ := a.target_eq_getElem hw hk
  rw [ht]
  exact List.getElem_mem hlt

theorem decodeAll_resolved {a : Assembly} (hw : a.WellFormed)
    (h : ∀ i ∈ a.resolved a.places, ∀ n ∈ i.args, n < twoTo 32) :
    Instruction.decodeAll a.machineCode.code =
      ((Instruction.places (a.resolved a.places)).zip (a.resolved a.places), none) := by
  have hfits : ∀ i ∈ a.resolved a.places, Instruction.Fits i.op.shape i.args := by
    intro i hi
    obtain ⟨s, hs, rfl⟩ := List.mem_map.mp hi
    exact (hw.fits s hs).resolve _
  refine Instruction.decodeFrom_encode hfits h _ 0 ?_
  have hlen := a.length_instructions_le_total_sizes a.places
  rwa [← length_code, ← length_resolved] at hlen

end Assembly

/-- Labels bound before instructions with increasing numbers from `least` up to `most`. -/
structure Ascending (bound : Nat → Option Nat) (least most : Nat) (labels : List Nat) : Prop where
  all : ∀ l ∈ labels, ∃ i, bound l = some i ∧ least ≤ i ∧ i < most
  increasing : labels.Pairwise fun l l' =>
    ∀ i i', bound l = some i → bound l' = some i' → i < i'

/-- The function that an assembly makes. -/
theorem Function.InRange.of_assembly {a : Assembly} {e : Scope} {f : Function} {labels : List Nat}
    (hw : a.WellFormed) (hu : a.unbound? = none)
    (h : ∀ s ∈ a.instructions, s.instruction.Within e fun _ => True)
    (hcode : f.code = a.machineCode.code)
    (hlabels : f.entries = labels.map fun l => a.machineCode.labels.getD l 0)
    (hcount : labels.length = if f.minArgs < f.maxArgs then (f.maxArgs - f.minArgs + 1 : Int) else 0)
    (hbound : Ascending (a.binds.getD · none) 0 a.instructions.length labels) :
    f.InRange e (a.resolved a.places) := by
  -- an entry is the place of its label, and places follow the numbers of instructions
  have hentry : ∀ l i, a.binds.getD l none = some i → ∃ hi : i < a.places.length,
      a.machineCode.labels.getD l 0 = a.places[i] := by
    intro l i hl
    obtain ⟨hi, ht⟩ := a.target_eq_getElem hw hl
    have hlt : l < a.binds.length := by
      by_contra hge
      rw [List.getD_eq_default _ _ (by omega)] at hl
      cases hl
    refine ⟨hi, ?_⟩
    rw [← ht]
    simp [Assembly.machineCode, hlt]
  refine ⟨hcode, fun hn => hcode ▸ Assembly.decodeAll_resolved hw hn, ?_, ?_, ?_, ?_⟩
  · rw [a.places_resolved]
    exact Assembly.within_resolved hw hu h
  · rw [hlabels, List.length_map, hcount]
  · rw [hlabels, List.pairwise_map]
    refine hbound.increasing.imp_of_mem fun {l l'} hl hl' hlt => ?_
    obtain ⟨i, hi, -, -⟩ := hbound.all l hl
    obtain ⟨i', hi', -, -⟩ := hbound.all l' hl'
    obtain ⟨hb, he⟩ := hentry l i hi
    obtain ⟨hb', he'⟩ := hentry l' i' hi'
    rw [he, he']
    exact List.pairwise_iff_getElem.mp a.pairwise_places i i' hb hb' (hlt i i' hi hi')
  · intro pc hpc
    rw [hlabels] at hpc
    obtain ⟨l, hl, rfl⟩ := List.mem_map.mp hpc
    obtain ⟨i, hi, -, hlast⟩ := hbound.all l hl
    obtain ⟨hb, he⟩ := hentry l i hi
    have hdrop : i < a.places.dropLast.length := by
      rw [List.length_dropLast, a.length_places]
      omega
    rw [he, a.places_resolved, ← List.getElem_dropLast hdrop]
    exact List.getElem_mem hdrop

end GameScript
