import GameScript.Compiler
import GameScript.Proofs.Inheritance.Steps

/-!
# Classes that wait for each other

The tables of a class are drafted after those of its base, and then those of the classes inside of it. If
the base is in another file, that file is compiled first, with the tables of all its classes. So classes
wait for each other even where none derives from itself.

* `Session.Inside` — a class is inside of another;
* `Session.Guarded` — the classes inside of one are asked for only from there;
* `Session.Awaits` — the tables of a class have to wait for those of another;
* `Session.Entangled` — some class waits for itself. A session that grows stays so.
-/

namespace GameScript

namespace Session

variable {s s' : Session} {b c d : DeclId}

/-! ### Classes inside of others -/

theorem mem_innerIds : d ∈ Compile.innerIds s c ↔
    ∃ r, s.declOf c = some r ∧ ∃ k, Member.cls k ∈ r.members ∧ d = ⟨c.unit, (Member.cls k).anchor⟩ := by
  unfold Compile.innerIds Compile.membersOf declOf
  rw [List.mem_filterMap]
  cases hc : s.classes.get? c with
  | none => simp
  | some r =>
    simp only [Option.map_some, Option.getD_some, Option.some.injEq, exists_eq_left']
    constructor
    · rintro ⟨m, hm, hd⟩
      cases m with
      | cls k =>
        cases hd
        exact ⟨k, hm, rfl⟩
      | _ => cases hd
    · rintro ⟨k, hk, rfl⟩
      exact ⟨.cls k, hk, rfl⟩

theorem has_of_mem_innerIds (h : d ∈ Compile.innerIds s c) : s.Has c := by
  obtain ⟨r, hr, -⟩ := mem_innerIds.1 h
  rw [Has, hr]
  rfl

theorem unit_of_mem_innerIds (h : d ∈ Compile.innerIds s c) : d.unit = c.unit := by
  obtain ⟨r, -, k, -, rfl⟩ := mem_innerIds.1 h
  rfl

theorem Filed.has_inner (hf : s.Filed) (h : d ∈ Compile.innerIds s c) : s.Has d := by
  obtain ⟨r, hr, k, hk, rfl⟩ := mem_innerIds.1 h
  exact hf.inner c r hr k hk

/-- The class `d` is **inside** of the class `b`, at whatever depth. -/
def Inside (s : Session) (b d : DeclId) : Prop := Relation.TransGen (fun o i => i ∈ Compile.innerIds s o) b d

/-- Whatever asks for a class inside of `b` is there itself. So when the tables of such a class are drafted,
those of `b` are there. -/
structure Guarded (s : Session) (b : DeclId) : Prop where
  main : ∀ u, ¬ s.Inside b (mainClass u)
  base : ∀ c d, s.DerivesFrom c d → s.pathOf d.unit = s.pathOf c.unit → s.Inside b d → s.Inside b c
  inner : ∀ c d, d ∈ Compile.innerIds s c → s.Inside b d → c = b ∨ s.Inside b c

/-! ### Waiting -/

/-- The tables of the class `c` **await** those of `d`: for a base in the same file, unless that is around
the class and there anyway; for the class of a file that has the base; or to go on with the classes
inside. -/
inductive Awaits (s : Session) : DeclId → DeclId → Prop
  | base {c b : DeclId} : s.DerivesFrom c b → s.pathOf b.unit = s.pathOf c.unit →
      ¬ (s.Inside b c ∧ s.Guarded b) → Awaits s c b
  | file {c b : DeclId} {u : Nat} : s.DerivesFrom c b → s.pathOf b.unit ≠ s.pathOf c.unit →
      u < s.files.length → s.pathOf u = s.pathOf b.unit → Awaits s c (mainClass u)
  | inner {c d : DeclId} : d ∈ Compile.innerIds s c → Awaits s c d

/-- Some class waits for itself, or there are too many classes for the room to nest them. -/
def Entangled (room : Nat) (s : Session) : Prop :=
  (∃ x, Relation.TransGen s.Awaits x x) ∨ room ≤ 3 * s.classes.entries.length

/-! ### Growing sessions -/

section Grows

variable (hs : s.Sound) (hf : s.Filed) (hgrows : s.Grows s')
include hgrows

/-- An old class has the same classes inside. -/
theorem mem_innerIds_grows (hc : s.Has c) : d ∈ Compile.innerIds s' c ↔ d ∈ Compile.innerIds s c := by
  obtain ⟨r, hr⟩ := Option.isSome_iff_exists.1 hc
  rw [mem_innerIds, mem_innerIds, hr, hgrows.decl c r hr]

theorem Inside.grows (h : s.Inside b d) : s'.Inside b d :=
  h.lift (fun c => c) fun _ _ hmem => (mem_innerIds_grows hgrows (has_of_mem_innerIds hmem)).2 hmem

theorem DerivesFrom.grows (h : s.DerivesFrom c d) : s'.DerivesFrom c d := by
  rw [DerivesFrom, hgrows.base c h.settled]
  exact h

include hf

/-- What is inside of an old class has been there. -/
theorem Inside.of_grows (h : s'.Inside b d) (hb : s.Has b) : s.Inside b d := by
  have hboth : s.Inside b d ∧ s.Has d := by
    induction h with
    | single hmem =>
      have hmem' := (mem_innerIds_grows hgrows hb).1 hmem
      exact ⟨.single hmem', hf.has_inner hmem'⟩
    | tail _ hmem ih =>
      have hmem' := (mem_innerIds_grows hgrows ih.2).1 hmem
      exact ⟨ih.1.tail hmem', hf.has_inner hmem'⟩
  exact hboth.1

/-- What is around an old class has been there. -/
theorem Inside.has_of_grows (h : s'.Inside b d) (hd : s.Has d) : s.Has b := by
  have hunit : d.unit = b.unit := by
    clear hd
    induction h with
    | single hmem => exact unit_of_mem_innerIds hmem
    | tail _ hmem ih => exact (unit_of_mem_innerIds hmem).trans ih
  obtain ⟨o, hmem, -⟩ := Relation.TransGen.head'_iff.1 h
  exact hgrows.old b (has_of_mem_innerIds hmem) (hunit ▸ hf.unit_lt d hd)

theorem pathOf_grows (hc : s.Has c) : s'.pathOf c.unit = s.pathOf c.unit :=
  hgrows.path _ (hf.unit_lt c hc)

include hs

theorem Guarded.of_grows (h : s'.Guarded b) (hb : s.Has b) : s.Guarded b where
  main := fun u hu => h.main u (hu.grows hgrows)
  base := fun c d hbase hpath hd => by
    have hsame : s'.pathOf d.unit = s'.pathOf c.unit := by
      rw [pathOf_grows hf hgrows hbase.settled.has, pathOf_grows hf hgrows (hs.settled c d hbase).has, hpath]
    exact Inside.of_grows hf hgrows (h.base c d (hbase.grows hgrows) hsame (hd.grows hgrows)) hb
  inner := fun c d hmem hd => by
    have hmem' := (mem_innerIds_grows hgrows (has_of_mem_innerIds hmem)).2 hmem
    exact (h.inner c d hmem' (hd.grows hgrows)).imp_right fun hc => hc.of_grows hf hgrows hb

/-- **Classes go on to wait for each other.** -/
theorem Awaits.grows (h : s.Awaits c d) : s'.Awaits c d := by
  cases h with
  | base hbase hsame hnot =>
    have hd := (hs.settled c d hbase).has
    refine .base (hbase.grows hgrows) ?_ fun h => hnot ⟨h.1.of_grows hf hgrows hd, h.2.of_grows hs hf hgrows hd⟩
    rw [pathOf_grows hf hgrows hbase.settled.has, pathOf_grows hf hgrows hd, hsame]
  | @file b u hbase hother hu hsame =>
    have hb := pathOf_grows hf hgrows (hs.settled c b hbase).has
    refine .file (hbase.grows hgrows) ?_ (hu.trans_le hgrows.files) ?_
    · rw [hb, pathOf_grows hf hgrows hbase.settled.has]
      exact hother
    · rw [hb, hgrows.path _ hu, hsame]
  | inner hmem => exact .inner ((mem_innerIds_grows hgrows (has_of_mem_innerIds hmem)).2 hmem)

theorem Entangled.grows {room : Nat} (h : s.Entangled room) : s'.Entangled room := by
  rcases h with ⟨x, hx⟩ | hroom
  · exact .inl ⟨x, hx.lift (fun c => c) fun _ _ h => h.grows hs hf hgrows⟩
  · have hclasses := hgrows.classes
    exact .inr (by omega)

end Grows

end Session

end GameScript
