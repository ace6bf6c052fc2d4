import GameScript.Proofs.Compilation.Awaits
import GameScript.Proofs.Inheritance.Trees
import GameScript.Proofs.Ranges.Projects

/-!
# Tables of classes and their scripts

The table of a class has the variables of its base, in the order in which they are there, and then its own.
When a file is compiled, its tables become the scripts of its program.

* `Library.Whole` — each script is valid, and its variables go on after those of its base in the library;
* `Compile.slotsOf` — the variables that a class adds to those of its base;
* `Compile.Inherits`, `Compile.Drafted` — where the variables of a table come from;
* `Compile.lowerFile_completes` — the scripts of a program are the tables of the classes of its file.
-/

namespace GameScript

/-! ### Scripts of a library -/

/-- The variables are numbered in their order. -/
def Script.Indexed (t : Script) : Prop := ∀ (i : Nat) (m : MemberSlot), t.members[i]? = some m → m.index = i

namespace Library

variable {l : Library} {m n i : Nat} {s : Script}

/-- The program `n` has the script `s` as its `i`-th. -/
def Has (l : Library) (n i : Nat) (s : Script) : Prop := ∃ p, l[n]? = some p ∧ p.scripts[i]? = some s

theorem Has.foreign (h : l.Has n i s) (m : Nat) : l.script? m (.foreign n i) = some (n, s) := by
  obtain ⟨p, hp, hs⟩ := h
  simp [script?, hp, hs]

theorem Has.own (h : l.Has n i s) : l.script? n (.own i) = some (n, s) := by
  obtain ⟨p, hp, hs⟩ := h
  simp [script?, hp, hs]

theorem Has.lt (h : l.Has n i s) : n < l.length := by
  obtain ⟨p, hp, -⟩ := h
  exact (List.getElem?_eq_some_iff.1 hp).1

theorem Has.mono {l' : Library} (h : l.Has n i s) (hl : l <+: l') : l'.Has n i s := by
  obtain ⟨new, rfl⟩ := hl
  obtain ⟨p, hp, hs⟩ := h
  refine ⟨p, ?_, hs⟩
  rwa [List.getElem?_append_left (List.getElem?_eq_some_iff.1 hp).1]

/-- A script of a longer library is one of the library or of a new program. -/
theorem Has.cases {p : Program} (h : Has (l ++ [p]) n i s) :
    l.Has n i s ∨ n = l.length ∧ p.scripts[i]? = some s := by
  obtain ⟨q, hq, hs⟩ := h
  rcases Nat.lt_or_ge n l.length with hlt | hge
  · rw [List.getElem?_append_left hlt] at hq
    exact .inl ⟨q, hq, hs⟩
  · have hn : n = l.length := by
      have hlt := (List.getElem?_eq_some_iff.1 hq).1
      rw [List.length_append, List.length_singleton] at hlt
      omega
    subst hn
    obtain rfl : p = q := by simpa using hq
    exact .inr ⟨rfl, hs⟩

/-- The script `b` that the reference of a script of the program `n` leads to. -/
inductive Refers (l : Library) (n : Nat) : ScriptRef → Nat → Script → Prop
  | own {i : Nat} {b : Script} : l.Has n i b → Refers l n (.own i) n b
  | foreign {m i : Nat} {b : Script} : l.Has m i b → Refers l n (.foreign m i) m b

theorem Refers.script? {ref : ScriptRef} {b : Script} (h : l.Refers n ref m b) :
    l.script? n ref = some (m, b) := by
  cases h with
  | own h => exact h.own
  | foreign h => exact h.foreign n

theorem Refers.has {ref : ScriptRef} {b : Script} (h : l.Refers n ref m b) : ∃ i, l.Has m i b := by
  cases h with
  | own h => exact ⟨_, h⟩
  | foreign h => exact ⟨_, h⟩

theorem Refers.mono {l' : Library} {ref : ScriptRef} {b : Script} (h : l.Refers n ref m b) (hl : l <+: l') :
    l'.Refers n ref m b := by
  cases h with
  | own h => exact .own (h.mono hl)
  | foreign h => exact .foreign (h.mono hl)

/-- A library is **whole**: each program has a script, each script is valid, its variables are numbered in
their order, and if it has a base then that is in the library, and its variables come first. -/
structure Whole (l : Library) : Prop where
  main : ∀ p ∈ l, p.scripts ≠ []
  valid : ∀ n i s, l.Has n i s → s.isValid = true
  indexed : ∀ n i s, l.Has n i s → s.Indexed
  base : ∀ n i s ref, l.Has n i s → s.base = some ref → ∃ m b, l.Refers n ref m b ∧ b.members <+: s.members

end Library

namespace Compile

/-! ### The variables of a class -/

/-- The variables that some members declare, numbered from `k` on. -/
def slotsOf (s : Session) (unit : Nat) : Nat → List Member → List MemberSlot
  | _, [] => []
  | k, .var d :: ms => variableOf s unit d k :: slotsOf s unit (k + 1) ms
  | k, _ :: ms => slotsOf s unit k ms

/-- Adding a member changes neither the base of a table nor whether it is valid. -/
theorem addMember_base (s : Session) (unit : Nat) (t : Script) (m : Member) :
    (addMember s unit t m).base = t.base := by
  cases m with
  | enum d =>
    unfold addMember
    dsimp only
    split <;> rfl
  | _ => rfl

theorem members_addMember (s : Session) (unit : Nat) (t : Script) (m : Member) (ms : List Member) :
    (addMember s unit t m).members ++ slotsOf s unit (addMember s unit t m).members.length ms =
      t.members ++ slotsOf s unit t.members.length (m :: ms) := by
  cases m with
  | var d => simp [addMember, slotsOf]
  | enum d =>
    unfold addMember
    dsimp only
    split <;> rfl
  | _ => rfl

/-- The variables of the members come after those of the table. -/
theorem addMembers_eq (s : Session) (unit : Nat) (ms : List Member) (t : Script) :
    (ms.foldl (addMember s unit) t).base = t.base ∧
    (ms.foldl (addMember s unit) t).members = t.members ++ slotsOf s unit t.members.length ms := by
  induction ms generalizing t with
  | nil => simp [slotsOf]
  | cons m ms ih =>
    obtain ⟨hbase, hmembers⟩ := ih (addMember s unit t m)
    rw [List.foldl_cons]
    exact ⟨hbase.trans (addMember_base s unit t m), hmembers.trans (members_addMember s unit t m ms)⟩

/-- Variables numbered from `k` on have their numbers in order. -/
theorem index_slotsOf (s : Session) (unit : Nat) (ms : List Member) (k i : Nat) (m : MemberSlot)
    (h : (slotsOf s unit k ms)[i]? = some m) : m.index = k + i := by
  induction ms generalizing k i with
  | nil => simp [slotsOf] at h
  | cons x ms ih =>
    cases x with
    | var d =>
      rw [slotsOf] at h
      cases i with
      | zero =>
        obtain rfl : variableOf s unit d k = m := by simpa using h
        simp [variableOf]
      | succ i =>
        have hrest := ih (k + 1) i (by simpa using h)
        push_cast at hrest ⊢
        omega
    | _ => exact ih k i h

/-- Variables that come after those of a table go on with the numbers. -/
theorem indexed_of_append {t t' : Script} (h : t.Indexed) (s : Session) (unit : Nat) (ms : List Member)
    (hmembers : t'.members = t.members ++ slotsOf s unit t.members.length ms) : t'.Indexed := by
  intro i m hm
  rw [hmembers] at hm
  rcases Nat.lt_or_ge i t.members.length with hlt | hge
  · rw [List.getElem?_append_left hlt] at hm
    exact h i m hm
  · rw [List.getElem?_append_right hge] at hm
    have hindex := index_slotsOf s unit ms _ _ m hm
    omega

/-! ### The classes of a file -/

section Inner

variable {s : Session} {u : Nat} {D : DeclId → Prop}

mutual

/-- What holds of a class and of the classes inside of one that it holds of, holds of all that are visited. -/
theorem forall_numbers (hclosed : ∀ id, id.unit = u → D id → ∀ i ∈ innerIds s id, D i)
    {o id : DeclId} {name : Text} (hid : id.unit = u) (d : ClassDecl)
    (hdecl : s.declOf id = some d)
    (hrecords : ∀ e ∈ memberRecords u o name d.members, s.declOf e.1 = some e.2.decl) (h : D id) :
    ∀ i ∈ d.numbers u id, D i := by
  match d with
  | ⟨pos, n, base, members, isTool, usesOnready, close⟩ =>
    unfold ClassDecl.numbers
    intro i hi
    rcases List.mem_cons.1 hi with rfl | hi
    · exact h
    · refine forall_memberNumbers hclosed members hrecords (fun k hk => ?_) i hi
      exact hclosed id hid h _ (Session.mem_innerIds.2 ⟨_, hdecl, k, hk, hid ▸ rfl⟩)

theorem forall_memberNumbers (hclosed : ∀ id, id.unit = u → D id → ∀ i ∈ innerIds s id, D i)
    {o : DeclId} {name : Text} (ms : List Member)
    (hrecords : ∀ e ∈ memberRecords u o name ms, s.declOf e.1 = some e.2.decl)
    (h : ∀ k, Member.cls k ∈ ms → D ⟨u, k.anchor⟩) : ∀ i ∈ Member.numbers u ms, D i := by
  match ms with
  | [] => exact fun i hi => by cases hi
  | m :: ms =>
    have hrest : (∀ e ∈ memberRecords u o name ms, s.declOf e.1 = some e.2.decl) →
        ∀ i ∈ Member.numbers u ms, D i :=
      fun hrecords => forall_memberNumbers hclosed ms hrecords fun k hk => h k (List.mem_cons_of_mem m hk)
    unfold memberRecords at hrecords
    unfold Member.numbers
    cases m with
    | cls d =>
      dsimp only at hrecords ⊢
      intro i hi
      rcases List.mem_append.1 hi with hi | hi
      · cases d with
        | mk pos n base members isTool usesOnready close =>
          unfold classRecords at hrecords
          have hdecl := hrecords _ (List.mem_append_left _ List.mem_cons_self)
          have hmembers := fun e he => hrecords e (List.mem_append_left _ (List.mem_cons_of_mem _ he))
          exact forall_numbers hclosed rfl _ hdecl hmembers (h _ List.mem_cons_self) i hi
      · exact hrest (fun e he => hrecords e (List.mem_append_right _ he)) i hi
    | _ => exact hrest hrecords

end

end Inner

/-! ### Scripts of a file -/

/-- A script **completes** the table of its class: only its functions are new. -/
def Completes (t s : Script) : Prop :=
  s = { t with methods := s.methods, init := s.init, ready := s.ready, isValid := true }

end Compile

namespace Lower

theorem after_true {α : Type} (x : Lower α) (ctx : LowerContext) (s : Lowering) :
    After x ctx s (fun _ _ => True) fun _ => True := by
  unfold After
  split <;> trivial

mutual

/-- The scripts of a class and of those inside of it complete their tables. -/
theorem classes_completes (drafts : Table DeclId Script) (ids : List DeclId) (id : DeclId) (d : ClassDecl)
    (ctx : LowerContext) (s : Lowering) :
    After (classes drafts ids id d) ctx s (fun scripts _ =>
      List.Forall₂ (fun i t => Compile.Completes (draftOf drafts i) t) (d.numbers ctx.unit id) scripts)
      fun _ => True := by
  match d with
  | ⟨pos, name, base, members, isTool, usesOnready, close⟩ =>
    unfold classes ClassDecl.numbers
    refine After.bind (P := fun t _ => Compile.Completes (draftOf drafts id) t) ?_ fun script s₁ hscript => ?_
    · rw [after_withReader]
      refine (after_true _ _ s).bind fun _ s₁ _ => (after_true _ _ s₁).bind fun _ s₂ _ => ?_
      dsimp only
      split
      · refine (after_true _ _ s₂).bind fun _ _ _ => ?_
        exact rfl
      · exact rfl
    · refine (innerClasses_completes drafts ids members ctx s₁).bind fun scripts _ hscripts => ?_
      exact .cons hscript hscripts

theorem innerClasses_completes (drafts : Table DeclId Script) (ids : List DeclId) (ms : List Member)
    (ctx : LowerContext) (s : Lowering) :
    After (innerClasses drafts ids ms) ctx s (fun scripts _ =>
      List.Forall₂ (fun i t => Compile.Completes (draftOf drafts i) t) (Member.numbers ctx.unit ms) scripts)
      fun _ => True := by
  match ms with
  | [] => exact .nil
  | m :: ms =>
    unfold innerClasses Member.numbers
    cases m with
    | cls d =>
      rw [after_bind, after_read]
      refine (classes_completes drafts ids _ d ctx s).bind fun outer s₁ houter => ?_
      refine (innerClasses_completes drafts ids ms ctx s₁).bind fun inner _ hinner => ?_
      exact List.rel_append houter hinner
    | _ => exact innerClasses_completes drafts ids ms ctx s

end

end Lower

namespace Compile

/-- **The scripts of a program are the tables of the classes of its file**, with functions. -/
theorem lowerFile_completes {c : Compiler} {unit : Nat} {f : File} {p : Program}
    (hf : c.session.trees[unit]? = some f) (h : lowerFile c unit = (p, none)) :
    List.Forall₂ (fun id s => Completes (draftOf c.drafts id) s) (classIds c.session unit) p.scripts := by
  obtain ⟨s, hrun, -⟩ := run_lowerFile h
  have hscripts := (Lower.classes_completes c.drafts (classIds c.session unit) (Session.mainClass unit)
    (c.session.annotated unit).cls (fileContext c unit) {}).of_run hrun
  have hnumbers : (c.session.annotated unit).cls.numbers unit (Session.mainClass unit) =
      classIds c.session unit := by
    rw [Session.classIds_eq hf, Session.cls_annotated hf, numbers_annotatedClass]
  rwa [show (fileContext c unit).unit = unit from rfl, hnumbers] at hscripts

end Compile

end GameScript
