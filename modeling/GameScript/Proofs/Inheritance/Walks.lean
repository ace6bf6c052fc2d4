import GameScript.Analysis.Lookup
import GameScript.Proofs.Analysis.Logic
import Mathlib.Data.List.Perm.Subperm
import Mathlib.Logic.Relation

/-!
# Walks along bases

Many questions about a type are answered by a walk along bases, which the definitions bound by the number
of classes and scripts. Where no class derives from itself the bound is never met.

* `TypeContext.Ends` — a walk along bases ends after some steps;
* `TypeContext.Grounded` — classes and scripts are ordered by their bases;
* `TypeContext.Grounded.ends` — then every walk ends within the number of classes and scripts;
* `TypeContext.inheritsFrom_eq`, `TypeContext.nativeFrom_eq`, `Analysis.scriptMember_eq`,
  `Analysis.lineageFrom_eq` — a walk has the same result under every bound that it does not meet.
-/

namespace GameScript

namespace TypeContext

variable {ctx : TypeContext}

/-! ### Ends of walks -/

/-- A walk along bases from a type **ends** within a number of steps: it comes to a type that is neither
a class nor a script, or to one whose base is not known. -/
inductive Ends (ctx : TypeContext) : Nat → StaticType → Prop
  | stop {n : Nat} {t : StaticType} :
      (∀ id ancestor, t.shape = .cls id ancestor → (ctx.classes id).base.shape = .unresolved) →
      (∀ i, t.shape = .script i → (ctx.scripts i).base.shape = .unresolved) → Ends ctx n t
  | cls {n : Nat} {t : StaticType} {id : DeclId} {ancestor : Text} : t.shape = .cls id ancestor →
      Ends ctx n (ctx.classes id).base → Ends ctx (n + 1) t
  | script {n : Nat} {t : StaticType} {i : Nat} : t.shape = .script i →
      Ends ctx n (ctx.scripts i).base → Ends ctx (n + 1) t

theorem Ends.mono {n m : Nat} {t : StaticType} (h : Ends ctx n t) (hle : n ≤ m) : Ends ctx m t := by
  induction h generalizing m with
  | stop hcls hscript => exact .stop hcls hscript
  | cls hshape _ ih =>
    obtain ⟨m, rfl⟩ : ∃ k, m = k + 1 := ⟨m - 1, by omega⟩
    exact .cls hshape (ih (by omega))
  | script hshape _ ih =>
    obtain ⟨m, rfl⟩ : ∃ k, m = k + 1 := ⟨m - 1, by omega⟩
    exact .script hshape (ih (by omega))

/-- The class `c` has the class `b` as its base. -/
def DerivesFrom (ctx : TypeContext) (c b : DeclId) : Prop :=
  ∃ ancestor, (ctx.classes c).base.shape = .cls b ancestor

/-- Classes with bases are among the given ones and do not derive from themselves. Scripts with bases are
before a given number, and after their bases. -/
structure Grounded (ctx : TypeContext) (classes : List DeclId) (scripts : Nat) : Prop where
  mem : ∀ id, (ctx.classes id).base.shape ≠ .unresolved → id ∈ classes
  acyclic : ∀ id, ¬ Relation.TransGen ctx.DerivesFrom id id
  lt : ∀ i, (ctx.scripts i).base.shape ≠ .unresolved → i < scripts
  ordered : ∀ i j, (ctx.scripts i).base.shape = .script j → j < i
  compiled : ∀ i id ancestor, (ctx.scripts i).base.shape ≠ .cls id ancestor

section Grounded

variable {classes : List DeclId} {scripts : Nat} (h : ctx.Grounded classes scripts)
include h

/-- A walk along scripts goes down. -/
theorem Grounded.ends_script (i : Nat) {t : StaticType} (ht : t.shape = .script i) : Ends ctx (i + 1) t := by
  induction i using Nat.strong_induction_on generalizing t with
  | _ i ih =>
    refine .script ht ?_
    by_cases hnext : ∃ j, (ctx.scripts i).base.shape = .script j
    · obtain ⟨j, hj⟩ := hnext
      exact (ih j (h.ordered i j hj) hj).mono (h.ordered i j hj)
    · exact .stop (fun id a hcls => absurd hcls (h.compiled i id a)) fun j hj => absurd ⟨j, hj⟩ hnext

theorem Grounded.ends_of_not_cls {t : StaticType} (ht : ∀ id ancestor, t.shape ≠ .cls id ancestor) :
    Ends ctx scripts t := by
  by_cases hscript : ∃ i, t.shape = .script i
  · obtain ⟨i, hi⟩ := hscript
    by_cases hbase : (ctx.scripts i).base.shape = .unresolved
    · refine .stop (fun id a hcls => absurd hcls (ht id a)) fun j hj => ?_
      rw [hi] at hj
      cases hj
      exact hbase
    · exact (h.ends_script i hi).mono (h.lt i hbase)
  · exact .stop (fun id a hcls => absurd hcls (ht id a)) fun i hi => absurd ⟨i, hi⟩ hscript

/-- The classes seen so far all derive from the present one, so that it is none of them. -/
theorem Grounded.ends_of_seen (n : Nat) (seen : List DeclId) (hseen : seen.Nodup) (hsub : seen ⊆ classes)
    (hlen : classes.length ≤ seen.length + n) (t : StaticType)
    (hreach : ∀ id ancestor, t.shape = .cls id ancestor → ∀ c ∈ seen, Relation.TransGen ctx.DerivesFrom c id) :
    Ends ctx (n + scripts) t := by
  induction n generalizing seen t with
  | zero =>
    by_cases hcls : ∃ id ancestor, t.shape = .cls id ancestor
    · obtain ⟨id, ancestor, hshape⟩ := hcls
      refine .stop (fun id' a' h' => ?_) fun i hi => by rw [hshape] at hi; cases hi
      rw [hshape] at h'
      cases h'
      by_contra hset
      have hnew : id ∉ seen := fun hid => h.acyclic id (hreach id ancestor hshape id hid)
      have hle := (List.subperm_of_subset (List.nodup_cons.2 ⟨hnew, hseen⟩)
        (List.cons_subset.2 ⟨h.mem id hset, hsub⟩)).length_le
      simp only [List.length_cons] at hle
      omega
    · exact (h.ends_of_not_cls fun id a ha => hcls ⟨id, a, ha⟩).mono (by omega)
  | succ n ih =>
    by_cases hcls : ∃ id ancestor, t.shape = .cls id ancestor
    · obtain ⟨id, ancestor, hshape⟩ := hcls
      by_cases hset : (ctx.classes id).base.shape = .unresolved
      · refine .stop (fun id' a' h' => ?_) fun i hi => by rw [hshape] at hi; cases hi
        rw [hshape] at h'
        cases h'
        exact hset
      · have hnew : id ∉ seen := fun hid => h.acyclic id (hreach id ancestor hshape id hid)
        rw [Nat.add_right_comm]
        refine .cls hshape (ih (id :: seen) (List.nodup_cons.2 ⟨hnew, hseen⟩) (List.cons_subset.2 ⟨h.mem id hset, hsub⟩)
          (by simp only [List.length_cons]; omega) _ fun b a hb c hc => ?_)
        have hbase : ctx.DerivesFrom id b := ⟨a, hb⟩
        rcases List.mem_cons.1 hc with rfl | hc
        · exact .single hbase
        · exact (hreach id ancestor hshape c hc).tail hbase
    · exact (h.ends_of_not_cls fun id a ha => hcls ⟨id, a, ha⟩).mono (by omega)

/-- **Walks end** within the number of classes and scripts. -/
theorem Grounded.ends (t : StaticType) : Ends ctx (classes.length + scripts) t :=
  h.ends_of_seen classes.length [] List.nodup_nil (List.nil_subset _) (by simp) t (by simp)

end Grounded

/-! ### Results of walks -/

/-- Whether a type derives from another does not depend on a bound that is large enough. -/
theorem inheritsFrom_eq {n m : Nat} {t : StaticType} (h : Ends ctx n t) (hm : n < m) (target : StaticType) :
    ctx.inheritsFrom target m t = ctx.inheritsFrom target (n + 1) t := by
  have hunset : ∀ k (u : StaticType), u.shape = .unresolved → ctx.inheritsFrom target k u = false := by
    intro k u hu
    cases k with
    | zero => rfl
    | succ k => simp only [inheritsFrom, hu]
  induction h generalizing m with
  | @stop n t hcls hscript =>
    obtain ⟨m, rfl⟩ : ∃ k, m = k + 1 := ⟨m - 1, by omega⟩
    unfold inheritsFrom
    split
    · rename_i id a hshape
      simp only [hunset _ _ (hcls id a hshape)]
    · rename_i i hshape
      simp only [hunset _ _ (hscript i hshape)]
    · rfl
    · rfl
  | @cls n t id a hshape _ ih =>
    obtain ⟨m, rfl⟩ : ∃ k, m = k + 1 := ⟨m - 1, by omega⟩
    have hbase := ih (m := m) (by omega)
    simp only [inheritsFrom, hshape] at hbase ⊢
    rw [hbase]
  | @script n t i hshape _ ih =>
    obtain ⟨m, rfl⟩ : ∃ k, m = k + 1 := ⟨m - 1, by omega⟩
    have hbase := ih (m := m) (by omega)
    simp only [inheritsFrom, hshape] at hbase ⊢
    rw [hbase]

/-- The native class of a type does not depend on a bound that is large enough. -/
theorem nativeFrom_eq {n m : Nat} {t : StaticType} (h : Ends ctx n t) (hm : n ≤ m) :
    ctx.nativeFrom m t = ctx.nativeFrom n t := by
  have hunset : ∀ k (u : StaticType), u.shape = .unresolved → ctx.nativeFrom k u = "" := by
    intro k u hu
    unfold nativeFrom
    rw [hu]
  induction h generalizing m with
  | @stop n t hcls hscript =>
    unfold nativeFrom
    split
    · rfl
    · rename_i id a hshape
      split
      · rfl
      · simp only [hunset _ _ (hcls id a hshape)]
        cases n <;> cases m <;> rfl
    · rfl
    · rfl
    · rfl
  | @cls n t id a hshape _ ih =>
    obtain ⟨m, rfl⟩ : ∃ k, m = k + 1 := ⟨m - 1, by omega⟩
    have hbase := ih (m := m) (by omega)
    unfold nativeFrom
    simp only [hshape, hbase]
  | @script n t i hshape _ ih =>
    unfold nativeFrom
    simp only [hshape]

end TypeContext

/-- The classes in source that a class derives from, up to one whose base is no such class. -/
inductive Session.Lineage (s : Session) : DeclId → List DeclId → Prop
  | last {id : DeclId} : (∀ b, ¬ s.types.DerivesFrom id b) → Lineage s id [id]
  | next {id b : DeclId} {cs : List DeclId} : s.types.DerivesFrom id b → Lineage s b cs →
      Lineage s id (id :: cs)

/-- Where walks end, each class has a lineage. -/
theorem TypeContext.Ends.exists_lineage {ctx : TypeContext} {s : Session} {n : Nat} {t : StaticType}
    (h : Ends ctx n t) (hctx : ctx.classes = s.types.classes) {c : DeclId} {ancestor : Text}
    (ht : t.shape = .cls c ancestor) : ∃ cs, s.Lineage c cs ∧ cs.length ≤ n + 1 := by
  induction h generalizing c ancestor with
  | stop hcls _ =>
    refine ⟨[c], .last fun b hb => ?_, by simp⟩
    obtain ⟨a, hb⟩ := hb
    rw [← hctx, hcls c ancestor ht] at hb
    cases hb
  | cls hshape _ ih =>
    obtain ⟨heq, -⟩ := Shape.cls.inj (ht.symm.trans hshape)
    subst heq
    by_cases hbase : ∃ b, s.types.DerivesFrom c b
    · obtain ⟨b, a', hb⟩ := hbase
      obtain ⟨cs, hcs, hlen⟩ := ih (hctx ▸ hb)
      exact ⟨c :: cs, .next ⟨a', hb⟩ hcs, by simp only [List.length_cons]; omega⟩
    · exact ⟨[c], .last fun b hb => hbase ⟨b, hb⟩, by simp⟩
  | script hshape _ _ =>
    rw [hshape] at ht
    cases ht

namespace Analysis

open TypeContext

variable {s : Session}

/-- A walk along a lineage finds all of it. -/
theorem lineageFrom_eq {id : DeclId} {cs : List DeclId} (h : s.Lineage id cs) {m : Nat} (hm : cs.length ≤ m)
    (unit : Nat) : lineageFrom m id unit s = (cs, s) := by
  have hafter : After (lineageFrom m id) unit s fun r s' => r = cs ∧ s' = s := by
    induction h generalizing m with
    | last hid =>
      obtain ⟨m, rfl⟩ : ∃ k, m = k + 1 := ⟨m - 1, by simp only [List.length_singleton] at hm; omega⟩
      unfold lineageFrom
      rw [after_bind, after_baseOf]
      split
      · exact absurd ⟨_, ‹_›⟩ (hid _)
      · exact ⟨rfl, rfl⟩
    | next hbase _ ih =>
      obtain ⟨m, rfl⟩ : ∃ k, m = k + 1 := ⟨m - 1, by simp only [List.length_cons] at hm; omega⟩
      obtain ⟨a, hshape⟩ := hbase
      unfold lineageFrom
      rw [after_bind, after_baseOf, hshape]
      refine (ih (by simpa using hm)).bind fun r s' h => ?_
      obtain ⟨rfl, rfl⟩ := h
      exact ⟨rfl, rfl⟩
  exact Prod.ext hafter.1 hafter.2

/-- A member of a compiled script does not depend on a bound that is large enough. -/
theorem scriptMember_eq {n m : Nat} {t : StaticType} (h : Ends s.types n t) (hm : n < m) (name : Text)
    (unit : Nat) : scriptMember name m t unit s = scriptMember name (n + 1) t unit s := by
  have hafter : ∀ Q, After (scriptMember name m t) unit s Q → After (scriptMember name (n + 1) t) unit s Q := by
    induction h generalizing m with
    | @stop n t hcls hscript =>
      obtain ⟨m, rfl⟩ : ∃ k, m = k + 1 := ⟨m - 1, by omega⟩
      intro Q
      unfold scriptMember
      split
      · rename_i i hi
        have hbase := hscript i hi
        simp only [after_bind, after_types]
        cases m <;> cases n <;> unfold scriptMember <;> simp [hbase]
      · exact fun h => h
      · exact fun h => h
      · exact fun h => h
    | cls hshape _ _ =>
      obtain ⟨m, rfl⟩ : ∃ k, m = k + 1 := ⟨m - 1, by omega⟩
      intro Q
      unfold scriptMember
      rw [hshape]
      exact fun h => h
    | script hshape _ ih =>
      obtain ⟨m, rfl⟩ : ∃ k, m = k + 1 := ⟨m - 1, by omega⟩
      intro Q
      unfold scriptMember
      simp only [hshape, after_bind, after_types]
      exact ih (by omega) _
  exact (hafter (fun r s' => (r, s') = scriptMember name m t unit s) rfl).symm

end Analysis

end GameScript
