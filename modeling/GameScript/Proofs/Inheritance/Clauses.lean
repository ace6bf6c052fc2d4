import GameScript.Proofs.Analysis.Statements
import GameScript.Proofs.Inheritance.Steps

/-!
# What clauses denote

An `extends` clause denotes a native class, a compiled script or a class of a loaded file.

* `Session.Run` — a run from one session to another that returns to the same stack;
* `Session.Denoted` — a type that a clause can denote, `Session.Suitable` — one that can be a base;
* `Analysis.findMember_mem` — what is found by name is a member of a class of a loaded file;
* `Analysis.baseNamed_denoted`, `Analysis.baseAt_denoted`, `Analysis.innerBase_denoted` — the parts of a
  clause.
-/

namespace GameScript

namespace Session

variable {s₀ s s' : Session}

/-- A **run** from one session to another: between them are steps, and the stack is the same again. -/
structure Run (s₀ s : Session) : Prop where
  sound : s.Sound
  filed : s.Filed
  leads : s₀.Leads s
  stack : s.inheriting = s₀.inheriting

theorem Run.refl (hs : s.Sound) (hf : s.Filed) : s.Run s := ⟨hs, hf, .refl, rfl⟩

theorem Run.trans (h : s₀.Run s) (h' : s.Run s') : s₀.Run s' :=
  ⟨h'.sound, h'.filed, h.leads.trans h'.leads, h'.stack.trans h.stack⟩

theorem Run.step (h : s₀.Run s) (hstep : Step s s') (hstack : s'.inheriting = s.inheriting) : s₀.Run s' :=
  ⟨hstep.sound h.sound, hstep.filed h.filed, h.leads.tail hstep, hstack.trans h.stack⟩

/-- A run goes on with what bases do not depend on. -/
theorem Run.of_bare (h : s₀.Run s) (hbare : s'.bare = s.bare) : s₀.Run s' :=
  h.step (.elsewhere hbare) (inheriting_eq_of_bare hbare)

theorem run_framed (s₀ : Session) : Framed s₀.Run :=
  .of_bare (fun hbare h => h.of_bare hbare) (fun path h => h.step (.load path) (fetch_inheriting _ path))
    fun h hget => (h.filed.cached _ _ hget).1

/-! ### Types that a clause can denote -/

/-- A native class, a compiled script or a class of a loaded file. -/
def Denoted (s : Session) (t : StaticType) : Prop :=
  (∃ cls, t.shape = .native cls) ∨ (∃ i, t.shape = .script i) ∨ ∃ c ancestor, t.shape = .cls c ancestor ∧ s.Has c

/-- What can be the base of a class. -/
def Suitable (s : Session) (t : StaticType) : Prop :=
  t.IsFinal ∧ ∀ b ancestor, t.shape = .cls b ancestor → s.Settled b ∧ b ∉ s.cyclic

theorem Suitable.of_bare {t : StaticType} (h : s.Suitable t) (hbare : s'.bare = s.bare) : s'.Suitable t := by
  refine ⟨h.1, fun b ancestor hb => ?_⟩
  rw [Settled, baseOf_eq_of_bare hbare, cyclic_eq_of_bare hbare]
  exact h.2 b ancestor hb

theorem suitable_variant (s : Session) : s.Suitable .variant :=
  ⟨⟨rfl, by simp [StaticType.variant]⟩, fun _ _ h => by simp [StaticType.variant] at h⟩

/-- The type of a settled class can be a base. -/
theorem Sound.suitable_typeOf (hs : s.Sound) {c : DeclId} (hc : s.Settled c) (hcyclic : c ∉ s.cyclic) :
    s.Suitable (s.typeOf c) := by
  obtain ⟨ancestor, htype⟩ := hs.typed_of_isSet hc.1
  refine ⟨⟨isSet_of_shape htype (by simp), by simp [htype]⟩, fun b a hb => ?_⟩
  rw [htype] at hb
  cases hb
  exact ⟨hc, hcyclic⟩

theorem Sound.denoted_classType (hs : s.Sound) {c : DeclId} (hc : s.Has c) :
    s.Denoted (s.types.classType c) := by
  have heq : s.types.classType c = if (s.typeOf c).isSet then s.typeOf c else .ofClass c "" := rfl
  have hshape : ∃ ancestor, (s.types.classType c).shape = .cls c ancestor := by
    rw [heq]
    rcases hs.types c with htyped | hunset
    · obtain ⟨ancestor, htype⟩ := htyped
      refine ⟨ancestor, ?_⟩
      rw [if_pos (isSet_of_shape htype (by simp))]
      exact htype
    · refine ⟨"", ?_⟩
      rw [if_neg (by simp [hunset.1])]
      rfl
  obtain ⟨ancestor, h⟩ := hshape
  exact .inr (.inr ⟨c, ancestor, h, hc⟩)

theorem denoted_ofNative (s : Session) (cls : Text) : s.Denoted (.ofNative cls) := .inl ⟨cls, rfl⟩

theorem denoted_ofScript (s : Session) (i : Nat) : s.Denoted (.ofScript i) := .inr (.inl ⟨i, rfl⟩)

end Session

namespace Analysis

variable {α β : Type} {s₀ s : Session} {unit : Nat} {sub : Steps}

/-! ### Loops and lookups -/

/-- A loop keeps an invariant of its variables and the session. -/
theorem forIn_after {f : α → β → Analysis (ForInStep β)} {I : β → Session → Prop} {xs : List α} {b : β}
    (h : I b s) (hf : ∀ a ∈ xs, ∀ b s, I b s → After (f a b) unit s fun r s' => I r.value s') :
    After (forIn xs b f) unit s I := by
  induction xs generalizing b s with
  | nil => exact h
  | cons x xs ih =>
    rw [List.forIn_cons]
    refine (hf x List.mem_cons_self b s h).bind fun r s' hr => ?_
    cases r with
    | done b' => exact hr
    | yield b' => exact ih hr fun a ha => hf a (List.mem_cons_of_mem x ha)

/-- What is found is a member of a class of a loaded file. -/
theorem findMember_mem (hunit : unit < s.files.length) (id : DeclId) (name : Text) :
    After (findMember id name) unit s fun r s' => s' = s ∧
      ∀ m c, r = some (m, c) → ∃ d, s.declOf c = some d ∧ m ∈ d.members := by
  have hlineage : After (lineage id) unit s fun _ s' => s' = s :=
    (lineage_keeps (P := (· = s)) id unit s rfl hunit).mono fun _ _ h => h.1
  unfold findMember
  refine hlineage.bind fun cs s' hs' => ?_
  subst hs'
  refine After.bind (R := fun b s'' => s'' = s' ∧ ∀ m c, b.1 = some (some (m, c)) →
    ∃ d, s'.declOf c = some d ∧ m ∈ d.members) ?_ fun b s'' hb => ?_
  · refine forIn_after ⟨rfl, by simp⟩ fun c _ b s'' hb => ?_
    obtain ⟨rfl, -⟩ := hb
    show After (classRecord c >>= _) unit s'' _
    refine After.bind (R := fun r t => t = s'' ∧ r = (s''.classes.get? c).getD default) ⟨rfl, rfl⟩
      fun r t hr => ?_
    obtain ⟨rfl, rfl⟩ := hr
    split
    · exact ⟨rfl, fun _ _ h => by cases h⟩
    · exact ⟨rfl, fun _ _ h => by cases h⟩
    · rename_i m _ hfound
      refine ⟨rfl, fun m' c' hm => ?_⟩
      cases hm
      have hmem : m ∈ ((t.classes.get? c).getD default).decl.members := by
        unfold ClassDecl.member? at hfound
        split at hfound
        · cases hfound
        · exact List.mem_of_find?_eq_some hfound
      cases hget : t.classes.get? c with
      | none =>
        rw [hget] at hmem
        cases hmem
      | some r =>
        rw [hget] at hmem
        exact ⟨r.decl, by rw [Session.declOf, hget]; rfl, hmem⟩
  · obtain ⟨rfl, hb⟩ := hb
    dsimp only
    split
    · rename_i r hr
      exact ⟨rfl, fun m c hm => hb m c (by rw [hr]; exact congrArg some hm)⟩
    · exact ⟨rfl, fun _ _ h => by cases h⟩

/-! ### Clauses -/

@[simp] theorem after_isCyclic {id : DeclId} {Q : Bool → Session → Prop} :
    After (isCyclic id) unit s Q ↔ Q (s.cyclic.contains id) s := Iff.rfl

/-- A class that is found as a member is one of a loaded file. -/
theorem has_of_found (hf : s.Filed) {d : ClassDecl} {c : DeclId}
    (h : ∃ k, s.declOf c = some k ∧ Member.cls d ∈ k.members) : s.Has ⟨c.unit, (Member.cls d).anchor⟩ := by
  obtain ⟨k, hk, hmem⟩ := h
  exact hf.inner c k hk d hmem

theorem outerClassNamed_denoted (hs : s.Sound) (hf : s.Filed) (hunit : unit < s.files.length) (name : Text)
    (os : List DeclId) : After (outerClassNamed name os) unit s fun r s' => s' = s ∧
      ∀ t, r = some t → s.Denoted t := by
  induction os with
  | nil => exact ⟨rfl, fun _ h => by cases h⟩
  | cons o os ih =>
    unfold outerClassNamed
    refine (findMember_mem hunit o name).bind fun r s' hr => ?_
    obtain ⟨rfl, hr⟩ := hr
    split
    · refine ⟨rfl, fun t ht => ?_⟩
      cases ht
      exact hs.denoted_classType (has_of_found hf (hr _ _ rfl))
    · exact ih

theorem innerBase_denoted (hs : s.Sound) (hf : s.Filed) (hunit : unit < s.files.length) (base : StaticType)
    (ids : List Ident) : After (innerBase base ids) unit s fun r s' =>
      ∀ t, r = some t → s' = s ∧ (s.Denoted base → s.Denoted t) := by
  induction ids generalizing base with
  | nil =>
    intro t ht
    cases ht
    exact ⟨rfl, id⟩
  | cons id ids ih =>
    unfold innerBase
    extract_lets onward
    have honward : ∀ inner?, (∀ i, inner? = some i → s.Has i) →
        After (onward inner?) unit s fun r s' => ∀ t, r = some t → s' = s ∧ (s.Denoted base → s.Denoted t) := by
      intro inner? hinner
      cases inner? with
      | none => exact fun _ h => by cases h
      | some i =>
        intro t ht
        obtain ⟨hsame, hdenoted⟩ := ih (s.types.classType i) t ht
        exact ⟨hsame, fun _ => hdenoted (hs.denoted_classType (hinner i rfl))⟩
    clear_value onward
    split
    · refine (findMember_mem hunit _ _).bind fun r s' hr => ?_
      obtain ⟨rfl, hr⟩ := hr
      split
      · refine honward _ fun i hi => ?_
        cases hi
        exact has_of_found hf (hr _ _ rfl)
      · exact honward _ fun _ h => by cases h
    · exact honward _ fun _ h => by cases h

theorem loadScript_denoted (hsub : sub.Keep s₀.Run) (hs : s₀.Run s) (hunit : unit < s.files.length)
    (path : Text) (status : Status) : After (loadScript sub path status) unit s fun r s' =>
      ∀ t, r = .ready t → s'.Denoted t := by
  unfold loadScript
  simp only [after_bind, after_self, after_get]
  split
  · intro t ht
    cases ht
    exact hs.sound.denoted_classType (hs.filed.main unit hunit)
  split
  · intro t ht
    cases ht
    exact s.denoted_ofScript _
  rw [after_bind, after_set]
  have hloaded := (Session.run_framed s₀).load path hs
  have hlength := s.fetch_files_length path
  split
  · exact fun _ h => by cases h
  · have hother := Session.fetch_lt (fun _ h => (hs.filed.cached _ _ h).1) ‹_›
    refine (hsub.raise _ status unit _ hloaded (by omega) hother).bind fun faulty s' hs' => ?_
    cases faulty with
    | true => exact fun _ h => by cases h
    | false =>
      intro t ht
      cases ht
      exact hs'.1.sound.denoted_classType (hs'.1.filed.main _ (hother.trans_le hs'.2))

theorem baseNamed_denoted (hsub : sub.Keep s₀.Run) (hs : s₀.Run s) (hunit : unit < s.files.length)
    (cls : DeclId) (id : Ident) : After (baseNamed sub cls id) unit s fun r s' =>
      ∀ t, r = some t → s'.Denoted t := by
  unfold baseNamed
  dsimp only
  refine After.bind (R := fun _ s' => s' = s) rfl fun isMain s' hs' => ?_
  subst hs'
  split
  · intro t ht
    cases ht
    exact hs.sound.denoted_classType (hs.filed.main unit hunit)
  refine ((scriptNamed_keeps (P := (· = s')) false id.name) unit s' rfl hunit).bind fun path s'' hs'' => ?_
  obtain rfl := hs''.1
  split
  · refine (loadScript_denoted hsub hs hunit _ _).bind fun r s' hr => ?_
    split
    · intro t ht
      cases ht
      exact hr _ rfl
    · rw [after_bind, after_isCyclic]
      split <;> exact fun _ h => by cases h
  · refine After.bind (R := fun _ s' => s' = s'') rfl fun db s' hs' => ?_
    subst hs'
    split
    · intro t ht
      cases ht
      exact s'.denoted_ofNative _
    refine ((enclosing_keeps (P := (· = s')) cls) unit s' rfl hunit).bind fun os s'' hs'' => ?_
    obtain rfl := hs''.1
    refine (outerClassNamed_denoted hs.sound hs.filed hunit _ _).bind fun r s' hr => ?_
    split
    · intro t ht
      cases ht
      exact hr.1 ▸ hr.2 _ rfl
    · exact fun _ h => by cases h

theorem baseAt_denoted (hsub : sub.Keep s₀.Run) (hs : s₀.Run s) (hunit : unit < s.files.length)
    (cls : DeclId) (path : Literal) : After (baseAt sub cls path) unit s fun r s' =>
      ∀ t, r = some t → s'.Denoted t := by
  unfold baseAt
  dsimp only
  refine ((current_keeps (P := (· = s))) unit s rfl hunit).bind fun file s' hs' => ?_
  obtain rfl := hs'.1
  refine (loadScript_denoted hsub hs hunit _ _).bind fun r s' hr => ?_
  split
  · intro t ht
    cases ht
    exact hr _ rfl
  · rw [after_bind, after_isCyclic]
    split
    · split <;> exact fun _ h => by cases h
    · exact fun _ h => by cases h

end Analysis

end GameScript
