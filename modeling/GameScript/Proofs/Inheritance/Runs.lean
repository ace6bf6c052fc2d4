import GameScript.Proofs.Inheritance.Clauses

/-!
# Analysis as a run

Whatever the analysis does to a session, it does by steps of the determination of bases.

* `Analysis.resolveBase_run`, `Analysis.resolveInheritance_run` — the determination of one base, with all
  that it asks for meanwhile, is a run;
* `Analysis.steps_resolve` — all steps of analysis are runs, however deep they are nested.
-/

namespace GameScript

namespace Analysis

variable {α β : Type} {s₀ s : Session} {unit : Nat} {sub : Steps}

/-! ### The determination of a base -/

/-- The steps for parts are runs. After the base of a class is said to be known, it is final. -/
structure Steps.Resolve (sub : Steps) : Prop where
  keep : ∀ s₀ : Session, sub.Keep s₀.Run
  known : ∀ id recursive unit s, s.Sound → s.Filed → unit < s.files.length → s.Has id →
    After (sub.inheritance id recursive) unit s fun r s' => r = true → s'.Settled id ∧ id ∉ s'.cyclic

/-- A clause denotes what can be a base. -/
theorem extendsType_run (hsub : sub.Resolve) (hs : s₀.Run s) (hunit : unit < s.files.length)
    (cls : DeclId) (base : Option Extends) : After (extendsType sub cls base) unit s fun r s' =>
      (s₀.Run s' ∧ s.files.length ≤ s'.files.length) ∧ ∀ t, r = some t → s'.Suitable t := by
  unfold extendsType
  split
  · refine ⟨⟨hs, le_rfl⟩, fun t ht => ?_⟩
    cases ht
    exact ⟨⟨rfl, by simp [StaticType.ofNative]⟩, fun _ _ h => by simp [StaticType.ofNative] at h⟩
  rename_i e
  have hP := elementary_of_framed (Session.run_framed s₀)
  extract_lets determine
  have hdetermine : ∀ t? s', s₀.Run s' → s.files.length ≤ s'.files.length →
      (∀ t, t? = some t → s'.Denoted t) → After (determine t?) unit s' fun r s'' =>
        (s₀.Run s'' ∧ s.files.length ≤ s''.files.length) ∧ ∀ t, r = some t → s''.Suitable t := by
    intro t? s' hs' hlength ht?
    cases t? with
    | none => exact ⟨⟨hs', hlength⟩, fun _ h => by cases h⟩
    | some t =>
      have hunit' := hunit.trans_le hlength
      dsimp only [determine]
      split
      · rename_i c ancestor hshape
        have hhas : s'.Has c := by
          rcases ht? t rfl with ⟨_, h⟩ | ⟨_, h⟩ | ⟨c', _, h, hc'⟩
          · rw [hshape] at h
            cases h
          · rw [hshape] at h
            cases h
          · rw [hshape] at h
            cases h
            exact hc'
        refine (owner_lt hP hs' hunit' c).bind fun o s'' ho => ?_
        obtain ⟨rfl, ho⟩ := ho
        have hrun := ((hsub.keep s'').inheritance c false) o s'' (.refl hs'.sound hs'.filed) ho
        have hknown := hsub.known c false o s'' hs'.sound hs'.filed ho hhas
        rw [after_bind, after_onBehalfOf]
        refine (hrun.and hknown).mono fun r s₃ h => ?_
        obtain ⟨⟨hrun, hgrow⟩, hknown⟩ := h
        have hend : s₀.Run s₃ ∧ s.files.length ≤ s₃.files.length := ⟨hs'.trans hrun, hlength.trans hgrow⟩
        split
        · rw [after_bind, after_classFacts]
          refine ⟨hend, fun t ht => ?_⟩
          cases ht
          obtain ⟨hsettled, hcyclic⟩ := hknown ‹_›
          exact hrun.sound.suitable_typeOf hsettled hcyclic
        · exact ⟨hend, fun _ h => by cases h⟩
      · rename_i hshape
        refine ⟨⟨hs', hlength⟩, fun t' ht' => ?_⟩
        cases ht'
        rcases ht? t rfl with ⟨cls, h⟩ | ⟨i, h⟩ | ⟨c, ancestor, h, -⟩
        · exact ⟨⟨Session.isSet_of_shape h (by simp), by simp [h]⟩, fun b a hb => absurd hb (hshape b a)⟩
        · exact ⟨⟨Session.isSet_of_shape h (by simp), by simp [h]⟩, fun b a hb => absurd hb (hshape b a)⟩
        · exact absurd h (hshape c ancestor)
  clear_value determine
  have hinner : ∀ t ids s', s₀.Run s' → s.files.length ≤ s'.files.length → s'.Denoted t →
      After (innerBase t ids >>= determine) unit s' fun r s'' =>
        (s₀.Run s'' ∧ s.files.length ≤ s''.files.length) ∧ ∀ t, r = some t → s''.Suitable t := by
    intro t ids s' hs' hlength ht
    have hunit' := hunit.trans_le hlength
    have hkeep := innerBase_keeps hP t ids unit s' hs' hunit'
    have hdenoted := innerBase_denoted hs'.sound hs'.filed hunit' t ids
    refine (hkeep.and hdenoted).bind fun r s'' h => ?_
    obtain ⟨⟨hrun, hgrow⟩, hdenoted⟩ := h
    refine hdetermine r s'' hrun (hlength.trans hgrow) fun t' ht' => ?_
    obtain ⟨rfl, h⟩ := hdenoted t' ht'
    exact h ht
  split
  · have hkeep := baseAt_keeps hP (hsub.keep s₀) cls ‹_› unit s hs hunit
    refine (hkeep.and (baseAt_denoted (hsub.keep s₀) hs hunit cls _)).bind fun r s'' h => ?_
    obtain ⟨⟨hrun, hgrow⟩, hdenoted⟩ := h
    cases r with
    | none => exact hdetermine none s'' hrun hgrow fun _ h => by cases h
    | some t => exact hinner t _ s'' hrun hgrow (hdenoted t rfl)
  · have hkeep := baseNamed_keeps hP (hsub.keep s₀) cls ‹_› unit s hs hunit
    refine (hkeep.and (baseNamed_denoted (hsub.keep s₀) hs hunit cls _)).bind fun r s'' h => ?_
    obtain ⟨⟨hrun, hgrow⟩, hdenoted⟩ := h
    cases r with
    | none => exact hdetermine none s'' hrun hgrow fun _ h => by cases h
    | some t => exact hinner t _ s'' hrun hgrow (hdenoted t rfl)
  · exact hdetermine none s hs le_rfl fun _ h => by cases h

@[simp] theorem after_setFacts {id : DeclId} {f : ClassFacts → ClassFacts} {Q : Unit → Session → Prop} :
    After (setFacts id f) unit s Q ↔ Q () (s.withFacts id f) := Iff.rfl

/-- What is done inside of a class, apart from the focus. -/
theorem inClass_after {id : DeclId} {x : Analysis α} {Q : α → Session → Prop}
    (hx : ∀ s', s'.bare = s.bare → After x unit s' Q)
    (hQ : ∀ a s' s'', s''.bare = s'.bare → Q a s' → Q a s'') : After (inClass id x) unit s Q := by
  have hfocus : ∀ t f, After (setFocus f) unit t fun _ t' => t'.bare = t.bare :=
    fun t f => t.bare_modifyFile unit fun _ => rfl
  have hsaved : After focus unit s fun _ s' => s' = s := by
    unfold focus current fileRecord
    simp only [after_bind, after_self, after_get]
    split <;> rfl
  unfold inClass keepingFocus
  refine hsaved.bind fun saved s' hs' => ?_
  subst hs'
  rw [after_bind, after_bind]
  refine (hfocus s' _).mono fun _ s₁ h₁ => ?_
  refine (hx s₁ h₁).mono fun a s₂ h₂ => ?_
  exact (hfocus s₂ saved).bind fun _ s₃ h₃ => hQ a s₂ s₃ h₃ h₂

end Analysis

namespace Session

variable {s₀ s s' : Session}

/-- The base of a class can begin to be determined. -/
structure Ready (s : Session) (id : DeclId) : Prop where
  has : s.Has id
  typed : s.Typed id
  isSet : (s.baseOf id).isSet = false

theorem ready_framed (s₀ : Session) (id : DeclId) : Framed fun s => s₀.Run s ∧ s.Ready id := by
  refine .of_bare (fun hbare h => ⟨h.1.of_bare hbare, ?_, ?_, ?_⟩)
    (fun path h => ⟨(run_framed s₀).load path h.1, h.2.has.fetch path, ?_, ?_⟩)
    fun h hget => (run_framed s₀).cached h.1 hget
  · exact ((Step.elsewhere hbare).grows h.1.sound).has h.2.has
  · rw [Typed, typeOf_eq_of_bare hbare]
    exact h.2.typed
  · rw [baseOf_eq_of_bare hbare]
    exact h.2.isSet
  · rw [Typed, (fetch_facts _ path id).2]
    exact h.2.typed
  · rw [(fetch_facts _ path id).1]
    exact h.2.isSet

/-- The session in which the base of a class is being determined. -/
def entered (s : Session) (id : DeclId) : Session :=
  { s.withFacts id (fun f => { f with base := { f.base with shape := .resolving } }) with
    inheriting := id :: s.inheriting }

theorem Run.entered (h : s₀.Run s) {id : DeclId} (hready : s.Ready id) : (s.entered id).Run (s.entered id) :=
  have hstep : Step s (s.entered id) := .enter id hready.has hready.typed hready.isSet
  .refl (hstep.sound h.sound) (hstep.filed h.filed)

/-- After a run on top of the stack, the class at its top gets its base, and what leads there is a run. -/
theorem Run.settled (h : s₀.Run s) {id : DeclId} (hready : s.Ready id) (h' : (s.entered id).Run s')
    {base : StaticType} (hsuitable : s'.Suitable base) (hcyclic : id ∈ s'.cyclic → base.shape = .variant) :
    s₀.Run ({ s' with inheriting := s'.inheriting.drop 1 }.withFacts id fun f => { f with base }) ∧
      Settled ({ s' with inheriting := s'.inheriting.drop 1 }.withFacts id fun f => { f with base }) id := by
  have hstack : s'.inheriting = id :: s.inheriting := h'.stack
  have hstep : Step s' ({ s' with inheriting := s.inheriting }.withFacts id fun f => { f with base }) :=
    .settle base hstack hsuitable.1 hcyclic hsuitable.2
  have henter : Step s (s.entered id) := .enter id hready.has hready.typed hready.isSet
  have hdrop : s'.inheriting.drop 1 = s.inheriting := by rw [hstack]; rfl
  rw [hdrop]
  refine ⟨⟨hstep.sound h'.sound, hstep.filed h'.filed, ?_, ?_⟩, ?_⟩
  · exact ((h.leads.tail henter).trans h'.leads).tail hstep
  · rw [withFacts_inheriting]
    exact h.stack
  · have hhas : Has { s' with inheriting := s.inheriting } id := 
      ((henter.grows h.sound).trans (h'.leads.grows (henter.sound h.sound))).has hready.has
    rw [Settled, baseOf_withFacts_self hhas]
    exact hsuitable.1

end Session

namespace Analysis

variable {α β : Type} {s₀ s : Session} {unit : Nat} {sub : Steps}

/-- **The determination of a base is a run**, after which the base is final. -/
theorem resolveBase_run (hsub : sub.Resolve) (hs : s₀.Run s) (hunit : unit < s.files.length) {id : DeclId}
    (hhas : s.Has id) (hbase : (s.baseOf id).isSet = false) (c : ClassRecord) :
    After (resolveBase sub id c) unit s fun _ s' =>
      (s₀.Run s' ∧ s.files.length ≤ s'.files.length) ∧ s'.Settled id := by
  unfold resolveBase
  rw [after_bind, after_setFacts]
  extract_lets determine
  have hdetermine : ∀ r s', s₀.Run s' ∧ s'.Ready id → s.files.length ≤ s'.files.length →
      After (determine r) unit s' fun _ s'' =>
        (s₀.Run s'' ∧ s.files.length ≤ s''.files.length) ∧ s''.Settled id := by
    intro r s' hs' hlength
    dsimp only [determine]
    rw [after_bind, after_setFacts, after_bind, after_modify, after_bind, Session.withFacts_inheriting]
    -- The clause is looked at with the class on top of the stack.
    have hclause : After (inClass id (extendsType sub id c.decl.base)) unit (s'.entered id) fun r s'' =>
        ((s'.entered id).Run s'' ∧ s'.files.length ≤ s''.files.length) ∧ ∀ t, r = some t → s''.Suitable t := by
      refine inClass_after (fun s₁ h₁ => ?_) fun r s₁ s₂ hbare h => ?_
      · have hrun := (hs'.1.entered hs'.2).of_bare h₁
        have hfiles : s₁.files.length = s'.files.length :=
          (Session.files_length_of_bare h₁).trans (congrArg List.length (Session.withFacts_files _ _ _))
        refine (extendsType_run hsub hrun (by omega) id c.decl.base).mono fun r s₂ h => ?_
        exact ⟨⟨h.1.1, hfiles.symm.le.trans h.1.2⟩, h.2⟩
      · refine ⟨⟨h.1.1.of_bare hbare, ?_⟩, fun t ht => (h.2 t ht).of_bare hbare⟩
        rw [Session.files_length_of_bare hbare]
        exact h.1.2
    refine hclause.mono fun base? s'' h => ?_
    obtain ⟨⟨hrun, hgrow⟩, hsuitable⟩ := h
    simp only [after_bind, after_modify, after_isCyclic, after_setFacts, after_nativeOf]
    generalize hbaseEq : (if s''.cyclic.contains id = true then StaticType.variant
      else base?.getD StaticType.variant) = base
    have hbaseSuitable : s''.Suitable base := by
      rw [← hbaseEq]
      split
      · exact s''.suitable_variant
      · cases base? with
        | none => exact s''.suitable_variant
        | some t => exact hsuitable t rfl
    have hcyclic : id ∈ s''.cyclic → base.shape = .variant := by
      intro hmem
      rw [← hbaseEq, if_pos (by simpa using hmem)]
      rfl
    obtain ⟨hrun', hsettled⟩ := hs'.1.settled hs'.2 hrun hbaseSuitable hcyclic
    refine ⟨⟨hrun'.step (.describe id _ ?_ ?_) (Session.withFacts_inheriting _ _ _), ?_⟩, ?_⟩
    · exact fun _ => rfl
    · exact fun _ => ⟨_, rfl⟩
    · simp only [Session.withFacts_files]
      exact hlength.trans hgrow
    · rw [Session.Settled, Session.baseOf_withFacts_of_base]
      · exact hsettled
      · exact fun _ => rfl
  clear_value determine
  have hdescribe : s₀.Run (s.withFacts id fun f => { f with fqcn := c.fullName, type := .ofClass id "" }) ∧
      Session.Ready (s.withFacts id fun f => { f with fqcn := c.fullName, type := .ofClass id "" }) id := by
    refine ⟨hs.step (.describe id _ ?_ ?_) (Session.withFacts_inheriting _ _ _), ?_, ?_, ?_⟩
    · exact fun _ => rfl
    · exact fun _ => ⟨"", rfl⟩
    · rw [Session.Has, Session.declOf_withFacts]
      exact hhas
    · exact Session.typed_withFacts hhas fun _ => ⟨"", rfl⟩
    · rw [Session.baseOf_withFacts_of_base]
      · exact hbase
      · exact fun _ => rfl
  split
  · refine (checkClassName_keeps (elementary_of_framed (Session.ready_framed s₀ id)) _ _ unit _ hdescribe
      (by simpa using hunit)).bind fun r s' hs' => hdetermine r s' hs'.1 ?_
    simpa using hs'.2
  · exact hdetermine _ _ hdescribe (by simp)

/-- Nothing is determined for a class that no loaded file has. -/
theorem resolveBase_unknown {id : DeclId} (h : ¬ s.Has id) :
    After (resolveBase sub id default) unit s fun _ s' => s'.bare = s.bare := by
  have hname : (default : ClassRecord).decl.name = none := rfl
  have hbase : (default : ClassRecord).decl.base = none := rfl
  unfold resolveBase
  rw [after_bind, after_setFacts, Session.withFacts_of_not_has h]
  dsimp only
  rw [hname, hbase]
  dsimp only
  rw [after_bind, after_setFacts, Session.withFacts_of_not_has h, after_bind, after_modify, after_bind]
  have hclause : After (inClass id (extendsType sub id none)) unit { s with inheriting := id :: s.inheriting }
      fun _ s' => s'.bare = Session.bare { s with inheriting := id :: s.inheriting } :=
    inClass_after (fun _ hbare => hbare) fun _ _ _ hbare h' => hbare.trans h'
  refine hclause.mono fun r s' hs' => ?_
  have hno : ¬ Session.Has { s' with inheriting := s'.inheriting.drop 1 } id := by
    intro hhas
    have hdecl : s'.declOf id = s.declOf id := Session.declOf_eq_of_bare hs' id
    exact h ((congrArg Option.isSome hdecl).symm.trans hhas)
  simp only [after_bind, after_modify, after_isCyclic, after_setFacts, after_nativeOf,
    Session.withFacts_of_not_has hno]
  calc Session.bare { s' with inheriting := s'.inheriting.drop 1 }
      = { s'.bare with inheriting := s'.inheriting.drop 1 } := rfl
    _ = { Session.bare { s with inheriting := id :: s.inheriting } with
          inheriting := (id :: s.inheriting).drop 1 } := by rw [hs', Session.inheriting_eq_of_bare hs']
    _ = s.bare := rfl

/-! ### Reports -/

/-- The file whose analysis a class belongs to is at the path of the class. -/
theorem owner_pathOf (hf : s.Filed) (hunit : unit < s.files.length) {c : DeclId} (hc : s.Has c) :
    After (owner c) unit s fun o s' => s' = s ∧ o < s.files.length ∧ s.pathOf o = s.pathOf c.unit := by
  unfold owner
  simp only [after_bind, after_get, after_self]
  split
  · exact ⟨rfl, hunit, Eq.symm ‹_›⟩
  · split
    · exact ⟨rfl, hf.cached _ _ ‹_›⟩
    · rename_i hnot
      obtain ⟨v, hv⟩ := hf.loaded c.unit (hf.unit_lt c hc)
      exact absurd hv (hnot v)

theorem classRecord_decl (s : Session) (id : DeclId) :
    ((s.classes.get? id).getD default).decl = (s.declOf id).getD default := by
  unfold Session.declOf
  cases s.classes.get? id <;> rfl

/-- Reports of classes on the stack are a run. -/
theorem reportCycle_run (hs : s₀.Run s) (hunit : unit < s.files.length) (id : DeclId) :
    After (reportCycle id) unit s fun _ s' => s₀.Run s' ∧ s.files.length ≤ s'.files.length := by
  unfold reportCycle
  rw [after_bind, after_get]
  extract_lets stack involved
  have hinvolved : ∀ c ∈ involved.reverse, c ∈ s₀.inheriting := by
    intro c hc
    rw [List.mem_reverse] at hc
    rw [← hs.stack]
    dsimp only [involved] at hc
    split at hc
    · rename_i hmem
      rcases List.mem_append.1 hc with hc | hc
      · exact (List.takeWhile_sublist _).subset hc
      · rw [List.mem_singleton.1 hc]
        simpa using hmem
    · exact (List.take_sublist 1 stack).subset hc
  refine After.bind (R := fun _ s' => s₀.Run s' ∧ s.files.length ≤ s'.files.length) ?_ fun _ _ h => h
  refine forIn_after ⟨hs, le_rfl⟩ fun c hc _ s' h => ?_
  obtain ⟨hs', hlength⟩ := h
  have hunit' := hunit.trans_le hlength
  rw [after_bind, after_get]
  split
  · rename_i hcyclic
    have hmem : c ∈ s'.inheriting := hs'.stack ▸ hinvolved c hc
    have hhas : s'.Has c := hs'.sound.has_of_mem hmem
    have hreported : Session.Filed { s' with cyclic := c :: s'.cyclic } :=
      hs'.filed.of_same (fun _ => rfl) rfl (fun _ => rfl) rfl
    rw [after_bind, after_modify]
    refine After.bind (x := classRecord c) (R := fun d t => t = { s' with cyclic := c :: s'.cyclic } ∧
      d = (s'.classes.get? c).getD default) ⟨rfl, rfl⟩ fun d t hd => ?_
    obtain ⟨rfl, rfl⟩ := hd
    refine (owner_pathOf hreported hunit' hhas).bind fun o t ho => ?_
    obtain ⟨rfl, hlt, hpath⟩ := ho
    have hstep := Session.Step.report c o hmem (by simpa using hcyclic) hlt hpath
    have hrun := hs'.step hstep rfl
    rw [after_bind, after_onBehalfOf]
    unfold complain
    rw [classRecord_decl, after_bind, after_modifyFile]
    have hP := elementary_of_framed (Session.run_framed s₀)
    refine (mark_keeps hP _ o _ hrun (by simpa using hlt)).mono fun _ s'' h => ?_
    have hgrow : s'.files.length ≤ s''.files.length := by simpa using h.2
    exact ⟨h.1, hlength.trans hgrow⟩
  · exact ⟨hs', hlength⟩

/-! ### All steps -/

/-- **The determination of the base of a class is a run**, with whatever else is asked for meanwhile. If
it says that the base is known, the base is final. -/
theorem resolveInheritance_run (hsub : sub.Resolve) (hs : s₀.Run s) (hunit : unit < s.files.length)
    (id : DeclId) (recursive : Bool) : After (resolveInheritance sub id recursive) unit s fun r s' =>
      (s₀.Run s' ∧ s.files.length ≤ s'.files.length) ∧
        (s.Has id → r = true → s'.Settled id ∧ id ∉ s'.cyclic) := by
  unfold resolveInheritance
  refine After.bind (R := fun c t => t = s ∧ c = (s.classes.get? id).getD default) ⟨rfl, rfl⟩ fun c t hc => ?_
  obtain ⟨rfl, rfl⟩ := hc
  rw [classRecord_facts]
  split
  · exact (reportCycle_run hs hunit id).bind fun _ s' h => ⟨h, fun _ h => by cases h⟩
  rename_i hresolving
  extract_lets tell descend
  have htell : ∀ r s', s₀.Run s' → t.files.length ≤ s'.files.length → (t.Has id → s'.Settled id) →
      After (tell r) unit s' fun r s'' => (s₀.Run s'' ∧ t.files.length ≤ s''.files.length) ∧
        (t.Has id → r = true → s''.Settled id ∧ id ∉ s''.cyclic) := by
    intro r s' hs' hlength hsettled
    dsimp only [tell, baseOf]
    simp only [after_bind, after_classFacts, after_pure]
    split
    · exact ⟨⟨hs', hlength⟩, fun _ h => by cases h⟩
    · refine ⟨⟨hs', hlength⟩, fun hhas hr => ⟨hsettled hhas, ?_⟩⟩
      have hnot : (!s'.cyclic.contains id) = true := hr
      have hmem : id ∉ s'.cyclic := by simpa using hnot
      exact hmem
  clear_value tell
  have hdescend : ∀ r s', s₀.Run s' → t.files.length ≤ s'.files.length → (t.Has id → s'.Settled id) →
      After (descend r) unit s' fun r s'' => (s₀.Run s'' ∧ t.files.length ≤ s''.files.length) ∧
        (t.Has id → r = true → s''.Settled id ∧ id ∉ s''.cyclic) := by
    intro r s' hs' hlength hsettled
    dsimp only [descend]
    split
    · refine After.bind (R := fun _ s'' => (s₀.Run s'' ∧ t.files.length ≤ s''.files.length) ∧
        (t.Has id → s''.Settled id)) ?_ fun _ s'' h => htell () s'' h.1.1 h.1.2 h.2
      refine forIn_after ⟨⟨hs', hlength⟩, hsettled⟩ fun inner _ _ s₁ h => ?_
      obtain ⟨⟨h₁, hlength₁⟩, hsettled₁⟩ := h
      have hinner := ((hsub.keep s₁).inheritance inner true) unit s₁ (.refl h₁.sound h₁.filed)
        (hunit.trans_le hlength₁)
      exact hinner.bind fun _ s₂ h₂ => ⟨⟨h₁.trans h₂.1, hlength₁.trans h₂.2⟩,
        fun hhas => (h₂.1.leads.grows h₁.sound).settled (hsettled₁ hhas)⟩
    · exact htell () s' hs' hlength hsettled
  clear_value descend
  split
  · rename_i hunset
    have hbase : (t.types.classes id).base.isSet = false := by simpa using hunset
    by_cases hhas : t.Has id
    · refine (resolveBase_run hsub hs hunit hhas hbase _).bind fun r s' h => ?_
      exact hdescend r s' h.1.1 h.1.2 fun _ => h.2
    · have hnone : t.classes.get? id = none := by
        cases hget : t.classes.get? id with
        | none => rfl
        | some c => exact absurd ((t.has_iff id).2 ⟨c, hget⟩) hhas
      rw [hnone]
      refine (resolveBase_unknown hhas).bind fun r s' h => ?_
      exact hdescend r s' (hs.of_bare h) (Session.files_length_of_bare h).ge
        fun hhas' => absurd hhas' hhas
  · rename_i hset
    have hbase : (t.types.classes id).base.isSet = true := by simpa using hset
    exact hdescend () t hs le_rfl fun _ => ⟨hbase, hresolving⟩

/-- **All steps of analysis are runs**, however deep they are nested. -/
theorem steps_resolve (fuel : Nat) : (steps fuel).Resolve := by
  induction fuel with
  | zero => exact ⟨fun _ => steps_zero_keep, fun _ _ _ _ _ _ _ _ h => by cases h⟩
  | succ fuel ih =>
    constructor
    case keep =>
      refine fun s₀ => steps_succ_keep (elementary_of_framed (Session.run_framed s₀)) (ih.keep s₀) ?_
      intro id recursive unit s hs hunit
      exact (resolveInheritance_run ih hs hunit id recursive).mono fun _ _ h => h.1
    case known =>
      intro id recursive unit s hs hf hunit hhas
      exact (resolveInheritance_run ih (.refl hs hf) hunit id recursive).mono fun _ _ h => h.2 hhas

end Analysis

end GameScript
