import GameScript.Proofs.Inheritance.Files

/-!
# The determination of bases as a transition system

* `Session.Step` — what can happen to a session next, `Session.Leads` — in the long run;
* `Step.sound`, `Step.filed` — what a step keeps up, `Leads.sound`, `Leads.filed` — what a run does;
* `Step.baseOf_eq` — the base of a settled class stays the same.
-/

namespace GameScript

namespace Session

variable {s s' : Session}

/-! ### Steps -/

/-- Where a class is reported. -/
def placeOf (s : Session) (id : DeclId) : Pos :=
  let d := (s.declOf id).getD default
  ((d.base.map Extends.span).getD d.span).start

/-- A **step** of the determination of bases. -/
inductive Step : Session → Session → Prop
  /-- Something that bases do not depend on changes. -/
  | elsewhere {s s' : Session} : s'.bare = s.bare → Step s s'
  /-- A file is asked for. -/
  | load {s : Session} (path : Text) : Step s (s.fetch path).2
  /-- A class gets a type. -/
  | describe {s : Session} (id : DeclId) (f : ClassFacts → ClassFacts) : (∀ x, (f x).base = x.base) →
      (∀ x, ∃ ancestor, (f x).type.shape = .cls id ancestor) → Step s (s.withFacts id f)
  /-- The base of a class that has none yet begins to be determined. -/
  | enter {s : Session} (id : DeclId) : s.Has id → s.Typed id → (s.baseOf id).isSet = false →
      Step s { s.withFacts id (fun f => { f with base := { f.base with shape := .resolving } }) with
        inheriting := id :: s.inheriting }
  /-- A class whose base is being determined is found to derive from itself. -/
  | report {s : Session} (c : DeclId) (o : Nat) : c ∈ s.inheriting → c ∉ s.cyclic → o < s.files.length →
      s.pathOf o = s.pathOf c.unit →
      Step s { s with
        cyclic := c :: s.cyclic
        files := s.files.modify o fun r =>
          { r with errors := ⟨s.placeOf c, .cyclicInheritance⟩ :: r.errors } }
  /-- The base of the latest class is determined. One that is reported gets none, and no class gets a
  reported one. -/
  | settle {s : Session} {id : DeclId} {rest : List DeclId} (base : StaticType) :
      s.inheriting = id :: rest → base.IsFinal → (id ∈ s.cyclic → base.shape = .variant) →
      (∀ b ancestor, base.shape = .cls b ancestor → s.Settled b ∧ b ∉ s.cyclic) →
      Step s ({ s with inheriting := rest }.withFacts id fun f => { f with base })

/-- The determination of bases **leads** from one session to another. -/
def Leads : Session → Session → Prop := Relation.ReflTransGen Step

/-! ### What steps keep -/

/-- Files keep their paths while their analysis goes on. -/
theorem pathOf_of_modify {o : Nat} {f : FileRecord → FileRecord} (hfiles : s'.files = s.files.modify o f)
    (hf : ∀ r, (f r).file = r.file) (u : Nat) : s'.pathOf u = s.pathOf u := by
  simp only [pathOf, hfiles, List.getElem?_modify]
  cases s.files[u]? with
  | none => rfl
  | some r => by_cases hu : o = u <;> simp [hu, FileRecord.path, hf]

theorem Step.filed (h : Step s s') (hs : s.Filed) : s'.Filed := by
  cases h with
  | elsewhere h =>
    exact hs.of_same (declOf_eq_of_bare h) (files_length_of_bare h) (pathOf_eq_of_bare h) (cache_eq_of_bare h)
  | load path => exact hs.fetch path
  | describe id f _ _ => exact hs.of_same (fun _ => by simp) (by simp) (fun _ => by simp [pathOf]) (by simp)
  | enter id _ _ _ =>
    refine hs.of_same (fun c => ?_) (by simp) (fun _ => by simp [pathOf]) (by simp)
    exact declOf_withFacts c
  | report c o _ _ _ _ =>
    refine hs.of_same (fun _ => rfl) (by simp) (fun u => ?_) rfl
    exact pathOf_of_modify rfl (by simp) u
  | settle base _ _ _ _ =>
    refine hs.of_same (fun c => ?_) (by simp) (fun _ => by simp [pathOf]) (by simp)
    exact declOf_withFacts c

theorem Sound.not_settled_of_mem (hs : s.Sound) {id : DeclId} (h : id ∈ s.inheriting) : ¬ s.Settled id :=
  fun hid => hid.2 (hs.resolving id h)

theorem Sound.has_of_mem (hs : s.Sound) {id : DeclId} (h : id ∈ s.inheriting) : s.Has id :=
  has_of_isSet (isSet_of_shape (hs.resolving id h) (by simp))

theorem Sound.typed_of_isSet (hs : s.Sound) {id : DeclId} (h : (s.baseOf id).isSet = true) : s.Typed id := by
  rcases hs.types id with hid | hid
  · exact hid
  · rw [hid.2] at h
    cases h

theorem Sound.typed_of_mem (hs : s.Sound) {id : DeclId} (h : id ∈ s.inheriting) : s.Typed id :=
  hs.typed_of_isSet (isSet_of_shape (hs.resolving id h) (by simp))

theorem Sound.enter (hs : s.Sound) {id : DeclId} (hhas : s.Has id) (htyped : s.Typed id)
    (hid : (s.baseOf id).isSet = false) :
    Sound { s.withFacts id (fun f => { f with base := { f.base with shape := .resolving } }) with
      inheriting := id :: s.inheriting } := by
  have hmem : id ∉ s.inheriting := by
    intro hmem
    rw [isSet_of_shape (hs.resolving id hmem) (by simp)] at hid
    cases hid
  have hunsettled : ¬ s.Settled id := fun h => by simp [h.1] at hid
  refine hs.update hunsettled htyped (fun c hc => ?_) (fun b hb => ?_)
    (fun c => ?_) (by simp) (fun c hc => ?_) (List.nodup_cons.2 ⟨hmem, hs.nodup⟩)
  · exact baseOf_withFacts_of_ne hc
  · obtain ⟨ancestor, hshape⟩ := hb
    have hnew : (s.withFacts id fun f => { f with base := { f.base with shape := .resolving } }).baseOf id =
      _ := baseOf_withFacts_self hhas
    exact absurd ((congrArg StaticType.shape hnew).symm.trans hshape) (by simp)
  · refine typeOf_withFacts_of_type ?_ c
    exact fun _ => rfl
  · rcases List.mem_cons.1 hc with rfl | hc
    · exact congrArg StaticType.shape (baseOf_withFacts_self hhas)
    · have hne : c ≠ id := fun h => hmem (h ▸ hc)
      exact (congrArg StaticType.shape (baseOf_withFacts_of_ne hne)).trans (hs.resolving c hc)

theorem Sound.settle (hs : s.Sound) {id : DeclId} {rest : List DeclId} {base : StaticType}
    (hstack : s.inheriting = id :: rest)
    (hbase : ∀ b ancestor, base.shape = .cls b ancestor → s.Settled b) :
    Sound ({ s with inheriting := rest }.withFacts id fun f => { f with base }) := by
  have hmem : id ∈ s.inheriting := by simp [hstack]
  have hnodup : id ∉ rest ∧ rest.Nodup := List.nodup_cons.1 (hstack ▸ hs.nodup)
  refine hs.update (hs.not_settled_of_mem hmem) (hs.typed_of_mem hmem) (fun c hc => ?_)
    (fun b hb => ?_) (fun c => ?_) (by simp) (fun c hc => ?_) (by simpa using hnodup.2)
  · exact baseOf_withFacts_of_ne hc
  · obtain ⟨ancestor, hshape⟩ := hb
    have hhas : Has { s with inheriting := rest } id := hs.has_of_mem hmem
    rw [baseOf_withFacts_self hhas] at hshape
    exact hbase b ancestor hshape
  · refine typeOf_withFacts_of_type ?_ c
    exact fun _ => rfl
  · rw [withFacts_inheriting] at hc
    have hne : c ≠ id := fun h => hnodup.1 (h ▸ hc)
    exact (congrArg StaticType.shape (baseOf_withFacts_of_ne hne)).trans
      (hs.resolving c (by simp [hstack, show c ∈ rest from hc]))

theorem typed_withFacts {id : DeclId} (hhas : s.Has id) {f : ClassFacts → ClassFacts}
    (hf : ∀ x, ∃ ancestor, (f x).type.shape = .cls id ancestor) : (s.withFacts id f).Typed id := by
  rw [Typed, typeOf, types_classes_withFacts_self hhas]
  exact hf _

/-- **A step keeps bases sound.** -/
theorem Step.sound (h : Step s s') (hs : s.Sound) : s'.Sound := by
  cases h with
  | elsewhere h =>
    exact hs.of_same (baseOf_eq_of_bare h) (typeOf_eq_of_bare h) (inheriting_eq_of_bare h)
      (scripts_eq_of_bare h)
  | load path => exact hs.fetch path
  | describe id f hbase htype =>
    refine hs.of_bases (baseOf_withFacts_of_base hbase) (fun c => ?_) (by simp) (by simp)
    by_cases hc : c = id
    · subst c
      by_cases hhas : s.Has id
      · exact .inr (typed_withFacts hhas htype)
      · exact .inl (by rw [withFacts_of_not_has hhas])
    · exact .inl (congrArg ClassFacts.type (types_classes_withFacts_of_ne hc))
  | enter id hhas htyped hid => exact hs.enter hhas htyped hid
  | report c o _ _ _ _ => exact hs.of_same (fun _ => rfl) (fun _ => rfl) rfl rfl
  | settle base hstack _ _ hbase => exact hs.settle hstack fun b ancestor h => (hbase b ancestor h).1

/-- **A step keeps the base of a settled class.** -/
theorem Step.baseOf_eq (h : Step s s') (hs : s.Sound) {c : DeclId} (hc : s.Settled c) :
    s'.baseOf c = s.baseOf c := by
  cases h with
  | elsewhere h => exact baseOf_eq_of_bare h c
  | load path => exact (s.fetch_facts path c).1
  | describe id f hbase _ => exact baseOf_withFacts_of_base hbase c
  | enter id _ _ hid =>
    refine baseOf_withFacts_of_ne ?_
    rintro rfl
    rw [hc.1] at hid
    cases hid
  | report _ _ _ _ _ _ => rfl
  | settle base hstack _ _ _ =>
    refine baseOf_withFacts_of_ne ?_
    rintro rfl
    exact hs.not_settled_of_mem (by simp [hstack]) hc

theorem Leads.sound (h : s.Leads s') (hs : s.Sound) : s'.Sound := by
  induction h with
  | refl => exact hs
  | tail _ hstep ih => exact hstep.sound ih

theorem Leads.filed (h : s.Leads s') (hs : s.Filed) : s'.Filed := by
  induction h with
  | refl => exact hs
  | tail _ hstep ih => exact hstep.filed ih

end Session

end GameScript

/-!
## Growing sessions

What is known about files and classes stays known: files keep their paths, classes their trees, and settled
classes their bases.

* `Session.Grows` — a session knows all that another does;
* `Step.grows`, `Leads.grows` — the determination of bases only adds to what is known.
-/

namespace GameScript

namespace Session

variable {s s' s'' : Session}

/-- A session **grows** to another: files, classes and final bases stay as they are. -/
structure Grows (s s' : Session) : Prop where
  files : s.files.length ≤ s'.files.length
  path : ∀ u < s.files.length, s'.pathOf u = s.pathOf u
  decl : ∀ id d, s.declOf id = some d → s'.declOf id = some d
  /-- A file that is there gets no more classes. -/
  old : ∀ id, s'.Has id → id.unit < s.files.length → s.Has id
  classes : s.classes.entries.length ≤ s'.classes.entries.length
  base : ∀ c, s.Settled c → s'.baseOf c = s.baseOf c

theorem Grows.refl (s : Session) : s.Grows s :=
  ⟨le_rfl, fun _ _ => rfl, fun _ _ h => h, fun _ h _ => h, le_rfl, fun _ _ => rfl⟩

theorem Grows.settled (h : s.Grows s') {c : DeclId} (hc : s.Settled c) : s'.Settled c := by
  rw [Settled, h.base c hc]
  exact hc

theorem Grows.trans (h : s.Grows s') (h' : s'.Grows s'') : s.Grows s'' where
  files := h.files.trans h'.files
  path := fun u hu => (h'.path u (hu.trans_le h.files)).trans (h.path u hu)
  decl := fun id d hd => h'.decl id d (h.decl id d hd)
  old := fun id hid hu => h.old id (h'.old id hid (hu.trans_le h.files)) hu
  classes := h.classes.trans h'.classes
  base := fun c hc => (h'.base c (h.settled hc)).trans (h.base c hc)

theorem Grows.has (h : s.Grows s') {c : DeclId} (hc : s.Has c) : s'.Has c := by
  obtain ⟨d, hd⟩ := Option.isSome_iff_exists.1 hc
  rw [Has, h.decl c d hd]
  rfl

theorem Grows.of_same (hfiles : s'.files.length = s.files.length) (hpath : ∀ u, s'.pathOf u = s.pathOf u)
    (hdecl : ∀ id, s'.declOf id = s.declOf id) (hclasses : s'.classes.entries.length = s.classes.entries.length)
    (hbase : ∀ c, s.Settled c → s'.baseOf c = s.baseOf c) : s.Grows s' :=
  ⟨hfiles.ge, fun u _ => hpath u, fun id _ hd => (hdecl id).trans hd,
    fun id hid _ => (congrArg Option.isSome (hdecl id)).symm.trans hid, hclasses.ge, hbase⟩

/-! ### Steps -/

theorem classes_length_withFacts (id : DeclId) (f : ClassFacts → ClassFacts) :
    (s.withFacts id f).classes.entries.length = s.classes.entries.length := by
  have hset : ∀ (a : ClassRecord) (es : List (DeclId × ClassRecord)), (es.find? (·.1 = id)).isSome →
      (Table.setIn id a es).length = es.length := by
    intro a es
    induction es with
    | nil => simp
    | cons e es ih =>
      intro h
      rw [Table.setIn]
      by_cases he : e.1 = id
      · simp [he]
      · have hrest := ih (by simpa [he] using h)
        simp [he, hrest]
  unfold withFacts
  split
  · rename_i c hget
    refine hset _ _ ?_
    obtain ⟨e, he, -⟩ := Option.map_eq_some_iff.1 hget
    rw [he]
    rfl
  · rfl

theorem grows_withFacts {id : DeclId} {f : ClassFacts → ClassFacts}
    (hbase : ∀ c, s.Settled c → (s.withFacts id f).baseOf c = s.baseOf c) : s.Grows (s.withFacts id f) :=
  .of_same (by simp) (fun _ => by simp [pathOf]) (fun _ => by simp) (classes_length_withFacts id f) hbase

theorem grows_addFile (s : Session) (file : File) : s.Grows (s.addFile file).2 where
  files := by simp [addFile]
  path := fun u hu => s.addFile_pathOf file hu
  decl := fun id d hd => s.addFile_declOf file hd
  old := fun id hid hu => by
    obtain ⟨c, hc⟩ := ((s.addFile file).2.has_iff id).1 hid
    rw [addFile_classes_get?] at hc
    cases hold : s.classes.get? id with
    | some c' => exact (s.has_iff id).2 ⟨c', hold⟩
    | none =>
      rw [hold] at hc
      have hunit : id.unit = s.files.length := (new_of_mem_classRecords file.cls _ (mem_of_get? hc)).unit_eq
      omega
  classes := by simp [addFile]
  base := fun c _ => (s.addFile_facts file c).1

theorem grows_fetch (s : Session) (path : Text) : s.Grows (s.fetch path).2 := by
  obtain hs | ⟨-, f, loads, hs⟩ | ⟨file, loads, hs⟩ := s.fetch_cases path <;> rw [hs]
  · exact .refl s
  · exact .of_same rfl (fun _ => rfl) (fun _ => rfl) rfl fun _ _ => rfl
  · have hloads : s.Grows { s with loads } := .of_same rfl (fun _ => rfl) (fun _ => rfl) rfl fun _ _ => rfl
    exact hloads.trans (grows_addFile _ file)

/-- **A session grows by a step.** -/
theorem Step.grows (h : Step s s') (hs : s.Sound) : s.Grows s' := by
  have hbase : ∀ c, s.Settled c → s'.baseOf c = s.baseOf c := fun c hc => h.baseOf_eq hs hc
  cases h with
  | elsewhere h =>
    refine .of_same (files_length_of_bare h) (pathOf_eq_of_bare h) (declOf_eq_of_bare h) ?_ hbase
    have hclasses := congrArg (fun t : Session => t.classes.entries.length) h
    simpa [bare] using hclasses
  | load path => exact grows_fetch s path
  | describe id f hf _ => exact grows_withFacts hbase
  | enter id _ _ _ =>
    exact .of_same (by simp) (fun _ => by simp [pathOf]) (fun c => declOf_withFacts c)
      (classes_length_withFacts id _) hbase
  | report c o _ _ _ _ =>
    exact .of_same (by simp) (pathOf_of_modify rfl (by simp)) (fun _ => rfl) rfl hbase
  | settle base _ _ _ _ =>
    exact .of_same (by simp) (fun _ => by simp [pathOf]) (fun c => declOf_withFacts c)
      (classes_length_withFacts _ _) hbase

theorem Leads.grows (h : s.Leads s') (hs : s.Sound) : s.Grows s' := by
  induction h with
  | refl => exact .refl s
  | tail hleads hstep ih => exact ih.trans (hstep.grows (Leads.sound hleads hs))

end Session

end GameScript
