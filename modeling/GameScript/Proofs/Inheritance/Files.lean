import GameScript.Proofs.Analysis.Logic
import Mathlib.Logic.Relation

/-!
# Bases of classes and classes of files

The base of a class is first unset, then being determined and at last final; a class whose base is being
determined is on the stack of its session. A file brings the records of its classes, about which nothing is known
yet.

* `Session.DerivesFrom`, `Session.Settled` — a class has another as its base; its base is final;
* `Session.withFacts` — a change of what is known about a class;
* `Session.Sound` — what always holds of bases: the base of a class is a settled class, and no class
  derives from itself. A class becomes a base only after its own base is final;
* `ClassRecord.New` — a record that was just made;
* `Session.Filed` — files, their classes and their paths belong together;
* `Sound.fetch`, `Filed.fetch` — asking for a file keeps up what holds of bases and of files.
-/

namespace GameScript

/-- The base of a class is known for good. -/
def StaticType.IsFinal (t : StaticType) : Prop := t.isSet = true ∧ t.shape ≠ .resolving

namespace Session

variable {s s' : Session}

/-! ### What is known about classes -/

/-- The type of the base of a class, as far as it is known. -/
def baseOf (s : Session) (id : DeclId) : StaticType := (s.types.classes id).base

/-- The type of the instances of a class, as far as it is known. -/
def typeOf (s : Session) (id : DeclId) : StaticType := (s.types.classes id).type

/-- The tree of a class. -/
def declOf (s : Session) (id : DeclId) : Option ClassDecl := (s.classes.get? id).map ClassRecord.decl

/-- A class is one of a loaded file. -/
def Has (s : Session) (id : DeclId) : Prop := (s.declOf id).isSome

/-- The class `c` has the class `b` as its base. -/
def DerivesFrom (s : Session) (c b : DeclId) : Prop := ∃ ancestor, (s.baseOf c).shape = .cls b ancestor

/-- A class has its own type. -/
def Typed (s : Session) (id : DeclId) : Prop := ∃ ancestor, (s.typeOf id).shape = .cls id ancestor

/-- The base of a class is known for good. -/
def Settled (s : Session) (id : DeclId) : Prop := (s.baseOf id).IsFinal

theorem has_iff (s : Session) (id : DeclId) : s.Has id ↔ ∃ c, s.classes.get? id = some c := by
  unfold Has declOf
  cases s.classes.get? id <;> simp

/-- Nothing is known about a class that no loaded file has. -/
theorem types_classes_of_not_has {id : DeclId} (h : ¬ s.Has id) : s.types.classes id = {} := by
  cases hget : s.classes.get? id with
  | none => simp [types, hget]
  | some c => exact absurd ((s.has_iff id).2 ⟨c, hget⟩) h

theorem has_of_isSet {id : DeclId} (h : (s.baseOf id).isSet = true) : s.Has id := by
  by_contra hno
  rw [baseOf, types_classes_of_not_has hno] at h
  exact absurd h (by decide)

theorem Settled.has {id : DeclId} (h : s.Settled id) : s.Has id := has_of_isSet h.1

theorem isSet_of_shape {t : StaticType} {shape : Shape} (h : t.shape = shape) (hne : shape ≠ .unresolved) :
    t.isSet = true := by
  unfold StaticType.isSet
  split
  · exact absurd (h.symm.trans ‹_›) hne
  · rfl

theorem DerivesFrom.settled {c b : DeclId} (h : s.DerivesFrom c b) : s.Settled c := by
  obtain ⟨ancestor, hshape⟩ := h
  exact ⟨isSet_of_shape hshape (by simp), by simp [hshape]⟩

/-! ### Changes of what is known about a class -/

/-- The session with other facts about a class of a loaded file. -/
def withFacts (s : Session) (id : DeclId) (f : ClassFacts → ClassFacts) : Session :=
  match s.classes.get? id with
  | some c => { s with classes := s.classes.set id { c with facts := f c.facts } }
  | none => s

section WithFacts

variable (s : Session) (id : DeclId) (f : ClassFacts → ClassFacts)

theorem withFacts_eq : s.withFacts id f = { s with classes := (s.withFacts id f).classes } := by
  unfold withFacts
  split <;> rfl

@[simp] theorem withFacts_env : (s.withFacts id f).env = s.env := by rw [withFacts_eq]

@[simp] theorem withFacts_files : (s.withFacts id f).files = s.files := by rw [withFacts_eq]

@[simp] theorem withFacts_cache : (s.withFacts id f).cache = s.cache := by rw [withFacts_eq]

@[simp] theorem withFacts_scripts : (s.withFacts id f).scripts = s.scripts := by rw [withFacts_eq]

@[simp] theorem withFacts_inheriting : (s.withFacts id f).inheriting = s.inheriting := by rw [withFacts_eq]

@[simp] theorem withFacts_cyclic : (s.withFacts id f).cyclic = s.cyclic := by rw [withFacts_eq]

variable {s id f}

theorem withFacts_of_not_has (h : ¬ s.Has id) : s.withFacts id f = s := by
  unfold withFacts
  split
  · rename_i c hget
    exact absurd ((s.has_iff id).2 ⟨c, hget⟩) h
  · rfl

theorem types_classes_withFacts_self (h : s.Has id) :
    (s.withFacts id f).types.classes id = f (s.types.classes id) := by
  obtain ⟨c, hget⟩ := (s.has_iff id).1 h
  simp [withFacts, types, hget, Table.get?_set]

theorem types_classes_withFacts_of_ne {c : DeclId} (h : c ≠ id) :
    (s.withFacts id f).types.classes c = s.types.classes c := by
  unfold withFacts
  split
  · simp [types, Table.get?_set, Ne.symm h]
  · rfl

@[simp] theorem declOf_withFacts (c : DeclId) : (s.withFacts id f).declOf c = s.declOf c := by
  unfold withFacts
  split
  · rename_i r hget
    simp only [declOf, Table.get?_set]
    split
    · subst c
      simp [hget]
    · rfl
  · rfl

/-- Facts that keep the base. -/
theorem baseOf_withFacts_of_base (hf : ∀ x, (f x).base = x.base) (c : DeclId) :
    (s.withFacts id f).baseOf c = s.baseOf c := by
  by_cases hc : c = id
  · subst c
    by_cases h : s.Has id
    · rw [baseOf, types_classes_withFacts_self h, hf]
      rfl
    · rw [withFacts_of_not_has h]
  · rw [baseOf, types_classes_withFacts_of_ne hc]
    rfl

/-- Facts that keep the type. -/
theorem typeOf_withFacts_of_type (hf : ∀ x, (f x).type = x.type) (c : DeclId) :
    (s.withFacts id f).typeOf c = s.typeOf c := by
  by_cases hc : c = id
  · subst c
    by_cases h : s.Has id
    · rw [typeOf, types_classes_withFacts_self h, hf]
      rfl
    · rw [withFacts_of_not_has h]
  · rw [typeOf, types_classes_withFacts_of_ne hc]
    rfl

theorem baseOf_withFacts_self (h : s.Has id) :
    (s.withFacts id f).baseOf id = (f (s.types.classes id)).base := by
  rw [baseOf, types_classes_withFacts_self h]

theorem baseOf_withFacts_of_ne {c : DeclId} (h : c ≠ id) : (s.withFacts id f).baseOf c = s.baseOf c := by
  rw [baseOf, types_classes_withFacts_of_ne h]
  rfl

end WithFacts

/-! ### Soundness -/

/-- What holds of the bases of classes at any time. -/
structure Sound (s : Session) : Prop where
  /-- A class has its own type, at the latest when its base is being determined. -/
  types : ∀ id, s.Typed id ∨ (s.typeOf id).isSet = false ∧ (s.baseOf id).isSet = false
  /-- What is a base is settled. -/
  settled : ∀ c b, s.DerivesFrom c b → s.Settled b
  acyclic : ∀ c, ¬ Relation.TransGen s.DerivesFrom c c
  /-- The base of a class on the stack is being determined. -/
  resolving : ∀ id ∈ s.inheriting, (s.baseOf id).shape = .resolving
  nodup : s.inheriting.Nodup
  /-- The base of a compiled script is an earlier one or no script. -/
  scripts : ∀ i j, (s.types.scripts i).base.shape = .script j → j < i
  /-- The base of a compiled script is no class in source. -/
  compiled : ∀ i b ancestor, (s.types.scripts i).base.shape ≠ .cls b ancestor

/-- Soundness depends on bases, the stack and the compiled scripts, apart from what it says of types. -/
theorem Sound.of_bases (h : s.Sound) (hbase : ∀ c, s'.baseOf c = s.baseOf c)
    (htypes : ∀ id, s'.typeOf id = s.typeOf id ∨ s'.Typed id) (hstack : s'.inheriting = s.inheriting) (hscripts : s'.scripts = s.scripts) : s'.Sound := by
  have hderives : s'.DerivesFrom = s.DerivesFrom := by
    funext c b
    rw [DerivesFrom, hbase]
    rfl
  have hcompiled : s'.types.scripts = s.types.scripts := by
    funext i
    simp [Session.types, hscripts]
  constructor
  case types =>
    intro id
    rcases htypes id with hid | hid
    · rw [Typed, hid, hbase]
      exact h.types id
    · exact .inl hid
  case settled => exact fun c b hc => by rw [Settled, hbase]; exact h.settled c b (hderives ▸ hc)
  case acyclic => exact fun c => by rw [hderives]; exact h.acyclic c
  case resolving => exact fun id hid => by rw [hbase]; exact h.resolving id (hstack ▸ hid)
  case nodup => exact hstack ▸ h.nodup
  case scripts => rw [hcompiled]; exact h.scripts
  case compiled => rw [hcompiled]; exact h.compiled

theorem Sound.of_same (h : s.Sound) (hbase : ∀ c, s'.baseOf c = s.baseOf c)
    (htype : ∀ c, s'.typeOf c = s.typeOf c) (hstack : s'.inheriting = s.inheriting)
    (hscripts : s'.scripts = s.scripts) : s'.Sound :=
  h.of_bases hbase (fun id => .inl (htype id)) hstack hscripts

/-- A class whose base is not final is the base of none. -/
theorem Sound.not_derivesFrom (h : s.Sound) {c b : DeclId} (hb : ¬ s.Settled b) : ¬ s.DerivesFrom c b :=
  fun hc => hb (h.settled c b hc)

/-- A new base of one class, which is the base of none, makes no cycle. -/
theorem Sound.acyclic_update (h : s.Sound) {id : DeclId} (hid : ¬ s.Settled id)
    (hother : ∀ c, c ≠ id → s'.baseOf c = s.baseOf c) (hbase : ∀ b, s'.DerivesFrom id b → s.Settled b)
    (c : DeclId) : ¬ Relation.TransGen s'.DerivesFrom c c := by
  have hold : ∀ {a b}, a ≠ id → s'.DerivesFrom a b → s.DerivesFrom a b := by
    intro a b ha hab
    rwa [DerivesFrom, hother a ha] at hab
  have hin : ∀ {a b}, s'.DerivesFrom a b → b ≠ id := by
    rintro a b hab rfl
    by_cases ha : a = b
    · subst ha
      exact hid (hbase _ hab)
    · exact h.not_derivesFrom hid (hold ha hab)
  have hlong : ∀ {a b}, a ≠ id → Relation.TransGen s'.DerivesFrom a b →
      b ≠ id ∧ Relation.TransGen s.DerivesFrom a b := by
    intro a b ha hab
    induction hab with
    | single hab => exact ⟨hin hab, .single (hold ha hab)⟩
    | tail _ hbc ih => exact ⟨hin hbc, ih.2.tail (hold ih.1 hbc)⟩
  intro hcycle
  have hc : c ≠ id := by
    cases hcycle with
    | single hab => exact hin hab
    | tail _ hbc => exact hin hbc
  exact h.acyclic c (hlong hc hcycle).2

/-- **One class gets another base.** Before, it was the base of none; the new base, if it is a class, is
settled. -/
theorem Sound.update (h : s.Sound) {id : DeclId} (hid : ¬ s.Settled id) (htyped : s.Typed id)
    (hother : ∀ c, c ≠ id → s'.baseOf c = s.baseOf c) (hbase : ∀ b, s'.DerivesFrom id b → s.Settled b)
    (htype : ∀ c, s'.typeOf c = s.typeOf c) (hscripts : s'.scripts = s.scripts)
    (hstack : ∀ c ∈ s'.inheriting, (s'.baseOf c).shape = .resolving) (hnodup : s'.inheriting.Nodup) :
    s'.Sound := by
  have hcompiled : s'.types.scripts = s.types.scripts := by
    funext i
    simp [Session.types, hscripts]
  constructor
  case types =>
    intro c
    rw [Typed, htype]
    by_cases hc : c = id
    · subst c
      exact .inl htyped
    · rw [hother c hc]
      exact h.types c
  case settled =>
    intro c b hcb
    have hb : s.Settled b := by
      by_cases hc : c = id
      · subst c
        exact hbase b hcb
      · rw [DerivesFrom, hother c hc] at hcb
        exact h.settled c b hcb
    have hne : b ≠ id := by
      rintro rfl
      exact hid hb
    rw [Settled, hother b hne]
    exact hb
  case acyclic => exact h.acyclic_update hid hother hbase
  case resolving => exact hstack
  case nodup => exact hnodup
  case scripts => rw [hcompiled]; exact h.scripts
  case compiled => rw [hcompiled]; exact h.compiled

theorem declOf_eq_of_bare (h : s'.bare = s.bare) (id : DeclId) : s'.declOf id = s.declOf id := by
  have hc := congrArg (Option.map ClassRecord.decl) (classes_eq_of_bare h id)
  simpa [declOf, Option.map_map, Function.comp_def, ClassRecord.bare] using hc

theorem types_classes_eq_of_bare (h : s'.bare = s.bare) (id : DeclId) :
    s'.types.classes id = s.types.classes id := by
  have hc := congrArg (Option.map ClassRecord.facts) (classes_eq_of_bare h id)
  simp only [Option.map_map, Function.comp_def, ClassRecord.bare] at hc
  exact congrArg (Option.getD · {}) hc

theorem baseOf_eq_of_bare (h : s'.bare = s.bare) (id : DeclId) : s'.baseOf id = s.baseOf id :=
  congrArg ClassFacts.base (types_classes_eq_of_bare h id)

theorem typeOf_eq_of_bare (h : s'.bare = s.bare) (id : DeclId) : s'.typeOf id = s.typeOf id :=
  congrArg ClassFacts.type (types_classes_eq_of_bare h id)

end Session

/-! ### New classes -/

/-- The record of a class that was just loaded: nothing is known about it, and the classes in it are
among those loaded with it. -/
structure ClassRecord.New (unit : Nat) (keys : List DeclId) (e : DeclId × ClassRecord) : Prop where
  unit_eq : e.1.unit = unit
  base : e.2.facts.base = {}
  type : e.2.facts.type = {}
  inner : ∀ d, Member.cls d ∈ e.2.decl.members → ⟨unit, (Member.cls d).anchor⟩ ∈ keys

theorem ClassRecord.New.mono {unit : Nat} {keys keys' : List DeclId} {e : DeclId × ClassRecord}
    (h : New unit keys e) (hkeys : keys ⊆ keys') : New unit keys' e :=
  ⟨h.unit_eq, h.base, h.type, fun d hd => hkeys (h.inner d hd)⟩

/-- Each class among the members of a class has a record. -/
theorem anchor_mem_memberRecords {unit : Nat} {outer : DeclId} {name : Text} {ms : List Member}
    {d : ClassDecl} (h : Member.cls d ∈ ms) :
    ⟨unit, (Member.cls d).anchor⟩ ∈ (memberRecords unit outer name ms).map Prod.fst := by
  induction ms with
  | nil => simp at h
  | cons m ms ih =>
    rcases List.mem_cons.1 h with rfl | hms
    · cases d
      simp [memberRecords, classRecords, Member.anchor]
    · have ih' := ih hms
      cases m <;> simp [memberRecords] at ih' ⊢ <;> simp [ih']

mutual

theorem new_of_mem_classRecords {unit : Nat} {outer : Option DeclId} {name : Text} :
    ∀ (d : ClassDecl), ∀ e ∈ classRecords unit outer name d,
      ClassRecord.New unit ((classRecords unit outer name d).map Prod.fst) e
  | ⟨pos, n, base, members, isTool, usesOnready, finish⟩, e, he => by
    unfold classRecords at he ⊢
    rcases List.mem_cons.1 he with rfl | he
    · exact ⟨rfl, rfl, rfl, fun d hd => List.mem_cons_of_mem _ (anchor_mem_memberRecords hd)⟩
    · exact (new_of_mem_memberRecords members e he).mono (List.subset_cons_self _ _)

theorem new_of_mem_memberRecords {unit : Nat} {outer : DeclId} {name : Text} :
    ∀ (ms : List Member), ∀ e ∈ memberRecords unit outer name ms,
      ClassRecord.New unit ((memberRecords unit outer name ms).map Prod.fst) e
  | [], e, he => by simp [memberRecords] at he
  | m :: ms, e, he => by
    cases m with
    | cls d =>
      rw [memberRecords, List.map_append]
      rw [memberRecords] at he
      rcases List.mem_append.1 he with he | he
      · exact (new_of_mem_classRecords d e he).mono (List.subset_append_left _ _)
      · exact (new_of_mem_memberRecords ms e he).mono (List.subset_append_right _ _)
    | _ =>
      simp only [memberRecords] at he ⊢
      exact new_of_mem_memberRecords ms e he

end

namespace Session

variable {s s' : Session}

/-! ### Files -/

/-- Files, their classes and their paths belong together. -/
structure Filed (s : Session) : Prop where
  unit_lt : ∀ id, s.Has id → id.unit < s.files.length
  main : ∀ u < s.files.length, s.Has (mainClass u)
  inner : ∀ id d, s.declOf id = some d → ∀ k, Member.cls k ∈ d.members →
    s.Has ⟨id.unit, (Member.cls k).anchor⟩
  cached : ∀ path u, s.cache.get? path = some (.loaded u) → u < s.files.length ∧ s.pathOf u = path
  loaded : ∀ u < s.files.length, ∃ v, s.cache.get? (s.pathOf u) = some (.loaded v)

theorem Filed.of_same (h : s.Filed) (hdecl : ∀ c, s'.declOf c = s.declOf c)
    (hfiles : s'.files.length = s.files.length) (hpath : ∀ u, s'.pathOf u = s.pathOf u)
    (hcache : s'.cache = s.cache) : s'.Filed := by
  have hhas : ∀ c, s'.Has c ↔ s.Has c := fun c => by rw [Has, hdecl]; rfl
  constructor
  case unit_lt => exact fun id hid => by rw [hfiles]; exact h.unit_lt id ((hhas id).1 hid)
  case main => exact fun u hu => (hhas _).2 (h.main u (hfiles ▸ hu))
  case inner => exact fun id d hd k hk => (hhas _).2 (h.inner id d (hdecl id ▸ hd) k hk)
  case cached =>
    intro path u hu
    rw [hfiles, hpath]
    exact h.cached path u (hcache ▸ hu)
  case loaded =>
    intro u hu
    rw [hpath, hcache]
    exact h.loaded u (hfiles ▸ hu)

theorem get?_append_entries {κ α : Type} [DecidableEq κ] (es fs : List (κ × α)) (k : κ) :
    (⟨es ++ fs⟩ : Table κ α).get? k = ((⟨es⟩ : Table κ α).get? k).or ((⟨fs⟩ : Table κ α).get? k) := by
  unfold Table.get?
  rw [List.find?_append]
  cases es.find? (·.1 = k) <;> rfl

theorem mem_of_get? {κ α : Type} [DecidableEq κ] {t : Table κ α} {k : κ} {a : α} (h : t.get? k = some a) :
    (k, a) ∈ t.entries := by
  unfold Table.get? at h
  obtain ⟨e, he, rfl⟩ := Option.map_eq_some_iff.1 h
  have hk : e.1 = k := by simpa using List.find?_some he
  have hmem := List.mem_of_find?_eq_some he
  rwa [← hk]

theorem isSome_get?_iff {κ α : Type} [DecidableEq κ] {t : Table κ α} {k : κ} :
    (t.get? k).isSome ↔ k ∈ t.keys := by
  unfold Table.get? Table.keys
  rw [Option.isSome_map, List.find?_isSome]
  simp

section AddFile

variable (s : Session) (file : File)

/-- Whether a class of the session or of the new file has a record. -/
theorem addFile_classes_get? (id : DeclId) : (s.addFile file).2.classes.get? id =
    (s.classes.get? id).or ((⟨classRecords s.files.length none file.path file.cls⟩ : Table _ _).get? id) :=
  get?_append_entries _ _ _

theorem addFile_pathOf {u : Nat} (hu : u < s.files.length) : (s.addFile file).2.pathOf u = s.pathOf u := by
  unfold pathOf addFile
  dsimp only
  rw [List.getElem?_append_left hu]

theorem addFile_pathOf_new : (s.addFile file).2.pathOf s.files.length = file.path := by
  simp [pathOf, addFile, FileRecord.path]

theorem addFile_declOf {id : DeclId} {d : ClassDecl} (h : s.declOf id = some d) :
    (s.addFile file).2.declOf id = some d := by
  obtain ⟨c, hc, rfl⟩ := Option.map_eq_some_iff.1 h
  simp [declOf, addFile_classes_get?, hc]

/-- Neither a new class nor an old one gets a base or a type. -/
theorem addFile_facts (id : DeclId) : (s.addFile file).2.baseOf id = s.baseOf id ∧
    (s.addFile file).2.typeOf id = s.typeOf id := by
  unfold baseOf typeOf
  simp only [Session.types, addFile_classes_get?]
  cases s.classes.get? id with
  | some c => exact ⟨rfl, rfl⟩
  | none =>
    cases hnew : (⟨classRecords s.files.length none file.path file.cls⟩ : Table _ _).get? id with
    | none => exact ⟨rfl, rfl⟩
    | some c =>
      have hfresh := new_of_mem_classRecords file.cls _ (mem_of_get? hnew)
      exact ⟨hfresh.base, hfresh.type⟩

variable {s file}

theorem Sound.addFile (h : s.Sound) : (s.addFile file).2.Sound :=
  h.of_same (fun c => (s.addFile_facts file c).1) (fun c => (s.addFile_facts file c).2) rfl rfl

theorem Has.addFile {id : DeclId} (h : s.Has id) : (s.addFile file).2.Has id := by
  obtain ⟨d, hd⟩ := Option.isSome_iff_exists.1 h
  rw [Has, addFile_declOf s file hd]
  rfl

/-- The classes of a new file are there. -/
theorem has_addFile_of_mem {id : DeclId}
    (h : id ∈ (classRecords s.files.length none file.path file.cls).map Prod.fst) :
    (s.addFile file).2.Has id := by
  have hnew : ((⟨classRecords s.files.length none file.path file.cls⟩ : Table _ _).get? id).isSome :=
    isSome_get?_iff.2 h
  rw [Has, declOf, addFile_classes_get?, Option.isSome_map, Option.isSome_or, hnew, Bool.or_true]

theorem Filed.addFile (h : s.Filed) : (s.addFile file).2.Filed := by
  have hlength : (s.addFile file).2.files.length = s.files.length + 1 := by simp [Session.addFile]
  have hget : ∀ id c, (s.addFile file).2.classes.get? id = some c → s.classes.get? id = some c ∨
      (id, c) ∈ classRecords s.files.length none file.path file.cls := by
    intro id c hc
    rw [addFile_classes_get?] at hc
    cases hold : s.classes.get? id with
    | some c' => rw [hold] at hc; exact .inl hc
    | none => rw [hold] at hc; exact .inr (mem_of_get? hc)
  have hcache : ∀ path, (s.addFile file).2.cache.get? path =
      if path = file.path then some (.loaded s.files.length) else s.cache.get? path :=
    fun path => by simp only [Session.addFile, Table.get?_set, eq_comm]
  constructor
  case unit_lt =>
    intro id hid
    obtain ⟨c, hc⟩ := ((s.addFile file).2.has_iff id).1 hid
    rw [hlength]
    rcases hget id c hc with hc | hc
    · exact (h.unit_lt id ((s.has_iff id).2 ⟨c, hc⟩)).trans (Nat.lt_succ_self _)
    · exact Nat.lt_succ_of_le (new_of_mem_classRecords file.cls _ hc).unit_eq.le
  case main =>
    intro u hu
    rcases Nat.lt_succ_iff_lt_or_eq.1 (hlength ▸ hu) with hu | rfl
    · exact (h.main u hu).addFile
    · refine has_addFile_of_mem ?_
      cases hcls : file.cls
      simp [classRecords, mainClass]
  case inner =>
    intro id d hd k hk
    obtain ⟨c, hc, rfl⟩ := Option.map_eq_some_iff.1 hd
    rcases hget id c hc with hc | hc
    · exact (h.inner id c.decl (by rw [declOf, hc]; rfl) k hk).addFile
    · have hnew := new_of_mem_classRecords file.cls _ hc
      have hunit : id.unit = s.files.length := hnew.unit_eq
      rw [hunit]
      exact has_addFile_of_mem (hnew.inner k hk)
  case cached =>
    intro path u hu
    rw [hcache] at hu
    split at hu
    · cases hu
      subst path
      exact ⟨by omega, s.addFile_pathOf_new file⟩
    · obtain ⟨hlt, hpath⟩ := h.cached path u hu
      exact ⟨by omega, (s.addFile_pathOf file hlt).trans hpath⟩
  case loaded =>
    intro u hu
    rw [hcache]
    split
    · exact ⟨_, rfl⟩
    · rename_i hne
      rcases Nat.lt_succ_iff_lt_or_eq.1 (hlength ▸ hu) with hu | rfl
      · rw [s.addFile_pathOf file hu]
        exact h.loaded u hu
      · exact absurd (s.addFile_pathOf_new file) hne

end AddFile

/-- What asking for a file can do: nothing, note a failure, or add a file. -/
theorem fetch_cases (s : Session) (path : Text) : (s.fetch path).2 = s ∨
    (s.cache.get? path = none ∧ ∃ f loads, (s.fetch path).2 =
      { s with cache := s.cache.set path (.failed f), loads := loads }) ∨
    ∃ file loads, (s.fetch path).2 = (addFile { s with loads := loads } file).2 := by
  unfold fetch
  split
  · exact .inl rfl
  · exact .inl rfl
  · split
    · exact .inr (.inl ⟨‹_›, _, s.loads, rfl⟩)
    · dsimp only
      split
      · exact .inr (.inl ⟨‹_›, _, _, rfl⟩)
      · exact .inr (.inr ⟨_, _, rfl⟩)

theorem fetch_facts (s : Session) (path : Text) (id : DeclId) :
    (s.fetch path).2.baseOf id = s.baseOf id ∧ (s.fetch path).2.typeOf id = s.typeOf id := by
  obtain hs | ⟨-, f, loads, hs⟩ | ⟨file, loads, hs⟩ := s.fetch_cases path <;> rw [hs]
  · exact ⟨rfl, rfl⟩
  · exact ⟨rfl, rfl⟩
  · exact addFile_facts _ file id

theorem Has.fetch {id : DeclId} (h : s.Has id) (path : Text) : (s.fetch path).2.Has id := by
  obtain hs | ⟨-, f, loads, hs⟩ | ⟨file, loads, hs⟩ := s.fetch_cases path <;> rw [hs]
  · exact h
  · exact h
  · exact Has.addFile h

theorem fetch_inheriting (s : Session) (path : Text) : (s.fetch path).2.inheriting = s.inheriting := by
  obtain hs | ⟨-, f, loads, hs⟩ | ⟨file, loads, hs⟩ := s.fetch_cases path <;> rw [hs]
  rfl

theorem fetch_scripts (s : Session) (path : Text) : (s.fetch path).2.scripts = s.scripts := by
  obtain hs | ⟨-, f, loads, hs⟩ | ⟨file, loads, hs⟩ := s.fetch_cases path <;> rw [hs]
  rfl

theorem Sound.fetch (h : s.Sound) (path : Text) : (s.fetch path).2.Sound :=
  h.of_same (fun c => (s.fetch_facts path c).1) (fun c => (s.fetch_facts path c).2)
    (s.fetch_inheriting path) (s.fetch_scripts path)

theorem Filed.fetch (h : s.Filed) (path : Text) : (s.fetch path).2.Filed := by
  obtain hs | ⟨hnone, f, loads, hs⟩ | ⟨file, loads, hs⟩ := s.fetch_cases path <;> rw [hs]
  · exact h
  · refine ⟨h.unit_lt, h.main, h.inner, fun p u hu => ?_, fun u hu => ?_⟩
    · rw [Table.get?_set] at hu
      split at hu
      · cases hu
      · exact h.cached p u hu
    · obtain ⟨v, hv⟩ := h.loaded u hu
      refine ⟨v, ?_⟩
      have hne : path ≠ s.pathOf u := by
        rintro rfl
        simp [hnone] at hv
      exact (Table.get?_set _ _ _ _).trans ((if_neg hne).trans hv)
  · exact Filed.addFile (h.of_same (fun _ => rfl) rfl (fun _ => rfl) rfl)

end Session

end GameScript
