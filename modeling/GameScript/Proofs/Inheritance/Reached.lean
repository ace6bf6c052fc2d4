import GameScript.Analysis.Workspace
import GameScript.Proofs.Inheritance.Runs
import GameScript.Proofs.Inheritance.Walks
import Mathlib.Data.List.Perm.Basic

/-!
# Sessions of a project

Files are added and loaded in any order, and brought forward to any status; meanwhile the base of any
class is asked for, also while others are being determined.

* `Session.Event` — what can be asked of a session, and what the determination of bases does meanwhile;
* `Session.Reached` — the sessions that any events lead to;
* `Session.Reached.bases_acyclic` — bases never form a cycle, a class that is a base has its own for good, and all
  walks along bases end;
* `Session.Reported` — complaints and classes found to derive from themselves belong together;
* `Step.reported` — a step keeps that up, and `Reached.cyclic_reported` says it of all sessions.
-/

namespace GameScript

namespace Session

variable {s s' : Session}

/-! ### Events -/

/-- What can happen to a session of a project. -/
inductive Event : Session → Session → Prop
  /-- A parsed file is added. -/
  | add {s : Session} (file : File) : Event s (s.addFile file).2
  /-- A file is asked for by its path. -/
  | load {s : Session} (path : Text) : Event s (s.fetch path).2
  /-- What surrounds the files changes: a class or a script becomes known by name. -/
  | surround {s : Session} (env : Environment) : Event s { s with env }
  /-- A script becomes known in compiled form, after its base. -/
  | script {s : Session} (facts : ScriptFacts) : (∀ j, facts.base.shape = .script j → j < s.scripts.length) →
      (∀ c ancestor, facts.base.shape ≠ .cls c ancestor) → Event s { s with scripts := s.scripts ++ [facts] }
  /-- A file is brought forward. -/
  | raise {s : Session} (unit : Nat) (target : Status) : unit < s.files.length → Event s (s.raise unit target).2
  /-- The base of a class is asked for on behalf of a file. -/
  | inheritance {s : Session} (fuel : Nat) (id : DeclId) (recursive : Bool) (unit : Nat) :
      unit < s.files.length → Event s ((Analysis.steps fuel).inheritance id recursive unit s).2
  /-- In the middle of such a request. -/
  | step {s s' : Session} : Step s s' → Event s s'

/-- The sessions of a project: new ones, those after any events, and those that start again with the
scripts known in compiled form. -/
inductive Reached : Session → Prop
  | new (env : Environment) : Reached { env }
  | event {s s' : Session} : Reached s → Event s s' → Reached s'
  | restart {s : Session} (env : Environment) : Reached s → Reached { env, scripts := s.scripts, loads := s.loads }

/-- A request leads to where it ends. -/
theorem raise_run (hs : s.Sound) (hf : s.Filed) {unit : Nat} (hunit : unit < s.files.length) (target : Status) :
    s.Run (s.raise unit target).2 :=
  (((Analysis.steps_resolve s.fuel).keep s).raise unit target unit s (.refl hs hf) hunit hunit).1

theorem inheritance_run (hs : s.Sound) (hf : s.Filed) {unit : Nat} (hunit : unit < s.files.length) (fuel : Nat)
    (id : DeclId) (recursive : Bool) : s.Run ((Analysis.steps fuel).inheritance id recursive unit s).2 :=
  (((Analysis.steps_resolve fuel).keep s).inheritance id recursive unit s (.refl hs hf) hunit).1

theorem types_scripts_append (facts : ScriptFacts) (i : Nat) :
    (types { s with scripts := s.scripts ++ [facts] }).scripts i =
      if i = s.scripts.length then facts else s.types.scripts i := by
  show (s.scripts ++ [facts]).getD i default = if i = s.scripts.length then facts else s.scripts.getD i default
  split
  · subst i
    simp
  · by_cases hi : i < s.scripts.length
    · rw [List.getD_append _ _ _ _ hi]
    · rw [List.getD_eq_default _ _ (by simp only [List.length_append, List.length_singleton]; omega),
        List.getD_eq_default _ _ (by omega)]

/-- A script that is known after its base keeps bases sound. -/
theorem Sound.script (h : s.Sound) {facts : ScriptFacts}
    (hbase : ∀ j, facts.base.shape = .script j → j < s.scripts.length)
    (hcompiled : ∀ c ancestor, facts.base.shape ≠ .cls c ancestor) :
    Sound { s with scripts := s.scripts ++ [facts] } := by
  refine ⟨h.types, h.settled, h.acyclic, h.resolving, h.nodup, fun i j hj => ?_, fun i c ancestor hc => ?_⟩
  · rw [types_scripts_append] at hj
    split at hj
    · subst i
      exact hbase j hj
    · exact h.scripts i j hj
  · rw [types_scripts_append] at hc
    split at hc
    · exact hcompiled c ancestor hc
    · exact h.compiled i c ancestor hc

/-- **An event keeps bases sound**, and files together with their classes. -/
theorem Event.sound (h : Event s s') (hs : s.Sound) (hf : s.Filed) : s'.Sound ∧ s'.Filed := by
  cases h with
  | add file => exact ⟨hs.addFile, hf.addFile⟩
  | load path => exact ⟨hs.fetch path, hf.fetch path⟩
  | surround env =>
    exact ⟨hs.of_same (fun _ => rfl) (fun _ => rfl) rfl rfl, hf.of_same (fun _ => rfl) rfl (fun _ => rfl) rfl⟩
  | script facts hbase hcompiled =>
    exact ⟨hs.script hbase hcompiled, hf.of_same (fun _ => rfl) rfl (fun _ => rfl) rfl⟩
  | raise unit target hunit => exact ⟨(raise_run hs hf hunit target).sound, (raise_run hs hf hunit target).filed⟩
  | inheritance fuel id recursive unit hunit =>
    have hrun := inheritance_run hs hf hunit fuel id recursive
    exact ⟨hrun.sound, hrun.filed⟩
  | step hstep => exact ⟨hstep.sound hs, hstep.filed hf⟩

/-- **A session grows whatever happens.** -/
theorem Event.grows (h : Event s s') (hs : s.Sound) (hf : s.Filed) : s.Grows s' := by
  cases h with
  | add file => exact grows_addFile s file
  | load path => exact grows_fetch s path
  | surround env => exact .of_same rfl (fun _ => rfl) (fun _ => rfl) rfl fun _ _ => rfl
  | script facts _ _ => exact .of_same rfl (fun _ => rfl) (fun _ => rfl) rfl fun _ _ => rfl
  | raise unit target hunit => exact (raise_run hs hf hunit target).leads.grows hs
  | inheritance fuel id recursive unit hunit => exact (inheritance_run hs hf hunit fuel id recursive).leads.grows hs
  | step hstep => exact hstep.grows hs

/-! ### All sessions -/

/-- Without classes, bases are sound if they are so among compiled scripts. -/
theorem sound_of_scripts (env : Environment) {scripts : List ScriptFacts} (loads : Table Text Nat)
    (hscripts : ∀ i j, (scripts.getD i default).base.shape = .script j → j < i)
    (hcompiled : ∀ i c ancestor, (scripts.getD i default).base.shape ≠ .cls c ancestor) :
    Sound { env, scripts, loads } where
  types := fun _ => .inr ⟨rfl, rfl⟩
  settled := fun c b h => by
    obtain ⟨ancestor, h⟩ := h
    cases h
  acyclic := fun c h => by
    obtain ⟨b, h, -⟩ := Relation.TransGen.head'_iff.1 h
    obtain ⟨ancestor, h⟩ := h
    cases h
  resolving := fun id hid => by cases hid
  nodup := List.nodup_nil
  scripts := hscripts
  compiled := hcompiled

theorem filed_of_scripts (env : Environment) (scripts : List ScriptFacts) (loads : Table Text Nat) :
    Filed { env, scripts, loads } where
  unit_lt := fun id h => by cases h
  main := fun u hu => absurd hu (Nat.not_lt_zero u)
  inner := fun id d h => by cases h
  cached := fun path u h => by cases h
  loaded := fun u hu => absurd hu (Nat.not_lt_zero u)

/-- **Bases are sound in every session**, and files are together with their classes. -/
theorem Reached.sound (h : s.Reached) : s.Sound ∧ s.Filed := by
  induction h with
  | new env =>
    exact ⟨sound_of_scripts env {} (fun _ _ h => by cases h) (fun _ _ _ h => by cases h), filed_of_scripts env [] {}⟩
  | event _ hevent ih => exact hevent.sound ih.1 ih.2
  | restart env _ ih => exact ⟨sound_of_scripts env _ ih.1.scripts ih.1.compiled, filed_of_scripts env _ _⟩

/-- In the long run, a session grows. -/
theorem Reached.grows (h : s.Reached) (hevents : Relation.ReflTransGen Event s s') : s'.Reached ∧ s.Grows s' := by
  induction hevents with
  | refl => exact ⟨h, .refl s⟩
  | tail _ hevent ih =>
    obtain ⟨hreached, hgrows⟩ := ih
    exact ⟨hreached.event hevent, hgrows.trans (hevent.grows hreached.sound.1 hreached.sound.2)⟩

/-! ### Walks -/

theorem Sound.grounded (h : s.Sound) : s.types.Grounded s.classes.keys s.scripts.length where
  mem := fun id hid => by
    have hset : (s.baseOf id).isSet = true := isSet_of_shape rfl hid
    obtain ⟨c, hc⟩ := (s.has_iff id).1 (has_of_isSet hset)
    exact isSome_get?_iff.1 (by rw [hc]; rfl)
  acyclic := h.acyclic
  lt := fun i hi => by
    by_contra hge
    have hdefault : s.types.scripts i = default := List.getD_eq_default _ _ (Nat.le_of_not_lt hge)
    rw [hdefault] at hi
    exact hi rfl
  ordered := h.scripts
  compiled := h.compiled

/-- **Walks along bases end** within the bound that the analysis sets for them. -/
theorem Sound.ends (h : s.Sound) (t : StaticType) : s.types.Ends s.types.depth t := by
  have hends := h.grounded.ends t
  rwa [Table.keys, List.length_map] at hends

/-- The lineage of a class is found as a whole: its bound counts classes alone. -/
theorem Sound.exists_lineage (h : s.Sound) (id : DeclId) (unit : Nat) :
    ∃ cs, s.Lineage id cs ∧ Analysis.lineage id unit s = (cs, s) := by
  have hgrounded : ({ s.types with scripts := fun _ => {} } : TypeContext).Grounded s.classes.keys 0 :=
    { mem := h.grounded.mem
      acyclic := h.acyclic
      lt := fun i hi => absurd rfl hi
      ordered := fun i j hj => by cases hj
      compiled := fun i c ancestor hc => by cases hc }
  obtain ⟨cs, hcs, hlength⟩ := (hgrounded.ends (.ofClass id "")).exists_lineage rfl rfl
  rw [Table.keys, List.length_map] at hlength
  exact ⟨cs, hcs, Analysis.lineageFrom_eq hcs hlength unit⟩

/-- **Bases never form a cycle, and walks along them end.** In every session of a project, whichever files
are loaded and brought forward in whatever order and even while bases are being determined: no class
derives from itself; a class that is the base of another has its own base for good, whatever happens later;
the classes that a class derives from in source are found up to one that derives from none; and no
walk meets its bound when it asks whether a type derives from another, for its native class or for a member
of a compiled script. -/
theorem Reached.bases_acyclic (h : s.Reached) :
    (∀ c, ¬ Relation.TransGen s.DerivesFrom c c) ∧
    (∀ c b, s.DerivesFrom c b → s.Settled b ∧
      ∀ s', Relation.ReflTransGen Event s s' → s'.baseOf b = s.baseOf b) ∧
    (∀ id unit, ∃ cs, s.Lineage id cs ∧ Analysis.lineage id unit s = (cs, s)) ∧
    (∀ source target m, s.types.depth < m →
      s.types.inheritsFrom target m source = s.types.inherits source target) ∧
    (∀ t m, s.types.depth ≤ m → s.types.nativeFrom m t = s.types.nativeOf t) ∧
    ∀ name t unit m, s.types.depth < m →
      Analysis.scriptMember name m t unit s = Analysis.scriptMember name (s.types.depth + 1) t unit s := by
  obtain ⟨hsound, -⟩ := h.sound
  refine ⟨hsound.acyclic, fun c b hcb => ?_, hsound.exists_lineage, fun source target m hm => ?_,
    fun t m hm => ?_, fun name t unit m hm => ?_⟩
  · have hb := hsound.settled c b hcb
    exact ⟨hb, fun s' hevents => (h.grows hevents).2.base b hb⟩
  · exact TypeContext.inheritsFrom_eq (hsound.ends source) hm target
  · exact TypeContext.nativeFrom_eq (hsound.ends t) hm
  · exact Analysis.scriptMember_eq (hsound.ends t) hm name unit

end Session

/-- A new session over the files of a project. -/
def Project.session (p : Project) : Session := { env := { p.environment {} with catalog := {} } }

/-- Two files of which the first derives from the second, and has a class that derives from itself. -/
def selfProject : Project := .ofFiles
  [("a.gd", "extends \"b.gd\"\nclass X extends X:\n\tpass\n"),
   ("b.gd", "class Y:\n\tpass\nclass Z extends Y:\n\tpass\n")]

/-- The session in which the first file is brought forward. -/
def selfProject.raised : Session := ((selfProject.session.fetch "res://a.gd").2.raise 0 .inheritance).2

theorem Session.Reached.bases_acyclic_selfProject :
    selfProject.raised.cyclic = [⟨0, ⟨2, 7⟩⟩] ∧
    selfProject.raised.DerivesFrom ⟨0, .none⟩ ⟨1, .none⟩ ∧ selfProject.raised.DerivesFrom ⟨1, ⟨3, 7⟩⟩ ⟨1, ⟨1, 7⟩⟩ ∧
    (∀ c, ¬ Relation.TransGen selfProject.raised.DerivesFrom c c) ∧
    selfProject.raised.Settled ⟨1, .none⟩ ∧ selfProject.raised.Settled ⟨1, ⟨1, 7⟩⟩ := by
  have hreached : selfProject.raised.Reached :=
    .event (.event (.new _) (.load "res://a.gd")) (.raise 0 .inheritance (by decide +kernel))
  obtain ⟨hacyclic, hbase, -⟩ := Reached.bases_acyclic hreached
  have hfile : selfProject.raised.DerivesFrom ⟨0, .none⟩ ⟨1, .none⟩ := ⟨"RefCounted", by decide +kernel⟩
  have hinner : selfProject.raised.DerivesFrom ⟨1, ⟨3, 7⟩⟩ ⟨1, ⟨1, 7⟩⟩ := ⟨"RefCounted", by decide +kernel⟩
  exact ⟨by decide +kernel, hfile, hinner, hacyclic, (hbase _ _ hfile).1, (hbase _ _ hinner).1⟩

/-! ## Reports of classes that derive from themselves -/

/-- Where a file has complaints about classes that derive from themselves. -/
def FileRecord.cyclicPlaces (r : FileRecord) : List Pos :=
  (r.errors.filter (·.complaint.isCyclicInheritance)).map AnalysisError.pos

namespace Session

variable {s s' : Session}

/-- Where the files at a path have complaints about classes that derive from themselves. -/
def cyclicPlaces (s : Session) (path : Text) : List Pos :=
  s.files.flatMap fun r => if r.path = path then r.cyclicPlaces else []

/-- The places of the classes at a path that were found to derive from themselves. -/
def reportedPlaces (s : Session) (path : Text) : List Pos :=
  (s.cyclic.filter fun c => s.pathOf c.unit = path).map s.placeOf

/-- Complaints and classes found to derive from themselves belong together: each class is reported once,
at its own place, and nothing else is; such a class has no base, and is the base of none. -/
structure Reported (s : Session) : Prop where
  nodup : s.cyclic.Nodup
  places : ∀ path, (s.cyclicPlaces path).Perm (s.reportedPlaces path)
  unknown : ∀ c ∈ s.cyclic, (s.baseOf c).shape = .resolving ∨ (s.baseOf c).shape = .variant
  base : ∀ c b, s.DerivesFrom c b → b ∉ s.cyclic

/-! ### Places -/

theorem cyclicPlaces_eq_of_bare (h : s'.bare = s.bare) (path : Text) :
    s'.cyclicPlaces path = s.cyclicPlaces path := by
  have hbare : ∀ t : Session, t.cyclicPlaces path = (t.files.map FileRecord.bare).flatMap fun r =>
      if r.path = path then r.errors.map AnalysisError.pos else [] := by
    intro t
    rw [List.flatMap_map]
    rfl
  rw [hbare, hbare, files_eq_of_bare h]

/-- Another complaint in one of several files. -/
theorem flatMap_modify_perm {α β : Type} {g : α → List β} {f : α → α} {b : β} {xs : List α} {i : Nat} {a : α}
    (hget : xs[i]? = some a) (hf : g (f a) = b :: g a) : ((xs.modify i f).flatMap g).Perm (b :: xs.flatMap g) := by
  induction xs generalizing i with
  | nil => simp at hget
  | cons x xs ih =>
    cases i with
    | zero =>
      obtain rfl : x = a := by simpa using hget
      simp [hf]
    | succ i =>
      simp only [List.modify_succ_cons, List.flatMap_cons]
      exact ((ih (by simpa using hget)).append_left (g x)).trans List.perm_middle

theorem cyclicPlaces_report {o : Nat} (ho : o < s.files.length) (pos : Pos) (path : Text) :
    (cyclicPlaces { s with files := s.files.modify o fun r =>
      { r with errors := ⟨pos, .cyclicInheritance⟩ :: r.errors } } path).Perm
      (if s.pathOf o = path then pos :: s.cyclicPlaces path else s.cyclicPlaces path) := by
  have hget : s.files[o]? = some s.files[o] := List.getElem?_eq_getElem ho
  have hpath : s.pathOf o = s.files[o].path := by simp [pathOf, hget]
  unfold cyclicPlaces
  split
  · rename_i hp
    refine flatMap_modify_perm hget ?_
    have hp' : s.files[o].file.path = path := hpath.symm.trans hp
    simp [FileRecord.path, hp', FileRecord.cyclicPlaces, Complaint.isCyclicInheritance]
  · rename_i hp
    have hp' : s.files[o].file.path ≠ path := fun h => hp (hpath.trans h)
    refine List.Perm.of_eq ?_
    simp only [List.flatMap_def]
    congr 1
    refine List.ext_getElem? fun i => ?_
    simp only [List.getElem?_map, List.getElem?_modify]
    by_cases hi : o = i
    · subst i
      simp [hget, FileRecord.path, hp']
    · simp [hi]

/-- Places and paths of classes stay the same where their trees and files do. -/
theorem reportedPlaces_eq (hcyclic : s'.cyclic = s.cyclic) (hdecl : ∀ c ∈ s.cyclic, s'.declOf c = s.declOf c)
    (hpath : ∀ c ∈ s.cyclic, s'.pathOf c.unit = s.pathOf c.unit) (path : Text) :
    s'.reportedPlaces path = s.reportedPlaces path := by
  unfold reportedPlaces
  rw [hcyclic, List.filter_congr fun c hc => by rw [hpath c hc]]
  refine List.map_congr_left fun c hc => ?_
  rw [placeOf, hdecl c (List.mem_of_mem_filter hc)]
  rfl

/-! ### Steps -/

theorem Reported.of_same (h : s.Reported) (hcyclic : s'.cyclic = s.cyclic) (hbase : ∀ c, s'.baseOf c = s.baseOf c)
    (hplaces : ∀ path, s'.cyclicPlaces path = s.cyclicPlaces path)
    (hdecl : ∀ c ∈ s.cyclic, s'.declOf c = s.declOf c)
    (hpath : ∀ c ∈ s.cyclic, s'.pathOf c.unit = s.pathOf c.unit) : s'.Reported := by
  constructor
  case nodup => exact hcyclic ▸ h.nodup
  case places =>
    intro path
    rw [hplaces, reportedPlaces_eq hcyclic hdecl hpath]
    exact h.places path
  case unknown =>
    intro c hc
    rw [hbase]
    exact h.unknown c (hcyclic ▸ hc)
  case base =>
    intro c b hcb
    rw [DerivesFrom, hbase] at hcb
    rw [hcyclic]
    exact h.base c b hcb

/-- A class that was found to derive from itself is one of a loaded file. -/
theorem Reported.has (h : s.Reported) {c : DeclId} (hc : c ∈ s.cyclic) : s.Has c := by
  rcases h.unknown c hc with hbase | hbase
  · exact has_of_isSet (isSet_of_shape hbase (by simp))
  · exact has_of_isSet (isSet_of_shape hbase (by simp))

theorem Reported.addFile (h : s.Reported) (hf : s.Filed) (file : File) : (s.addFile file).2.Reported := by
  refine h.of_same rfl (fun c => (s.addFile_facts file c).1) (fun path => ?_) (fun c hc => ?_)
    fun c hc => s.addFile_pathOf file (hf.unit_lt c (h.has hc))
  · unfold cyclicPlaces Session.addFile
    simp [FileRecord.cyclicPlaces]
  · obtain ⟨d, hd⟩ := Option.isSome_iff_exists.1 (h.has hc)
    rw [hd]
    exact s.addFile_declOf file hd

theorem Reported.fetch (h : s.Reported) (hf : s.Filed) (path : Text) : (s.fetch path).2.Reported := by
  obtain hs | ⟨-, f, loads, hs⟩ | ⟨file, loads, hs⟩ := s.fetch_cases path <;> rw [hs]
  · exact h
  · exact h.of_same rfl (fun _ => rfl) (fun _ => rfl) (fun _ _ => rfl) fun _ _ => rfl
  · have hloads : Reported { s with loads := loads } :=
      h.of_same rfl (fun _ => rfl) (fun _ => rfl) (fun _ _ => rfl) fun _ _ => rfl
    exact hloads.addFile (hf.of_same (fun _ => rfl) rfl (fun _ => rfl) rfl) file

/-- The stack does not matter. -/
theorem Reported.withStack (h : s.Reported) (stack : List DeclId) : Reported { s with inheriting := stack } :=
  ⟨h.nodup, h.places, h.unknown, h.base⟩

/-- The base of one class that was found to derive from itself, or that gets a suitable base. -/
theorem Reported.update (h : s.Reported) (id : DeclId) (f : ClassFacts → ClassFacts)
    (hcyclic : id ∈ s.cyclic → (f (s.types.classes id)).base.shape = .resolving ∨
      (f (s.types.classes id)).base.shape = .variant)
    (hbase : ∀ b ancestor, (f (s.types.classes id)).base.shape = .cls b ancestor → b ∉ s.cyclic) :
    (s.withFacts id f).Reported := by
  constructor
  case nodup =>
    rw [withFacts_cyclic]
    exact h.nodup
  case places =>
    intro path
    have hplaces : (s.withFacts id f).cyclicPlaces path = s.cyclicPlaces path := by
      rw [cyclicPlaces, withFacts_files]
      rfl
    have hpath : ∀ c ∈ s.cyclic, (s.withFacts id f).pathOf c.unit = s.pathOf c.unit := by
      intro c _
      rw [pathOf, withFacts_files]
      rfl
    rw [hplaces, reportedPlaces_eq (withFacts_cyclic s id f) (fun c _ => declOf_withFacts c) hpath]
    exact h.places path
  case unknown =>
    intro c hc
    rw [withFacts_cyclic] at hc
    by_cases hid : c = id
    · subst c
      rw [baseOf_withFacts_self (h.has hc)]
      exact hcyclic hc
    · rw [baseOf_withFacts_of_ne hid]
      exact h.unknown c hc
  case base =>
    intro c b hcb
    rw [withFacts_cyclic]
    obtain ⟨ancestor, hcb⟩ := hcb
    by_cases hid : c = id
    · subst c
      by_cases hhas : s.Has id
      · rw [baseOf_withFacts_self hhas] at hcb
        exact hbase b ancestor hcb
      · rw [withFacts_of_not_has hhas] at hcb
        exact h.base id b ⟨ancestor, hcb⟩
    · rw [baseOf_withFacts_of_ne hid] at hcb
      exact h.base c b ⟨ancestor, hcb⟩

/-- **A step keeps complaints and classes together.** -/
theorem Step.reported (h : Step s s') (hs : s.Sound) (hf : s.Filed) (hr : s.Reported) : s'.Reported := by
  cases h with
  | elsewhere h =>
    exact hr.of_same (cyclic_eq_of_bare h) (baseOf_eq_of_bare h) (cyclicPlaces_eq_of_bare h)
      (fun c _ => declOf_eq_of_bare h c) fun c _ => pathOf_eq_of_bare h c.unit
  | load path => exact hr.fetch hf path
  | describe id f hbase _ =>
    refine hr.of_same (by simp) (baseOf_withFacts_of_base hbase) (fun path => ?_) (fun c _ => by simp) fun c _ => ?_
    · rw [cyclicPlaces, withFacts_files]
      rfl
    · rw [pathOf, withFacts_files]
      rfl
  | enter id _ _ _ =>
    refine Reported.withStack (hr.update id _ (fun _ => .inl ?_) fun b ancestor hb => ?_) _
    · rfl
    · cases hb
  | report c o hmem hcyclic ho hpath =>
    constructor
    case nodup => exact List.nodup_cons.2 ⟨hcyclic, hr.nodup⟩
    case places =>
      intro path
      refine (cyclicPlaces_report ho (s.placeOf c) path).trans ?_
      have hsame : ∀ u, pathOf { s with
          cyclic := c :: s.cyclic
          files := s.files.modify o fun r =>
            { r with errors := ⟨s.placeOf c, .cyclicInheritance⟩ :: r.errors } } u = s.pathOf u :=
        pathOf_of_modify rfl (by simp)
      unfold reportedPlaces
      simp only [hsame, List.filter_cons, hpath, decide_eq_true_eq]
      split
      · exact (hr.places path).cons _
      · exact hr.places path
    case unknown =>
      intro d hd
      rcases List.mem_cons.1 hd with rfl | hd
      · exact .inl (hs.resolving d hmem)
      · exact hr.unknown d hd
    case base =>
      intro d b hdb hb
      rcases List.mem_cons.1 hb with rfl | hb
      · exact hs.not_settled_of_mem hmem (hs.settled d b hdb)
      · exact hr.base d b hdb hb
  | settle base hstack _ hcyclic hbase =>
    exact (hr.withStack _).update _ _ (fun hmem => .inr (hcyclic hmem)) fun b ancestor hb => (hbase b ancestor hb).2

theorem Leads.reported (h : s.Leads s') (hs : s.Sound) (hf : s.Filed) (hr : s.Reported) : s'.Reported := by
  induction h with
  | refl => exact hr
  | tail hleads hstep ih => exact hstep.reported (Leads.sound hleads hs) (Leads.filed hleads hf) ih

/-- An event keeps complaints and classes together. -/
theorem Event.reported (h : Event s s') (hs : s.Sound) (hf : s.Filed) (hr : s.Reported) : s'.Reported := by
  cases h with
  | add file => exact hr.addFile hf file
  | load path => exact hr.fetch hf path
  | surround env => exact hr.of_same rfl (fun _ => rfl) (fun _ => rfl) (fun _ _ => rfl) fun _ _ => rfl
  | script facts _ _ => exact hr.of_same rfl (fun _ => rfl) (fun _ => rfl) (fun _ _ => rfl) fun _ _ => rfl
  | raise unit target hunit => exact (raise_run hs hf hunit target).leads.reported hs hf hr
  | inheritance fuel id recursive unit hunit =>
    exact (inheritance_run hs hf hunit fuel id recursive).leads.reported hs hf hr
  | step hstep => exact hstep.reported hs hf hr

theorem reported_of_scripts (env : Environment) (scripts : List ScriptFacts) (loads : Table Text Nat) :
    Reported { env, scripts, loads } where
  nodup := List.nodup_nil
  places := fun _ => .refl _
  unknown := fun c hc => by cases hc
  base := fun c b _ hb => by cases hb

theorem Reached.reported (h : s.Reached) : s.Reported := by
  induction h with
  | new env => exact reported_of_scripts env [] {}
  | event hreached hevent ih => exact hevent.reported hreached.sound.1 hreached.sound.2 ih
  | restart env _ _ => exact reported_of_scripts env _ _

/-- The session after files have been loaded and brought forward one after another. -/
def bring (s : Session) : List Text → Session
  | [] => s
  | path :: paths =>
    match s.fetch path with
    | (.ok unit, s) => (s.raise unit .inheritance).2.bring paths
    | (.error _, s) => s.bring paths

theorem Reached.bring (h : s.Reached) (paths : List Text) : (s.bring paths).Reached := by
  induction paths generalizing s with
  | nil => exact h
  | cons path paths ih =>
    have hfetch : (s.fetch path).2.Reached := h.event (.load path)
    unfold Session.bring
    split
    · rename_i unit s' heq
      rw [heq] at hfetch
      have hunit : unit < s'.files.length := by
        have hlt := fetch_lt (u := unit) (fun u hu => (h.sound.2.cached path u hu).1) (by rw [heq])
        rwa [heq] at hlt
      exact ih (hfetch.event (.raise unit .inheritance hunit))
    · rename_i s' heq
      rw [heq] at hfetch
      exact ih hfetch

end Session

/-- A file that derives from another, in which a class derives from the first. -/
def loopedFiles : Session := Project.session (.ofFiles
  [("a.gd", "extends \"b.gd\"\n"), ("b.gd", "class X extends \"a.gd\":\n\tpass\n")])

/-- Three classes in two files, each of which derives from the next. -/
def loopedClasses : Session := Project.session (.ofFiles
  [("f.gd", "class X extends \"g.gd\".Y:\n\tpass\n"),
   ("g.gd", "class Z extends \"f.gd\".X:\n\tpass\nclass Y extends Z:\n\tpass\n")])

end GameScript
