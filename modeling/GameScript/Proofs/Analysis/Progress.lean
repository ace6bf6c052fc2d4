import GameScript.Proofs.Analysis.Statements
import GameScript.Proofs.Inheritance.Reached
import GameScript.Proofs.Syntax.Parsers

/-!
# Progress of the analysis of files

Files are loaded at most once, and three passes are made over a file in their order, each at most once,
until one of them finds errors. Requests that are made in the middle of a pass change nothing about that.

* `Session.Advance` — what a step of analysis can do to the files, `Session.Advances` — many steps;
* `Session.Paced` — the passes over a file are those that lead to its status, `Session.Orderly` — and every
  path has been loaded at most once;
* `Session.Onward` — what never changes back;
* `Analysis.Lasting` — the properties that the determination of bases keeps as well, so that all steps of analysis
  keep them, however deep they are nested (`Analysis.steps_keep`); `Analysis.steps_going` — all steps advance;
* `Session.Called.progress` — **the progress of files** under all requests.
-/

namespace GameScript

/-! ### Passes -/

/-- The passes that lead to a status. -/
def Status.passes : Status → List Status
  | .parsed => []
  | .inheritance => [.inheritance]
  | .interface => [.inheritance, .interface]
  | .body => [.inheritance, .interface, .body]

theorem Status.passes_next {s : Status} (h : s ≠ .body) : s.next.passes = s.passes ++ [s.next] := by
  cases s <;> first | rfl | exact absurd rfl h

theorem Status.passes_prefix (s : Status) : s.passes <+: [.inheritance, .interface, .body] := by
  cases s <;> decide

theorem Status.number_lt_next {s : Status} (h : s ≠ .body) : s.number < s.next.number := by
  cases s <;> first | decide | exact absurd rfl h

/-- How far the analysis of a file has come. -/
def FileRecord.stage (r : FileRecord) : FileRecord :=
  { file := r.file, status := r.status, passes := r.passes, failure := r.failure }

/-- What has happened to a file **does not change back**: its status does not decrease, and over a file with
errors no pass begins. -/
structure FileRecord.Onward (r r' : FileRecord) : Prop where
  file : r'.file = r.file
  status : r.status.number ≤ r'.status.number
  passes : r.passes <+: r'.passes
  failure : r.failure.isSome → r'.failure.isSome ∧ r'.status = r.status ∧ r'.passes = r.passes

theorem FileRecord.Onward.refl (r : FileRecord) : r.Onward r :=
  ⟨rfl, le_rfl, List.prefix_rfl, fun h => ⟨h, rfl, rfl⟩⟩

theorem FileRecord.Onward.trans {r r' r'' : FileRecord} (h : r.Onward r') (h' : r'.Onward r'') :
    r.Onward r'' where
  file := h'.file.trans h.file
  status := h.status.trans h'.status
  passes := h.passes.trans h'.passes
  failure := fun hr =>
    have hr' := h.failure hr
    have hr'' := h'.failure hr'.1
    ⟨hr''.1, hr''.2.1.trans hr'.2.1, hr''.2.2.trans hr'.2.2⟩

theorem FileRecord.eq_of_stage {r r' : FileRecord} (h : r'.stage = r.stage) :
    r'.file = r.file ∧ r'.status = r.status ∧ r'.passes = r.passes ∧ r'.failure = r.failure := by
  simpa [FileRecord.stage] using h

theorem FileRecord.onward_of_stage {r r' : FileRecord} (h : r'.stage = r.stage) : r.Onward r' := by
  obtain ⟨hfile, hstatus, hpasses, hfailure⟩ := FileRecord.eq_of_stage h
  exact ⟨hfile, hstatus ▸ le_rfl, hpasses ▸ List.prefix_rfl, fun hr => ⟨hfailure ▸ hr, hstatus, hpasses⟩⟩

theorem FileRecord.onward_begun {r : FileRecord} (hfailure : r.failure = none) (hstatus : r.status ≠ .body) :
    r.Onward r.begun :=
  ⟨rfl, (Status.number_lt_next hstatus).le, List.prefix_append .., fun hr => by simp [hfailure] at hr⟩

theorem FileRecord.onward_ended (r : FileRecord) : r.Onward r.ended := by
  unfold ended
  split
  · exact .refl r
  · exact ⟨rfl, le_rfl, List.prefix_rfl, fun _ => ⟨rfl, rfl, rfl⟩⟩

namespace Session

variable {s s' s'' : Session}

/-- **How far the analysis of the files has come**, and which have been asked for. -/
def stage (s : Session) : Session :=
  { env := s.env, files := s.files.map FileRecord.stage, cache := s.cache, loads := s.loads }

theorem stage_eq_of_core (h : s'.core = s.core) : s'.stage = s.stage := by
  have hfiles : s'.files.map FileRecord.core = s.files.map FileRecord.core := congrArg Session.files h
  have hstage : s'.files.map FileRecord.stage = s.files.map FileRecord.stage := by
    have hcore : ∀ fs : List FileRecord, (fs.map FileRecord.core).map FileRecord.stage =
        fs.map FileRecord.stage := fun fs => List.map_map ..
    simpa only [hcore] using congrArg (List.map FileRecord.stage) hfiles
  have henv : s'.env = s.env := (congrArg Session.env h : s'.core.env = s.core.env)
  have hcache : s'.cache = s.cache := (congrArg Session.cache h : s'.core.cache = s.core.cache)
  have hloads : s'.loads = s.loads := (congrArg Session.loads h : s'.core.loads = s.core.loads)
  simp only [stage, hstage, henv, hcache, hloads]

/-- What a step of analysis can do to the files of a session. -/
inductive Advance : Session → Session → Prop
  /-- Something else changes. -/
  | elsewhere {s s' : Session} : s'.stage = s.stage → Advance s s'
  /-- A file is asked for. -/
  | load {s : Session} (path : Text) : Advance s (s.fetch path).2
  /-- The next pass over a file begins. -/
  | pass {s : Session} {unit : Nat} {r : FileRecord} : s.files[unit]? = some r → r.failure = none →
      r.status ≠ .body → Advance s { s with files := s.files.modify unit .begun }
  /-- A pass over a file ends. -/
  | stop {s : Session} (unit : Nat) : Advance s { s with files := s.files.modify unit .ended }

/-- The analysis **advances** from one session to another. -/
def Advances : Session → Session → Prop := Relation.ReflTransGen Advance

/-- The files are **in step**: the passes over a file are those that lead to its status. -/
structure Paced (s : Session) : Prop where
  cached : ∀ path u, s.cache.get? path = some (.loaded u) → u < s.files.length
  passes : ∀ (u : Nat) (r : FileRecord), s.files[u]? = some r → r.passes = r.status.passes

/-- What is noted about the files is **in order**: they are in step, and every path has been loaded at most
once. -/
structure Orderly (s : Session) : Prop extends Paced s where
  once : ∀ path, (s.loads.get? path).getD 0 ≤ 1
  unloaded : ∀ path, s.cache.get? path = none → s.loads.get? path = none

/-- What has happened to the files does not change back, and what is known about a path stays known. -/
structure Onward (s s' : Session) : Prop where
  file : ∀ (u : Nat) (r : FileRecord), s.files[u]? = some r → ∃ r', s'.files[u]? = some r' ∧ r.Onward r'
  known : ∀ path e, s.cache.get? path = some e → s'.cache.get? path = some e

theorem files_stage_eq (h : s'.stage = s.stage) (u : Nat) :
    (s'.files[u]?).map FileRecord.stage = (s.files[u]?).map FileRecord.stage := by
  have hfiles : s'.files.map FileRecord.stage = s.files.map FileRecord.stage := congrArg Session.files h
  simpa using congrArg (·[u]?) hfiles

theorem files_length_of_stage (h : s'.stage = s.stage) : s'.files.length = s.files.length := by
  have hfiles : s'.files.map FileRecord.stage = s.files.map FileRecord.stage := congrArg Session.files h
  simpa using congrArg List.length hfiles

/-- A file in another session at the same stage. -/
theorem file_of_stage (h : s'.stage = s.stage) {u : Nat} {r : FileRecord} (hr : s.files[u]? = some r) :
    ∃ r', s'.files[u]? = some r' ∧ r'.stage = r.stage := by
  have hu := files_stage_eq h u
  rw [hr] at hu
  exact Option.map_eq_some_iff.1 hu

theorem cache_eq_of_stage (h : s'.stage = s.stage) : s'.cache = s.cache :=
  (congrArg Session.cache h : s'.stage.cache = s.stage.cache)

theorem loads_eq_of_stage (h : s'.stage = s.stage) : s'.loads = s.loads :=
  (congrArg Session.loads h : s'.stage.loads = s.stage.loads)

/-! ### Requests for files -/

/-- What becomes of a path that is asked for first: it is known from then on, and the file is new. -/
structure Noted (s : Session) (path : Text) (s' : Session) : Prop where
  fresh : s.cache.get? path = none
  cache : ∃ e, s'.cache = s.cache.set path e ∧ ∀ u, e = .loaded u → u < s'.files.length
  loads : s'.loads = s.loads ∨ s'.loads = s.loads.set path ((s.loads.get? path).getD 0 + 1)
  files : ∃ new, s'.files = s.files ++ new ∧ ∀ r ∈ new, r.status = .parsed ∧ r.passes = []

theorem fetch_noted (s : Session) (path : Text) : (s.fetch path).2 = s ∨ s.Noted path (s.fetch path).2 := by
  unfold fetch
  split
  · exact .inl rfl
  · exact .inl rfl
  rename_i hnone
  refine .inr ?_
  split
  · exact ⟨hnone, ⟨_, rfl, fun _ h => by cases h⟩, .inl rfl, ⟨[], by simp, by simp⟩⟩
  dsimp only
  split
  · exact ⟨hnone, ⟨_, rfl, fun _ h => by cases h⟩, .inr rfl, ⟨[], by simp, by simp⟩⟩
  · rename_i file hparse
    refine ⟨hnone, ⟨.loaded s.files.length, ?_, ?_⟩, .inr rfl, ⟨[{ file }], rfl, by simp⟩⟩
    · simp only [addFile, File.parse_path hparse]
    · rintro u ⟨⟩
      simp [addFile]

theorem Noted.onward {path : Text} (h : s.Noted path s') : s.Onward s' := by
  obtain ⟨new, hfiles, -⟩ := h.files
  obtain ⟨e, hcache, -⟩ := h.cache
  refine ⟨fun u r hr => ⟨r, ?_, .refl r⟩, fun p e' he' => ?_⟩
  · rw [hfiles, List.getElem?_append_left (List.getElem?_eq_some_iff.1 hr).1]
    exact hr
  · have hne : path ≠ p := by
      rintro rfl
      simp [h.fresh] at he'
    rw [hcache, Table.get?_set, if_neg hne]
    exact he'

theorem Noted.paced {path : Text} (h : s.Noted path s') (hs : s.Paced) : s'.Paced := by
  obtain ⟨new, hfiles, hnew⟩ := h.files
  obtain ⟨e, hcache, he⟩ := h.cache
  have hlength : s.files.length ≤ s'.files.length := by simp [hfiles]
  constructor
  case cached =>
    intro p u hu
    rw [hcache, Table.get?_set] at hu
    split at hu
    · exact he u (by simpa using hu)
    · exact (hs.cached p u hu).trans_le hlength
  case passes =>
    intro u r hr
    rw [hfiles] at hr
    rcases List.mem_append.1 (List.mem_of_getElem? hr) with hmem | hmem
    · obtain ⟨v, hv⟩ := List.getElem?_of_mem hmem
      exact hs.passes v r hv
    · obtain ⟨hstatus, hpasses⟩ := hnew r hmem
      rw [hstatus, hpasses]
      rfl

theorem Noted.orderly {path : Text} (h : s.Noted path s') (hs : s.Orderly) : s'.Orderly := by
  obtain ⟨e, hcache, he⟩ := h.cache
  refine ⟨h.paced hs.toPaced, ?once, ?unloaded⟩
  case once =>
    intro p
    have hold := hs.unloaded path h.fresh
    rcases h.loads with hloads | hloads
    · exact hloads ▸ hs.once p
    · rw [hloads, Table.get?_set]
      split
      · simp [hold]
      · exact hs.once p
  case unloaded =>
    intro p hp
    rw [hcache, Table.get?_set] at hp
    split at hp
    · cases hp
    · rename_i hne
      rcases h.loads with hloads | hloads
      · exact hloads ▸ hs.unloaded p hp
      · rw [hloads, Table.get?_set, if_neg hne]
        exact hs.unloaded p hp

/-! ### What steps keep -/

theorem Onward.refl (s : Session) : s.Onward s := ⟨fun _ r hr => ⟨r, hr, .refl r⟩, fun _ _ h => h⟩

theorem Onward.trans (h : s.Onward s') (h' : s'.Onward s'') : s.Onward s'' where
  file := fun u r hr => by
    obtain ⟨r', hr', hon⟩ := h.file u r hr
    obtain ⟨r'', hr'', hon'⟩ := h'.file u r' hr'
    exact ⟨r'', hr'', hon.trans hon'⟩
  known := fun path e he => h'.known path e (h.known path e he)

/-- A change of one file that goes on. -/
theorem onward_modify {unit : Nat} {f : FileRecord → FileRecord}
    (hf : ∀ r, s.files[unit]? = some r → r.Onward (f r)) :
    s.Onward { s with files := s.files.modify unit f } := by
  refine ⟨fun u r hr => ?_, fun _ _ h => h⟩
  by_cases hu : unit = u
  · subst u
    exact ⟨f r, by simp [hr], hf r hr⟩
  · exact ⟨r, by simp [hu, hr], .refl r⟩

/-- A change of one file that keeps its passes in step. -/
theorem Paced.modify (hs : s.Paced) {unit : Nat} {f : FileRecord → FileRecord}
    (hf : ∀ r, s.files[unit]? = some r → (f r).passes = (f r).status.passes) :
    Paced { s with files := s.files.modify unit f } where
  cached := fun path u hu => by simpa using hs.cached path u hu
  passes := fun u r hr => by
    rw [List.getElem?_modify] at hr
    obtain ⟨r₀, hr₀, rfl⟩ := Option.map_eq_some_iff.1 hr
    by_cases hu : unit = u
    · subst u
      simpa using hf r₀ hr₀
    · simpa [hu] using hs.passes u r₀ hr₀

theorem Advance.onward (h : Advance s s') : s.Onward s' := by
  cases h with
  | elsewhere h =>
    refine ⟨fun u r hr => ?_, fun path e he => cache_eq_of_stage h ▸ he⟩
    obtain ⟨r', hr', hstage⟩ := file_of_stage h hr
    exact ⟨r', hr', FileRecord.onward_of_stage hstage⟩
  | load path =>
    rcases s.fetch_noted path with hsame | hnoted
    · exact hsame.symm ▸ .refl s
    · exact hnoted.onward
  | @pass unit r hr hfailure hstatus =>
    refine onward_modify fun r' hr' => ?_
    obtain rfl : r = r' := Option.some.inj (hr.symm.trans hr')
    exact FileRecord.onward_begun hfailure hstatus
  | stop unit => exact onward_modify fun r _ => r.onward_ended

theorem Advance.paced (h : Advance s s') (hs : s.Paced) : s'.Paced := by
  cases h with
  | elsewhere h =>
    have hcache := cache_eq_of_stage h
    refine ⟨fun path u hu => ?_, fun u r hr => ?_⟩
    · rw [files_length_of_stage h]
      exact hs.cached path u (hcache ▸ hu)
    · obtain ⟨r₀, hr₀, hstage⟩ := file_of_stage h.symm hr
      obtain ⟨-, hstatus, hpasses, -⟩ := FileRecord.eq_of_stage hstage
      exact hpasses ▸ hstatus ▸ hs.passes u r₀ hr₀
  | load path =>
    rcases s.fetch_noted path with hsame | hnoted
    · exact hsame.symm ▸ hs
    · exact hnoted.paced hs
  | @pass unit r hr _ hstatus =>
    refine hs.modify fun r' hr' => ?_
    obtain rfl : r = r' := Option.some.inj (hr.symm.trans hr')
    show r.passes ++ [r.status.next] = r.status.next.passes
    rw [hs.passes unit r hr, Status.passes_next hstatus]
  | stop unit =>
    refine hs.modify fun r hr => ?_
    have hpasses := hs.passes unit r hr
    unfold FileRecord.ended
    split <;> exact hpasses

theorem Advance.orderly (h : Advance s s') (hs : s.Orderly) : s'.Orderly := by
  have hpaced := h.paced hs.toPaced
  cases h with
  | elsewhere h =>
    have hcache := cache_eq_of_stage h
    have hloads := loads_eq_of_stage h
    exact ⟨hpaced, hloads ▸ hs.once, hcache ▸ hloads ▸ hs.unloaded⟩
  | load path =>
    rcases s.fetch_noted path with hsame | hnoted
    · exact hsame.symm ▸ hs
    · exact hnoted.orderly hs
  | pass => exact ⟨hpaced, hs.once, hs.unloaded⟩
  | stop => exact ⟨hpaced, hs.once, hs.unloaded⟩

theorem Advances.onward (h : s.Advances s') : s.Onward s' := by
  induction h with
  | refl => exact .refl s
  | tail _ hstep ih => exact ih.trans hstep.onward

theorem Advances.paced (h : s.Advances s') (hs : s.Paced) : s'.Paced := by
  induction h with
  | refl => exact hs
  | tail _ hstep ih => exact hstep.paced ih

theorem Advances.orderly (h : s.Advances s') (hs : s.Orderly) : s'.Orderly := by
  induction h with
  | refl => exact hs
  | tail _ hstep ih => exact hstep.orderly ih

end Session

/-! ### Steps of analysis -/

namespace Analysis

variable {s₀ : Session} {sub : Steps}

/-- The analysis has advanced from a session, and all files are in step. -/
def Going (s₀ s : Session) : Prop := s₀.Advances s ∧ s.Paced

theorem Going.step {s s' : Session} (h : Going s₀ s) (hstep : s.Advance s') : Going s₀ s' :=
  ⟨h.1.tail hstep, hstep.paced h.2⟩

/-- A property that the determination of bases keeps as well: it depends only on how far the analysis has come, and
on what the notes say of lambdas. -/
structure Lasting (P : Session → Prop) : Prop extends Elementary P where
  bases : ∀ {s s' : Session}, s'.stage = s.stage → s'.marks = s.marks → P s → P s'

theorem going_lasting (s₀ : Session) : Lasting (Going s₀) :=
  have hframed : Framed (Going s₀) :=
    { elsewhere := fun hcore h => h.step (.elsewhere (Session.stage_eq_of_core hcore))
      load := fun path h => h.step (.load path)
      cached := fun h hget => h.2.cached _ _ hget
      pass := fun h hr hfailure hstatus => h.step (.pass hr hfailure hstatus)
      stop := fun unit h => h.step (.stop unit) }
  { elementary_of_framed hframed with bases := fun hstage _ h => h.step (.elsewhere hstage) }

section Bases

variable {P : Session → Prop} (hP : Lasting P)
include hP

/-- A step that has nothing to do with how far the analysis has come, nor with lambdas. -/
theorem Lasting.keeps {α : Type} {x : Analysis α}
    (h : ∀ unit s, (x unit s).2.stage = s.stage ∧ (x unit s).2.marks = s.marks) : Keeps P x :=
  fun unit s hs _ => ⟨hP.bases (h unit s).1 (h unit s).2 hs, (Session.files_length_of_stage (h unit s).1).ge⟩

theorem modifyFile_lasts {f : FileRecord → FileRecord} (hf : ∀ r, (f r).stage = r.stage) :
    Keeps P (modifyFile f) := by
  refine hP.keeps fun unit s => ⟨?_, rfl⟩
  show Session.stage { s with files := s.files.modify unit f } = s.stage
  simp only [Session.stage, Session.map_modify_of_view hf]

theorem complain_lasts (span : Span) (c : Complaint) : Keeps P (complain span c) := by
  unfold complain
  refine Keeps.bind (modifyFile_lasts hP ?_) fun _ => mark_keeps hP.toElementary span
  exact fun _ => rfl

theorem setFacts_lasts (id : DeclId) (f : ClassFacts → ClassFacts) : Keeps P (setFacts id f) := by
  refine hP.keeps fun unit s => ?_
  show Session.stage (s.withFacts id f) = s.stage ∧ Session.marks (s.withFacts id f) = s.marks
  rw [Session.withFacts_eq]
  exact ⟨rfl, rfl⟩

theorem reportCycle_lasts (id : DeclId) : Keeps P (reportCycle id) := by
  unfold reportCycle
  refine get_keeps.bind fun s => Keeps.bind (forIn_keeps (fun c _ => ?_) _ _) fun _ => pure_keeps _
  refine get_keeps.bind fun s => ?_
  split
  · refine Keeps.bind (hP.keeps fun _ _ => ⟨rfl, rfl⟩) fun _ => (classRecord_keeps c).bind fun r => ?_
    refine owner_bind_keeps hP.toElementary c fun o => KeepsWith.bind ?_ fun _ => (pure_keeps _).keepsWith o
    exact onBehalfOf_keepsWith (complain_lasts hP _ _)
  · exact pure_keeps _

variable (hsub : sub.Keep P)
include hsub

theorem extendsType_lasts (cls : DeclId) (base : Option Extends) : Keeps P (extendsType sub cls base) := by
  unfold extendsType
  split
  · exact pure_keeps _
  extract_lets determine
  have hdetermine : ∀ t?, Keeps P (determine t?) := by
    intro t?
    dsimp only [determine]
    split
    · exact pure_keeps _
    split
    · refine owner_bind_keeps hP.toElementary _ fun o =>
        (onBehalfOf_keepsWith (hsub.inheritance _ false)).bind fun r => ?_
      split
      · exact ((classFacts_keeps _).bind fun _ => pure_keeps _).keepsWith o
      · exact (pure_keeps _).keepsWith o
    · exact pure_keeps _
  clear_value determine
  split
  · refine (baseAt_keeps hP.toElementary hsub cls _).bind fun r => ?_
    split
    · exact (innerBase_keeps hP.toElementary _ _).bind hdetermine
    · exact hdetermine _
  · refine (baseNamed_keeps hP.toElementary hsub cls _).bind fun r => ?_
    split
    · exact (innerBase_keeps hP.toElementary _ _).bind hdetermine
    · exact hdetermine _
  · exact hdetermine _

theorem resolveBase_lasts (id : DeclId) (c : ClassRecord) : Keeps P (resolveBase sub id c) := by
  unfold resolveBase
  refine (setFacts_lasts hP _ _).bind fun _ => ?_
  extract_lets determine
  have hdetermine : ∀ r, Keeps P (determine r) := by
    intro r
    refine (setFacts_lasts hP _ _).bind fun _ => Keeps.bind (hP.keeps fun _ _ => ⟨rfl, rfl⟩) fun _ => ?_
    refine (inClass_keeps hP.toElementary id (extendsType_lasts hP hsub id _)).bind fun base? => ?_
    refine Keeps.bind (hP.keeps fun _ _ => ⟨rfl, rfl⟩) fun _ => (isCyclic_keeps id).bind fun cyclic => ?_
    exact (setFacts_lasts hP _ _).bind fun _ => (nativeOf_keeps _).bind fun _ => setFacts_lasts hP _ _
  clear_value determine
  split
  · exact (checkClassName_keeps hP.toElementary _ _).bind hdetermine
  · exact hdetermine _

theorem resolveInheritance_lasts (id : DeclId) (recursive : Bool) :
    Keeps P (resolveInheritance sub id recursive) := by
  unfold resolveInheritance
  refine (classRecord_keeps id).bind fun c => ?_
  split
  · exact (reportCycle_lasts hP id).bind fun _ => pure_keeps _
  extract_lets tell descend
  have htell : ∀ r, Keeps P (tell r) := by
    intro r
    refine (baseOf_keeps id).bind fun base => ?_
    split
    · exact pure_keeps _
    · exact (isCyclic_keeps id).bind fun _ => pure_keeps _
  clear_value tell
  have hdescend : ∀ r, Keeps P (descend r) := by
    intro r
    dsimp only [descend]
    split
    · refine Keeps.bind (forIn_keeps (fun inner _ => ?_) _ _) htell
      exact (hsub.inheritance inner true).bind fun _ => pure_keeps _
    · exact htell _
  clear_value descend
  split
  · exact (resolveBase_lasts hP hsub id c).bind hdescend
  · exact hdescend _

end Bases

/-- All steps of analysis keep what lasts, however deep they are nested. -/
theorem steps_keep {P : Session → Prop} (hP : Lasting P) (fuel : Nat) : (steps fuel).Keep P := by
  induction fuel with
  | zero => exact steps_zero_keep
  | succ fuel ih => exact steps_succ_keep hP.toElementary ih (resolveInheritance_lasts hP ih)

/-- **All steps of analysis advance**, however deep they are nested. -/
theorem steps_going (s₀ : Session) (fuel : Nat) : (steps fuel).Keep (Going s₀) := steps_keep (going_lasting s₀) fuel

/-- A file that passes are made over has a status or errors in the end. -/
theorem raiseFrom_reaches (fuel : Nat) (target : Status) (count by' : Nat) {unit : Nat} {s : Session}
    {r : FileRecord} (hs : s.Paced) (hr : s.files[unit]? = some r)
    (hcount : target.number ≤ r.status.number + count) :
    After (raiseFrom (steps fuel) unit target count) by' s fun b s' => ∃ r', s'.files[unit]? = some r' ∧
      b = r'.failure.isSome ∧ (r'.failure.isSome = true ∨ target.number ≤ r'.status.number) := by
  induction count generalizing s r with
  | zero =>
    unfold raiseFrom
    rw [after_bind, after_fileRecord, after_pure, hr]
    exact ⟨r, rfl, rfl, .inr hcount⟩
  | succ count ih =>
    unfold raiseFrom
    rw [after_bind, after_fileRecord, hr]
    dsimp only [Option.getD_some]
    split
    · rw [after_pure]
      exact ⟨r, hr, by simp [*], .inl ‹_›⟩
    split
    · rw [after_pure]
      exact ⟨r, hr, by simp_all, .inr ‹_›⟩
    rename_i hfailure htarget
    have hstatus : r.status ≠ .body := by
      intro hbody
      rw [hbody] at htarget
      exact htarget (by cases target <;> decide)
    have hbegun := Session.Advance.pass hr (by simpa using hfailure) hstatus
    rw [after_bind, after_onBehalfOf]
    have hgoing := pass_after (going_lasting _).toElementary (steps_going _ fuel) hr ⟨.refl, hbegun.paced hs⟩
    refine hgoing.mono fun _ s' h => ?_
    obtain ⟨⟨hadvances, hpaced⟩, -⟩ := h
    obtain ⟨r', hr', honward⟩ := hadvances.onward.file unit r.begun (by simp [hr])
    refine ih hpaced hr' ?_
    have hlt := Status.number_lt_next hstatus
    have hle : r.status.next.number ≤ r'.status.number := honward.status
    omega

/-- A file that has a status or errors is left alone. -/
theorem raiseFrom_of_reached (fuel : Nat) (target : Status) (count by' : Nat) {unit : Nat} {s : Session}
    {r : FileRecord} (hr : s.files[unit]? = some r)
    (hreached : r.failure.isSome = true ∨ target.number ≤ r.status.number) :
    After (raiseFrom (steps fuel) unit target (count + 1)) by' s fun b s' => b = r.failure.isSome ∧ s' = s := by
  unfold raiseFrom
  rw [after_bind, after_fileRecord, hr]
  dsimp only [Option.getD_some]
  split
  · rw [after_pure]
    exact ⟨by simp [*], rfl⟩
  split
  · rw [after_pure]
    exact ⟨by simp_all, rfl⟩
  · rename_i hfailure htarget
    exact absurd hreached (by simp [hfailure, htarget])

end Analysis

/-! ### Requests -/

namespace Session

variable {s s' : Session}

/-- **Requests** from outside, any number of them: a file is asked for, or the analysis of a loaded file is to
be brought forward. -/
inductive Called : Session → Session → Prop
  | refl (s : Session) : Called s s
  | fetch {s s' : Session} (path : Text) : Called s s' → Called s (s'.fetch path).2
  | raise {s s' : Session} (unit : Nat) (target : Status) : unit < s'.files.length → Called s s' →
      Called s (s'.raise unit target).2

/-- A request in the middle of the analysis of the file `by'` advances it. -/
theorem Paced.advances_raise (hs : s.Paced) (fuel : Nat) {by' unit : Nat} (target : Status)
    (hby : by' < s.files.length) (hunit : unit < s.files.length) :
    s.Advances ((Analysis.steps fuel).raise unit target by' s).2 :=
  ((Analysis.steps_going s fuel).raise unit target by' s ⟨.refl, hs⟩ hby hunit).1.1

theorem Paced.advances_raise_outside (hs : s.Paced) {unit : Nat} (target : Status)
    (hunit : unit < s.files.length) : s.Advances (s.raise unit target).2 := by
  unfold raise
  exact hs.advances_raise s.fuel target hunit hunit

/-- A request from outside makes passes over a file until it has a status or errors. -/
theorem raise_eq (s : Session) (unit : Nat) (target : Status) : ∃ fuel,
    s.raise unit target = Analysis.raiseFrom (Analysis.steps fuel) unit target 4 unit s := by
  obtain ⟨fuel, hfuel⟩ : ∃ fuel, s.fuel = fuel + 1 := Nat.exists_eq_add_one.2 (by unfold Session.fuel; omega)
  refine ⟨fuel, ?_⟩
  unfold raise
  rw [hfuel]
  rfl

/-- The same request again does nothing and has the same result. -/
theorem Paced.raise_again (hs : s.Paced) {unit : Nat} (target : Status) (hunit : unit < s.files.length) :
    (s.raise unit target).2.raise unit target = s.raise unit target := by
  obtain ⟨r, hr⟩ : ∃ r, s.files[unit]? = some r := ⟨_, List.getElem?_eq_getElem hunit⟩
  have hcount : target.number ≤ r.status.number + 4 := by
    have hbound : target.number ≤ 4 := by cases target <;> decide
    omega
  obtain ⟨fuel, hraise⟩ := s.raise_eq unit target
  have hreaches := Analysis.raiseFrom_reaches fuel target 4 unit hs hr hcount
  rw [Analysis.After, ← hraise] at hreaches
  obtain ⟨r', hr', hresult, hreached⟩ := hreaches
  obtain ⟨fuel', hagain⟩ := (s.raise unit target).2.raise_eq unit target
  have hreached' := Analysis.raiseFrom_of_reached fuel' target 3 unit hr' hreached
  rw [Analysis.After, ← hagain] at hreached'
  exact Prod.ext (hreached'.1.trans hresult.symm) hreached'.2

/-- A failure to read a file is found again by every later request for it. -/
theorem fetch_failed {path : Text} {f : LoadFailure} (h : (s.fetch path).1 = .error f)
    (h' : (s.fetch path).2.Advances s') : s'.fetch path = (.error f, s') := by
  have hknown : (s.fetch path).2.cache.get? path = some (.failed f) := by
    revert h
    unfold fetch
    split
    · rintro ⟨⟩
    · rintro ⟨⟩
      assumption
    split
    · rintro ⟨⟩
      simp [Table.get?_set]
    dsimp only
    split
    · rintro ⟨⟩
      simp [Table.get?_set]
    · rintro ⟨⟩
  unfold fetch
  rw [h'.onward.known path _ hknown]

theorem orderly_start (env : Environment) (scripts : List ScriptFacts) : Orderly { env, scripts } where
  cached := fun _ _ h => by cases h
  passes := fun _ _ h => by simp at h
  once := fun _ => Nat.zero_le 1
  unloaded := fun _ _ => rfl

theorem Called.advances (h : Called s s') (hs : s.Paced) : s.Advances s' := by
  induction h with
  | refl => exact .refl
  | fetch path _ ih => exact ih.tail (.load path)
  | raise unit target hunit _ ih => exact ih.trans ((ih.paced hs).advances_raise_outside target hunit)

end Session

/-- Two files that refer to each other, of which the second has an error. -/
def mutualProject : Project := .ofFiles
  [("a.gd", "extends \"b.gd\"\nfunc f():\n\treturn 1\n"), ("b.gd", "var a = preload(\"a.gd\").new()\n")]

/-- The session in which the first file is brought forward. -/
def mutualProject.raised : Session := ((mutualProject.session.fetch "res://a.gd").2.raise 0 .body).2

end GameScript
