import GameScript.Analysis.Pass
import GameScript.Proofs.Lowering.Generator

/-!
# What steps of analysis leave alone

Most of the analysis looks up classes and their bases but never changes them. Such a step can touch a
session only outside of `Session.bare`, or load a file.

* `Analysis.After` — how a step ends, `Analysis.Gives` — what it gives;
* `Session.bare` — a session without what bases do not depend on, `Session.core` — with how far the
  analysis of the files has come;
* `Framed` — the properties of sessions that only the determination of bases can change;
* `Analysis.Keeps` — a step keeps a property; `Steps.Keep` says it of the steps for parts;
* `Analysis.Elementary` — the properties that all other steps keep, among them those that depend on what the notes
  say of lambdas;
* `Analysis.Follows` — after steps that come back to the class they started in, files are still loaded, places of
  declarations are taken in the same unit, and a file with errors has kept some.

The modules `Proofs.Analysis.Lookups`, `Proofs.Analysis.Expressions` and `Proofs.Analysis.Statements` go
through the analysis with these notions.
-/

namespace GameScript

/-! ### Sessions without details -/

/-- The complaint about a class that derives from itself. -/
def Complaint.isCyclicInheritance : Complaint → Bool
  | .cyclicInheritance => true
  | _ => false

/-- A file with the complaints about classes that derive from themselves, and nothing else about its
analysis. -/
def FileRecord.bare (r : FileRecord) : FileRecord :=
  { file := r.file, errors := r.errors.filter (·.complaint.isCyclicInheritance) }

/-- A file with how far its analysis has come, and the complaints about classes that derive from
themselves. -/
def FileRecord.core (r : FileRecord) : FileRecord :=
  { r.bare with status := r.status, passes := r.passes, failure := r.failure }

/-- A class without the passes made over it. -/
def ClassRecord.bare (c : ClassRecord) : ClassRecord :=
  { c with hasInterface := false, hasBody := false }

/-- A **session without what bases do not depend on**: the passes over files and classes, the focus, notes
and declarations, and all complaints but those about classes that derive from themselves. -/
def Session.bare (s : Session) : Session :=
  { env := s.env
    files := s.files.map FileRecord.bare
    cache := s.cache
    classes := ⟨s.classes.entries.map fun e => (e.1, e.2.bare)⟩
    scripts := s.scripts
    inheriting := s.inheriting
    cyclic := s.cyclic }

/-- A session without what bases do not depend on, but **with how far the analysis of the files has come**
and how often each was loaded. -/
def Session.core (s : Session) : Session :=
  { s.bare with files := s.files.map FileRecord.core, loads := s.loads }

namespace Session

variable {s s' : Session}

theorem core_bare (r : FileRecord) : r.core.bare = r.bare := by
  simp [FileRecord.core, FileRecord.bare]

theorem bare_eq_of_core (h : s'.core = s.core) : s'.bare = s.bare := by
  have hfiles : s'.files.map FileRecord.core = s.files.map FileRecord.core := congrArg Session.files h
  have hbare : s'.files.map FileRecord.bare = s.files.map FileRecord.bare := by
    simpa [Function.comp_def, core_bare] using congrArg (List.map FileRecord.bare) hfiles
  have hrest : { s'.core with files := s'.files.map FileRecord.bare, loads := {} } =
      { s.core with files := s.files.map FileRecord.bare, loads := {} } := by rw [h, hbare]
  exact hrest

theorem cache_eq_of_bare (h : s'.bare = s.bare) : s'.cache = s.cache :=
  (congrArg Session.cache h : s'.bare.cache = s.bare.cache)

theorem scripts_eq_of_bare (h : s'.bare = s.bare) : s'.scripts = s.scripts :=
  (congrArg Session.scripts h : s'.bare.scripts = s.bare.scripts)

theorem inheriting_eq_of_bare (h : s'.bare = s.bare) : s'.inheriting = s.inheriting :=
  (congrArg Session.inheriting h : s'.bare.inheriting = s.bare.inheriting)

theorem cyclic_eq_of_bare (h : s'.bare = s.bare) : s'.cyclic = s.cyclic :=
  (congrArg Session.cyclic h : s'.bare.cyclic = s.bare.cyclic)

theorem files_eq_of_bare (h : s'.bare = s.bare) :
    s'.files.map FileRecord.bare = s.files.map FileRecord.bare :=
  (congrArg Session.files h : s'.bare.files = s.bare.files)

theorem files_length_of_bare (h : s'.bare = s.bare) : s'.files.length = s.files.length := by
  simpa using congrArg List.length (files_eq_of_bare h)

theorem pathOf_eq_of_bare (h : s'.bare = s.bare) (u : Nat) : s'.pathOf u = s.pathOf u := by
  have hu := congrArg (fun fs : List FileRecord => fs[u]?) (files_eq_of_bare h)
  simp only [List.getElem?_map] at hu
  unfold pathOf
  cases hs : s.files[u]? <;> cases hs' : s'.files[u]? <;> rw [hs, hs'] at hu <;> simp at hu
  have hpath := congrArg FileRecord.path hu
  exact hpath

/-- The classes agree but for the passes made over them. -/
theorem classes_eq_of_bare (h : s'.bare = s.bare) (id : DeclId) :
    (s'.classes.get? id).map ClassRecord.bare = (s.classes.get? id).map ClassRecord.bare := by
  have hget : ∀ t : Table DeclId ClassRecord, (t.get? id).map ClassRecord.bare =
      (⟨t.entries.map fun e => (e.1, e.2.bare)⟩ : Table DeclId ClassRecord).get? id := by
    intro t
    unfold Table.get?
    rw [List.find?_map, Option.map_map, Option.map_map]
    rfl
  rw [hget, hget]
  exact congrArg (·.get? id) (congrArg Session.classes h)

/-- A change of one entry of a list that a view does not show. -/
theorem map_modify_of_view {α β : Type} {view : α → β} {f : α → α} (hf : ∀ a, view (f a) = view a)
    (as : List α) (i : Nat) : (as.modify i f).map view = as.map view := by
  refine List.ext_getElem? fun j => ?_
  simp only [List.getElem?_map, List.getElem?_modify]
  cases as[j]? with
  | none => rfl
  | some a =>
    by_cases h : i = j
    · simp [h, hf]
    · simp [h]

/-- A change of one file that keeps what bases depend on. -/
theorem bare_modifyFile (s : Session) (unit : Nat) {f : FileRecord → FileRecord}
    (hf : ∀ r, (f r).bare = r.bare) : ({ s with files := s.files.modify unit f } : Session).bare = s.bare := by
  simp only [bare, map_modify_of_view hf]

/-- A change of one file that keeps how far its analysis has come, and what bases depend on. -/
theorem core_modifyFile (s : Session) (unit : Nat) {f : FileRecord → FileRecord}
    (hf : ∀ r, (f r).core = r.core) : ({ s with files := s.files.modify unit f } : Session).core = s.core := by
  simp only [core, bare, map_modify_of_view hf]

/-- A change of a class that keeps what is known about its base. -/
theorem core_setClass {s : Session} {id : DeclId} {c c' : ClassRecord} (hc : s.classes.get? id = some c)
    (h : c'.bare = c.bare) : ({ s with classes := s.classes.set id c' } : Session).core = s.core := by
  have hset : ∀ es : List (DeclId × ClassRecord), (es.find? (·.1 = id)).map Prod.snd = some c →
      (Table.setIn id c' es).map (fun e => (e.1, e.2.bare)) = es.map fun e => (e.1, e.2.bare) := by
    intro es
    induction es with
    | nil => simp
    | cons e es ih =>
      rw [Table.setIn]
      by_cases he : e.1 = id
      · intro hfind
        obtain rfl : e.2 = c := by simpa [he] using hfind
        simp [he, h]
      · intro hfind
        simp [he, ih (by simpa [he] using hfind)]
  simp only [core, bare, Table.set, hset _ hc]

end Session

namespace Session

/-- What the notes say of lambdas: the locals that each one captures, and whether it refers to the instance. -/
def marks (s : Session) (l : DeclId) : List Ident × Bool := ((s.note l).captures, (s.note l).usesSelf)

theorem note_set (s : Session) (id : DeclId) (n : Note) (l : DeclId) :
    ({ s with notes := s.notes.set id n } : Session).note l = if id = l then n else s.note l := by
  unfold note
  rw [Table.get?_set]
  split <;> rfl

theorem marks_set (s : Session) (id : DeclId) {n : Note}
    (h : n.captures = (s.note id).captures ∧ n.usesSelf = (s.note id).usesSelf) :
    ({ s with notes := s.notes.set id n } : Session).marks = s.marks := by
  funext l
  unfold marks
  rw [note_set]
  split
  · rename_i hid
    rw [← hid, h.1, h.2]
  · rfl

end Session

/-- A file over which the next pass begins. -/
def FileRecord.begun (r : FileRecord) : FileRecord :=
  { r with status := r.status.next, passes := r.passes ++ [r.status.next] }

/-- A file at the end of a pass: its errors are final. -/
def FileRecord.ended (r : FileRecord) : FileRecord :=
  if r.errors.isEmpty then r else { r with failure := some r.sortedErrors }

theorem FileRecord.bare_begun (r : FileRecord) : r.begun.bare = r.bare := rfl

theorem FileRecord.bare_ended (r : FileRecord) : r.ended.bare = r.bare := by
  unfold ended
  split <;> rfl

/-- A property of sessions that only the determination of bases can change: it does not depend on what
`Session.core` leaves out, and loading a file keeps it, as do the beginning of a pass over a file that needs
one and its end. -/
structure Framed (P : Session → Prop) : Prop where
  elsewhere : ∀ {s s' : Session}, s'.core = s.core → P s → P s'
  load : ∀ {s : Session} (path : Text), P s → P (s.fetch path).2
  cached : ∀ {s : Session} {path : Text} {u : Nat}, P s → s.cache.get? path = some (.loaded u) →
    u < s.files.length
  pass : ∀ {s : Session} {unit : Nat} {r : FileRecord}, P s → s.files[unit]? = some r → r.failure = none →
    r.status ≠ .body → P { s with files := s.files.modify unit .begun }
  stop : ∀ {s : Session} (unit : Nat), P s → P { s with files := s.files.modify unit .ended }

/-- A property that does not depend on how far the analysis of the files has come, either. -/
theorem Framed.of_bare {P : Session → Prop}
    (elsewhere : ∀ {s s' : Session}, s'.bare = s.bare → P s → P s')
    (load : ∀ {s : Session} (path : Text), P s → P (s.fetch path).2)
    (cached : ∀ {s : Session} {path : Text} {u : Nat}, P s → s.cache.get? path = some (.loaded u) →
      u < s.files.length) : Framed P where
  elsewhere := fun h => elsewhere (Session.bare_eq_of_core h)
  load := load
  cached := cached
  pass := fun h _ _ _ => elsewhere (Session.bare_modifyFile _ _ FileRecord.bare_begun) h
  stop := fun unit h => elsewhere (Session.bare_modifyFile _ unit FileRecord.bare_ended) h

namespace Analysis

variable {α β : Type} {P : Session → Prop} {unit : Nat} {s : Session}

/-! ### Ends of steps -/

/-- Taken in `s` for a file, the step `x` ends with a result and a session of `Q`. -/
def After (x : Analysis α) (unit : Nat) (s : Session) (Q : α → Session → Prop) : Prop :=
  Q (x unit s).1 (x unit s).2

theorem After.mono {x : Analysis α} {Q Q' : α → Session → Prop} (h : After x unit s Q)
    (hQ : ∀ a s', Q a s' → Q' a s') : After x unit s Q' := hQ _ _ h

theorem After.and {x : Analysis α} {Q Q' : α → Session → Prop} (h : After x unit s Q)
    (h' : After x unit s Q') : After x unit s fun a s' => Q a s' ∧ Q' a s' := ⟨h, h'⟩

@[simp] theorem after_bind {x : Analysis α} {f : α → Analysis β} {Q : β → Session → Prop} :
    After (x >>= f) unit s Q ↔ After x unit s fun a s' => After (f a) unit s' Q := Iff.rfl

/-- One step after another. -/
theorem After.bind {x : Analysis α} {f : α → Analysis β} {R : α → Session → Prop}
    {Q : β → Session → Prop} (hx : After x unit s R)
    (hf : ∀ a s', R a s' → After (f a) unit s' Q) : After (x >>= f) unit s Q := hf _ _ hx

@[simp] theorem after_pure {a : α} {Q : α → Session → Prop} : After (pure a) unit s Q ↔ Q a s := Iff.rfl

@[simp] theorem after_get {Q : Session → Session → Prop} : After get unit s Q ↔ Q s s := Iff.rfl

@[simp] theorem after_set {s' : Session} {Q : PUnit → Session → Prop} :
    After (set s') unit s Q ↔ Q () s' := Iff.rfl

@[simp] theorem after_modify {f : Session → Session} {Q : PUnit → Session → Prop} :
    After (modify f) unit s Q ↔ Q () (f s) := Iff.rfl

@[simp] theorem after_self {Q : Nat → Session → Prop} : After self unit s Q ↔ Q unit s := Iff.rfl

@[simp] theorem after_modifyFile {f : FileRecord → FileRecord} {Q : Unit → Session → Prop} :
    After (modifyFile f) unit s Q ↔ Q () { s with files := s.files.modify unit f } := Iff.rfl

@[simp] theorem after_fileRecord {o : Nat} {Q : FileRecord → Session → Prop} :
    After (fileRecord o) unit s Q ↔ Q ((s.files[o]?).getD { file := default }) s := by
  unfold fileRecord
  rw [after_bind, after_get]
  cases s.files[o]? <;> exact Iff.rfl

@[simp] theorem after_onBehalfOf {o : Nat} {x : Analysis α} {Q : α → Session → Prop} :
    After (onBehalfOf o x) unit s Q ↔ After x o s Q := Iff.rfl

@[simp] theorem after_types {Q : TypeContext → Session → Prop} : After types unit s Q ↔ Q s.types s :=
  Iff.rfl

theorem classRecord_facts (s : Session) (id : DeclId) :
    ((s.classes.get? id).getD default).facts = s.types.classes id := by
  dsimp only [Session.types]
  cases s.classes.get? id <;> rfl

@[simp] theorem after_classFacts {id : DeclId} {Q : ClassFacts → Session → Prop} :
    After (classFacts id) unit s Q ↔ Q (s.types.classes id) s := by
  rw [← classRecord_facts]
  exact Iff.rfl

@[simp] theorem after_baseOf {id : DeclId} {Q : StaticType → Session → Prop} :
    After (baseOf id) unit s Q ↔ Q (s.types.classes id).base s := by
  unfold baseOf
  rw [after_bind, after_classFacts, after_pure]

@[simp] theorem after_classType {id : DeclId} {Q : StaticType → Session → Prop} :
    After (classType id) unit s Q ↔ Q (s.types.classType id) s := Iff.rfl

@[simp] theorem after_nativeOf {t : StaticType} {Q : Text → Session → Prop} :
    After (nativeOf t) unit s Q ↔ Q (s.types.nativeOf t) s := Iff.rfl

/-! ### Results -/

/-- Whatever the file and the session, a step gives a result of `Q`. -/
def Gives (Q : α → Prop) (x : Analysis α) : Prop := ∀ unit s, After x unit s fun a _ => Q a

theorem gives_pure {Q : α → Prop} {a : α} (h : Q a) : Gives Q (pure a) := fun _ _ => h

theorem gives_bind {Q : β → Prop} {x : Analysis α} {f : α → Analysis β} (h : ∀ a, Gives Q (f a)) :
    Gives Q (x >>= f) := fun unit _ => h _ unit _

theorem Gives.bind {R : α → Prop} {Q : β → Prop} {x : Analysis α} {f : α → Analysis β} (hx : Gives R x)
    (hf : ∀ a, R a → Gives Q (f a)) : Gives Q (x >>= f) := fun unit _ => hf _ (hx unit _) unit _

theorem Gives.mono {R Q : α → Prop} {x : Analysis α} (hx : Gives R x) (h : ∀ a, R a → Q a) : Gives Q x :=
  fun unit _ => h _ (hx unit _)

/-! ### Steps that keep a property -/

/-- A step that **keeps** a property of sessions, for whichever file it works. Files stay loaded. -/
def Keeps (P : Session → Prop) (x : Analysis α) : Prop :=
  ∀ unit s, P s → unit < s.files.length →
    After x unit s fun _ s' => P s' ∧ s.files.length ≤ s'.files.length

@[simp] theorem Keeps.bind {x : Analysis α} {f : α → Analysis β} (hx : Keeps P x)
    (hf : ∀ a, Keeps P (f a)) : Keeps P (x >>= f) := by
  intro unit s h hunit
  refine (hx unit s h hunit).bind fun a s' hs' => ?_
  exact (hf a unit s' hs'.1 (by omega)).mono fun _ _ h'' => ⟨h''.1, hs'.2.trans h''.2⟩

@[simp] theorem pure_keeps (a : α) : Keeps P (pure a) := fun _ _ h _ => ⟨h, le_rfl⟩

@[simp] theorem Keeps.map {x : Analysis α} {f : α → β} (hx : Keeps P x) : Keeps P (f <$> x) :=
  fun unit s h hunit => hx unit s h hunit

@[simp] theorem mapM_keeps {f : α → Analysis β} (hf : ∀ a, Keeps P (f a)) (xs : List α) :
    Keeps P (xs.mapM f) := by
  induction xs with
  | nil => exact pure_keeps []
  | cons x xs ih =>
    rw [List.mapM_cons]
    exact (hf x).bind fun _ => ih.bind fun _ => pure_keeps _

@[simp] theorem forM_keeps {f : α → Analysis PUnit} (hf : ∀ a, Keeps P (f a)) (xs : List α) :
    Keeps P (xs.forM f) := by
  induction xs with
  | nil => exact pure_keeps _
  | cons x xs ih => exact (hf x).bind fun _ => ih

@[simp] theorem optionForM_keeps {f : α → Analysis PUnit} (hf : ∀ a, Keeps P (f a)) (o : Option α) :
    Keeps P (o.forM f) := by
  cases o with
  | none => exact pure_keeps _
  | some a => exact hf a

@[simp] theorem forIn_keeps {f : α → β → Analysis (ForInStep β)} (hf : ∀ a b, Keeps P (f a b))
    (xs : List α) (b : β) : Keeps P (forIn xs b f) := by
  induction xs generalizing b with
  | nil => exact pure_keeps b
  | cons x xs ih =>
    rw [List.forIn_cons]
    refine (hf x b).bind fun r => ?_
    cases r with
    | done b' => exact pure_keeps b'
    | yield b' => exact ih b'

/-- A step that changes nothing. -/
theorem keeps_of_same {x : Analysis α} (h : ∀ unit s, (x unit s).2 = s) : Keeps P x := by
  intro unit s hs _
  unfold After
  rw [h]
  exact ⟨hs, le_rfl⟩

/-- A property of sessions that all steps keep but, perhaps, the determination of bases: it may depend on what the
notes say of lambdas as long as references to locals and to the instance keep it. -/
structure Elementary (P : Session → Prop) : Prop where
  elsewhere : ∀ {s s' : Session}, s'.core = s.core → s'.marks = s.marks → P s → P s'
  localUse : ∀ {id : Ident} {r : LocalRef}, id.binding = .toLocal r → Keeps P (reduceLocal id r)
  selfUse : Keeps P useSelf
  load : ∀ {s : Session} (path : Text), P s → P (s.fetch path).2
  cached : ∀ {s : Session} {path : Text} {u : Nat}, P s → s.cache.get? path = some (.loaded u) →
    u < s.files.length
  pass : ∀ {s : Session} {unit : Nat} {r : FileRecord}, P s → s.files[unit]? = some r → r.failure = none →
    r.status ≠ .body → P { s with files := s.files.modify unit .begun }
  stop : ∀ {s : Session} (unit : Nat), P s → P { s with files := s.files.modify unit .ended }

/-- A step that changes neither what bases depend on nor what the notes say of lambdas. -/
theorem Elementary.keeps (hP : Elementary P) {x : Analysis α}
    (h : ∀ unit s, (x unit s).2.core = s.core ∧ (x unit s).2.marks = s.marks) : Keeps P x :=
  fun unit s hs _ => ⟨hP.elsewhere (h unit s).1 (h unit s).2 hs,
    (Session.files_length_of_bare (Session.bare_eq_of_core (h unit s).1)).ge⟩

/-- A step that changes what bases do not depend on. -/
theorem keeps_of_core (hP : Framed P) {x : Analysis α} (h : ∀ unit s, (x unit s).2.core = s.core) :
    Keeps P x :=
  fun unit s hs _ => ⟨hP.elsewhere (h unit s) hs,
    (Session.files_length_of_bare (Session.bare_eq_of_core (h unit s))).ge⟩

/-- A step that keeps a property provided that the file `o` is loaded. -/
def KeepsWith (P : Session → Prop) (o : Nat) (x : Analysis α) : Prop :=
  ∀ unit s, P s → unit < s.files.length → o < s.files.length →
    After x unit s fun _ s' => P s' ∧ s.files.length ≤ s'.files.length

@[simp] theorem Keeps.keepsWith {x : Analysis α} (hx : Keeps P x) (o : Nat) : KeepsWith P o x :=
  fun unit s h hunit _ => hx unit s h hunit

@[simp] theorem KeepsWith.bind {o : Nat} {x : Analysis α} {f : α → Analysis β} (hx : KeepsWith P o x)
    (hf : ∀ a, KeepsWith P o (f a)) : KeepsWith P o (x >>= f) := by
  intro unit s h hunit ho
  refine (hx unit s h hunit ho).bind fun a s' hs' => ?_
  exact (hf a unit s' hs'.1 (by omega) (by omega)).mono fun _ _ h'' => ⟨h''.1, hs'.2.trans h''.2⟩

@[simp] theorem onBehalfOf_keepsWith {o : Nat} {x : Analysis α} (hx : Keeps P x) :
    KeepsWith P o (onBehalfOf o x) := fun _ s h _ ho => hx o s h ho

/-- The file whose analysis a class belongs to is loaded. -/
theorem owner_lt (hP : Elementary P) (hs : P s) (hunit : unit < s.files.length) (id : DeclId) :
    After (owner id) unit s fun o s' => s' = s ∧ o < s.files.length := by
  unfold owner
  simp only [after_bind, after_get, after_self]
  split
  · exact ⟨rfl, hunit⟩
  · split
    · exact ⟨rfl, hP.cached hs ‹_›⟩
    · exact ⟨rfl, hunit⟩

@[simp] theorem owner_bind_keeps (hP : Elementary P) (id : DeclId) {f : Nat → Analysis α}
    (hf : ∀ o, KeepsWith P o (f o)) : Keeps P (owner id >>= f) := by
  intro unit s hs hunit
  refine (owner_lt hP hs hunit id).bind fun o s' ho => ?_
  obtain ⟨rfl, ho⟩ := ho
  exact hf o unit s' hs hunit ho

/-- The steps for parts keep a property. A file is brought forward only if it is loaded. -/
structure Steps.Keep (P : Session → Prop) (sub : Steps) : Prop where
  reduce : ∀ root e, Keeps P (sub.reduce root e)
  block : ∀ b, Keeps P (sub.block b)
  pattern : ∀ t p, Keeps P (sub.pattern t p)
  functionBody : ∀ f, Keeps P (sub.functionBody f)
  member : ∀ id m, Keeps P (sub.member id m)
  inheritance : ∀ id recursive, Keeps P (sub.inheritance id recursive)
  interface : ∀ id recursive, Keeps P (sub.interface id recursive)
  classBody : ∀ id recursive, Keeps P (sub.classBody id recursive)
  raise : ∀ other status, KeepsWith P other (sub.raise other status)

attribute [simp] Steps.Keep.reduce Steps.Keep.block Steps.Keep.pattern Steps.Keep.functionBody
  Steps.Keep.member Steps.Keep.inheritance Steps.Keep.interface Steps.Keep.classBody Steps.Keep.raise

/-! ### Steps that only look something up -/

section Lookups

@[simp] theorem read_keeps : Keeps P (read : Analysis Nat) := keeps_of_same fun _ _ => rfl

@[simp] theorem self_keeps : Keeps P self := keeps_of_same fun _ _ => rfl

@[simp] theorem get_keeps : Keeps P (get : Analysis Session) := keeps_of_same fun _ _ => rfl

@[simp] theorem environment_keeps : Keeps P environment := keeps_of_same fun _ _ => rfl

@[simp] theorem catalog_keeps : Keeps P catalog := keeps_of_same fun _ _ => rfl

@[simp] theorem types_keeps : Keeps P types := keeps_of_same fun _ _ => rfl

@[simp] theorem typeText_keeps (t : StaticType) : Keeps P (typeText t) := keeps_of_same fun _ _ => rfl

@[simp] theorem nativeOf_keeps (t : StaticType) : Keeps P (nativeOf t) := keeps_of_same fun _ _ => rfl

@[simp] theorem classRecord_keeps (id : DeclId) : Keeps P (classRecord id) := keeps_of_same fun _ _ => rfl

@[simp] theorem classFacts_keeps (id : DeclId) : Keeps P (classFacts id) := keeps_of_same fun _ _ => rfl

@[simp] theorem baseOf_keeps (id : DeclId) : Keeps P (baseOf id) := keeps_of_same fun _ _ => rfl

@[simp] theorem classType_keeps (id : DeclId) : Keeps P (classType id) := keeps_of_same fun _ _ => rfl

@[simp] theorem note_keeps (id : DeclId) : Keeps P (note id) := keeps_of_same fun _ _ => rfl

@[simp] theorem fits_keeps (implicit : Bool) (t u : StaticType) : Keeps P (fits implicit t u) :=
  keeps_of_same fun _ _ => rfl

@[simp] theorem fileRecord_keeps (unit : Nat) : Keeps P (fileRecord unit) := by
  unfold fileRecord
  repeat' first | split | with_reducible refine Keeps.bind ?_ fun _ => ?_ | dsimp only
  all_goals simp [*]

@[simp] theorem current_keeps : Keeps P current := by
  unfold current
  repeat' first | split | with_reducible refine Keeps.bind ?_ fun _ => ?_ | dsimp only
  all_goals simp [*]

@[simp] theorem focus_keeps : Keeps P focus := by
  unfold focus
  repeat' first | split | with_reducible refine Keeps.bind ?_ fun _ => ?_ | dsimp only
  all_goals simp [*]

@[simp] theorem currentClass_keeps : Keeps P currentClass := by
  unfold currentClass
  repeat' first | split | with_reducible refine Keeps.bind ?_ fun _ => ?_ | dsimp only
  all_goals simp [*]

@[simp] theorem currentFunction_keeps : Keeps P currentFunction := by
  unfold currentFunction
  repeat' first | split | with_reducible refine Keeps.bind ?_ fun _ => ?_ | dsimp only
  all_goals simp [*]

@[simp] theorem staticFunction_keeps : Keeps P staticFunction := by
  unfold staticFunction
  repeat' first | split | with_reducible refine Keeps.bind ?_ fun _ => ?_ | dsimp only
  all_goals simp [*]

@[simp] theorem localId_keeps (anchor : Pos) : Keeps P (localId anchor) := by
  unfold localId
  repeat' first | split | with_reducible refine Keeps.bind ?_ fun _ => ?_ | dsimp only
  all_goals simp [*]

@[simp] theorem className_keeps (id : DeclId) : Keeps P (className id) := by
  unfold className
  repeat' first | split | with_reducible refine Keeps.bind ?_ fun _ => ?_ | dsimp only
  all_goals simp [*]

@[simp] theorem enclosingFrom_keeps (fuel : Nat) (id : DeclId) : Keeps P (enclosingFrom fuel id) := by
  induction fuel generalizing id with
  | zero => exact pure_keeps []
  | succ fuel ih =>
    unfold enclosingFrom
    repeat' first | split | with_reducible refine Keeps.bind ?_ fun _ => ?_ | dsimp only
    all_goals simp [*]

@[simp] theorem enclosing_keeps (id : DeclId) : Keeps P (enclosing id) := by
  unfold enclosing
  repeat' first | split | with_reducible refine Keeps.bind ?_ fun _ => ?_ | dsimp only
  all_goals simp [*]

@[simp] theorem lineageFrom_keeps (fuel : Nat) (id : DeclId) : Keeps P (lineageFrom fuel id) := by
  induction fuel generalizing id with
  | zero => exact pure_keeps []
  | succ fuel ih =>
    unfold lineageFrom
    repeat' first | split | with_reducible refine Keeps.bind ?_ fun _ => ?_ | dsimp only
    all_goals simp [*]

@[simp] theorem lineage_keeps (id : DeclId) : Keeps P (lineage id) := by
  unfold lineage
  repeat' first | split | with_reducible refine Keeps.bind ?_ fun _ => ?_ | dsimp only
  all_goals simp [*]

@[simp] theorem findMember_keeps (id : DeclId) (name : Text) : Keeps P (findMember id name) := by
  unfold findMember
  refine (lineage_keeps id).bind fun cs => Keeps.bind (forIn_keeps (fun c _ => ?_) _ _) fun r => ?_
  · refine (classRecord_keeps c).bind fun r => ?_
    split <;> simp
  · dsimp only
    split <;> simp

end Lookups

/-- A property that only the determination of bases can change does not depend on what notes say. -/
theorem elementary_of_framed (hP : Framed P) : Elementary P := by
  have hnote : ∀ (id : DeclId) (f : Note → Note), Keeps P (modifyNote id f) :=
    fun _ _ => keeps_of_core hP fun _ _ => rfl
  refine { hP with elsewhere := fun h _ => hP.elsewhere h, localUse := fun _ => ?_, selfUse := ?_ }
  · unfold reduceLocal use captureIn
    refine (localId_keeps _).bind fun decl => (note_keeps _).bind fun n => (hnote _ _).bind fun _ => ?_
    refine focus_keeps.bind fun x => Keeps.bind (forIn_keeps (fun f _ => ?_) _ _) fun _ => pure_keeps _
    exact (localId_keeps _).bind fun l => (hnote l _).bind fun _ => pure_keeps _
  · unfold useSelf
    refine focus_keeps.bind fun x => Keeps.bind (forIn_keeps (fun l _ => ?_) _ _) fun _ => pure_keeps _
    exact (hnote l _).bind fun _ => pure_keeps _

/-! ### Steps that change something else -/

section Changes

variable (hP : Elementary P)
include hP

theorem modifyFile_keeps {f : FileRecord → FileRecord} (hf : ∀ r, (f r).core = r.core) :
    Keeps P (modifyFile f) :=
  hP.keeps fun unit s => ⟨s.core_modifyFile unit hf, rfl⟩

@[simp] theorem modifyFocus_keeps (f : Focus → Focus) : Keeps P (modifyFocus f) :=
  modifyFile_keeps hP fun _ => rfl

@[simp] theorem setFocus_keeps (f : Focus) : Keeps P (setFocus f) := modifyFile_keeps hP fun _ => rfl

@[simp] theorem setStmt_keeps (span : Option Span) : Keeps P (setStmt span) := modifyFocus_keeps hP _

@[simp] theorem mark_keeps (span : Span) : Keeps P (mark span) := modifyFile_keeps hP fun _ => rfl

/-- Any complaint but that about a class that derives from itself. -/
@[simp] theorem complain_keeps (span : Span) {c : Complaint} (hc : c ≠ .cyclicInheritance) :
    Keeps P (complain span c) := by
  have herror : Keeps P (modifyFile fun r => { r with errors := ⟨span.start, c⟩ :: r.errors }) :=
    modifyFile_keeps hP fun r => by
      simp [FileRecord.core, FileRecord.bare, Complaint.isCyclicInheritance]
  exact herror.bind fun _ => mark_keeps hP span

@[simp] theorem warn_keeps (span : Span) (c : Caution) : Keeps P (warn span c) := by
  have herror : Keeps P (modifyFile fun r => { r with errors := ⟨span.start, .caution c⟩ :: r.errors }) :=
    modifyFile_keeps hP fun r => by simp [FileRecord.core, FileRecord.bare, Complaint.isCyclicInheritance]
  have hwarning : Keeps P (modifyFile fun r => { r with warnings := ⟨span.start, c⟩ :: r.warnings }) :=
    modifyFile_keeps hP fun _ => rfl
  unfold warn
  repeat' first | split | with_reducible refine Keeps.bind ?_ fun _ => ?_ | dsimp only
  all_goals simp [*]

@[simp] theorem keepingFocus_keeps {x : Analysis α} (hx : Keeps P x) : Keeps P (keepingFocus x) := by
  unfold keepingFocus
  repeat' first | split | with_reducible refine Keeps.bind ?_ fun _ => ?_ | dsimp only
  all_goals simp [*]

@[simp] theorem inClass_keeps (id : DeclId) {x : Analysis α} (hx : Keeps P x) :
    Keeps P (inClass id x) := by
  unfold inClass
  exact keepingFocus_keeps hP ((setFocus_keeps hP _).bind fun _ => hx)

@[simp] theorem modifyNote_keeps (id : DeclId) {f : Note → Note}
    (hf : ∀ n, (f n).captures = n.captures ∧ (f n).usesSelf = n.usesSelf) : Keeps P (modifyNote id f) :=
  hP.keeps fun _ s => ⟨rfl, s.marks_set id (hf _)⟩

@[simp] theorem use_keeps (id : DeclId) : Keeps P (use id) := modifyNote_keeps hP id fun _ => ⟨rfl, rfl⟩

@[simp] theorem reduceLocal_keeps {id : Ident} {r : LocalRef} (h : id.binding = .toLocal r) :
    Keeps P (reduceLocal id r) := hP.localUse h

@[simp] theorem useSelf_keeps : Keeps P useSelf := hP.selfUse

@[simp] theorem setDeclaration_keeps (id : DeclId) (d : Declaration) : Keeps P (setDeclaration id d) :=
  hP.keeps fun _ _ => ⟨rfl, rfl⟩

@[simp] theorem newResource_keeps (path cls : Text) : Keeps P (newResource path cls) :=
  hP.keeps fun _ _ => ⟨rfl, rfl⟩

@[simp] theorem classValue_keeps (id : DeclId) : Keeps P (classValue id) := by
  unfold classValue
  repeat' first | split | with_reducible refine Keeps.bind ?_ fun _ => ?_ | dsimp only
  all_goals simp [*]

/-- A change of a class that keeps what is known about its base. -/
theorem modifyClass_keeps (id : DeclId) {f : ClassRecord → ClassRecord} (hf : ∀ c, (f c).bare = c.bare) :
    Keeps P (modifyClass id f) := by
  intro unit s hs _
  unfold modifyClass
  rw [after_modify]
  split
  · exact ⟨hP.elsewhere (Session.core_setClass ‹_› (hf _)) rfl hs, le_rfl⟩
  · exact ⟨hs, le_rfl⟩

@[simp] theorem accepts_keeps (t u : StaticType) (x : Option Expr) : Keeps P (accepts t u x) := by
  unfold accepts
  refine (fits_keeps _ _ _).bind fun ok => ?_
  repeat' first | split | with_reducible refine Keeps.bind ?_ fun _ => ?_ | dsimp only
  all_goals simp [*]

end Changes

end Analysis

/-! ### The file and the class in focus -/

namespace Session

/-- The record of a file. -/
def record (s : Session) (unit : Nat) : FileRecord := (s.files[unit]?).getD { file := default }

/-- The unit of the class in focus. -/
def place (s : Session) (unit : Nat) : Nat := ((s.record unit).focus.cls.getD (mainClass unit)).unit

/-- The file has errors. -/
def Failed (s : Session) (unit : Nat) : Prop := (s.record unit).errors ≠ []

end Session

namespace Analysis

section Focus

variable {unit : Nat} {s s' s'' : Session}

theorem after_note {id : DeclId} {Q : Note → Session → Prop} : After (note id) unit s Q ↔ Q (s.note id) s := .rfl

theorem after_modifyNote {id : DeclId} {f : Note → Note} {Q : Unit → Session → Prop} :
    After (modifyNote id f) unit s Q ↔ Q () { s with notes := s.notes.set id (f (s.note id)) } := .rfl

/-- To find a declaration changes nothing. -/
theorem after_localId {anchor : Pos} {id : DeclId} {Q : DeclId → Session → Prop} (h : (localId anchor unit s).1 = id) :
    After (localId anchor) unit s Q ↔ Q id s := by
  subst h
  have hstate : (localId anchor unit s).2 = s := by
    show After (localId anchor) unit s fun _ s' => s' = s
    unfold localId currentClass focus current
    simp only [after_bind, after_self, after_fileRecord, after_pure]
  unfold After
  rw [hstate]

theorem after_focus {Q : Focus → Session → Prop} : After focus unit s Q ↔ Q (s.record unit).focus s := by
  unfold focus current
  simp only [after_bind, after_self, after_fileRecord, after_pure]
  rfl

theorem currentClass_same : After currentClass unit s fun _ s' => s' = s := by
  unfold currentClass
  rw [after_bind, after_focus, after_bind, after_self, after_pure]

theorem localId_place (anchor : Pos) : (localId anchor unit s).1 = ⟨s.place unit, anchor⟩ := by
  show After (localId anchor) unit s fun id _ => id = ⟨s.place unit, anchor⟩
  unfold localId currentClass
  simp only [after_bind, after_focus, after_self, after_pure]
  rfl

/-- A session that a step has gone on to: files stay loaded, the class in focus is of the same unit, and a file with
errors keeps some. -/
structure Follows (unit : Nat) (s s' : Session) : Prop where
  files : s.files.length ≤ s'.files.length
  place : s'.place unit = s.place unit
  failed : s.Failed unit → s'.Failed unit

theorem Follows.trans (h : Follows unit s s') (h' : Follows unit s' s'') : Follows unit s s'' :=
  ⟨h.files.trans h'.files, h'.place.trans h.place, fun hf => h'.failed (h.failed hf)⟩

theorem Follows.of_files (h : s'.files = s.files) : Follows unit s s' := by
  refine ⟨h ▸ le_rfl, ?_, ?_⟩
  · simp only [Session.place, Session.record, h]
  · simp only [Session.Failed, Session.record, h, imp_self]

theorem complain_fails (hunit : unit < s.files.length) (span : Span) (c : Complaint) :
    After (complain span c) unit s fun _ s' => Follows unit s s' ∧ s'.Failed unit := by
  obtain ⟨r, hr⟩ : ∃ r, s.files[unit]? = some r := ⟨_, List.getElem?_eq_getElem hunit⟩
  unfold complain mark
  simp only [after_bind, after_modifyFile]
  have hfailed : ∀ s' : Session, (∃ r', s'.files[unit]? = some r' ∧ r'.errors ≠ []) → s'.Failed unit := by
    rintro s' ⟨r', hr', herrors⟩
    simpa [Session.Failed, Session.record, hr'] using herrors
  refine ⟨⟨by simp, ?_, fun _ => hfailed _ ?_⟩, hfailed _ ?_⟩
  · simp [Session.place, Session.record, hr]
  · simp [hr]
  · simp [hr]

/-- A move inside of a class. -/
theorem modifyFocus_follows (hunit : unit < s.files.length) {f : Focus → Focus} (hf : ∀ x, (f x).cls = x.cls) :
    After (modifyFocus f) unit s fun _ s' => Follows unit s s' ∧ (s'.record unit).focus = f (s.record unit).focus ∧
      s'.notes = s.notes ∧ s'.declarations = s.declarations := by
  obtain ⟨r, hr⟩ : ∃ r, s.files[unit]? = some r := ⟨_, List.getElem?_eq_getElem hunit⟩
  unfold modifyFocus
  rw [after_modifyFile]
  refine ⟨⟨by simp, ?_, ?_⟩, ?_, rfl, rfl⟩
  · simp [Session.place, Session.record, hr, hf]
  · simp [Session.Failed, Session.record, hr]
  · simp [Session.record, hr]

end Focus

end Analysis

end GameScript
