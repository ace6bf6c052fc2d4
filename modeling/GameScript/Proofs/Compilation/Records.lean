import GameScript.Proofs.Compilation.Cycles
import GameScript.Proofs.Compilation.Tables

/-!
# What compilers record

A compiler records the outcome of each file, the tables of its classes, and where the scripts of a finished
file are. Files are compiled in the middle of others, and any of them can fail.

* `Compile.Consistent` — what is recorded fits together, also while files are being compiled;
* `Compile.Onward` — what is recorded stays;
* `Consistent.grow`, `Consistent.begin`, `Consistent.enter`, `Consistent.complete`, `Consistent.leave`,
  `Consistent.file`, `Consistent.fail` — what the parts of a compilation do.
-/

namespace GameScript

namespace Compile

/-- The variables that the table of a class of the file `unit` has from its base: those of a table of the
same file, or those of a script of a program. -/
inductive Inherits (c : Compiler) (unit : Nat) : Option ScriptRef → List MemberSlot → Prop
  | none : Inherits c unit none []
  | own {j : Nat} {b : DeclId} {t : Script} : (classIds c.session unit)[j]? = some b →
      c.drafts.get? b = some t → Inherits c unit (some (.own j)) t.members
  | foreign {n j : Nat} {s : Script} : c.library.Has n j s → Inherits c unit (some (.foreign n j)) s.members

/-- The table of a class **is complete**: it has the variables of its base, and then those that the class
declares, with the types that an earlier analysis has found. -/
structure Drafted (c : Compiler) (id : DeclId) (t : Script) : Prop where
  has : c.session.Has id
  indexed : t.Indexed
  complete : ∃ inherited s, Inherits c id.unit t.base inherited ∧
    Relation.ReflTransGen Session.Event s c.session ∧
    t.members = inherited ++ slotsOf s id.unit inherited.length (membersOf c.session id)

/-- The scripts of the program `n` complete the tables of the classes of a file. -/
def Programmed (c : Compiler) (unit n : Nat) : Prop :=
  ∃ p, c.library[n]? = some p ∧
    List.Forall₂ (fun id s => ∃ t, c.drafts.get? id = some t ∧ Completes t s) (classIds c.session unit) p.scripts

/-- The program `n`, one of those from `start` on, is that of the file at a path. -/
def Belongs (start : Nat) (c : Compiler) (path : Text) (n : Nat) : Prop :=
  start ≤ n ∧ ∃ u < c.session.files.length, c.session.pathOf u = path ∧ Programmed c u n

/-- **What a compiler has recorded fits together.** The programs from `start` on are those of its files. -/
structure Consistent (start : Nat) (c : Compiler) : Prop where
  reached : c.session.Reached
  regular : c.session.Regular
  whole : c.library.Whole
  start_le : start ≤ c.library.length
  origins : ∀ o ∈ c.origins, ∃ s, c.library.Has o.1 o.2 s
  drafted : ∀ id t, c.drafts.get? id = some t → Drafted c id t
  /-- Unless a file has failed or a class is under way, the classes inside of it have tables too. -/
  closed : ∀ id, (c.drafts.get? id).isSome → id ∉ c.drafting →
    (∀ e, c.outcomes.get? (c.session.pathOf id.unit) ≠ some (.failed e)) →
    ∀ d ∈ innerIds c.session id, (c.drafts.get? d).isSome
  busy : ∀ id ∈ c.drafting, c.session.Has id ∧ c.outcomes.get? (c.session.pathOf id.unit) = some .compiling
  scripts : ∀ id n i, c.scripts.get? id = some (n, i) → c.session.Has id ∧
    c.outcomes.get? (c.session.pathOf id.unit) = some (.compiled n) ∧ ∃ s, c.library.Has n i s
  compiled : ∀ path n, c.outcomes.get? path = some (.compiled n) → Belongs start c path n
  recorded : ∀ n, start ≤ n → n < c.library.length → ∃ path, c.outcomes.get? path = some (.compiled n)

/-- **What is recorded stays**, while a compiler goes on: no outcome changes, no table is made again and no
program is lost; and the tables of the classes under way are left alone. -/
structure Onward (start : Nat) (c c' : Compiler) : Prop where
  consistent : Consistent start c'
  events : Relation.ReflTransGen Session.Event c.session c'.session
  grows : c.session.Grows c'.session
  library : c.library <+: c'.library
  origins : c'.origins = c.origins
  outcomes : ∀ path o, c.outcomes.get? path = some o → c'.outcomes.get? path = some o
  compiling : ∀ path, c'.outcomes.get? path = some .compiling → c.outcomes.get? path = some .compiling
  drafts : ∀ id t, c.drafts.get? id = some t → c'.drafts.get? id = some t
  drafting : c.drafting ⊆ c'.drafting
  underway : ∀ id ∈ c.drafting, c'.drafts.get? id = c.drafts.get? id

variable {start : Nat} {c c' c'' : Compiler}

theorem Onward.refl (h : Consistent start c) : Onward start c c :=
  ⟨h, .refl, .refl _, List.prefix_rfl, rfl, fun _ _ h => h, fun _ h => h, fun _ _ h => h,
    List.Subset.refl _, fun _ _ => rfl⟩

theorem Onward.trans (h : Onward start c c') (h' : Onward start c' c'') : Onward start c c'' where
  consistent := h'.consistent
  events := h.events.trans h'.events
  grows := h.grows.trans h'.grows
  library := h.library.trans h'.library
  origins := h'.origins.trans h.origins
  outcomes := fun path o ho => h'.outcomes path o (h.outcomes path o ho)
  compiling := fun path hp => h.compiling path (h'.compiling path hp)
  drafts := fun id t ht => h'.drafts id t (h.drafts id t ht)
  drafting := List.Subset.trans h.drafting h'.drafting
  underway := fun id hid => (h'.underway id (h.drafting hid)).trans (h.underway id hid)

theorem Consistent.sound (h : Consistent start c) : c.session.Sound := h.reached.sound.1

theorem Consistent.filed (h : Consistent start c) : c.session.Filed := h.reached.sound.2

theorem Consistent.unit_lt (h : Consistent start c) {id : DeclId} (hid : c.session.Has id) :
    id.unit < c.session.files.length := h.filed.unit_lt id hid

/-! ### Sessions that go on -/

theorem Inherits.mono {unit : Nat} {ref : Option ScriptRef} {ms : List MemberSlot} (h : Inherits c unit ref ms)
    (hids : classIds c'.session unit = classIds c.session unit)
    (hdrafts : ∀ id t, c.drafts.get? id = some t → c'.drafts.get? id = some t)
    (hlibrary : c.library <+: c'.library) : Inherits c' unit ref ms := by
  cases h with
  | none => exact .none
  | own hj ht => exact .own (hids ▸ hj) (hdrafts _ _ ht)
  | foreign h => exact .foreign (h.mono hlibrary)

/-- A loaded file has the same classes for good. -/
theorem classIds_of_events (h : Consistent start c) {s : Session}
    (hevents : Relation.ReflTransGen Session.Event c.session s) {u : Nat} (hu : u < c.session.files.length) :
    classIds s u = classIds c.session u := by
  obtain ⟨f, hf⟩ : ∃ f, c.session.trees[u]? = some f := by
    rw [← Session.length_trees] at hu
    exact ⟨_, List.getElem?_eq_getElem hu⟩
  rw [Session.classIds_eq hf, Session.classIds_eq (Session.getElem?_trees (h.reached.trees_prefix hevents) hf)]

theorem membersOf_eq {s : Session} {id : DeclId} {d : ClassDecl} (h : s.declOf id = some d) :
    membersOf s id = d.members := by
  obtain ⟨r, hr, rfl⟩ := Option.map_eq_some_iff.1 h
  simp [membersOf, hr]

theorem membersOf_grows {s s' : Session} (h : s.Grows s') {id : DeclId} (hid : s.Has id) :
    membersOf s' id = membersOf s id := by
  obtain ⟨d, hd⟩ := Option.isSome_iff_exists.1 hid
  rw [membersOf_eq hd, membersOf_eq (h.decl id d hd)]

/-- A table stays complete. -/
theorem Drafted.mono (h : Consistent start c) {id : DeclId} {t : Script} (ht : Drafted c id t)
    (hevents : Relation.ReflTransGen Session.Event c.session c'.session)
    (hdrafts : ∀ id t, c.drafts.get? id = some t → c'.drafts.get? id = some t)
    (hlibrary : c.library <+: c'.library) : Drafted c' id t := by
  have hgrows := (h.reached.grows hevents).2
  obtain ⟨inherited, s, hinherits, hs, hmembers⟩ := ht.complete
  refine ⟨hgrows.has ht.has, ht.indexed, inherited, s, ?_, hs.trans hevents, ?_⟩
  · exact hinherits.mono (classIds_of_events h hevents (h.unit_lt ht.has)) hdrafts hlibrary
  · rw [membersOf_grows hgrows ht.has]
    exact hmembers

/-- A program stays that of its file. -/
theorem Programmed.mono (h : Consistent start c) {unit n : Nat} (hn : Programmed c unit n)
    (hunit : unit < c.session.files.length)
    (hevents : Relation.ReflTransGen Session.Event c.session c'.session)
    (hdrafts : ∀ id t, c.drafts.get? id = some t → c'.drafts.get? id = some t)
    (hlibrary : c.library <+: c'.library) : Programmed c' unit n := by
  obtain ⟨p, hp, hscripts⟩ := hn
  obtain ⟨new, hnew⟩ := hlibrary
  refine ⟨p, ?_, ?_⟩
  · rw [← hnew, List.getElem?_append_left (List.getElem?_eq_some_iff.1 hp).1]
    exact hp
  · rw [classIds_of_events h hevents hunit]
    exact hscripts.imp fun id s ⟨t, ht, hs⟩ => ⟨t, hdrafts id t ht, hs⟩

/-- The programs of files stay theirs. -/
theorem Consistent.compiled_mono (h : Consistent start c) {path : Text} {n : Nat}
    (hevents : Relation.ReflTransGen Session.Event c.session c'.session)
    (hdrafts : ∀ id t, c.drafts.get? id = some t → c'.drafts.get? id = some t)
    (hlibrary : c.library <+: c'.library)
    (hn : c.outcomes.get? path = some (.compiled n)) : Belongs start c' path n := by
  have hgrows := (h.reached.grows hevents).2
  obtain ⟨hle, u, hu, hpath, hp⟩ := h.compiled path n hn
  exact ⟨hle, u, hu.trans_le hgrows.files, (hgrows.path u hu).trans hpath,
    hp.mono h hu hevents hdrafts hlibrary⟩

/-- The session of a compiler goes on. -/
theorem Consistent.grow (h : Consistent start c) {s : Session}
    (hevents : Relation.ReflTransGen Session.Event c.session s) (hr : s.Regular) :
    Onward start c { c with session := s } := by
  obtain ⟨hreached, hgrows⟩ := h.reached.grows hevents
  have hpath : ∀ {id}, c.session.Has id → s.pathOf id.unit = c.session.pathOf id.unit :=
    fun hid => hgrows.path _ (h.unit_lt hid)
  refine ⟨?_, hevents, hgrows, List.prefix_rfl, rfl, fun _ _ h => h, fun _ h => h, fun _ _ h => h,
    List.Subset.refl _, fun _ _ => rfl⟩
  constructor
  case reached => exact hreached
  case regular => exact hr
  case whole => exact h.whole
  case start_le => exact h.start_le
  case origins => exact h.origins
  case drafted => exact fun id t ht => (h.drafted id t ht).mono h hevents (fun _ _ h => h) List.prefix_rfl
  case closed =>
    intro id hid hnot hfailed d hd
    obtain ⟨t, ht⟩ := Option.isSome_iff_exists.1 hid
    have hhas := (h.drafted id t ht).has
    refine h.closed id hid hnot (fun e he => hfailed e ?_) d ((Session.mem_innerIds_grows hgrows hhas).1 hd)
    exact (congrArg c.outcomes.get? (hpath hhas)).trans he
  case busy =>
    intro id hid
    obtain ⟨hhas, hout⟩ := h.busy id hid
    exact ⟨hgrows.has hhas, (congrArg c.outcomes.get? (hpath hhas)).trans hout⟩
  case scripts =>
    intro id n i hi
    obtain ⟨hhas, hout, hs⟩ := h.scripts id n i hi
    exact ⟨hgrows.has hhas, (congrArg c.outcomes.get? (hpath hhas)).trans hout, hs⟩
  case compiled => exact fun path n hn => h.compiled_mono hevents (fun _ _ h => h) List.prefix_rfl hn
  case recorded => exact h.recorded

/-! ### The parts of a compilation -/

/-- A file begins to be compiled. -/
theorem Consistent.begin (h : Consistent start c) {unit : Nat} (hunit : unit < c.session.files.length)
    (hnone : c.outcomes.get? (c.session.pathOf unit) = none) : Consistent start (begun c unit) := by
  obtain ⟨hs, hf⟩ := h.reached.sound
  have hevent : Session.Event c.session (c.session.raise unit .body).2 := .raise unit .body hunit
  have hregular := (Session.raise_run hs hf hunit .body).leads.regular h.regular hs hf
  have h' := (h.grow (.single hevent) hregular).consistent
  have hpath : (c.session.raise unit .body).2.pathOf unit = c.session.pathOf unit :=
    (hevent.grows hs hf).path unit hunit
  have hset : ∀ path, (begun c unit).outcomes.get? path =
      if c.session.pathOf unit = path then some .compiling else c.outcomes.get? path :=
    fun path => Table.get?_set ..
  have hold : ∀ path o, c.outcomes.get? path = some o → (begun c unit).outcomes.get? path = some o := by
    intro path o ho
    have hne : c.session.pathOf unit ≠ path := by
      rintro rfl
      rw [hnone] at ho
      cases ho
    rw [hset, if_neg hne]
    exact ho
  constructor
  case reached => exact h'.reached
  case regular => exact h'.regular
  case whole => exact h'.whole
  case start_le => exact h'.start_le
  case origins => exact h'.origins
  case drafted => exact fun id t ht => (h'.drafted id t ht).mono h' .refl (fun _ _ h => h) List.prefix_rfl
  case closed => exact fun id hid hnot hfailed => h'.closed id hid hnot fun e he => hfailed e (hold _ _ he)
  case busy => exact fun id hid => ⟨(h'.busy id hid).1, hold _ _ (h'.busy id hid).2⟩
  case scripts =>
    intro id n i hi
    obtain ⟨hhas, hout, hs⟩ := h'.scripts id n i hi
    exact ⟨hhas, hold _ _ hout, hs⟩
  case compiled =>
    intro path n hn
    rw [hset] at hn
    split at hn
    · cases hn
    · exact h'.compiled_mono .refl (fun _ _ h => h) List.prefix_rfl hn
  case recorded =>
    intro n hle hlt
    obtain ⟨path, hout⟩ := h'.recorded n hle hlt
    exact ⟨path, hold _ _ hout⟩

/-- A class is under way: its tables begin to be drafted. -/
theorem Consistent.enter (h : Consistent start c) {id : DeclId} (hhas : c.session.Has id)
    (hbusy : c.outcomes.get? (c.session.pathOf id.unit) = some .compiling) (entered : List DeclId) :
    Onward start c { c with drafting := id :: c.drafting, entered } := by
  refine ⟨?_, .refl, .refl _, List.prefix_rfl, rfl, fun _ _ h => h, fun _ h => h, fun _ _ h => h,
    List.subset_cons_self _ _, fun _ _ => rfl⟩
  constructor
  case reached => exact h.reached
  case regular => exact h.regular
  case whole => exact h.whole
  case start_le => exact h.start_le
  case origins => exact h.origins
  case drafted => exact fun id t ht => (h.drafted id t ht).mono h .refl (fun _ _ h => h) List.prefix_rfl
  case closed => exact fun d hd hnot => h.closed d hd fun hmem => hnot (List.mem_cons_of_mem id hmem)
  case busy =>
    intro d hd
    rcases List.mem_cons.1 hd with rfl | hd
    · exact ⟨hhas, hbusy⟩
    · exact h.busy d hd
  case scripts => exact h.scripts
  case compiled => exact fun path n hn => h.compiled_mono .refl (fun _ _ h => h) List.prefix_rfl hn
  case recorded => exact h.recorded

/-- The table of a class under way is made. -/
theorem Onward.complete (h : Onward start c c') {id : DeclId} {t : Script} (hnew : id ∉ c.drafting)
    (hmem : id ∈ c'.drafting) (hnone : c'.drafts.get? id = none) (ht : Drafted c' id t) :
    Onward start c { c' with drafts := c'.drafts.set id t } := by
  have hc := h.consistent
  have hkeep : ∀ d u, c'.drafts.get? d = some u → (c'.drafts.set id t).get? d = some u := by
    intro d u hu
    have hne : id ≠ d := by
      rintro rfl
      rw [hnone] at hu
      cases hu
    rw [Table.get?_set, if_neg hne]
    exact hu
  refine ⟨?_, h.events, h.grows, h.library, h.origins, h.outcomes, h.compiling,
    fun d u hu => hkeep d u (h.drafts d u hu), h.drafting, fun d hd => ?_⟩
  · constructor
    case reached => exact hc.reached
    case regular => exact hc.regular
    case whole => exact hc.whole
    case start_le => exact hc.start_le
    case origins => exact hc.origins
    case drafted =>
      intro d u hu
      rw [Table.get?_set] at hu
      split at hu
      · rename_i heq
        cases hu
        subst d
        exact ht.mono hc .refl hkeep List.prefix_rfl
      · exact (hc.drafted d u hu).mono hc .refl hkeep List.prefix_rfl
    case closed =>
      intro d hd hnot hfailed i hi
      have hne : id ≠ d := by
        rintro rfl
        exact hnot hmem
      rw [Table.get?_set, if_neg hne] at hd
      obtain ⟨u, hu⟩ := Option.isSome_iff_exists.1 (hc.closed d hd hnot hfailed i hi)
      exact Option.isSome_iff_exists.2 ⟨u, hkeep i u hu⟩
    case busy => exact hc.busy
    case scripts => exact hc.scripts
    case compiled => exact fun path n hn => hc.compiled_mono .refl hkeep List.prefix_rfl hn
    case recorded => exact hc.recorded
  · have hne : id ≠ d := by
      rintro rfl
      exact hnew hd
    rw [Table.get?_set, if_neg hne]
    exact h.underway d hd

/-- The tables of a class and of the classes inside of it are made. -/
theorem Onward.leave (h : Onward start c c') {id : DeclId} (hstack : c'.drafting = id :: c.drafting)
    (hinner : ∀ d ∈ innerIds c'.session id, (c'.drafts.get? d).isSome) :
    Onward start c { c' with drafting := c'.drafting.erase id } := by
  have hc := h.consistent
  have herase : c'.drafting.erase id = c.drafting := by rw [hstack, List.erase_cons_head]
  rw [herase]
  refine ⟨?_, h.events, h.grows, h.library, h.origins, h.outcomes, h.compiling, h.drafts,
    List.Subset.refl _, h.underway⟩
  constructor
  case reached => exact hc.reached
  case regular => exact hc.regular
  case whole => exact hc.whole
  case start_le => exact hc.start_le
  case origins => exact hc.origins
  case drafted => exact fun d t ht => (hc.drafted d t ht).mono hc .refl (fun _ _ h => h) List.prefix_rfl
  case closed =>
    intro d hd hnot
    by_cases heq : d = id
    · subst d
      exact fun _ => hinner
    · refine hc.closed d hd ?_
      rw [hstack]
      exact fun hmem => (List.mem_cons.1 hmem).elim heq hnot
  case busy => exact fun d hd => hc.busy d (h.drafting hd)
  case scripts => exact hc.scripts
  case compiled => exact fun path n hn => hc.compiled_mono .refl (fun _ _ h => h) List.prefix_rfl hn
  case recorded => exact hc.recorded

/-- If the class of a file has a table and none of its classes is under way, all of them have tables. -/
theorem Consistent.all_drafted (h : Consistent start c) {unit : Nat} {f : File}
    (hf : c.session.trees[unit]? = some f) (hmain : (c.drafts.get? (Session.mainClass unit)).isSome)
    (hstack : ∀ id ∈ c.drafting, id.unit ≠ unit)
    (hbusy : c.outcomes.get? (c.session.pathOf unit) = some .compiling) :
    ∀ id ∈ classIds c.session unit, ∃ t, c.drafts.get? id = some t := by
  have hclosed : ∀ id : DeclId, id.unit = unit → (c.drafts.get? id).isSome →
      ∀ d ∈ innerIds c.session id, (c.drafts.get? d).isSome := by
    rintro id rfl hid
    exact h.closed id hid (fun hmem => hstack id hmem rfl) fun e he => by simp [hbusy] at he
  have hrecords := h.regular.decl unit f hf
  rw [Session.classIds_eq hf]
  intro id hid
  refine Option.isSome_iff_exists.1 ?_
  cases hcls : f.cls with
  | mk pos n base members isTool usesOnready close =>
    rw [hcls] at hid hrecords
    unfold classRecords at hrecords
    have hdecl := hrecords _ List.mem_cons_self
    have hmembers := fun e he => hrecords e (List.mem_cons_of_mem _ he)
    exact forall_numbers hclosed rfl _ hdecl hmembers hmain id hid

/-- A change of what nothing recorded depends on. -/
theorem Onward.same (h : Onward start c c') {t : List Program} : Onward start c { c' with trace := t } := by
  have hc := h.consistent
  refine ⟨?_, h.events, h.grows, h.library, h.origins, h.outcomes, h.compiling, h.drafts, h.drafting, h.underway⟩
  constructor
  case reached => exact hc.reached
  case regular => exact hc.regular
  case whole => exact hc.whole
  case start_le => exact hc.start_le
  case origins => exact hc.origins
  case drafted => exact fun d t ht => (hc.drafted d t ht).mono hc .refl (fun _ _ h => h) List.prefix_rfl
  case closed => exact hc.closed
  case busy => exact hc.busy
  case scripts => exact hc.scripts
  case compiled => exact fun path n hn => hc.compiled_mono .refl (fun _ _ h => h) List.prefix_rfl hn
  case recorded => exact hc.recorded

/-! ### New programs -/

/-- The class of a script in a list of scripts for classes, and the script of a class. -/
theorem forall₂_getElem? {α β : Type} {R : α → β → Prop} {as : List α} {bs : List β} (h : List.Forall₂ R as bs)
    (i : Nat) : (∀ a, as[i]? = some a → ∃ b, bs[i]? = some b ∧ R a b) ∧
      ∀ b, bs[i]? = some b → ∃ a, as[i]? = some a ∧ R a b := by
  induction h generalizing i with
  | nil => simp
  | cons hab _ ih =>
    cases i with
    | zero => simpa using hab
    | succ i => simpa using ih i

/-- The base that a table inherits from is among the scripts of the new program or in the library. -/
theorem Inherits.refers {unit : Nat} {p : Program} {ref : ScriptRef} {ms : List MemberSlot}
    (h : Inherits c unit (some ref) ms)
    (hscripts : List.Forall₂ (fun id s => ∃ t, c.drafts.get? id = some t ∧ Completes t s)
      (classIds c.session unit) p.scripts) :
    ∃ m b, Library.Refers (c.library ++ [p]) c.library.length ref m b ∧ b.members = ms := by
  cases h with
  | @own j b t hj ht =>
    obtain ⟨s, hs, t', ht', hcompletes⟩ := (forall₂_getElem? hscripts j).1 b hj
    obtain rfl : t = t' := Option.some.inj (ht.symm.trans ht')
    refine ⟨_, s, .own ⟨p, by simp, hs⟩, ?_⟩
    rw [hcompletes]
  | foreign h => exact ⟨_, _, .foreign (h.mono (List.prefix_append ..)), rfl⟩

/-- **The library stays whole** with the program of a file whose tables are complete. -/
theorem Consistent.whole_append (h : Consistent start c) {unit : Nat} {p : Program} {f : File}
    (hf : c.session.trees[unit]? = some f)
    (hscripts : List.Forall₂ (fun id s => ∃ t, c.drafts.get? id = some t ∧ Completes t s)
      (classIds c.session unit) p.scripts) : Library.Whole (c.library ++ [p]) := by
  have htable : ∀ {i : Nat} {s : Script}, p.scripts[i]? = some s → ∃ id t, (classIds c.session unit)[i]? = some id ∧
      Drafted c id t ∧ Completes t s := by
    intro i s hs
    obtain ⟨id, hid, t, ht, hcompletes⟩ := (forall₂_getElem? hscripts i).2 s hs
    exact ⟨id, t, hid, h.drafted id t ht, hcompletes⟩
  constructor
  case main =>
    intro q hq
    rcases List.mem_append.1 hq with hq | hq
    · exact h.whole.main q hq
    · rw [List.mem_singleton.1 hq]
      intro hnil
      rw [hnil, List.forall₂_nil_right_iff, Session.classIds_eq hf] at hscripts
      cases hcls : f.cls
      rw [hcls] at hscripts
      simp [ClassDecl.numbers] at hscripts
  case valid =>
    intro n i s hs
    rcases hs.cases with hs | ⟨-, hs⟩
    · exact h.whole.valid n i s hs
    · obtain ⟨id, t, -, -, hcompletes⟩ := htable hs
      rw [hcompletes]
  case indexed =>
    intro n i s hs
    rcases hs.cases with hs | ⟨-, hs⟩
    · exact h.whole.indexed n i s hs
    · obtain ⟨id, t, -, ht, hcompletes⟩ := htable hs
      rw [hcompletes]
      exact ht.indexed
  case base =>
    intro n i s ref hs href
    rcases hs.cases with hs | ⟨hn, hp⟩
    · obtain ⟨m, b, hb, hmembers⟩ := h.whole.base n i s ref hs href
      exact ⟨m, b, hb.mono (List.prefix_append ..), hmembers⟩
    · obtain ⟨id, t, hid, ht, hcompletes⟩ := htable hp
      obtain ⟨inherited, _, hinherits, -, hmembers⟩ := ht.complete
      have hbase : t.base = some ref := by
        rw [hcompletes] at href
        exact href
      have hunit : id.unit = unit := (h.regular.has_of_mem hf (List.mem_of_getElem? hid)).2
      rw [hbase, hunit] at hinherits
      obtain ⟨m, b, hb, rfl⟩ := hinherits.refers hscripts
      refine ⟨m, b, hn ▸ hb, ?_⟩
      rw [hcompletes]
      exact hmembers ▸ List.prefix_append ..

section End

variable {unit : Nat} (h : Consistent start c) (hunit : unit < c.session.files.length)
  (hnone : c.outcomes.get? (c.session.pathOf unit) = none) (h' : Onward start (begun c unit) c')
include h'

/-- While a file is being compiled, it is so recorded. -/
theorem outcome_begun : c'.outcomes.get? (c.session.pathOf unit) = some .compiling :=
  h'.outcomes _ _ (by simp [begun, Table.get?_set])

/-- The other programs are recorded as before. -/
theorem outcome_end {o : Outcome} {path : Text} {n : Nat} (hn : c'.outcomes.get? path = some (.compiled n)) :
    (c'.outcomes.set (c.session.pathOf unit) o).get? path = some (.compiled n) := by
  have hne : c.session.pathOf unit ≠ path := by
    rintro rfl
    rw [outcome_begun h'] at hn
    cases hn
  rw [Table.get?_set, if_neg hne]
  exact hn

include h hunit

/-- The path of the file stays the same. -/
theorem pathOf_begun : c'.session.pathOf unit = c.session.pathOf unit := by
  obtain ⟨hs, hf⟩ := h.reached.sound
  have hevent : Session.Event c.session (c.session.raise unit .body).2 := .raise unit .body hunit
  have hgrows := hevent.grows hs hf
  exact (h'.grows.path unit (hunit.trans_le hgrows.files)).trans (hgrows.path unit hunit)

include hnone

omit h hunit in
/-- What was known before a file began to be compiled is known at its end. -/
theorem outcome_of_begun {path : Text} {o : Outcome} (ho : c.outcomes.get? path = some o) :
    c.session.pathOf unit ≠ path ∧ c'.outcomes.get? path = some o := by
  have hne : c.session.pathOf unit ≠ path := by
    rintro rfl
    rw [hnone] at ho
    cases ho
  exact ⟨hne, h'.outcomes path o (by simp [begun, Table.get?_set, hne, ho])⟩

/-- The end of the compilation of a file, whatever its outcome is. -/
theorem Onward.end {o : Outcome} (ho : o ≠ .compiling) (hc : Consistent start c'')
    (hsession : c''.session = c'.session) (hlibrary : c'.library <+: c''.library)
    (horigins : c''.origins = c'.origins) (hdrafts : c''.drafts = c'.drafts)
    (houtcomes : c''.outcomes = c'.outcomes.set (c.session.pathOf unit) o)
    (hdrafting : c''.drafting = c.drafting) : Onward start c c'' := by
  obtain ⟨hs, hf⟩ := h.reached.sound
  have hevent : Session.Event c.session (c.session.raise unit .body).2 := .raise unit .body hunit
  have hget : ∀ path, c''.outcomes.get? path =
      if c.session.pathOf unit = path then some o else c'.outcomes.get? path :=
    fun path => houtcomes ▸ Table.get?_set ..
  constructor
  case consistent => exact hc
  case events => exact hsession ▸ .head hevent h'.events
  case grows => exact hsession ▸ (hevent.grows hs hf).trans h'.grows
  case library => exact h'.library.trans hlibrary
  case origins => exact horigins.trans h'.origins
  case outcomes =>
    intro path o' ho'
    obtain ⟨hne, hold⟩ := outcome_of_begun hnone h' ho'
    rw [hget, if_neg hne]
    exact hold
  case compiling =>
    intro path hp
    rw [hget] at hp
    split at hp
    · exact absurd (Option.some.inj hp) ho
    · rename_i hne
      have hold := h'.compiling path hp
      simpa [begun, Table.get?_set, hne] using hold
  case drafts => exact fun id t ht => hdrafts ▸ h'.drafts id t ht
  case drafting => exact hdrafting ▸ List.Subset.refl _
  case underway => exact fun id hid => hdrafts ▸ h'.underway id hid

/-- The classes that are under way in the end are so in other files that are being compiled. -/
theorem busy_end {o : Outcome} {id : DeclId} (hid : id ∈ c.drafting) : c'.session.Has id ∧
    (c'.outcomes.set (c.session.pathOf unit) o).get? (c'.session.pathOf id.unit) = some .compiling := by
  obtain ⟨hs, hf⟩ := h.reached.sound
  obtain ⟨hhas, hout⟩ := h.busy id hid
  have hevent : Session.Event c.session (c.session.raise unit .body).2 := .raise unit .body hunit
  have hgrows := (hevent.grows hs hf).trans h'.grows
  obtain ⟨hne, hout'⟩ := outcome_of_begun hnone h' hout
  rw [hgrows.path _ (h.unit_lt hhas), Table.get?_set, if_neg hne]
  exact ⟨hgrows.has hhas, hout'⟩

/-- The compilation of a file fails. -/
theorem Onward.fail (e : CompileError) (hstack : ∀ id ∈ c'.drafting, id ∈ c.drafting ∨ id.unit = unit) :
    Onward start c { c' with
      outcomes := c'.outcomes.set (c.session.pathOf unit) (.failed e)
      drafting := c.drafting } := by
  have hc := h'.consistent
  refine Onward.end h hunit hnone h' (by simp) ?_ rfl List.prefix_rfl rfl rfl rfl rfl
  constructor
  case reached => exact hc.reached
  case regular => exact hc.regular
  case whole => exact hc.whole
  case start_le => exact hc.start_le
  case origins => exact hc.origins
  case drafted => exact fun id t ht => (hc.drafted id t ht).mono hc .refl (fun _ _ h => h) List.prefix_rfl
  case closed =>
    intro id hid hnot hfailed
    have hne : c.session.pathOf unit ≠ c'.session.pathOf id.unit := by
      intro heq
      exact hfailed e (by simp [Table.get?_set, heq])
    refine hc.closed id hid (fun hmem => ?_) fun e' he' => hfailed e' ?_
    · rcases hstack id hmem with hmem | hunit'
      · exact hnot hmem
      · exact hne (hunit' ▸ (pathOf_begun h hunit h').symm)
    · rw [Table.get?_set, if_neg hne]
      exact he'
  case busy => exact fun id hid => busy_end h hunit hnone h' hid
  case scripts =>
    intro id n i hi
    obtain ⟨hhas, hout, hs⟩ := hc.scripts id n i hi
    exact ⟨hhas, outcome_end h' hout, hs⟩
  case compiled =>
    intro path n hn
    rw [Table.get?_set] at hn
    split at hn
    · cases hn
    · exact hc.compiled_mono .refl (fun _ _ h => h) List.prefix_rfl hn
  case recorded =>
    intro n hle hlt
    obtain ⟨path, hout⟩ := hc.recorded n hle hlt
    exact ⟨path, outcome_end h' hout⟩

/-- The program of a file is added, and its outcome recorded. -/
theorem Onward.file {p : Program} {f : File} (hf : c'.session.trees[unit]? = some f)
    (hdrafting : c'.drafting = c.drafting)
    (hscripts : List.Forall₂ (fun id s => ∃ t, c'.drafts.get? id = some t ∧ Completes t s)
      (classIds c'.session unit) p.scripts) :
    Onward start c { c' with
      library := c'.library ++ [p]
      scripts := ⟨c'.scripts.entries ++
        (classIds c'.session unit).zipIdx.map fun (id, i) => (id, (c'.library.length, i))⟩
      outcomes := c'.outcomes.set (c.session.pathOf unit) (.compiled c'.library.length)
      drafting := c.drafting } := by
  have hc := h'.consistent
  have hpath := pathOf_begun h hunit h'
  have happend : c'.library <+: c'.library ++ [p] := List.prefix_append ..
  have hlength : unit < c'.session.files.length := by
    simpa using (List.getElem?_eq_some_iff.1 hf).1
  refine Onward.end h hunit hnone h' (by simp) ?_ rfl happend rfl rfl rfl rfl
  constructor
  case reached => exact hc.reached
  case regular => exact hc.regular
  case whole => exact hc.whole_append hf hscripts
  case start_le => exact hc.start_le.trans happend.length_le
  case origins =>
    intro o ho
    obtain ⟨s, hs⟩ := hc.origins o ho
    exact ⟨s, hs.mono happend⟩
  case drafted => exact fun id t ht => (hc.drafted id t ht).mono hc .refl (fun _ _ h => h) happend
  case closed =>
    intro id hid hnot hfailed
    refine hc.closed id hid (hdrafting ▸ hnot) fun e he => hfailed e ?_
    have hne : c.session.pathOf unit ≠ c'.session.pathOf id.unit := by
      intro heq
      rw [← heq, outcome_begun h'] at he
      cases he
    rw [Table.get?_set, if_neg hne]
    exact he
  case busy => exact fun id hid => busy_end h hunit hnone h' hid
  case scripts =>
    intro id n i hi
    rw [Session.get?_append_entries, Option.or_eq_some_iff] at hi
    rcases hi with hold | ⟨-, hnew⟩
    · obtain ⟨hhas, hout, s, hs⟩ := hc.scripts id n i hold
      exact ⟨hhas, outcome_end h' hout, s, hs.mono happend⟩
    · obtain ⟨⟨d, j⟩, hmem, heq⟩ := List.mem_map.1 (Session.mem_of_get? hnew)
      obtain ⟨rfl, rfl, rfl⟩ : d = id ∧ c'.library.length = n ∧ j = i := by simpa using heq
      have hj := List.mem_zipIdx_iff_getElem?.1 hmem
      obtain ⟨hhas, hunit'⟩ := hc.regular.has_of_mem hf (List.mem_of_getElem? hj)
      obtain ⟨s, hs, -⟩ := (forall₂_getElem? hscripts j).1 d hj
      refine ⟨hhas, ?_, s, p, by simp, hs⟩
      rw [hunit', hpath, Table.get?_set, if_pos rfl]
  case compiled =>
    intro path n hn
    rw [Table.get?_set] at hn
    split at hn
    · rename_i heq
      obtain rfl : c'.library.length = n := by simpa using hn
      exact ⟨hc.start_le, unit, hlength, hpath.trans heq, p, by simp, hscripts⟩
    · exact hc.compiled_mono .refl (fun _ _ h => h) happend hn
  case recorded =>
    intro n hle hlt
    rw [List.length_append, List.length_singleton] at hlt
    rcases Nat.lt_succ_iff_lt_or_eq.1 hlt with hlt | rfl
    · obtain ⟨path, hout⟩ := hc.recorded n hle hlt
      exact ⟨path, outcome_end h' hout⟩
    · exact ⟨c.session.pathOf unit, by simp [Table.get?_set]⟩

end End

end Compile

end GameScript
