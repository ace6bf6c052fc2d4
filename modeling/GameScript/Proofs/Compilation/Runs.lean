import GameScript.Proofs.Compilation.Outcomes

/-!
# Compilers of a project

A compiler is asked for files in any order, while files are added and analysed. It can start again with what
it has compiled, also with a script that is known only in compiled form from then on.

* `Compiler.Calls`, `Compiler.Steps` — what becomes of a compiler that is used, and that starts again;
* `Compiler.Completed`, `Compiler.Compiled` — a script with all its variables, of a file that has been
  compiled;
* `Steps.compile_settled` — a file has one outcome for good, and bases are scripts of compiled files;
* `Steps.members_extend` — the variables of a script go on after those of its bases.
-/

namespace GameScript

/-- The script `y` is the base of the script `x`; both are given with the numbers of their programs. -/
def Library.Base (l : Library) (x y : Nat × Script) : Prop :=
  ∃ ref, x.2.base = some ref ∧ l.script? x.1 ref = some y

/-- The variables of the script that a script of the program `n` has as its base. -/
def Library.inherited (l : Library) (n : Nat) : Option ScriptRef → Option (List MemberSlot)
  | none => some []
  | some ref => (l.script? n ref).map fun b => b.2.members

namespace Session

variable {s s' : Session}

/-! ### Scripts that are known in compiled form -/

theorem Step.scripts_eq (h : Step s s') : s'.scripts = s.scripts := by
  cases h with
  | elsewhere h =>
    have hbare := congrArg (fun s : Session => s.scripts) h
    exact hbare
  | load path => exact fetch_scripts s path
  | report => rfl
  | describe | enter | settle => simp

theorem Leads.scripts_eq (h : s.Leads s') : s'.scripts = s.scripts := by
  induction h with
  | refl => rfl
  | tail _ hstep ih => exact hstep.scripts_eq.trans ih

/-- Known scripts stay known. -/
theorem Event.scripts_prefix (h : Event s s') (hs : s.Sound) (hf : s.Filed) : s.scripts <+: s'.scripts := by
  cases h with
  | add file => exact List.prefix_rfl
  | load path => exact fetch_scripts s path ▸ List.prefix_rfl
  | surround env => exact List.prefix_rfl
  | script facts _ _ => exact List.prefix_append ..
  | raise unit target hunit => exact (raise_run hs hf hunit target).leads.scripts_eq ▸ List.prefix_rfl
  | inheritance fuel id recursive unit hunit =>
    exact (inheritance_run hs hf hunit fuel id recursive).leads.scripts_eq ▸ List.prefix_rfl
  | step hstep => exact hstep.scripts_eq ▸ List.prefix_rfl

theorem Reached.scripts_prefix (h : s.Reached) (hevents : Relation.ReflTransGen Event s s') :
    s.scripts <+: s'.scripts := by
  induction hevents with
  | refl => exact List.prefix_rfl
  | tail hevents hevent ih =>
    obtain ⟨hs, hf⟩ := (h.grows hevents).1.sound
    exact ih.trans (hevent.scripts_prefix hs hf)

end Session

namespace Compiler

variable {c c' : Compiler}

/-! ### What is asked of a compiler -/

/-- What can be asked of a compiler: a file is compiled, parsed and added at a path of its own, loaded by its
path or brought forward, the base of a class is asked for, or what surrounds the files changes. -/
inductive Call : Compiler → Compiler → Prop
  | compile {c : Compiler} (unit : Nat) : unit < c.session.files.length → Call c (c.compile unit).2
  | add {c : Compiler} {path text : Text} {file : File} : File.parse path text = .ok file →
      path ∉ c.session.trees.map File.path → Call c { c with session := (c.session.addFile file).2 }
  | load {c : Compiler} (path : Text) : Call c { c with session := (c.session.fetch path).2 }
  | surround {c : Compiler} (env : Environment) : Call c { c with session := { c.session with env } }
  | raise {c : Compiler} (unit : Nat) (target : Status) : unit < c.session.files.length →
      Call c { c with session := (c.session.raise unit target).2 }
  | inheritance {c : Compiler} (fuel : Nat) (id : DeclId) (recursive : Bool) (unit : Nat) :
      unit < c.session.files.length →
      Call c { c with session := ((Analysis.steps fuel).inheritance id recursive unit c.session).2 }

/-- What becomes of a compiler that is asked for one thing after another. -/
abbrev Calls : Compiler → Compiler → Prop := Relation.ReflTransGen Call

/-- A compiler is asked for something, or starts again: with the same files, or without a file and with the
script of a program known in compiled form. -/
inductive Step : Compiler → Compiler → Prop
  | call {c c' : Compiler} : Call c c' → Step c c'
  | reset {c : Compiler} : Step c c.reset
  | keepCompiled {c : Compiler} (program : Nat) : program < c.library.length → Step c (c.keepCompiled program)

/-- What becomes of a compiler in the course of a project. -/
abbrev Steps : Compiler → Compiler → Prop := Relation.ReflTransGen Step

theorem Calls.steps (h : Calls c c') : Steps c c' := h.lift (fun c => c) fun _ _ => .call

/-- Between two calls: what is recorded fits together, and the compilation of each file has ended. -/
structure Resting (start : Nat) (c : Compiler) : Prop where
  consistent : Compile.Consistent start c
  compiling : ∀ path, c.outcomes.get? path ≠ some .compiling

/-- A compiler that is asked for something goes on with what it has recorded. -/
theorem Call.onward {start : Nat} (h : Call c c') (hc : Compile.Consistent start c) : Compile.Onward start c c' := by
  obtain ⟨hs, hf⟩ := hc.reached.sound
  cases h with
  | compile unit hunit => exact (Compile.compileFile_onward _ hc hunit).1
  | add hparse hpath =>
    refine hc.grow (.single (.add _)) (hc.regular.addFile hf ?_ (File.parse_apart hparse))
    rwa [File.parse_path hparse]
  | load path => exact hc.grow (.single (.load path)) (hc.regular.fetch hf path)
  | surround env =>
    exact hc.grow (.single (.surround env)) (hc.regular.of_same rfl (fun _ _ hd => hd) fun _ hid => hid)
  | raise unit target hunit =>
    exact hc.grow (.single (.raise unit target hunit)) ((Session.raise_run hs hf hunit target).leads.regular hc.regular hs hf)
  | inheritance fuel id recursive unit hunit =>
    exact hc.grow (.single (.inheritance fuel id recursive unit hunit))
      ((Session.inheritance_run hs hf hunit fuel id recursive).leads.regular hc.regular hs hf)

theorem Calls.onward {start : Nat} (h : Calls c c') (hc : Compile.Consistent start c) :
    Compile.Onward start c c' := by
  induction h with
  | refl => exact .refl hc
  | tail _ hcall ih => exact ih.trans (hcall.onward ih.consistent)

theorem Resting.calls {start : Nat} (hc : Resting start c) (h : Calls c c') : Resting start c' := by
  have honward := h.onward hc.consistent
  exact ⟨honward.consistent, fun path hp => hc.compiling path (honward.compiling path hp)⟩

/-- A call ends with the outcome that is recorded. -/
theorem Resting.recorded {start unit : Nat} {r : Except CompileError Nat} (hc : Resting start c)
    (h : c.compile unit = (r, c')) :
    c'.outcomes.get? (c.session.pathOf unit) = some (Compile.outcomeOf r) := by
  unfold compile at h
  rw [Compile.run_compileFile] at h
  split at h
  · rename_i hn
    cases h
    exact hn
  · rename_i he
    cases h
    exact he
  · rename_i hp
    exact absurd hp (hc.compiling _)
  · cases h
    exact (Table.get?_set ..).trans (if_pos rfl)

/-- A recorded outcome is that of a call. -/
theorem compile_of_recorded {unit : Nat} {r : Except CompileError Nat}
    (h : c.outcomes.get? (c.session.pathOf unit) = some (Compile.outcomeOf r)) : c.compile unit = (r, c) := by
  unfold compile
  rw [Compile.run_compileFile]
  cases r with
  | ok n => rw [h]; rfl
  | error e => rw [h]; rfl

/-! ### Starting again -/

/-- A compiler without outcomes, with a whole library. -/
theorem resting_fresh {s : Session} {l : Library} {origins : List (Nat × Nat)} (hs : s.Reached) (hr : s.Regular)
    (hl : l.Whole) (horigins : ∀ o ∈ origins, ∃ t, l.Has o.1 o.2 t) :
    Resting l.length { session := s, library := l, origins := origins } := by
  refine ⟨?_, fun path hp => by cases hp⟩
  constructor
  case reached => exact hs
  case regular => exact hr
  case whole => exact hl
  case start_le => exact le_rfl
  case origins => exact horigins
  case drafted => exact fun id t ht => by cases ht
  case closed => exact fun id hid => by cases hid
  case busy => exact fun id hid => by cases hid
  case scripts => exact fun id n i hi => by cases hi
  case compiled => exact fun path n hn => by cases hn
  case recorded => exact fun n hle hlt => absurd hlt (Nat.not_lt.2 hle)

theorem whole_nil : Library.Whole [] where
  main := fun p hp => by cases hp
  valid := fun n i s hs => absurd hs.lt (Nat.not_lt_zero n)
  indexed := fun n i s hs => absurd hs.lt (Nat.not_lt_zero n)
  base := fun n i s ref hs => absurd hs.lt (Nat.not_lt_zero n)

/-- A session without files is regular. -/
theorem regular_nil (env : Environment) (scripts : List ScriptFacts) (loads : Table Text Nat) :
    Session.Regular { env, scripts, loads } where
  paths := List.nodup_nil
  apart := fun f hf => by cases hf
  known := fun id hid => by cases hid
  decl := fun u f hf => by cases hf

/-- The scripts that are made known to the analysis. -/
theorem register_known (native : Text) (numbers : List (Nat × Nat)) (c : Compiler) (hs : c.session.Reached)
    (hlength : c.origins.length ≤ c.session.scripts.length) :
    (c.register native numbers).2.session.Reached ∧
    (c.register native numbers).2.origins.length ≤ (c.register native numbers).2.session.scripts.length ∧
    (∀ j, (c.register native numbers).1.shape = .script j → j < (c.register native numbers).2.origins.length) ∧
    (∀ d ancestor, (c.register native numbers).1.shape ≠ .cls d ancestor) ∧
    ∀ o ∈ (c.register native numbers).2.origins, o ∈ c.origins ∨ o ∈ numbers := by
  induction numbers with
  | nil =>
    refine ⟨hs, hlength, fun j hj => ?_, fun d ancestor hd => ?_, fun o ho => .inl ho⟩
    · cases hj
    · cases hd
  | cons number bases ih =>
    unfold register
    split
    · rename_i i hi
      refine ⟨hs, hlength, fun j hj => ?_, fun d ancestor hd => ?_, fun o ho => .inl ho⟩
      · cases hj
        exact (List.findIdx?_eq_some_iff_findIdx_eq.1 hi).1
      · cases hd
    · obtain ⟨hreached, hle, hscript, hcls, horigins⟩ := ih
      generalize c.register native bases = r at hreached hle hscript hcls horigins
      obtain ⟨base, c'⟩ := r
      dsimp only at hreached hle hscript hcls horigins ⊢
      refine ⟨hreached.event (.script _ (fun j hj => (hscript j hj).trans_le hle) hcls), ?_, fun j hj => ?_,
        fun d ancestor hd => ?_, fun o ho => ?_⟩
      · simpa using hle
      · cases hj
        simp
      · cases hd
      · rcases List.mem_append.1 ho with ho | ho
        · exact (horigins o ho).imp_right (List.mem_cons_of_mem number)
        · exact .inr (List.mem_cons.2 (.inl (List.mem_singleton.1 ho)))

/-- The bases of a script of a whole library are in the library. -/
theorem has_of_mem_lineageNumbers {l : Library} (hl : l.Whole) (fuel : Nat) {n m : Nat} {ref : ScriptRef} {b : Script}
    (h : l.Refers n ref m b) : ∀ o ∈ lineageNumbers l fuel n ref, ∃ s, l.Has o.1 o.2 s := by
  induction fuel generalizing n m ref b with
  | zero => exact fun o ho => by cases ho
  | succ fuel ih =>
    -- What comes after a script are the bases of its base.
    have hrest : ∀ i, l.Has m i b → ∀ r, b.base = some r → ∀ o ∈ lineageNumbers l fuel m r, ∃ s, l.Has o.1 o.2 s := by
      intro i hb r hr
      obtain ⟨k, d, hd, -⟩ := hl.base m i b r hb hr
      exact ih hd
    intro o ho
    unfold lineageNumbers at ho
    dsimp only at ho
    rw [h.script?, Option.bind_some] at ho
    cases hbase : b.base with
    | none =>
      rw [hbase] at ho
      cases h with
      | own hb => exact List.mem_singleton.1 ho ▸ ⟨b, hb⟩
      | foreign hb => exact List.mem_singleton.1 ho ▸ ⟨b, hb⟩
    | some r =>
      rw [hbase] at ho
      cases h with
      | own hb => exact (List.mem_cons.1 ho).elim (fun heq => heq ▸ ⟨b, hb⟩) (hrest _ hb r hbase o)
      | foreign hb => exact (List.mem_cons.1 ho).elim (fun heq => heq ▸ ⟨b, hb⟩) (hrest _ hb r hbase o)

/-- A compiler that starts again is at rest, and so is one that keeps a script in compiled form. -/
theorem Resting.step {start : Nat} (hc : Resting start c) (hlength : c.origins.length ≤ c.session.scripts.length)
    (h : Step c c') : (∃ start', Resting start' c') ∧ c'.origins.length ≤ c'.session.scripts.length ∧
      c.library <+: c'.library := by
  have hconsistent := hc.consistent
  cases h with
  | call h =>
    have honward := h.onward hconsistent
    refine ⟨⟨start, hc.calls (.single h)⟩, ?_, honward.library⟩
    rw [honward.origins]
    exact hlength.trans (hconsistent.reached.scripts_prefix honward.events).length_le
  | reset =>
    exact ⟨⟨_, resting_fresh hconsistent.reached hconsistent.regular hconsistent.whole hconsistent.origins⟩, hlength,
      List.prefix_rfl⟩
  | keepCompiled program hprogram =>
    obtain ⟨t, ht⟩ : ∃ t, c.library.Has program 0 t := by
      have hmem := List.getElem_mem hprogram
      obtain ⟨t, rest, hscripts⟩ := List.exists_cons_of_ne_nil (hconsistent.whole.main _ hmem)
      exact ⟨t, _, List.getElem?_eq_getElem hprogram, by rw [hscripts]; rfl⟩
    have hnumbers := has_of_mem_lineageNumbers hconsistent.whole c.library.size (.own ht)
    unfold keepCompiled
    dsimp only
    obtain ⟨hreached, hle, -, -, horigins⟩ := register_known
      ((((c.library[program]?).bind Program.main?).map Script.native).getD "")
      (lineageNumbers c.library c.library.size program (.own 0)) c hconsistent.reached hlength
    have hlibrary := library_register c ((((c.library[program]?).bind Program.main?).map Script.native).getD "")
      (lineageNumbers c.library c.library.size program (.own 0))
    generalize c.register _ _ = r at hreached hle horigins hlibrary
    obtain ⟨type, c₁⟩ := r
    dsimp only at hreached hle horigins hlibrary ⊢
    refine ⟨⟨c₁.library.length, resting_fresh (.restart _ hreached) (regular_nil ..) ?_ fun o ho => ?_⟩, hle, ?_⟩
    · rw [hlibrary]
      exact hconsistent.whole
    · rw [hlibrary]
      rcases horigins o ho with ho | ho
      · exact hconsistent.origins o ho
      · exact hnumbers o ho
    · exact hlibrary ▸ List.prefix_rfl

/-- **In the course of a project**, a compiler is at rest between what it is asked for. -/
theorem Steps.resting {env : Environment} (h : Steps { session := { env } } c) :
    (∃ start, Resting start c) ∧ c.origins.length ≤ c.session.scripts.length := by
  induction h with
  | refl => exact ⟨⟨_, resting_fresh (.new env) (regular_nil ..) whole_nil fun o ho => by cases ho⟩, le_rfl⟩
  | tail _ hstep ih =>
    obtain ⟨⟨start, hc⟩, hlength⟩ := ih
    obtain ⟨hc', hlength', -⟩ := hc.step hlength hstep
    exact ⟨hc', hlength'⟩

/-- No program is lost. -/
theorem Steps.library_prefix {env : Environment} (h : Steps { session := { env } } c) (h' : Steps c c') :
    c.library <+: c'.library := by
  induction h' with
  | refl => exact List.prefix_rfl
  | tail h' hstep ih =>
    obtain ⟨⟨start, hc⟩, hlength⟩ := Steps.resting (h.trans h')
    exact ih.trans (hc.step hlength hstep).2.2

/-! ### Scripts of compiled files -/

/-- The script `s` of the program `n` **is complete**: it is valid, and its variables are those of its base and
then those that the class declares, with the types that an earlier analysis has found. -/
structure Completed (c : Compiler) (n : Nat) (id : DeclId) (s : Script) : Prop where
  valid : s.isValid = true
  table : ∃ inherited earlier, c.library.inherited n s.base = some inherited ∧
    Relation.ReflTransGen Session.Event earlier c.session ∧
    s.members = inherited ++ Compile.slotsOf earlier id.unit inherited.length (Compile.membersOf c.session id)

/-- The script `s` of the program `n` **is that of a class in a file that has been compiled**: at some time the
program was what a compiler returned for the file, and the script was complete. -/
def Compiled (env : Environment) (c : Compiler) (n : Nat) (s : Script) : Prop :=
  ∃ c₀ unit i id, Steps { session := { env } } c₀ ∧ Steps c₀ c ∧ unit < c₀.session.files.length ∧
    c₀.compile unit = (.ok n, c₀) ∧ (Compile.classIds c₀.session unit)[i]? = some id ∧
    c₀.library.Has n i s ∧ Completed c₀ n id s

end Compiler

namespace Compile

variable {start : Nat} {c : Compiler}

/-- The scripts of the program of a file are complete. -/
theorem Consistent.completed (h : Consistent start c) {unit n i : Nat} (hn : Programmed c unit n)
    (hunit : unit < c.session.files.length) {s : Script} (hs : c.library.Has n i s) :
    ∃ id, (classIds c.session unit)[i]? = some id ∧ c.Completed n id s := by
  obtain ⟨p, hp, hscripts⟩ := hn
  obtain ⟨q, hq, hs'⟩ := hs
  obtain rfl : p = q := Option.some.inj (hp.symm.trans hq)
  obtain ⟨id, hid, t, ht, hcompletes⟩ := (forall₂_getElem? hscripts i).2 s hs'
  have hdrafted := h.drafted id t ht
  obtain ⟨f, hf⟩ : ∃ f, c.session.trees[unit]? = some f := by
    have hlt : unit < c.session.trees.length := c.session.length_trees ▸ hunit
    exact ⟨_, List.getElem?_eq_getElem hlt⟩
  have hidunit : id.unit = unit := (h.regular.has_of_mem hf (List.mem_of_getElem? hid)).2
  obtain ⟨inherited, earlier, hinherits, hevents, hmembers⟩ := hdrafted.complete
  have hbase : s.base = t.base := by rw [hcompletes]
  refine ⟨id, hid, by rw [hcompletes], inherited, earlier, ?_, hevents, ?_⟩
  · rw [hbase]
    rw [hidunit] at hinherits
    -- The base is among the scripts of the program or of another one.
    generalize t.base = ref at hinherits
    cases hinherits with
    | none => rfl
    | @own j b u hj hu =>
      obtain ⟨sb, hsb, u', hu', hcompletes'⟩ := (forall₂_getElem? hscripts j).1 b hj
      obtain rfl : u = u' := Option.some.inj (hu.symm.trans hu')
      have hhas : c.library.Has n j sb := ⟨p, hp, hsb⟩
      show (c.library.script? n (.own j)).map _ = _
      rw [hhas.own, Option.map_some, hcompletes']
    | @foreign m j b hb =>
      show (c.library.script? n (.foreign m j)).map _ = _
      rw [hb.foreign n, Option.map_some]
  · rw [show s.members = t.members by rw [hcompletes]]
    exact hmembers

end Compile

namespace Compiler

variable {env : Environment} {c c' : Compiler}

theorem Compiled.steps {n : Nat} {s : Script} (h : Compiled env c n s) (h' : Steps c c') : Compiled env c' n s := by
  obtain ⟨c₀, unit, i, id, h₀, hsteps, hrest⟩ := h
  exact ⟨c₀, unit, i, id, h₀, hsteps.trans h', hrest⟩

/-- **Every script of the library is that of a class in a file that has been compiled.** -/
theorem Steps.compiled (h : Steps { session := { env } } c) {n i : Nat} {s : Script} (hs : c.library.Has n i s) :
    Compiled env c n s := by
  induction h with
  | refl => exact absurd hs.lt (Nat.not_lt_zero n)
  | @tail c c' h hstep ih =>
    by_cases hold : n < c.library.length
    · -- The script has been there before.
      have hgrown := Steps.library_prefix h (.single hstep)
      obtain ⟨new, hnew⟩ := hgrown
      obtain ⟨p, hp, hsp⟩ := hs
      rw [← hnew, List.getElem?_append_left hold] at hp
      exact (ih ⟨p, hp, hsp⟩).steps (.single hstep)
    · -- The program has been added by the latest call.
      obtain ⟨⟨start, hc⟩, hlength⟩ := Steps.resting h
      have hlt := hs.lt
      cases hstep with
      | call hcall =>
        have hc' := hc.calls (.single hcall)
        have hle := hc.consistent.start_le
        obtain ⟨path, hout⟩ := hc'.consistent.recorded n (by omega) hlt
        obtain ⟨-, u, hu, hpath, hprogrammed⟩ := hc'.consistent.compiled path n hout
        obtain ⟨id, hid, hcompleted⟩ := hc'.consistent.completed hprogrammed hu hs
        refine ⟨c', u, i, id, h.tail (.call hcall), .refl, hu, compile_of_recorded ?_, hid, hs, hcompleted⟩
        rw [hpath]
        exact hout
      | reset => exact absurd hlt hold
      | keepCompiled program hprogram =>
        rw [show (c.keepCompiled program).library = c.library from library_register ..] at hlt
        exact absurd hlt hold

/-! ### Bases -/

theorem base_of_whole {l : Library} (hl : l.Whole) {x y : Nat × Script} (h : l.Base x y)
    (hx : ∃ i, l.Has x.1 i x.2) : (∃ i, l.Has y.1 i y.2) ∧ y.2.members <+: x.2.members := by
  obtain ⟨ref, href, hy⟩ := h
  obtain ⟨i, hx⟩ := hx
  obtain ⟨m, b, hb, hmembers⟩ := hl.base x.1 i x.2 ref hx href
  rw [hb.script?] at hy
  cases hy
  exact ⟨hb.has, hmembers⟩

theorem bases_of_whole {l : Library} (hl : l.Whole) {x y : Nat × Script} (h : Relation.ReflTransGen l.Base x y)
    (hx : ∃ i, l.Has x.1 i x.2) : (∃ i, l.Has y.1 i y.2) ∧ y.2.members <+: x.2.members := by
  induction h with
  | refl => exact ⟨hx, List.prefix_rfl⟩
  | tail _ hbase ih =>
    obtain ⟨hz, hmembers⟩ := base_of_whole hl hbase ih.1
    exact ⟨hz, hmembers.trans ih.2⟩

/-- **The outcome of a file is settled, and bases are scripts of compiled files.** In the course of a project,
whatever has been compiled, has failed or has been analysed before: when a file is compiled,
* each later call on a file at the path ends alike and changes nothing, as does one on a file whose compilation
  has ended meanwhile, and no program is lost;
* if there is a program, then each of its scripts and each script that these derive from is valid and complete
  and belongs to a program that was returned for a file, and all their bases are there;
* the base of any table, also of a file that has failed, is a class of the same file with a complete table, or a
  script of a program that was returned for a file; and the table has the variables of the base. -/
theorem Steps.compile_settled {unit : Nat} {r : Except CompileError Nat} (h : Steps { session := { env } } c)
    (hunit : unit < c.session.files.length) (hc : c.compile unit = (r, c')) :
    (∀ c'', Calls c' c'' → c'.library <+: c''.library ∧
      (∀ u, c''.session.pathOf u = c.session.pathOf unit → c''.compile u = (r, c'')) ∧
      ∀ u r', c'.outcomes.get? (c''.session.pathOf u) = some (Compile.outcomeOf r') → c''.compile u = (r', c'')) ∧
    (∀ n, r = .ok n → (∃ s, c'.library.Has n 0 s) ∧ ∀ i s m b, c'.library.Has n i s →
      Relation.ReflTransGen c'.library.Base (n, s) (m, b) →
      b.isValid = true ∧ Compiled env c' m b ∧ (b.base ≠ none → ∃ y, c'.library.Base (m, b) y)) ∧
    ∀ id t ref, c'.drafts.get? id = some t → t.base = some ref →
      (∃ j b u, ref = .own j ∧ (Compile.classIds c'.session id.unit)[j]? = some b ∧
        c'.drafts.get? b = some u ∧ u.members <+: t.members) ∨
      ∃ n j s, ref = .foreign n j ∧ c'.library.Has n j s ∧ Compiled env c' n s ∧ s.members <+: t.members := by
  obtain ⟨⟨start, hrest⟩, -⟩ := h.resting
  have hcall : Call c c' := by
    have hcompile := Call.compile (c := c) unit hunit
    rwa [hc] at hcompile
  have hrest' := hrest.calls (.single hcall)
  have hsteps : Steps { session := { env } } c' := h.tail (.call hcall)
  have hrecorded := hrest.recorded hc
  have hwhole := hrest'.consistent.whole
  refine ⟨fun c'' hcalls => ?_, fun n hn => ?_, fun id t ref ht href => ?_⟩
  · have honward := hcalls.onward hrest'.consistent
    refine ⟨honward.library, fun u hu => compile_of_recorded ?_, fun u r' hr' => ?_⟩
    · rw [hu]
      exact honward.outcomes _ _ hrecorded
    · exact compile_of_recorded (honward.outcomes _ _ hr')
  · subst hn
    obtain ⟨-, u, -, -, p, hp, -⟩ := hrest'.consistent.compiled _ n hrecorded
    refine ⟨?_, fun i s m b hs hbases => ?_⟩
    · obtain ⟨s, rest, hscripts⟩ := List.exists_cons_of_ne_nil (hwhole.main p (List.mem_of_getElem? hp))
      exact ⟨s, p, hp, by rw [hscripts]; rfl⟩
    · obtain ⟨⟨j, hb⟩, -⟩ := bases_of_whole hwhole hbases ⟨i, hs⟩
      refine ⟨hwhole.valid m j b hb, hsteps.compiled hb, fun hbase => ?_⟩
      obtain ⟨ref, href⟩ := Option.ne_none_iff_exists'.1 hbase
      obtain ⟨k, d, hd, -⟩ := hwhole.base m j b ref hb href
      exact ⟨(k, d), ref, href, hd.script?⟩
  · obtain ⟨inherited, earlier, hinherits, -, hmembers⟩ := (hrest'.consistent.drafted id t ht).complete
    have hgrown : inherited <+: t.members := hmembers ▸ List.prefix_append ..
    rw [href] at hinherits
    cases hinherits with
    | own hj hu => exact .inl ⟨_, _, _, rfl, hj, hu, hgrown⟩
    | foreign hs => exact .inr ⟨_, _, _, rfl, hs, hsteps.compiled hs, hgrown⟩

/-- A script of a library, with what is said of it. -/
theorem exists_has {α : Type} {l : Library} {n i : Nat} (f : Script → α) {a : α}
    (h : ((l[n]?).bind fun p => p.scripts[i]?).map f = some a) : ∃ s, l.Has n i s ∧ f s = a := by
  obtain ⟨s, hs, ha⟩ := Option.map_eq_some_iff.1 h
  obtain ⟨p, hp, hps⟩ := Option.bind_eq_some_iff.1 hs
  exact ⟨s, ⟨p, hp, hps⟩, ha⟩

/-- A file is loaded by its path. -/
def loaded (c : Compiler) (path : Text) : Compiler := { c with session := (c.session.fetch path).2 }

theorem steps_ofProject (p : Project) (path : Text) :
    Steps { session := { env := { p.environment {} with catalog := {} } } } (ofProject p path) :=
  .single (.call (.load path))

/-- A file that derives from a faulty one has been compiled in vain, and another one is loaded. -/
def failedFirst : Compiler :=
  let project : Project := .ofFiles
    [("a.gd", "extends \"b.gd\".Inner\nvar n = 2\n"), ("b.gd", "var m = 1\nclass Inner:\n\tvar k = 3\n"),
     ("c.gd", "extends \"d.gd\"\n"), ("d.gd", "func f():\n\treturn x\n")]
  ((ofProject project "res://c.gd").compile 0).2.loaded "res://a.gd"

theorem steps_failedFirst : ∃ env, Steps { session := { env } } failedFirst := by
  refine ⟨_, .tail (.tail (steps_ofProject _ "res://c.gd") (.call (.compile 0 ?_))) (.call (.load "res://a.gd"))⟩
  decide +kernel

theorem compile_settled_failedFirst : ∃ c', failedFirst.compile 2 = (.ok 1, c') ∧
    (∀ c'', Calls c' c'' → ∀ u, c''.session.pathOf u = "res://a.gd" → c''.compile u = (.ok 1, c'')) ∧
    ∀ i s m b, c'.library.Has 1 i s → Relation.ReflTransGen c'.library.Base (1, s) (m, b) → b.isValid = true := by
  obtain ⟨env, hsteps⟩ := steps_failedFirst
  have hunit : 2 < failedFirst.session.files.length := by decide +kernel
  have hpath : failedFirst.session.pathOf 2 = "res://a.gd" := by decide +kernel
  have hok : (failedFirst.compile 2).1.toOption = some 1 := by decide +kernel
  rcases hr : failedFirst.compile 2 with ⟨e | n, c'⟩
  · rw [hr] at hok
    cases hok
  · rw [hr] at hok
    obtain rfl : n = 1 := Option.some.inj hok
    obtain ⟨hlater, hbases, -⟩ := Steps.compile_settled hsteps hunit hr
    refine ⟨c', rfl, fun c'' hcalls u hu => (hlater c'' hcalls).2.1 u (hu.trans hpath.symm), ?_⟩
    exact fun i s m b hs hb => ((hbases 1 rfl).2 i s m b hs hb).1

/-- **The variables of a script go on after those of its bases.** In the course of a project, also with bases
that are known only in compiled form: the variables of a script are numbered in their order, those of
each script that it derives from come first, and so a name that the code of a base uses for a variable is the
same variable in the script. -/
theorem Steps.members_extend (h : Steps { session := { env } } c) {n i : Nat} {s : Script}
    (hs : c.library.Has n i s) : s.Indexed ∧
    ∀ m b, Relation.ReflTransGen c.library.Base (n, s) (m, b) → b.members <+: s.members ∧
      ∀ name v, b.member? name = some v → s.member? name = some v := by
  obtain ⟨⟨start, hrest⟩, -⟩ := h.resting
  have hwhole := hrest.consistent.whole
  refine ⟨hwhole.indexed n i s hs, fun m b hbases => ?_⟩
  obtain ⟨-, hgrown⟩ := bases_of_whole hwhole hbases ⟨i, hs⟩
  refine ⟨hgrown, fun name v hv => ?_⟩
  obtain ⟨own, hown⟩ := hgrown
  unfold Script.member? at hv ⊢
  rw [← hown, List.find?_append, hv, Option.some_or]

/-- A file that derives from another and declares a variable of the same name. -/
def shadowingProject : Project := .ofFiles [("a.gd", "var m = 1\n"), ("b.gd", "extends \"a.gd\"\nvar m = 2\n")]

/-- The base is known only in compiled form. -/
def keptBase : Compiler :=
  (((ofProject shadowingProject "res://a.gd").compile 0).2.keepCompiled 0).loaded "res://b.gd"

theorem steps_keptBase : ∃ env, Steps { session := { env } } (keptBase.compile 0).2 := by
  refine ⟨_, .tail (.tail (.tail (.tail (steps_ofProject _ "res://a.gd") (.call (.compile 0 ?_)))
    (.keepCompiled 0 ?_)) (.call (.load "res://b.gd"))) (.call (.compile 0 ?_))⟩
  all_goals decide +kernel

theorem members_extend_keptBase : ∃ s b, (keptBase.compile 0).2.library.Has 1 0 s ∧
    (keptBase.compile 0).2.library.Has 0 0 b ∧ b.members <+: s.members := by
  obtain ⟨env, hsteps⟩ := steps_keptBase
  obtain ⟨s, hs, href⟩ : ∃ s, (keptBase.compile 0).2.library.Has 1 0 s ∧ s.base = some (.foreign 0 0) :=
    exists_has Script.base (by decide +kernel)
  obtain ⟨b, hb, -⟩ : ∃ b, (keptBase.compile 0).2.library.Has 0 0 b ∧ b.isValid = true :=
    exists_has Script.isValid (by decide +kernel)
  exact ⟨s, b, hs, hb, ((Steps.members_extend hsteps hs).2 0 b (.single ⟨_, href, hb.foreign 1⟩)).1⟩

/-- A file is compiled though it declares a variable that its base has, if the base is known only in compiled
form: two variables of its script have one name. With the source of the base, the analysis finds the error. -/
theorem declared_twice_keptBase :
    (keptBase.compile 0).1.toOption = some 1 ∧
    (∃ s, (keptBase.compile 0).2.library.Has 1 0 s ∧ ¬ (s.members.map MemberSlot.name).Nodup) ∧
    complaintOf ((ofProject shadowingProject "res://b.gd").compile 0).1 =
      some "res://b.gd:2:1: The member \"m\" already exists in parent class res://a.gd." := by
  refine ⟨by decide +kernel, ?_, by decide +kernel⟩
  obtain ⟨s, hs, hnames⟩ : ∃ s, (keptBase.compile 0).2.library.Has 1 0 s ∧
      s.members.map MemberSlot.name = ["m", "m"] := exists_has (fun s => s.members.map MemberSlot.name) (by decide +kernel)
  exact ⟨s, hs, by rw [hnames]; decide⟩

end Compiler

end GameScript
