import GameScript.Proofs.Ranges.Files

/-!
# Operands of the programs of a project

A compiler keeps the programs and the tables of classes that it has made. `Compiler.InRange` holds of a
new compiler, and compilation keeps it up, also where it fails: the table of a class has the variables of
its base, which come from another table or from a program, and then its own.
-/

namespace GameScript

/-! ### Compilers -/

/-- What a compiler has made is in range. -/
structure Compiler.InRange (c : Compiler) : Prop where
  drafts : ∀ id t, c.drafts.get? id = some t → t.Numbered
  programs : ∀ p ∈ c.library, p.InRange ∧ ∀ s ∈ p.scripts, s.Numbered
  outcomes : ∀ path n, c.outcomes.get? path = some (.compiled n) → n < c.library.length

namespace Compile

variable {α β : Type} {c : Compiler} {Q : α → Compiler → Prop} {E : CompileError → Compiler → Prop}

/-! ### Ends of steps -/

/-- Taken in `c`, the step `x` ends with a result and a state of `Q`, or with an error and a state of
`E`. -/
def After (x : Compile α) (c : Compiler) (Q : α → Compiler → Prop)
    (E : CompileError → Compiler → Prop) : Prop :=
  match x.run c with
  | (.ok a, c') => Q a c'
  | (.error e, c') => E e c'

theorem run_bind (x : Compile α) (f : α → Compile β) (c : Compiler) :
    (x >>= f).run c = match x.run c with
      | (.ok a, c') => (f a).run c'
      | (.error e, c') => (.error e, c') := by
  show (match x.run c with | (r, c') => (ExceptT.bindCont f r) c') = _
  rcases x.run c with ⟨_ | _, _⟩ <;> rfl

@[simp] theorem after_bind {x : Compile α} {f : α → Compile β} {Q : β → Compiler → Prop} :
    After (x >>= f) c Q E ↔ After x c (fun a c' => After (f a) c' Q E) E := by
  unfold After
  rw [run_bind]
  rcases x.run c with ⟨_ | _, _⟩ <;> rfl

theorem After.bind {x : Compile α} {f : α → Compile β} {P : α → Compiler → Prop}
    {Q : β → Compiler → Prop} (hx : After x c P E) (hf : ∀ a c', P a c' → After (f a) c' Q E) :
    After (x >>= f) c Q E := by
  rw [after_bind]
  unfold After at hx ⊢
  revert hx
  rcases x.run c with ⟨_ | a, c'⟩
  · exact id
  · exact hf a c'

@[simp] theorem after_pure {a : α} : After (pure a) c Q E ↔ Q a c := Iff.rfl

@[simp] theorem after_get {Q : Compiler → Compiler → Prop} : After get c Q E ↔ Q c c := Iff.rfl

@[simp] theorem after_set {c' : Compiler} {Q : PUnit → Compiler → Prop} :
    After (set c') c Q E ↔ Q () c' := Iff.rfl

@[simp] theorem after_modify {f : Compiler → Compiler} {Q : PUnit → Compiler → Prop} :
    After (modify f) c Q E ↔ Q () (f c) := Iff.rfl

@[simp] theorem after_throw {e : CompileError} : After (throw e) c Q E ↔ E e c := Iff.rfl

@[simp] theorem after_report {unit : Nat} {pos : Pos} {f : CompileFault} :
    After (report unit pos f) c Q E ↔ E (.fault (c.session.pathOf unit) pos f) c := Iff.rfl

theorem after_lift {x : StateM Compiler α} : After (ExceptT.lift x) c Q E ↔ Q (x.run c).1 (x.run c).2 :=
  Iff.rfl

/-- A step that keeps the compiler in range, also if it fails, and whose result satisfies `R`. -/
def Keeps (x : Compile α) (R : α → Prop) : Prop :=
  ∀ c, c.InRange → After x c (fun a c' => c'.InRange ∧ R a) fun _ c' => c'.InRange

theorem Keeps.bind {x : Compile α} {f : α → Compile β} {P : α → Prop} {R : β → Prop}
    (hx : Keeps x P) (hf : ∀ a, P a → Keeps (f a) R) : Keeps (x >>= f) R :=
  fun c hc => (hx c hc).bind fun a c' ⟨hc', ha⟩ => hf a ha c' hc'

theorem pure_keeps {a : α} {R : α → Prop} (h : R a) : Keeps (pure a) R := fun _ hc => ⟨hc, h⟩

theorem get_keeps : Keeps get fun c => c.InRange := fun _ hc => ⟨hc, hc⟩

theorem report_keeps {unit : Nat} {pos : Pos} {f : CompileFault} {R : α → Prop} :
    Keeps (report unit pos f) R := fun _ hc => hc

/-- A change of what is neither a program nor a table nor an outcome. -/
theorem inRange_of_same {c c' : Compiler} (h : c.InRange) (hd : c'.drafts = c.drafts)
    (hl : c'.library = c.library) (ho : c'.outcomes = c.outcomes) : c'.InRange :=
  ⟨hd ▸ h.drafts, hl ▸ h.programs, by rw [ho, hl]; exact h.outcomes⟩

/-! ### Tables of classes -/

theorem numbered_inherit {t base : Script} (h : base.Numbered) (ref : ScriptRef) :
    (inherit t ref base).Numbered := h

/-- A new variable gets the next number. -/
theorem numbered_addMember (s : Session) (unit : Nat) {t : Script} (h : t.Numbered) (m : Member) :
    (addMember s unit t m).Numbered := by
  cases m with
  | var d =>
    intro x hx
    simp only [addMember, List.length_append, List.length_singleton] at hx ⊢
    rcases List.mem_append.mp hx with hx | hx
    · have := h x hx
      omega
    · rw [List.mem_singleton.mp hx]
      simp [variableOf]
  | enum d =>
    unfold addMember
    dsimp only
    split
    · exact h
    · exact h
  | const | signal | enumValue | cls | func | group => exact h

theorem numbered_addMembers (s : Session) (unit : Nat) (ms : List Member) {t : Script}
    (h : t.Numbered) : (ms.foldl (addMember s unit) t).Numbered := by
  induction ms generalizing t with
  | nil => exact h
  | cons m ms ih => exact ih (numbered_addMember s unit h m)

theorem foreign_keeps (number : Nat × Nat) : Keeps (foreign number) fun r => r.2.Numbered := by
  intro c hc
  unfold foreign
  rw [after_bind, after_get]
  dsimp only
  split
  · rename_i s hs
    refine ⟨hc, ?_⟩
    simp only [Library.script?, Option.bind_eq_bind, Option.bind_eq_some_iff] at hs
    obtain ⟨p, hp, t, ht, h⟩ := hs
    cases h
    exact (hc.programs p (List.mem_of_getElem? hp)).2 _ (List.mem_of_getElem? ht)
  · exact ⟨hc, Script.numbered_default⟩

/-- A new program is the last one of the library. -/
theorem addProgram_keeps (unit : Nat) {p : Program} (hp : p.InRange ∧ ∀ s ∈ p.scripts, s.Numbered)
    {c : Compiler} (hc : c.InRange) :
    After (addProgram unit p) c (fun n c' => c'.InRange ∧ n < c'.library.length)
      fun _ c' => c'.InRange := by
  unfold addProgram
  rw [after_bind, after_get, after_bind, after_set, after_pure]
  refine ⟨⟨hc.drafts, fun q hq => ?_, fun path n hn => ?_⟩, by simp⟩
  · rcases List.mem_append.mp hq with hq | hq
    · exact hc.programs q hq
    · rw [List.mem_singleton.mp hq]
      exact hp
  · have := hc.outcomes path n hn
    simp only [List.length_append, List.length_singleton]
    omega

theorem forM_keeps {f : α → Compile PUnit} (hf : ∀ a, Keeps (f a) fun _ => True) (xs : List α) :
    Keeps (xs.forM f) fun _ => True := by
  induction xs with
  | nil => exact pure_keeps trivial
  | cons x xs ih => exact (hf x).bind fun _ _ => ih

theorem enter_keeps (id : DeclId) (r : ClassRecord) : Keeps (enter id r) fun _ => True := by
  intro c hc
  have hentered : ∀ ids ids', Compiler.InRange { c with drafting := ids, entered := ids' } :=
    fun _ _ => inRange_of_same hc rfl rfl rfl
  unfold enter
  rw [after_bind, after_get]
  dsimp only
  split
  · exact hc
  · rw [after_bind, after_set]
    split
    · split
      · exact hentered _ _
      · exact ⟨hentered _ _, trivial⟩
    · exact ⟨hentered _ _, trivial⟩

theorem numbered_blank (s : Session) (id : DeclId) (r : ClassRecord) (native : Text) :
    Script.Numbered { blank s id r with native } := by
  intro m hm
  cases hm

theorem complete_keeps (id : DeclId) (r : ClassRecord) {table : Script} (h : table.Numbered) :
    Keeps (complete id r table) Script.Numbered := by
  intro c hc
  unfold complete
  rw [after_bind, after_get]
  dsimp only
  have ht := numbered_addMembers c.session id.unit r.decl.members h
  rw [after_bind, after_set, after_pure]
  refine ⟨⟨fun id' t ht' => ?_, hc.programs, hc.outcomes⟩, ht⟩
  rw [Table.get?_set] at ht'
  split at ht'
  · cases ht'
    exact ht
  · exact hc.drafts id' t ht'

theorem build_keeps (unit : Nat) (path : Text) (start : Pos) {draft : Compile Script}
    (hd : Keeps draft Script.Numbered) {c : Compiler} (hc : c.InRange) :
    After (build unit path start draft) c (fun n c' => c'.InRange ∧ n < c'.library.length)
      fun _ c' => c'.InRange := by
  unfold build
  rw [after_bind, after_get]
  dsimp only
  split
  · exact hc
  · refine (hd c hc).bind fun _ c₁ ⟨hc₁, _⟩ => ?_
    rw [after_bind, after_get]
    have htrace : ∀ trace, Compiler.InRange { c₁ with trace } := fun _ => inRange_of_same hc₁ rfl rfl rfl
    rw [after_bind, after_modify]
    split
    · rename_i he
      exact addProgram_keeps unit (lowerFile_inRange c₁ unit hc₁.drafts (Prod.ext rfl he)) (htrace _)
    · exact htrace _

/-! ### Compilation -/

/-- How the compilation of a file is recorded. -/
def outcomeOf : Except CompileError Nat → Outcome
  | .ok n => .compiled n
  | .error e => .failed e

theorem run_compileFile (fuel unit : Nat) (c : Compiler) :
    (compileFile (fuel + 1) unit).run c =
      match c.outcomes.get? (c.session.pathOf unit) with
      | some (.compiled n) => (.ok n, c)
      | some (.failed e) => (.error e, c)
      | some .compiling => (.error (.fault (c.session.pathOf unit) (startOf c.session unit)
          (.cyclicClass (c.session.pathOf unit))), c)
      | none =>
        let path := c.session.pathOf unit
        let r := (build unit path (startOf c.session unit) (draft fuel (Session.mainClass unit))).run
          { c with
            session := (c.session.raise unit .body).2
            outcomes := c.outcomes.set path .compiling }
        (r.1, { r.2 with
          outcomes := r.2.outcomes.set path (outcomeOf r.1)
          drafting := c.drafting }) := by
  unfold compileFile
  rcases h : c.outcomes.get? (c.session.pathOf unit) with _ | _ | n | e
  all_goals
    show (StateT.run (match c.outcomes.get? (c.session.pathOf unit) with
      | some (.compiled n) => _ | some (.failed e) => _ | some .compiling => _ | none => _) c) = _
    rw [h]
    rfl

/-- The compilation of a file is begun. -/
theorem inRange_begun {c : Compiler} (hc : c.InRange) (unit : Nat) : Compiler.InRange { c with
    session := (c.session.raise unit .body).2
    outcomes := c.outcomes.set (c.session.pathOf unit) .compiling } := by
  refine ⟨hc.drafts, hc.programs, fun path n hn => ?_⟩
  rw [Table.get?_set] at hn
  split at hn
  · cases hn
  · exact hc.outcomes path n hn

/-- The compiler is in range, and the result is the number of a program. -/
def Filed (r : Except CompileError Nat × Compiler) : Prop :=
  r.2.InRange ∧ ∀ n, r.1 = .ok n → n < r.2.library.length

mutual

theorem draft_keeps (fuel : Nat) (id : DeclId) : Keeps (draft fuel id) Script.Numbered := by
  match fuel with
  | 0 => exact report_keeps
  | fuel + 1 =>
    unfold draft
    refine get_keeps.bind fun c hc => ?_
    split
    · rename_i ht
      exact pure_keeps (hc.drafts id _ ht)
    · exact pure_keeps Script.numbered_default
    · rename_i r _ _
      refine (enter_keeps id r).bind fun _ _ => ?_
      refine Keeps.bind (P := Script.Numbered) ?_ fun table htable => ?_
      · split
        · split
          · exact (draft_keeps fuel _).bind fun base hbase => pure_keeps (numbered_inherit hbase _)
          · exact (compileBase_keeps fuel _ _ _).bind fun x hx => pure_keeps (numbered_inherit hx _)
        · split
          · exact (foreign_keeps _).bind fun x hx => pure_keeps (numbered_inherit hx _)
          · exact pure_keeps (numbered_blank _ _ _ _)
        · exact pure_keeps (numbered_blank _ _ _ _)
      · refine (complete_keeps id r htable).bind fun t ht => ?_
        refine get_keeps.bind fun c' hc' => ?_
        refine (forM_keeps (fun inner => ?_) _).bind fun _ _ => ?_
        · exact (draft_keeps fuel inner).bind fun _ _ => pure_keeps trivial
        · refine Keeps.bind (P := fun _ => True) (fun c hc => ?_) fun _ _ => pure_keeps ht
          rw [after_modify]
          exact ⟨inRange_of_same hc rfl rfl rfl, trivial⟩

theorem compileBase_keeps (fuel unit : Nat) (pos : Pos) (base : DeclId) :
    Keeps (compileBase fuel unit pos base) fun r => r.2.Numbered := by
  match fuel with
  | 0 => exact report_keeps
  | fuel + 1 =>
    intro c hc
    unfold compileBase
    rw [after_bind, after_get]
    dsimp only
    have hset : ∀ session, Compiler.InRange { c with session } := fun _ => inRange_of_same hc rfl rfl rfl
    rw [after_bind, after_set]
    split
    · exact hset _
    · rw [after_bind, after_lift]
      obtain ⟨hfile, -⟩ := compileFile_filed fuel _ (hset (c.session.fetch (c.session.pathOf base.unit)).2)
      split
      · exact hfile
      · rw [after_bind, after_get]
        split
        · exact foreign_keeps _ _ hfile
        · exact hfile

theorem compileFile_filed (fuel unit : Nat) {c : Compiler} (hc : c.InRange) :
    Filed ((compileFile fuel unit).run c) := by
  match fuel with
  | 0 => exact ⟨hc, fun n hn => by cases hn⟩
  | fuel + 1 =>
    rw [run_compileFile]
    split
    · rename_i n hn
      exact ⟨hc, fun m hm => by cases hm; exact hc.outcomes _ n hn⟩
    · exact ⟨hc, fun n hn => by cases hn⟩
    · exact ⟨hc, fun n hn => by cases hn⟩
    · have hbuild := build_keeps unit (c.session.pathOf unit) (startOf c.session unit)
        (draft_keeps fuel (Session.mainClass unit)) (inRange_begun hc unit)
      unfold After at hbuild
      dsimp only
      split at hbuild
      · rename_i n c' heq
        rw [heq]
        obtain ⟨hc', hn⟩ := hbuild
        refine ⟨⟨hc'.drafts, hc'.programs, fun path m hm => ?_⟩, fun m hm => by cases hm; exact hn⟩
        rw [Table.get?_set] at hm
        split at hm
        · cases hm
          exact hn
        · exact hc'.outcomes path m hm
      · rename_i e c' heq
        rw [heq]
        refine ⟨⟨hbuild.drafts, hbuild.programs, fun path m hm => ?_⟩, fun m hm => by cases hm⟩
        rw [Table.get?_set] at hm
        split at hm
        · cases hm
        · exact hbuild.outcomes path m hm

end

end Compile

/-! ### Projects -/

/-- The compilers of a project: a new one, and what becomes of one when a file is compiled, when it is
told to forget what has been compiled, when a program is kept without its source, and when the analysis
goes on or the files change. -/
inductive Compiler.Reached : Compiler → Prop
  | new (s : Session) : Reached { session := s }
  | compile {c : Compiler} (unit : Nat) : Reached c → Reached (c.compile unit).2
  | reset {c : Compiler} : Reached c → Reached c.reset
  | keepCompiled {c : Compiler} (program : Nat) : Reached c → Reached (c.keepCompiled program)
  | analysis {c : Compiler} (s : Session) : Reached c → Reached { c with session := s }

namespace Compiler

theorem library_register (c : Compiler) (native : Text) (numbers : List (Nat × Nat)) :
    (c.register native numbers).2.library = c.library := by
  induction numbers generalizing c with
  | nil => rfl
  | cons number bases ih =>
    unfold register
    split
    · rfl
    · exact ih c

theorem Reached.inRange {c : Compiler} (h : c.Reached) : c.InRange := by
  induction h with
  | new s => exact ⟨by simp [Table.get?], by simp, by simp [Table.get?]⟩
  | compile unit _ ih => exact (Compile.compileFile_filed _ unit ih).1
  | reset _ ih => exact ⟨by simp [Compiler.reset, Table.get?], ih.programs, by simp [Compiler.reset, Table.get?]⟩
  | keepCompiled program _ ih =>
    refine ⟨by simp [Compiler.keepCompiled, Table.get?], ?_, by simp [Compiler.keepCompiled, Table.get?]⟩
    unfold Compiler.keepCompiled
    dsimp only
    rw [library_register]
    exact ih.programs
  | analysis s _ ih => exact Compile.inRange_of_same ih rfl rfl rfl

/-- **What compiled code refers to exists.** If a compiler of a project compiles a file, the result is a
program of its library. Each function of the program has a script there and consists of instructions:
every operand is the number of a variable, a temporary, a constant, a name, a function, an operator or a
type that exists, every jump leads to an instruction or to the end of the code, and if some arguments are
optional there is an entry for each number of them, in increasing order and at instructions. -/
theorem compile_inRange {c c' : Compiler} (h : c.Reached) {unit n : Nat}
    (hc : c.compile unit = (.ok n, c')) : ∃ p, c'.library[n]? = some p ∧ p.InRange := by
  obtain ⟨hc', hn⟩ := Compile.compileFile_filed (c.session.fuel + 4) unit h.inRange
  have hrun : (Compile.compileFile (c.session.fuel + 4) unit).run c = (.ok n, c') := hc
  rw [hrun] at hc' hn
  have hlt := hn n rfl
  exact ⟨c'.library[n], List.getElem?_eq_getElem hlt, (hc'.programs _ (List.getElem_mem hlt)).1⟩

/-- A compiler of a project with one file. -/
def ofSource (path source : Text) : Compiler :=
  let file := (File.parse path source).toOption.getD default
  let env : Environment := { catalog := {}, load := fun _ => .error default, extent := 0 }
  { session := (Session.addFile { env } file).2 }

/-- A file with a variable, a class inside of it, optional arguments and a closure that captures one. -/
def closureProject : Compiler :=
  ofSource "res://closure.gd" ("var m = 1\nclass Inner:\n\tvar n = 2\n" ++
    "func f(a, b = 1, c = b):\n\treturn func(x): return x + a + m\n")

theorem compile_inRange_closure :
    (closureProject.compile 0).2.library.map (fun p => p.functions.map (·.entries)) =
      [[[], [1, 4, 7], [], []]] ∧
    ∃ p, (closureProject.compile 0).2.library[0]? = some p ∧ p.InRange := by
  refine ⟨by decide +kernel, ?_⟩
  have hok : (closureProject.compile 0).1.toOption = some 0 := by decide +kernel
  cases hrun : closureProject.compile 0 with
  | mk r c' =>
    rw [hrun] at hok
    cases r with
    | error e => cases hok
    | ok n =>
      obtain rfl : n = 0 := Option.some.inj hok
      exact compile_inRange (.new _) hrun

end Compiler

end GameScript
