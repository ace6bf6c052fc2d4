import GameScript.Proofs.Ranges.Projects
import GameScript.Proofs.Running.Calls
import GameScript.Proofs.Running.Plain

/-!
# Functions of a program

The functions of a class and of the classes inside of it are lowered one after another. The pool that they
share only grows, so the code of each of them is still there, under its number and with its constants,
when the file is complete: `Compiler.compile_realizes`. Constants that are written alike share one number
also if they are different; `Compiler.merged_constants_differ` is a function that suffers from this.
-/

namespace GameScript

/-! ### The functions of a class -/

/-- The methods and accessors among some members, with the names of their code. -/
def Member.methods : List Member → List (Func × Text)
  | [] => []
  | .func f :: ms => (f, f.nameText) :: methods ms
  | .var d :: ms =>
    d.getter.toList.map (·, d.getterLabel) ++ (d.setter.toList.map (·, d.setterLabel) ++ methods ms)
  | _ :: ms => methods ms

mutual

/-- The methods and accessors of a class and of the classes inside of it. -/
def ClassDecl.functions : ClassDecl → List (Func × Text)
  | ⟨_, _, _, members, _, _, _⟩ => Member.methods members ++ Member.innerFunctions members

def Member.innerFunctions : List Member → List (Func × Text)
  | [] => []
  | .cls d :: ms => d.functions ++ Member.innerFunctions ms
  | _ :: ms => Member.innerFunctions ms

end

/-- The result of a body whose last statement is a return. -/
def Block.result? (b : Block) : Option Expr :=
  match b.stmts.getLast? with
  | some (.return _ x _) => x
  | _ => none

/-! ### Pools that have the code of functions -/

/-- The plain ones of some functions have their code in the pool, if the constants of the program tell
theirs apart. -/
def Pool.Realizes (p : Pool) (notes : Pos → Note) (cs : List Value) (fs : List (Func × Text)) : Prop :=
  p.constants.map Prod.snd <+: cs → ∀ f name, (f, name) ∈ fs → f.Plain notes →
    (∀ v ∈ f.constants, Pool.Told cs v) → ∃ fn ∈ p.functions, fn.Realizes cs f name

namespace Pool.Realizes

variable {p p' : Pool} {notes : Pos → Note} {cs : List Value} {fs gs : List (Func × Text)}

theorem nil : p.Realizes notes cs [] := fun _ _ _ h => by cases h

theorem append (hf : p.Realizes notes cs fs) (hg : p.Realizes notes cs gs) :
    p.Realizes notes cs (fs ++ gs) := fun hc f name h =>
  (List.mem_append.mp h).elim (hf hc f name) (hg hc f name)

theorem le (h : p.Realizes notes cs fs) (hp : p.Le p') : p'.Realizes notes cs fs := by
  intro hc f name hf hplain htold
  obtain ⟨fn, hfn, hr⟩ := h ((hp.constants.map Prod.snd).trans hc) f name hf hplain htold
  exact ⟨fn, hp.functions.subset hfn, hr⟩

end Pool.Realizes

namespace Lower

variable {α β : Type} {size : Nat → Option Nat} {cs : List Value} {ctx : LowerContext}
  {fs gs : List (Func × Text)}

/-- A step that adds the code of some functions to the pool. -/
def Delivers (size : Nat → Option Nat) (cs : List Value) (ctx : LowerContext) (x : Lower α)
    (fs : List (Func × Text)) : Prop :=
  ∀ s, Between size s → s.gen.pool.Keyed → Ends x ctx s fun _ s' => Between size s' ∧
    s.gen.pool.Le s'.gen.pool ∧ s'.gen.pool.Realizes (ctx.session.noteAt ctx.unit) cs fs

theorem Delivers.bind {x : Lower α} {f : α → Lower β} (hx : Delivers size cs ctx x fs)
    (hf : ∀ a, Delivers size cs ctx (f a) gs) : Delivers size cs ctx (x >>= f) (fs ++ gs) := by
  intro s hs hk
  refine Ends.bind (hx s hs hk) fun a s₁ ⟨hs₁, h₁, hfs⟩ => ?_
  exact (hf a s₁ hs₁ (h₁.keyed hk)).post fun _ s₂ ⟨hs₂, h₂, hgs⟩ =>
    ⟨hs₂, h₁.trans h₂, (hfs.le h₂).append hgs⟩

/-- A step whose functions are not asked for. -/
theorem Collects.delivers {x : Lower α} {R : α → Prop} (h : Collects size ctx x R) :
    Delivers size cs ctx x [] :=
  fun s hs _ => (h s hs).post fun _ _ ⟨hs', hp, _⟩ => ⟨hs', hp, .nil⟩

theorem pure_delivers (a : α) : Delivers size cs ctx (pure a) [] :=
  (pure_collects (R := fun _ => True) trivial).delivers

/-- What is done with the result does not matter. -/
theorem Delivers.thenPure {x : Lower α} (hx : Delivers size cs ctx x fs) (f : α → β) :
    Delivers size cs ctx (do return f (← x)) fs := by
  have h := hx.bind fun a => pure_delivers (f a)
  rwa [List.append_nil] at h

theorem func_delivers (hctx : ctx.InRange size) (f : Func) (name : Text) :
    Delivers size cs ctx (func f name []) [(f, name)] := by
  intro s hs hk
  by_cases h : f.Plain (ctx.session.noteAt ctx.unit) ∧ ∀ v ∈ f.constants, Pool.Told cs v
  · refine (After.and (func_collects hctx f name [] s hs) (func_realizes h.1 h.2 hk)).post ?_
    rintro n s' ⟨⟨hs', hp, -⟩, hr⟩
    refine ⟨hs', hp, fun hc g name' hg _ _ => ?_⟩
    obtain ⟨rfl, rfl⟩ := Prod.mk.inj (List.mem_singleton.mp hg)
    obtain ⟨fn, hfn, hr⟩ := hr hc
    exact ⟨fn, List.mem_of_getElem? hfn, hr⟩
  · refine (func_collects hctx f name [] s hs).post fun n s' ⟨hs', hp, _⟩ => ⟨hs', hp, ?_⟩
    intro hc g name' hg hplain htold
    obtain ⟨rfl, rfl⟩ := Prod.mk.inj (List.mem_singleton.mp hg)
    exact absurd ⟨hplain, htold⟩ h

theorem funcs_deliver (hctx : ctx.InRange size) (name : Text) (fs : List Func) :
    Delivers size cs ctx (fs.mapM (func · name [])) (fs.map (·, name)) := by
  induction fs with
  | nil => exact pure_delivers _
  | cons f fs ih =>
    rw [List.mapM_cons]
    exact (func_delivers hctx f name).bind fun n => ih.thenPure (n :: ·)

theorem methods_deliver (hctx : ctx.InRange size) (ms : List Member) :
    Delivers size cs ctx (methods ms) (Member.methods ms) := by
  induction ms with
  | nil => exact pure_delivers _
  | cons m ms ih =>
    cases m with
    | func f => exact (func_delivers hctx f _).bind fun n => ih.thenPure (n :: ·)
    | var d =>
      exact (funcs_deliver hctx _ _).bind fun getter => (funcs_deliver hctx _ _).bind fun setter =>
        ih.thenPure (getter ++ setter ++ ·)
    | _ => exact ih

section Classes

variable {drafts : Table DeclId Script} {ids : List DeclId}

mutual

theorem classes_deliver (ctx : LowerContext)
    (hdrafts : ∀ id t, drafts.get? id = some t → t.Numbered) (id : DeclId) (d : ClassDecl)
    (hsize : ∀ i ∈ d.numbers ctx.unit id, size (ids.idxOf i) = some (draftOf drafts i).members.length) :
    Delivers size cs ctx (classes drafts ids id d) d.functions := by
  match d with
  | ⟨pos, name, base, members, isTool, usesOnready, close⟩ =>
    unfold classes ClassDecl.functions
    unfold ClassDecl.numbers at hsize
    have hctx := inRange_classContext ctx hdrafts (hsize id (by simp))
    refine Delivers.bind ?_ fun script => ?_
    · intro s hs hk
      unfold Ends
      rw [after_withReader]
      have hrest : ∀ ns : List Nat, Delivers size cs _ (do
          let init ← setter ⟨pos, name, base, members, isTool, usesOnready, close⟩ "@implicit_new" false
          let ready ← if usesOnready then
              some <$> setter ⟨pos, name, base, members, isTool, usesOnready, close⟩ "@implicit_ready" true
            else pure none
          pure { draftOf drafts id with methods := ns, init := some init, ready, isValid := true }) [] :=
        fun ns => Collects.delivers (R := fun _ => True) <| (setter_collects hctx _ _ _).bind fun _ _ => by
          dsimp only
          split
          · refine Collects.bind (P := fun _ => True) ?_ fun _ _ => pure_collects trivial
            exact (setter_collects hctx _ _ _).bind fun _ _ => pure_collects trivial
          · exact Collects.bind (pure_collects (R := fun _ => True) trivial)
              fun _ _ => pure_collects trivial
      have hmethods : Delivers size cs _ (methods members) _ := methods_deliver hctx members
      have h := hmethods.bind hrest
      rw [List.append_nil] at h
      exact h s hs hk
    · exact (innerClasses_deliver ctx hdrafts members fun i hi => hsize i (by simp [hi])).thenPure
        (script :: ·)

theorem innerClasses_deliver (ctx : LowerContext)
    (hdrafts : ∀ id t, drafts.get? id = some t → t.Numbered) (ms : List Member)
    (hsize : ∀ i ∈ Member.numbers ctx.unit ms,
      size (ids.idxOf i) = some (draftOf drafts i).members.length) :
    Delivers size cs ctx (innerClasses drafts ids ms) (Member.innerFunctions ms) := by
  match ms with
  | [] => exact pure_delivers _
  | m :: ms =>
    cases m with
    | cls d =>
      unfold innerClasses Member.innerFunctions
      unfold Member.numbers at hsize
      intro s hs hk
      unfold Ends
      rw [after_bind, after_read]
      exact ((classes_deliver ctx hdrafts _ d fun i hi => hsize i (by simp [hi])).bind fun scripts =>
        (innerClasses_deliver ctx hdrafts ms fun i hi => hsize i (by simp [hi])).thenPure (scripts ++ ·))
        s hs hk
    | _ => exact innerClasses_deliver ctx hdrafts ms hsize

end

end Classes

end Lower

/-! ### Programs -/

/-- The plain functions of a file have their code in its program, if the constants of the program tell
theirs apart. -/
def Program.Realizes (p : Program) (s : Session) (unit : Nat) : Prop :=
  ∀ f name, (f, name) ∈ (s.annotated unit).cls.functions → f.Plain (s.noteAt unit) →
    (∀ v ∈ f.constants, Pool.Told p.constants v) → ∃ fn ∈ p.functions, fn.Realizes p.constants f name

namespace Compile

theorem lowerFile_realizes (c : Compiler) (unit : Nat)
    (hdrafts : ∀ id t, c.drafts.get? id = some t → t.Numbered) {p : Program}
    (h : lowerFile c unit = (p, none)) : p.Realizes c.session unit := by
  obtain ⟨s, hrun, -, hconstants, hfunctions⟩ := run_lowerFile h
  have hdelivers : Lower.Delivers (scriptSize c unit) p.constants (fileContext c unit) _
      (c.session.annotated unit).cls.functions :=
    Lower.classes_deliver (fileContext c unit) hdrafts _ _ fun _ => scriptSize_idxOf c unit
  obtain ⟨-, -, hr⟩ := (hdelivers {} (between_start _) fun _ hc => by cases hc).of_run hrun
  intro f name hf hplain htold
  rw [hfunctions]
  exact hr (hconstants ▸ List.prefix_refl _) f name hf hplain htold

/-- The program of a file is built with the session that there is in the end. -/
theorem build_realizes (unit : Nat) (path : Text) (start : Pos) {draft : Compile Script}
    (hd : Keeps draft Script.Numbered) {c : Compiler} (hc : c.InRange) :
    After (build unit path start draft) c
      (fun n c' => ∃ p, c'.library[n]? = some p ∧ p.Realizes c'.session unit) fun _ c' => c'.InRange := by
  unfold build
  rw [after_bind, after_get]
  dsimp only
  split
  · exact hc
  · refine After.bind (hd c hc) fun _ c₁ ⟨hc₁, _⟩ => ?_
    rw [after_bind, after_get, after_bind, after_modify]
    split
    · rename_i he
      unfold addProgram
      rw [after_bind, after_get, after_bind, after_set, after_pure]
      exact ⟨_, by simp, lowerFile_realizes c₁ unit hc₁.drafts (Prod.ext rfl he)⟩
    · exact inRange_of_same hc₁ rfl rfl rfl

end Compile

namespace Compiler

/-- **Compiled code has the results of its source.** If a compiler of a project compiles a file, then every
plain function of the file whose constants the program tells apart has its code in the program: called
with as many arguments as the function admits, the code returns a value or fails with an error of an
operator exactly if the evaluation of the function does so, and with the same value or error. -/
theorem compile_realizes {c c' : Compiler} (h : c.Reached) {unit n : Nat}
    (hnew : c.outcomes.get? (c.session.pathOf unit) = none) (hc : c.compile unit = (.ok n, c')) :
    ∃ p, c'.library[n]? = some p ∧
      ∀ f name, (f, name) ∈ (c'.session.annotated unit).cls.functions →
        f.Plain (c'.session.noteAt unit) → (∀ v ∈ f.constants, Pool.Told p.constants v) →
        ∃ fn ∈ p.functions, fn.Realizes p.constants f name := by
  have hrun : (Compile.compileFile (c.session.fuel + 3 + 1) unit).run c = (.ok n, c') := hc
  rw [Compile.run_compileFile, hnew] at hrun
  have hbuild := Compile.build_realizes unit (c.session.pathOf unit) (Compile.startOf c.session unit)
    (Compile.draft_keeps (c.session.fuel + 3) (Session.mainClass unit))
    (Compile.inRange_begun h.inRange unit)
  unfold Compile.After at hbuild
  dsimp only at hrun
  split at hbuild
  · rename_i m c₁ heq
    rw [heq] at hrun
    cases hrun
    exact hbuild
  · rename_i e c₁ heq
    rw [heq] at hrun
    cases hrun

/-- A file whose function has an optional argument, a loop that is left and repeated early, a match and
choices. -/
def loopProject : Compiler :=
  ofSource "res://loop.gd" ("func f(n, k = n + 1):\n\tvar s = 0\n\twhile n > 0 and s < 100:\n\t\tn -= 1\n" ++
    "\t\tif n == 3:\n\t\t\tcontinue\n\t\telif n == -1:\n\t\t\tbreak\n\t\tmatch n:\n\t\t\t1, 2:\n\t\t\t\ts += k\n" ++
    "\t\t\tvar m:\n\t\t\t\ts += m if m else 7\n\treturn s\n")

theorem compile_realizes_loop : ∃ p f fn, (loopProject.compile 0).2.library[0]? = some p ∧
    (f, ("f" : Text)) ∈ ((loopProject.compile 0).2.session.annotated 0).cls.functions ∧ fn ∈ p.functions ∧
    ∀ args : List Value, 1 ≤ args.length → args.length ≤ 2 → fn.Implements p.constants f args := by
  have hok : (loopProject.compile 0).1.toOption = some 0 := by decide +kernel
  have hplain : ∀ p ∈ (loopProject.compile 0).2.library,
      (∀ fn ∈ p.functions, fn.Addressable p.constants) ∧
      ∃ e ∈ ((loopProject.compile 0).2.session.annotated 0).cls.functions, e.2 = "f" ∧
        e.1.Plain ((loopProject.compile 0).2.session.noteAt 0) ∧
        (∀ v ∈ e.1.constants, Pool.Told p.constants v) ∧
        (e.1.params.filter (·.default.isNone)).length = 1 ∧ e.1.params.length = 2 := by
    decide +kernel
  cases hrun : loopProject.compile 0 with
  | mk r c' =>
    rw [hrun] at hok hplain
    cases r with
    | error e => cases hok
    | ok n =>
      obtain rfl : n = 0 := Option.some.inj hok
      obtain ⟨p, hp, hr⟩ := compile_realizes (.new _) rfl hrun
      obtain ⟨hsmall, ⟨f, name⟩, hf, rfl, hplain, htold, hmin, hmax⟩ := hplain p (List.mem_of_getElem? hp)
      obtain ⟨fn, hfn, hr⟩ := hr f "f" hf hplain htold
      refine ⟨p, f, fn, hp, hf, hfn, fun args hle hge => hr.implements (hsmall fn hfn) args ?_ ?_⟩
      · rw [hr.minArgs, hmin]
        exact_mod_cast hle
      · rw [hr.maxArgs, hmax]
        exact_mod_cast hge

/-- A file with two constants that are written alike: one has an array as its key, the other a packed
array. -/
def mergingProject : Compiler :=
  ofSource "res://test.gd" ("const A = {PackedInt32Array([1]): 2}\nconst B = {[1]: 2}\n" ++
    "func f(x):\n\treturn x in A or x in B\n")

theorem merged_constants_differ :
    ∃ p ∈ (mergingProject.compile 0).2.library,
    ∃ e ∈ ((mergingProject.compile 0).2.session.annotated 0).cls.functions, ∃ fn ∈ p.functions,
      e.1.Plain ((mergingProject.compile 0).2.session.noteAt 0) ∧ fn.name = e.2 ∧
      fn.place = .ofPos e.1.pos ∧ fn.Addressable p.constants ∧
      (fn.run p.constants [.ofList [.int 1]] 20).bind Except.toOption = some (.bool false) ∧
      (e.1.eval [.ofList [.int 1]] 0).bind Except.toOption = some (.bool true) := by
  decide +kernel

end Compiler

end GameScript
