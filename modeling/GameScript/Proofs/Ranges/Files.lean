import GameScript.Compiler
import GameScript.Proofs.Ranges.Trees
import GameScript.Proofs.Temporaries.Trees

/-!
# Operands of a file

The functions of a class are lowered one after another with the tables of their class, and the scripts of
a program are those tables in the order in which the classes are visited. So a function finds its script
under its number: `Compile.lowerFile_inRange`.
-/

namespace GameScript

/-! ### Tables of variables -/

/-- The variables of a script have numbers below their count. -/
def Script.Numbered (t : Script) : Prop := ∀ m ∈ t.members, m.index.toNat < t.members.length

theorem Script.numbered_default : (default : Script).Numbered := by
  intro m hm
  cases hm

/-- The table of a class, empty if there is none. -/
def draftOf (drafts : Table DeclId Script) (id : DeclId) : Script := (drafts.get? id).getD default

theorem numbered_draftOf {drafts : Table DeclId Script}
    (h : ∀ id t, drafts.get? id = some t → t.Numbered) (id : DeclId) : (draftOf drafts id).Numbered := by
  unfold draftOf
  cases ht : drafts.get? id with
  | none => exact Script.numbered_default
  | some t => exact h id t ht

/-! ### The classes of a file -/

mutual

/-- The numbers of a class and of the classes inside of it, in the order in which they are visited. -/
def ClassDecl.numbers (unit : Nat) (id : DeclId) : ClassDecl → List DeclId
  | ⟨_, _, _, members, _, _, _⟩ => id :: Member.numbers unit members

def Member.numbers (unit : Nat) : List Member → List DeclId
  | [] => []
  | .cls d :: ms => d.numbers unit ⟨unit, d.anchor⟩ ++ Member.numbers unit ms
  | _ :: ms => Member.numbers unit ms

end

mutual

theorem map_fst_classRecords (unit : Nat) (outer : Option DeclId) (name : Text) (d : ClassDecl) :
    (classRecords unit outer name d).map Prod.fst =
      d.numbers unit ⟨unit, match outer with | none => .none | some _ => d.anchor⟩ := by
  match d with
  | ⟨pos, id, base, members, isTool, usesOnready, close⟩ =>
    unfold classRecords ClassDecl.numbers
    rw [List.map_cons, map_fst_memberRecords]
    cases outer <;> rfl

theorem map_fst_memberRecords (unit : Nat) (outer : DeclId) (name : Text) (ms : List Member) :
    (memberRecords unit outer name ms).map Prod.fst = Member.numbers unit ms := by
  match ms with
  | [] => rfl
  | m :: ms =>
    have ih := map_fst_memberRecords unit outer name ms
    unfold memberRecords Member.numbers
    cases m with
    | cls d => rw [List.map_append, map_fst_classRecords, ih]
    | _ => exact ih

end

theorem Session.anchor_annotatedClass (s : Session) (unit : Nat) (d : ClassDecl) :
    (s.annotatedClass unit d).anchor = d.anchor := by
  cases d
  rfl

mutual

/-- What was found in a class does not change which classes are in it. -/
theorem numbers_annotatedClass (s : Session) (unit : Nat) (id : DeclId) (d : ClassDecl) :
    (s.annotatedClass unit d).numbers unit id = d.numbers unit id := by
  match d with
  | ⟨pos, name, base, members, isTool, usesOnready, close⟩ =>
    unfold Session.annotatedClass ClassDecl.numbers
    rw [numbers_annotatedMembers]

theorem numbers_annotatedMembers (s : Session) (unit : Nat) (ms : List Member) :
    Member.numbers unit (s.annotatedMembers unit ms) = Member.numbers unit ms := by
  match ms with
  | [] => rfl
  | m :: ms =>
    have ih := numbers_annotatedMembers s unit ms
    unfold Session.annotatedMembers
    cases m with
    | cls d =>
      unfold Session.annotatedMember Member.numbers
      rw [ih, s.anchor_annotatedClass, numbers_annotatedClass]
    | _ => exact ih

end

namespace Lower

variable {α β : Type} {size : Nat → Option Nat}

/-! ### The functions of a class -/

/-- A state between functions. -/
structure Between (size : Nat → Option Nat) (s : Lowering) : Prop where
  instructions : s.gen.instructions = []
  binds : s.gen.binds = []
  vars : s.vars.entries = []
  pool : s.gen.pool.InRange size

theorem Between.inRange {s : Lowering} (h : Between size s) (ctx : LowerContext) :
    s.InRange size ctx :=
  ⟨by simp [h.instructions], by simp [h.instructions], by simp [Lowering.progress, h.binds],
    by simp [Table.get?, h.vars], h.pool⟩

/-- A step that adds functions to the pool. -/
def Collects (size : Nat → Option Nat) (ctx : LowerContext) (x : Lower α) (R : α → Prop) : Prop :=
  ∀ s, Between size s → After x ctx s
    (fun a s' => Between size s' ∧ s.gen.pool.Le s'.gen.pool ∧ R a) fun _ => True

variable {ctx : LowerContext}

theorem Collects.bind {x : Lower α} {f : α → Lower β} {P : α → Prop} {R : β → Prop}
    (hx : Collects size ctx x P) (hf : ∀ a, P a → Collects size ctx (f a) R) :
    Collects size ctx (x >>= f) R :=
  fun s hs => (hx s hs).bind fun a s₁ ⟨hs₁, h₁, ha⟩ =>
    (hf a ha s₁ hs₁).post fun _ _ ⟨hs₂, h₂, hb⟩ => ⟨hs₂, h₁.trans h₂, hb⟩

theorem pure_collects {a : α} {R : α → Prop} (h : R a) : Collects size ctx (pure a) R :=
  fun _ hs => ⟨hs, .refl _, h⟩

/-- A function that is lowered separately changes nothing but the pool. -/
theorem separately_apart (name : Text) (property : Option Text) (line : Int) (x : Lower Function)
    (s : Lowering) : After (separately name property line x) ctx s (fun _ s' =>
      s'.gen.instructions = s.gen.instructions ∧ s'.gen.binds = s.gen.binds ∧ s'.vars = s.vars)
      fun _ => True := by
  unfold After separately
  rcases x { ctx with function := name, property } { gen := { pool := s.gen.pool, line } } with
    ⟨_ | f, inner⟩
  · trivial
  · exact ⟨rfl, rfl, rfl⟩

/-- A step that changes nothing but the pool, and keeps that in range. -/
theorem Ranged.collects (hctx : ctx.InRange size) {x : Lower α} {R : Progress → α → Prop}
    (h : ∀ L, Ranged size L x R)
    (hsame : ∀ s, After x ctx s (fun _ s' => s'.gen.instructions = s.gen.instructions ∧
      s'.gen.binds = s.gen.binds ∧ s'.vars = s.vars) fun _ => True) :
    Collects size ctx x fun _ => True := by
  intro s hs
  refine ((h (s.progress ctx) ctx s hctx (hs.inRange ctx) le_rfl).and (hsame s)).post ?_
  rintro a s' ⟨⟨hs', hp, -⟩, hi, hb, hv⟩
  exact ⟨⟨hi.trans hs.instructions, hb.trans hs.binds, by rw [hv, hs.vars], hs'.functions⟩, hp.pool,
    trivial⟩

theorem func_collects (hctx : ctx.InRange size) (f : Func) (name : Text) (captures : List Ident) :
    Collects size ctx (func f name captures) fun _ => True := by
  refine Ranged.collects hctx (func_ranged f name captures) fun s => ?_
  obtain ⟨pos, id, params, returns, body, isStatic, role⟩ := f
  unfold func
  rw [after_bind, after_note]
  exact separately_apart _ _ _ _ s

theorem mapM_collects {f : α → Lower β} (hf : ∀ a, Collects size ctx (f a) fun _ => True)
    (xs : List α) : Collects size ctx (xs.mapM f) fun _ => True := by
  induction xs with
  | nil => exact pure_collects trivial
  | cons x xs ih =>
    rw [List.mapM_cons]
    exact (hf x).bind fun _ _ => ih.bind fun _ _ => pure_collects trivial

theorem methods_collects (hctx : ctx.InRange size) (ms : List Member) :
    Collects size ctx (methods ms) fun _ => True := by
  induction ms with
  | nil => exact pure_collects trivial
  | cons m ms ih =>
    cases m with
    | func f => exact (func_collects hctx f _ _).bind fun _ _ => ih.bind fun _ _ => pure_collects trivial
    | var d =>
      exact (mapM_collects (fun f => func_collects hctx f _ _) _).bind fun _ _ =>
        (mapM_collects (fun f => func_collects hctx f _ _) _).bind fun _ _ =>
          ih.bind fun _ _ => pure_collects trivial
    | _ => exact ih

theorem setVariables_runs (ready : Bool) (ms : List Member) (L : Progress) :
    Runs size L (setVariables ready ms) := by
  induction ms generalizing L with
  | nil => exact pure_runs _
  | cons m ms ih =>
    cases m with
    | var d =>
      unfold setVariables
      dsimp only
      split
      · refine (member_ranged none d.name.name).bind fun m L₁ h₁ hm => ?_
        refine (note_runs _).bind fun n L₂ h₂ _ => ?_
        refine (setLine_runs _).bind fun _ L₃ h₃ _ => ?_
        have hd := (within_member hm n.type).le (le_trans h₂ h₃)
        refine (balanced_ranged (initVariable_runs hd n ?_)).bind fun _ L₄ _ _ => ih L₄
        intro x hx
        obtain ⟨e, -, rfl⟩ := Option.mem_map.mp hx
        exact expr_locates e
      · exact ih L
    | _ => exact ih L

theorem setter_collects (hctx : ctx.InRange size) (d : ClassDecl) (name : Text) (ready : Bool) :
    Collects size ctx (setter d name ready) fun _ => True := by
  have hmakes : ∀ L, Makes size L (do
      setVariables ready d.members
      returnNil
      finish { name, place := .ofPos d.pos, returns := .ofBuiltin .nil } []) := fun L =>
    (setVariables_runs ready d.members L).bind fun _ L₁ _ _ => returnNil_emits.bind fun _ L₂ _ _ =>
      finish_makes rfl (.nil _ _ _)
  exact Ranged.collects hctx (fun L => separately_ranged name none _ hmakes)
    fun s => separately_apart _ _ _ _ s

/-! ### Classes -/

section Classes

variable {drafts : Table DeclId Script} {ids : List DeclId}

/-- The context in which the functions of a class are lowered. -/
theorem inRange_classContext (ctx : LowerContext)
    (hdrafts : ∀ id t, drafts.get? id = some t → t.Numbered) {id : DeclId}
    (hsize : size (ids.idxOf id) = some (draftOf drafts id).members.length) :
    LowerContext.InRange size
      { ctx with cls := id, script := draftOf drafts id, scriptIndex := ids.idxOf id } :=
  ⟨hsize, numbered_draftOf hdrafts id⟩

/-- The scripts of classes have the variables of their tables. -/
def ScriptsOf (drafts : Table DeclId Script) (numbers : List DeclId) (scripts : List Script) : Prop :=
  scripts.map Script.members = numbers.map fun id => (draftOf drafts id).members

mutual

theorem classes_collects (ctx : LowerContext)
    (hdrafts : ∀ id t, drafts.get? id = some t → t.Numbered) (id : DeclId) (d : ClassDecl)
    (hsize : ∀ i ∈ d.numbers ctx.unit id, size (ids.idxOf i) = some (draftOf drafts i).members.length) :
    Collects size ctx (classes drafts ids id d) (ScriptsOf drafts (d.numbers ctx.unit id)) := by
  match d with
  | ⟨pos, name, base, members, isTool, usesOnready, close⟩ =>
    unfold classes ClassDecl.numbers at *
    have hctx := inRange_classContext ctx hdrafts (hsize id (by simp))
    refine Collects.bind (P := fun t : Script => t.members = (draftOf drafts id).members) ?_
      fun script hscript => ?_
    · intro s hs
      rw [after_withReader]
      refine ((methods_collects hctx members).bind fun _ _ => (setter_collects hctx _ _ _).bind
        fun _ _ => ?_) s hs
      dsimp only
      split
      · refine Collects.bind (P := fun _ => True) ?_ fun _ _ => pure_collects rfl
        exact (setter_collects hctx _ _ _).bind fun _ _ => pure_collects trivial
      · exact Collects.bind (pure_collects (R := fun _ => True) trivial) fun _ _ => pure_collects rfl
    · refine (innerClasses_collects ctx hdrafts members fun i hi => hsize i (by simp [hi])).bind
        fun scripts hscripts => pure_collects ?_
      unfold ScriptsOf at *
      rw [List.map_cons, List.map_cons, hscript, hscripts]

theorem innerClasses_collects (ctx : LowerContext)
    (hdrafts : ∀ id t, drafts.get? id = some t → t.Numbered) (ms : List Member)
    (hsize : ∀ i ∈ Member.numbers ctx.unit ms,
      size (ids.idxOf i) = some (draftOf drafts i).members.length) :
    Collects size ctx (innerClasses drafts ids ms) (ScriptsOf drafts (Member.numbers ctx.unit ms)) := by
  match ms with
  | [] => exact pure_collects rfl
  | m :: ms =>
    cases m with
    | cls d =>
      unfold innerClasses
      unfold Member.numbers at hsize ⊢
      intro s hs
      rw [after_bind, after_read]
      refine ((classes_collects ctx hdrafts _ d fun i hi => hsize i (by simp [hi])).bind fun outer houter =>
        (innerClasses_collects ctx hdrafts ms fun i hi => hsize i (by simp [hi])).bind
          fun inner hinner => pure_collects ?_) s hs
      unfold ScriptsOf at *
      rw [List.map_append, List.map_append, houter, hinner]
    | _ => exact innerClasses_collects ctx hdrafts ms hsize

end

end Classes

end Lower

/-! ### Programs -/

/-- The functions of a program are in range: each has a script of the program, and all that it refers to
exists there. -/
def Program.InRange (p : Program) : Prop :=
  ∀ f ∈ p.functions, ∃ i s, f.script = some i ∧ p.scripts[i]? = some s ∧ ∃ is,
    f.InRange (f.scope s.members.length p.constants.length p.names.length p.functions.length) is

namespace Compile

/-- The classes of a file have the places of their numbers. -/
theorem getElem?_idxOf_classIds (s : Session) (unit : Nat) {id : DeclId}
    (h : id ∈ (s.annotated unit).cls.numbers unit (Session.mainClass unit)) :
    ((s.annotated unit).cls.numbers unit (Session.mainClass unit))[(classIds s unit).idxOf id]? =
      some id := by
  unfold Session.annotated classIds at *
  cases hr : s.files[unit]? with
  | some r =>
    simp only [hr, numbers_annotatedClass, map_fst_classRecords] at h ⊢
    exact List.getElem?_idxOf h
  | none =>
    simp only [hr] at h ⊢
    -- without a file there is one class, and it has no members
    cases h with
    | head => rfl
    | tail _ h => cases h

/-- How many variables the script with a number has. -/
def scriptSize (c : Compiler) (unit i : Nat) : Option Nat :=
  (((c.session.annotated unit).cls.numbers unit (Session.mainClass unit))[i]?).map fun id =>
    (draftOf c.drafts id).members.length

theorem scriptSize_idxOf (c : Compiler) (unit : Nat) {id : DeclId}
    (h : id ∈ (c.session.annotated unit).cls.numbers unit (Session.mainClass unit)) :
    scriptSize c unit ((classIds c.session unit).idxOf id) =
      some (draftOf c.drafts id).members.length := by
  unfold scriptSize
  rw [getElem?_idxOf_classIds c.session unit h]
  rfl

/-- The context in which the classes of a file are lowered. -/
def fileContext (c : Compiler) (unit : Nat) : LowerContext :=
  { session := c.session, unit, cls := Session.mainClass unit, script := default, scriptIndex := 0 }

/-- A program of a file consists of its scripts and of the pool that their functions share. -/
theorem run_lowerFile {c : Compiler} {unit : Nat} {p : Program} (h : lowerFile c unit = (p, none)) :
    ∃ s, Lower.classes c.drafts (classIds c.session unit) (Session.mainClass unit)
        (c.session.annotated unit).cls (fileContext c unit) {} = (.ok p.scripts, s) ∧
      p.names = s.gen.pool.names ∧ p.constants = s.gen.pool.constants.map Prod.snd ∧
      p.functions = s.gen.pool.functions := by
  unfold lowerFile at h
  dsimp only at h
  split at h
  · rename_i scripts s heq
    cases h
    exact ⟨s, heq, rfl, rfl, rfl⟩
  · cases h

theorem between_start (size : Nat → Option Nat) : Lower.Between size {} :=
  ⟨rfl, rfl, rfl, fun _ hf => by cases hf⟩

/-- **The program of a file is in range** if it is lowered without a fault. -/
theorem lowerFile_inRange (c : Compiler) (unit : Nat)
    (hdrafts : ∀ id t, c.drafts.get? id = some t → t.Numbered) {p : Program}
    (h : lowerFile c unit = (p, none)) : p.InRange ∧ ∀ s ∈ p.scripts, s.Numbered := by
  obtain ⟨s, hrun, hnames, hconstants, hfunctions⟩ := run_lowerFile h
  obtain ⟨hs, -, hscripts⟩ := (Lower.classes_collects (fileContext c unit) hdrafts _ _
    (fun _ => scriptSize_idxOf c unit) {} (between_start _)).of_run hrun
  have hmembers : ∀ i : Nat, (p.scripts[i]?).map Script.members =
      (((c.session.annotated unit).cls.numbers unit (Session.mainClass unit))[i]?).map fun id =>
        (draftOf c.drafts id).members := by
    intro i
    have := congrArg (·[i]?) hscripts
    simpa [fileContext] using this
  refine ⟨fun f hf => ?_, fun t ht => ?_⟩
  · obtain ⟨m, hm, is, his⟩ := hs.pool f (hfunctions ▸ hf)
    obtain ⟨i, hi, hsize⟩ := Option.bind_eq_some_iff.mp hm
    obtain ⟨id, hid, hlen⟩ := Option.map_eq_some_iff.mp hsize
    have hi' := hmembers i
    rw [hid] at hi'
    obtain ⟨t, ht, htm⟩ := Option.map_eq_some_iff.mp hi'
    refine ⟨i, t, hi, ht, is, ?_⟩
    rw [htm, hlen, hnames, hconstants, hfunctions]
    simpa using his
  · obtain ⟨i, hi⟩ := List.mem_iff_getElem?.mp ht
    have hi' := hmembers i
    rw [hi] at hi'
    obtain ⟨id, -, hid⟩ := Option.map_eq_some_iff.mp hi'.symm
    have hnumbered := numbered_draftOf hdrafts id
    unfold Script.Numbered at hnumbered ⊢
    rwa [hid] at hnumbered

end Compile

end GameScript
