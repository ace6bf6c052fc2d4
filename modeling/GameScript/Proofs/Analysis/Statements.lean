import GameScript.Analysis.Pass
import GameScript.Proofs.Analysis.Expressions

/-!
# Statements and bases

The analysis of statements, of whole functions and of files keeps what only the determination of bases
can change. So do all steps of analysis, then, as soon as the determination of bases does
(`steps_succ_keep`).
-/

namespace GameScript.Analysis

variable {P : Session → Prop} {sub : Steps}

/-! ### Names of locals -/

section

variable (hP : Elementary P)
include hP

@[simp] theorem checkShadowing_keeps (id : Ident) (kind : LocalKind) :
    Keeps P (checkShadowing id kind) := by
  unfold checkShadowing
  repeat' first | split | with_reducible refine Keeps.bind ?_ fun _ => ?_ | dsimp only
  all_goals simp [*]

@[simp] theorem checkLocal_keeps (l : Local) : Keeps P (checkLocal l) := by
  unfold checkLocal
  repeat' first | split | with_reducible refine Keeps.bind ?_ fun _ => ?_ | dsimp only
  all_goals simp [*]

end

/-! ### Loops -/

section

variable (hP : Elementary P)
include hP

@[simp] theorem rangeBound_keeps (index : Nat) (x : Expr) : Keeps P (rangeBound index x) := by
  unfold rangeBound
  repeat' first | split | with_reducible refine Keeps.bind ?_ fun _ => ?_ | dsimp only
  all_goals simp [*]

@[simp] theorem rangeBounds_keeps (i : Nat) (es : List Expr) : Keeps P (rangeBounds i es) := by
  induction es generalizing i with
  | nil => exact pure_keeps _
  | cons e es ih =>
    unfold rangeBounds
    repeat' first | split | with_reducible refine Keeps.bind ?_ fun _ => ?_ | dsimp only
    all_goals simp [*]

@[simp] theorem rangeResult_keeps (span : Span) (args : List Expr) : Keeps P (rangeResult span args) := by
  unfold rangeResult
  repeat' first | split | with_reducible refine Keeps.bind ?_ fun _ => ?_ | dsimp only
  all_goals simp [*]

end

section

variable (hP : Elementary P) (hsub : sub.Keep P)
include hP hsub

@[simp] theorem reduceRange_keeps (span : Span) (id : Ident) (args : List Expr) (close : Pos) (facts : CallFacts) :
    Keeps P (reduceRange sub span id args close facts) := by
  unfold reduceRange
  repeat' first | split | with_reducible refine Keeps.bind ?_ fun _ => ?_ | dsimp only
  all_goals simp [*]

@[simp] theorem iteratorType_keeps (x : Expr) : Keeps P (iteratorType sub x) := by
  unfold iteratorType
  repeat' first | split | with_reducible refine Keeps.bind ?_ fun _ => ?_ | dsimp only
  all_goals simp [*]

@[simp] theorem loopVarType_keeps (span : Span) (x : Expr) (found : StaticType) (spec : Option TypeSpec) :
    Keeps P (loopVarType sub span x found spec) := by
  unfold loopVarType
  repeat' first | split | with_reducible refine Keeps.bind ?_ fun _ => ?_ | dsimp only
  all_goals simp [*]

@[simp] theorem resolveLoop_keeps (pos : Pos) (var : Ident) (spec : Option TypeSpec) (x : Expr) (body : Block) (span : Span) :
    Keeps P (resolveLoop sub pos var spec x body span) := by
  unfold resolveLoop
  repeat' first | split | with_reducible refine Keeps.bind ?_ fun _ => ?_ | dsimp only
  all_goals simp [*]

end

/-! ### Statements -/

@[simp] theorem assignedVariable_keeps (id : Ident) : Keeps P (assignedVariable? id) := by
  unfold assignedVariable?
  repeat' first | split | with_reducible refine Keeps.bind ?_ fun _ => ?_ | dsimp only
  all_goals simp [*]

section

variable (hP : Elementary P)
include hP

@[simp] theorem countAssignment_keeps (span : Span) (op : Option BinaryOp) (lhs : Expr) :
    Keeps P (countAssignment span op lhs) := by
  unfold countAssignment
  repeat' first | split | with_reducible refine Keeps.bind ?_ fun _ => ?_ | dsimp only
  all_goals simp [*]

@[simp] theorem checkAssigned_keeps (span : Span) (target value : StaticType) (rhs : Expr) :
    Keeps P (checkAssigned span target value rhs) := by
  unfold checkAssigned
  repeat' first | split | with_reducible refine Keeps.bind ?_ fun _ => ?_ | dsimp only
  all_goals simp [*]

@[simp] theorem checkReturned_keeps (span : Span) (expected : StaticType) (result : Option Expr) :
    Keeps P (checkReturned span expected result) := by
  unfold checkReturned
  repeat' first | split | with_reducible refine Keeps.bind ?_ fun _ => ?_ | dsimp only
  all_goals simp [*]

end

section

variable (hP : Elementary P) (hsub : sub.Keep P)
include hP hsub

@[simp] theorem resolveExprStmt_keeps (x : Expr) : Keeps P (resolveExprStmt sub x) := by
  unfold resolveExprStmt
  repeat' first | split | with_reducible refine Keeps.bind ?_ fun _ => ?_ | dsimp only
  all_goals simp [*]

@[simp] theorem resolveAssign_keeps (span : Span) (op : Option BinaryOp) (lhs rhs : Expr) :
    Keeps P (resolveAssign sub span op lhs rhs) := by
  unfold resolveAssign
  repeat' first | split | with_reducible refine Keeps.bind ?_ fun _ => ?_ | dsimp only
  all_goals simp [*]

@[simp] theorem resolveReturn_keeps (pos : Pos) (span : Span) (result : Option Expr) :
    Keeps P (resolveReturn sub pos span result) := by
  unfold resolveReturn
  repeat' first | split | with_reducible refine Keeps.bind ?_ fun _ => ?_ | dsimp only
  all_goals simp [*]

@[simp] theorem resolveAssert_keeps (pos : Pos) (span : Span) (cond : Expr) (message : Option Expr) (close : Pos) :
    Keeps P (resolveAssert sub pos span cond message close) := by
  unfold resolveAssert
  repeat' first | split | with_reducible refine Keeps.bind ?_ fun _ => ?_ | dsimp only
  all_goals simp [*]

@[simp] theorem resolvePattern_keeps (t : StaticType) (p : Pattern) :
    Keeps P (resolvePattern sub t p) := by
  unfold resolvePattern
  repeat' first | split | with_reducible refine mapM_keeps (fun _ => ?_) _ |
    with_reducible refine Keeps.bind ?_ fun _ => ?_ | dsimp only
  all_goals simp [*]

@[simp] theorem resolvePatterns_keeps (t : StaticType) (caught : Bool) (ps : List Pattern) :
    Keeps P (resolvePatterns sub t caught ps) := by
  induction ps generalizing caught with
  | nil => exact pure_keeps _
  | cons p ps ih =>
    unfold resolvePatterns
    repeat' first | split | with_reducible refine Keeps.bind ?_ fun _ => ?_ | dsimp only
    all_goals simp [*]

@[simp] theorem resolveBranches_keeps (t : StaticType) (caught : Bool) (bs : List Branch) :
    Keeps P (resolveBranches sub t caught bs) := by
  induction bs generalizing caught with
  | nil => exact pure_keeps _
  | cons b bs ih =>
    unfold resolveBranches
    repeat' first | split | with_reducible refine Keeps.bind ?_ fun _ => ?_ | dsimp only
    all_goals simp [*]

@[simp] theorem resolveMatch_keeps (pos : Pos) (x : Expr) (branches : List Branch) :
    Keeps P (resolveMatch sub pos x branches) := by
  unfold resolveMatch
  repeat' first | split | with_reducible refine Keeps.bind ?_ fun _ => ?_ | dsimp only
  all_goals simp [*]

@[simp] theorem resolveLocalVar_keeps (d : VarDecl) : Keeps P (resolveLocalVar sub d) := by
  unfold resolveLocalVar
  repeat' first | split | with_reducible refine Keeps.bind ?_ fun _ => ?_ | dsimp only
  all_goals simp [*]

@[simp] theorem resolveStmt_keeps (s : Stmt) : Keeps P (resolveStmt sub s) := by
  unfold resolveStmt
  repeat' first | split | with_reducible refine Keeps.bind ?_ fun _ => ?_ | dsimp only
  all_goals simp [*]

@[simp] theorem resolveStmts_keeps (returns reported : Bool) (ss : List Stmt) :
    Keeps P (resolveStmts sub returns reported ss) := by
  induction ss generalizing returns reported with
  | nil => exact pure_keeps _
  | cons s ss ih =>
    unfold resolveStmts
    repeat' first | split | with_reducible refine Keeps.bind ?_ fun _ => ?_ | dsimp only
    all_goals simp [*]

@[simp] theorem resolveBlock_keeps (b : Block) : Keeps P (resolveBlock sub b) := by
  unfold resolveBlock
  repeat' first | split | with_reducible refine forM_keeps (fun _ => ?_) _ |
    with_reducible refine Keeps.bind ?_ fun _ => ?_ | dsimp only
  all_goals simp [*]

end

/-! ### Bodies -/

section

variable (hP : Elementary P)
include hP

@[simp] theorem checkSignals_keeps (unit : Nat) : Keeps P (checkSignals unit) := by
  unfold checkSignals
  refine get_keeps.bind fun s => forIn_keeps (fun e _ => ?_) _ _
  split
  split
  · refine Keeps.bind (forIn_keeps (fun m _ => ?_) _ _) fun _ => pure_keeps _
    repeat' first | split | with_reducible refine Keeps.bind ?_ fun _ => ?_ | dsimp only
    all_goals simp [*]
  · exact pure_keeps _

end

section

variable (hP : Elementary P) (hsub : sub.Keep P)
include hP hsub

@[simp] theorem resolveFunctionBody_keeps (f : Func) : Keeps P (resolveFunctionBody sub f) := by
  unfold resolveFunctionBody
  repeat' first | split | with_reducible refine forIn_keeps (fun _ _ => ?_) _ _ |
    with_reducible refine Keeps.bind ?_ fun _ => ?_ | dsimp only
  all_goals simp [*]

@[simp] theorem resolveClassBody_keeps (id : DeclId) (recursive : Bool) :
    Keeps P (resolveClassBody sub id recursive) := by
  have hbegin : Keeps P (modifyClass id ({ · with hasBody := true })) := modifyClass_keeps hP id fun _ => rfl
  unfold resolveClassBody
  refine (classRecord_keeps id).bind fun c => ?_
  extract_lets inner members
  have hinner : ∀ r, Keeps P (inner r) := by
    intro r
    dsimp only [inner]
    split
    · refine forIn_keeps (fun i _ => ?_) _ _
      exact (hsub.classBody i true).bind fun _ => pure_keeps _
    · exact pure_keeps _
  clear_value inner
  have hmembers : ∀ r, Keeps P (members r) := by
    intro r
    refine Keeps.bind (inClass_keeps hP id ?_) fun _ => hinner _
    refine Keeps.bind (forIn_keeps (fun m _ => ?_) _ _) fun _ => pure_keeps _
    have hstored : ∀ o : Option Func, Keeps P (o.forM (resolveStoredBody sub)) :=
      optionForM_keeps (resolveStoredBody_keeps hP hsub)
    split
    · exact (resolveStoredBody_keeps hP hsub _).bind fun _ => pure_keeps _
    · exact (hstored _).bind fun _ => (hstored _).bind fun _ => pure_keeps _
    · exact pure_keeps _
  clear_value members
  split
  · refine hbegin.bind fun _ => (hsub.interface id false).bind fun _ => (baseOf_keeps id).bind fun base => ?_
    split
    · refine owner_bind_keeps hP _ fun o => ?_
      repeat' first | split | with_reducible refine KeepsWith.bind ?_ fun _ => ?_ | dsimp only
      all_goals simp [*]
    · exact hmembers ()
  · exact hinner ()

end

/-! ### Passes -/

section

variable (hP : Elementary P) (hsub : sub.Keep P)
include hP hsub

/-- A pass over a file, from its beginning to its end. -/
theorem pass_after {unit : Nat} {s : Session} {r : FileRecord} (hr : s.files[unit]? = some r)
    (hs : P { s with files := s.files.modify unit .begun }) :
    After (do
      modifyFile ({ · with status := r.status.next })
      runPass sub unit r.status.next
      modifyFile .ended) unit s fun _ s' => P s' ∧ s.files.length ≤ s'.files.length := by
  have hbegun : (s.files.modify unit ({ · with status := r.status.next })).modify unit
      (fun r' => { r' with passes := r'.passes ++ [r.status.next] }) = s.files.modify unit .begun := by
    refine List.ext_getElem? fun i => ?_
    by_cases hi : unit = i
    · subst i
      simp [hr, FileRecord.begun]
    · simp [hi]
  have hunit : unit < s.files.length := (List.getElem?_eq_some_iff.1 hr).1
  have hstop : ∀ {x : Analysis Unit}, Keeps P x → After x unit { s with files := s.files.modify unit .begun }
      fun _ s' => After (modifyFile .ended) unit s' fun _ s'' => P s'' ∧ s.files.length ≤ s''.files.length := by
    intro x hx
    refine (hx unit _ hs (by simpa using hunit)).mono fun _ s' hs' => ?_
    rw [after_modifyFile]
    exact ⟨hP.stop unit hs'.1, by simpa using hs'.2⟩
  unfold runPass
  rw [after_bind, after_modifyFile, after_bind, after_bind, after_modifyFile, hbegun]
  split
  · exact hstop (pure_keeps ())
  · exact hstop ((hsub.inheritance _ true).bind fun _ => pure_keeps _)
  · exact hstop (hsub.interface _ true)
  · exact hstop ((hsub.classBody _ true).bind fun _ => checkSignals_keeps hP unit)

theorem raiseFrom_keepsWith (unit : Nat) (target : Status) (count : Nat) :
    KeepsWith P unit (raiseFrom sub unit target count) := by
  induction count with
  | zero =>
    unfold raiseFrom
    exact ((fileRecord_keeps unit).bind fun r => pure_keeps _).keepsWith unit
  | succ count ih =>
    intro u s hs hu hunit
    unfold raiseFrom
    obtain ⟨r, hr⟩ : ∃ r, s.files[unit]? = some r := ⟨_, List.getElem?_eq_getElem hunit⟩
    rw [after_bind, after_fileRecord, hr]
    dsimp only [Option.getD_some]
    split
    · exact ⟨hs, le_rfl⟩
    split
    · exact ⟨hs, le_rfl⟩
    rename_i hfailure htarget
    have hstatus : r.status ≠ .body := by
      intro hbody
      rw [hbody] at htarget
      exact htarget (by cases target <;> decide)
    rw [after_bind, after_onBehalfOf]
    refine (pass_after hP hsub hr (hP.pass hs hr (by simpa using hfailure) hstatus)).mono fun _ s' hs' => ?_
    exact (ih u s' hs'.1 (hu.trans_le hs'.2) (hunit.trans_le hs'.2)).mono fun _ _ h => ⟨h.1, hs'.2.trans h.2⟩

end

/-- All steps of analysis keep a property if those for parts do and the determination of bases does. -/
theorem steps_succ_keep (hP : Elementary P) {fuel : Nat} (hsub : (steps fuel).Keep P)
    (hbases : ∀ id recursive, Keeps P (resolveInheritance (steps fuel) id recursive)) :
    (steps (fuel + 1)).Keep P where
  reduce := reduce_keeps hP hsub
  block := resolveBlock_keeps hP hsub
  pattern := resolvePattern_keeps hP hsub
  functionBody := resolveFunctionBody_keeps hP hsub
  member := resolveMember_keeps hP hsub
  inheritance := hbases
  interface := resolveInterface_keeps hP hsub
  classBody := resolveClassBody_keeps hP hsub
  raise := fun other status => raiseFrom_keepsWith hP hsub other status 4

/-- Without any nesting, steps of analysis change nothing. -/
theorem steps_zero_keep : (steps 0).Keep P where
  reduce := fun _ e => pure_keeps e
  block := pure_keeps
  pattern := fun _ => pure_keeps
  functionBody := pure_keeps
  member := fun _ _ => pure_keeps ()
  inheritance := fun _ _ => pure_keeps false
  interface := fun _ _ => pure_keeps ()
  classBody := fun _ _ => pure_keeps ()
  raise := fun other _ => (pure_keeps false).keepsWith other

end GameScript.Analysis
