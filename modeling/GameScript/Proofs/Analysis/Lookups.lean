import GameScript.Analysis.Interface
import GameScript.Proofs.Analysis.Logic

/-!
# Looking up types and members

Scripts are loaded and the analysis of their files is brought forward, types are found by their names
and members by theirs, and declarations get their types: all of it keeps what only the determination of
bases can change.
-/

namespace GameScript

/-! ### Loading -/

namespace Session

theorem fetch_files_length (s : Session) (path : Text) :
    s.files.length ≤ (s.fetch path).2.files.length := by
  unfold fetch
  split
  · exact le_rfl
  · exact le_rfl
  · split
    · exact le_rfl
    · dsimp only
      split
      · exact le_rfl
      · simp [addFile]

/-- A file that was fetched is loaded. -/
theorem fetch_lt {s : Session} {path : Text} {u : Nat}
    (hcached : ∀ u, s.cache.get? path = some (.loaded u) → u < s.files.length)
    (h : (s.fetch path).1 = .ok u) : u < (s.fetch path).2.files.length := by
  revert h
  unfold fetch
  split
  · rename_i hget
    rintro ⟨⟩
    exact hcached _ hget
  · rintro ⟨⟩
  · split
    · rintro ⟨⟩
    · dsimp only
      split
      · rintro ⟨⟩
      · rintro ⟨⟩
        simp [addFile]

end Session

namespace Analysis

variable {P : Session → Prop} {sub : Steps}

attribute [simp] Complaint.isCyclicInheritance

section Inheritance

@[simp] theorem isCyclic_keeps (id : DeclId) : Keeps P (isCyclic id) := keeps_of_same fun _ _ => rfl

@[simp] theorem mainClassNamed_keeps (name : Text) : Keeps P (mainClassNamed name) := by
  unfold mainClassNamed
  repeat' first | split | with_reducible refine Keeps.bind ?_ fun _ => ?_ | dsimp only
  all_goals simp [*]

@[simp] theorem scriptNamed_keeps (anyAutoload : Bool) (name : Text) :
    Keeps P (scriptNamed anyAutoload name) := by
  unfold scriptNamed
  repeat' first | split | with_reducible refine Keeps.bind ?_ fun _ => ?_ | dsimp only
  all_goals simp [*]

@[simp] theorem outerClassNamed_keeps (name : Text) (os : List DeclId) :
    Keeps P (outerClassNamed name os) := by
  induction os with
  | nil => exact pure_keeps none
  | cons o os ih =>
    unfold outerClassNamed
    repeat' first | split | with_reducible refine Keeps.bind ?_ fun _ => ?_ | dsimp only
    all_goals simp [*]

variable (hP : Elementary P)
include hP

@[simp] theorem checkClassName_keeps (id : Ident) (isMain : Bool) : Keeps P (checkClassName id isMain) := by
  unfold checkClassName
  repeat' first | split | with_reducible refine Keeps.bind ?_ fun _ => ?_ | dsimp only
  all_goals simp [*]

@[simp] theorem innerBase_keeps (base : StaticType) (ids : List Ident) :
    Keeps P (innerBase base ids) := by
  induction ids generalizing base with
  | nil => exact pure_keeps _
  | cons id ids ih =>
    unfold innerBase
    repeat' first | split | with_reducible refine Keeps.bind ?_ fun _ => ?_ | dsimp only
    all_goals simp [*]

/-- The file of a script is loaded before its analysis is brought forward. -/
@[simp] theorem loadScript_keeps (hsub : sub.Keep P) (path : Text) (status : Status) :
    Keeps P (loadScript sub path status) := by
  intro unit s hs hunit
  unfold loadScript
  simp only [after_bind, after_self, after_get]
  split
  · exact ⟨hs, le_rfl⟩
  split
  · exact ⟨hs, le_rfl⟩
  rw [after_bind, after_set]
  have hloaded := hP.load path hs
  have hlength := s.fetch_files_length path
  split
  · exact ⟨hloaded, hlength⟩
  · have hother := Session.fetch_lt (fun _ h => hP.cached hs h) ‹_›
    refine (hsub.raise _ status unit _ hloaded (by omega) hother).bind fun faulty s' hs' => ?_
    have hend := hlength.trans hs'.2
    cases faulty <;> exact ⟨hs'.1, hend⟩

variable (hsub : sub.Keep P)
include hsub

@[simp] theorem baseNamed_keeps (cls : DeclId) (id : Ident) : Keeps P (baseNamed sub cls id) := by
  unfold baseNamed
  repeat' first | split | with_reducible refine Keeps.bind ?_ fun _ => ?_ | dsimp only
  all_goals simp [*]

@[simp] theorem baseAt_keeps (cls : DeclId) (path : Literal) : Keeps P (baseAt sub cls path) := by
  unfold baseAt
  repeat' first | split | with_reducible refine Keeps.bind ?_ fun _ => ?_ | dsimp only
  all_goals simp [*]

end Inheritance

/-! ### Types by name -/

section Types

@[simp] theorem inheritedEnum_keeps (name : Text) : Keeps P (inheritedEnum name) := by
  unfold inheritedEnum
  repeat' first | split | with_reducible refine Keeps.bind ?_ fun _ => ?_ | dsimp only
  all_goals simp [*]

variable (hP : Elementary P) (hsub : sub.Keep P)
include hP hsub

@[simp] theorem memberType_keeps (cls : DeclId) (m : Member) : Keeps P (memberType sub cls m) := by
  unfold memberType
  repeat' first | split | with_reducible refine owner_bind_keeps hP _ fun _ => ?_ |
    with_reducible refine KeepsWith.bind ?_ fun _ => ?_ | with_reducible refine Keeps.bind ?_ fun _ => ?_
  all_goals simp [*]

@[simp] theorem memberTypeNamed_keeps (id : Ident) (cs : List DeclId) :
    Keeps P (memberTypeNamed sub id cs) := by
  induction cs with
  | nil => exact pure_keeps none
  | cons c cs ih =>
    unfold memberTypeNamed
    repeat' first | split | with_reducible refine Keeps.bind ?_ fun _ => ?_ | dsimp only
    all_goals simp [*]

@[simp] theorem typeInScope_keeps (id : Ident) : Keeps P (typeInScope sub id) := by
  unfold typeInScope
  repeat' first | split | with_reducible refine Keeps.bind ?_ fun _ => ?_ | dsimp only
  all_goals simp [*]

@[simp] theorem nestedType_keeps (base : StaticType) (id : Ident) : Keeps P (nestedType sub base id) := by
  unfold nestedType
  repeat' first | split | with_reducible refine Keeps.bind ?_ fun _ => ?_ | dsimp only
  all_goals simp [*]

@[simp] theorem nestedTypes_keeps (base : StaticType) (ids : List Ident) :
    Keeps P (nestedTypes sub base ids) := by
  induction ids generalizing base with
  | nil => exact pure_keeps _
  | cons id ids ih =>
    unfold nestedTypes
    repeat' first | split | with_reducible refine Keeps.bind ?_ fun _ => ?_ | dsimp only
    all_goals simp [*]

@[simp] theorem typeNamed_keeps (allowVoid : Bool) (names : List Ident) :
    Keeps P (typeNamed sub allowVoid names) := by
  unfold typeNamed
  repeat' first | split | with_reducible refine Keeps.bind ?_ fun _ => ?_ | dsimp only
  all_goals simp [*]

@[simp] theorem plainType_keeps (allowVoid : Bool) (names : List Ident) :
    Keeps P (plainType sub allowVoid names) := by
  unfold plainType
  repeat' first | split | with_reducible refine Keeps.bind ?_ fun _ => ?_ | dsimp only
  all_goals simp [*]

@[simp] theorem resolveType_keeps (allowVoid : Bool) (spec : TypeSpec) :
    Keeps P (resolveType sub allowVoid spec) := by
  unfold resolveType
  repeat' first | split | with_reducible refine Keeps.bind ?_ fun _ => ?_ | dsimp only
  all_goals simp [*]

end Types

/-! ### Members of objects -/

@[simp] theorem nativeMember_keeps (cls name : Text) : Keeps P (nativeMember cls name) := by
  unfold nativeMember
  repeat' first | split | with_reducible refine Keeps.bind ?_ fun _ => ?_ | dsimp only
  all_goals simp [*]

@[simp] theorem scriptMember_keeps (name : Text) (fuel : Nat) (t : StaticType) :
    Keeps P (scriptMember name fuel t) := by
  induction fuel generalizing t with
  | zero => exact pure_keeps _
  | succ fuel ih =>
    unfold scriptMember
    repeat' first | split | with_reducible refine Keeps.bind ?_ fun _ => ?_ | dsimp only
    all_goals simp [*]

section

variable (hP : Elementary P)
include hP

@[simp] theorem memberFacts_keeps (cls : DeclId) (m : Member) : Keeps P (memberFacts cls m) := by
  unfold memberFacts
  repeat' first | split | with_reducible refine Keeps.bind ?_ fun _ => ?_ | dsimp only
  all_goals simp [*]

@[simp] theorem useFound_keeps (f : Found) : Keeps P (useFound f) := by
  unfold useFound
  repeat' first | split | with_reducible refine Keeps.bind ?_ fun _ => ?_ | dsimp only
  all_goals simp [*]

@[simp] theorem useMember_keeps (id : Ident) (f : Found) : Keeps P (useMember id f) := by
  unfold useMember
  repeat' first | split | with_reducible refine Keeps.bind ?_ fun _ => ?_ | dsimp only
  all_goals simp [*]

end

section

variable (hP : Elementary P) (hsub : sub.Keep P)
include hP hsub

@[simp] theorem classMember_keeps (cls : DeclId) (name : Text) : Keeps P (classMember sub cls name) := by
  unfold classMember
  repeat' first | split | with_reducible refine Keeps.bind ?_ fun _ => ?_ | dsimp only
  all_goals simp [*]

@[simp] theorem objectMember_keeps (t : StaticType) (name : Text) : Keeps P (objectMember sub t name) := by
  unfold objectMember
  repeat' first | split | with_reducible refine Keeps.bind ?_ fun _ => ?_ | dsimp only
  all_goals simp [*]

end

/-! ### Declarations of values -/

section

variable (hP : Elementary P)
include hP

@[simp] theorem checkElements_keeps (element : StaticType) (es : List Expr) :
    Keeps P (checkElements element es) := by
  induction es with
  | nil => exact pure_keeps _
  | cons e es ih =>
    unfold checkElements
    repeat' first | split | with_reducible refine Keeps.bind ?_ fun _ => ?_ | dsimp only
    all_goals simp [*]

@[simp] theorem updateList_keeps (t : StaticType) (x : Expr) : Keeps P (updateList t x) := by
  unfold updateList
  repeat' first | split | with_reducible refine Keeps.bind ?_ fun _ => ?_ | dsimp only
  all_goals simp [*]

@[simp] theorem checkInitial_keeps (b : Binder) (x : Expr) : Keeps P (checkInitial b x) := by
  unfold checkInitial
  repeat' first | split | with_reducible refine Keeps.bind ?_ fun _ => ?_ | dsimp only
  all_goals simp [*]

@[simp] theorem checkAgainst_keeps (b : Binder) (specified : StaticType) (x : Expr) :
    Keeps P (checkAgainst b specified x) := by
  unfold checkAgainst
  repeat' first | split | with_reducible refine Keeps.bind ?_ fun _ => ?_ | dsimp only
  all_goals simp [*]

end

section

variable (hP : Elementary P) (hsub : sub.Keep P)
include hP hsub

@[simp] theorem resolveBinder_keeps (b : Binder) : Keeps P (resolveBinder sub b) := by
  unfold resolveBinder
  repeat' first | split | with_reducible refine Keeps.bind ?_ fun _ => ?_ | dsimp only
  all_goals simp [*]

@[simp] theorem resolveConst_keeps (d : ConstDecl) : Keeps P (resolveConst sub d) := by
  unfold resolveConst
  repeat' first | split | with_reducible refine Keeps.bind ?_ fun _ => ?_ | dsimp only
  all_goals simp [*]

end

/-! ### Signatures -/

@[simp] theorem storedFunction_keeps (f : Func) : Keeps P (storedFunction f) := by
  unfold storedFunction
  repeat' first | split | with_reducible refine Keeps.bind ?_ fun _ => ?_ | dsimp only
  all_goals simp [*]

section

variable (hsub : sub.Keep P)
include hsub

@[simp] theorem parentFunction_keeps (cls : DeclId) (name : Text) :
    Keeps P (parentFunction sub cls name) := by
  unfold parentFunction
  repeat' first | split | with_reducible refine Keeps.bind ?_ fun _ => ?_ | dsimp only
  all_goals simp [*]

end

section

variable (hP : Elementary P) (hsub : sub.Keep P)
include hP hsub

@[simp] theorem checkOverride_keeps (f : Func) : Keeps P (checkOverride sub f) := by
  unfold checkOverride
  repeat' first | split | with_reducible refine Keeps.bind ?_ fun _ => ?_ | dsimp only
  all_goals simp [*]

@[simp] theorem resolveParams_keeps (f : Func) : Keeps P (resolveParams sub f) := by
  unfold resolveParams
  repeat' first | split | with_reducible refine mapM_keeps (fun _ => ?_) _ |
    with_reducible refine Keeps.bind ?_ fun _ => ?_ | dsimp only
  all_goals simp [*]

@[simp] theorem resolveResult_keeps (f : Func) : Keeps P (resolveResult sub f) := by
  unfold resolveResult
  repeat' first | split | with_reducible refine Keeps.bind ?_ fun _ => ?_ | dsimp only
  all_goals simp [*]

@[simp] theorem resolveSignature_keeps (f : Func) : Keeps P (resolveSignature sub f) := by
  unfold resolveSignature
  repeat' first | split | with_reducible refine Keeps.bind ?_ fun _ => ?_ | dsimp only
  all_goals simp [*]

@[simp] theorem resolveStored_keeps (f : Func) : Keeps P (resolveStored sub f) := by
  unfold resolveStored
  repeat' first | split | with_reducible refine Keeps.bind ?_ fun _ => ?_ | dsimp only
  all_goals simp [*]

@[simp] theorem resolveStoredBody_keeps (f : Func) : Keeps P (resolveStoredBody sub f) := by
  unfold resolveStoredBody
  repeat' first | split | with_reducible refine Keeps.bind ?_ fun _ => ?_ | dsimp only
  all_goals simp [*]

end

/-! ### Members of classes -/

@[simp] theorem enumTypeName_keeps (cls : DeclId) (name : Text) : Keeps P (enumTypeName cls name) := by
  unfold enumTypeName
  repeat' first | split | with_reducible refine Keeps.bind ?_ fun _ => ?_ | dsimp only
  all_goals simp [*]

section

variable (hP : Elementary P)
include hP

@[simp] theorem checkMarkers_keeps (d : VarDecl) (type : StaticType) : Keeps P (checkMarkers d type) := by
  unfold checkMarkers
  repeat' first | split | with_reducible refine Keeps.bind ?_ fun _ => ?_ | dsimp only
  all_goals simp [*]

@[simp] theorem checkMemberName_keeps (cls : DeclId) (m : Member) : Keeps P (checkMemberName cls m) := by
  unfold checkMemberName
  extract_lets name span
  split
  · exact pure_keeps _
  refine (classRecord_keeps cls).bind fun c => ?_
  extract_lets native inherited
  have hnative : ∀ r, Keeps P (native r) := by
    intro r
    dsimp only [native]
    repeat' first | split | with_reducible refine Keeps.bind ?_ fun _ => ?_ | dsimp only
    all_goals simp [*]
  clear_value native
  have hinherited : ∀ r, Keeps P (inherited r) := by
    intro r
    dsimp only [inherited]
    repeat' first | split | with_reducible refine Keeps.bind ?_ fun _ => ?_ | dsimp only
    all_goals simp [*]
  clear_value inherited
  repeat' first | split | with_reducible refine Keeps.bind ?_ fun _ => ?_ | dsimp only
  all_goals simp [*]

end

section

variable (hsub : sub.Keep P)
include hsub

@[simp] theorem accessorNamed_keeps (name : Text) : Keeps P (accessorNamed sub name) := by
  unfold accessorNamed
  repeat' first | split | with_reducible refine Keeps.bind ?_ fun _ => ?_ | dsimp only
  all_goals simp [*]

end

section

variable (hP : Elementary P) (hsub : sub.Keep P)
include hP hsub

@[simp] theorem checkGetter_keeps (d : VarDecl) (type : StaticType) (id : Ident) :
    Keeps P (checkGetter sub d type id) := by
  unfold checkGetter
  repeat' first | split | with_reducible refine Keeps.bind ?_ fun _ => ?_ | dsimp only
  all_goals simp [*]

@[simp] theorem checkSetter_keeps (d : VarDecl) (type : StaticType) (id : Ident) :
    Keeps P (checkSetter sub d type id) := by
  unfold checkSetter
  repeat' first | split | with_reducible refine Keeps.bind ?_ fun _ => ?_ | dsimp only
  all_goals simp [*]

@[simp] theorem resolveAccessors_keeps (d : VarDecl) (type : StaticType) :
    Keeps P (resolveAccessors sub d type) := by
  unfold resolveAccessors
  extract_lets plain names getterName getter
  have hnames : ∀ t, Keeps P (names t) := by
    intro t
    dsimp only [names]
    repeat' first | split | with_reducible refine Keeps.bind ?_ fun _ => ?_ | dsimp only
    all_goals simp [*]
  clear_value names
  have hgetterName : ∀ r, Keeps P (getterName r) := by
    intro r
    dsimp only [getterName]
    split <;> simp [*]
  clear_value getterName
  have hgetter : ∀ r, Keeps P (getter r) := by
    intro r
    dsimp only [getter]
    repeat' first | split | with_reducible refine Keeps.bind ?_ fun _ => ?_ | dsimp only
    all_goals simp [*]
  clear_value getter
  repeat' first | split | with_reducible refine Keeps.bind ?_ fun _ => ?_ | dsimp only
  all_goals simp [*]

@[simp] theorem resolveVar_keeps (d : VarDecl) : Keeps P (resolveVar sub d) := by
  unfold resolveVar
  repeat' first | split | with_reducible refine Keeps.bind ?_ fun _ => ?_ | dsimp only
  all_goals simp [*]

@[simp] theorem resolveSignal_keeps (d : SignalDecl) : Keeps P (resolveSignal sub d) := by
  unfold resolveSignal
  repeat' first | split | with_reducible refine mapM_keeps (fun _ => ?_) _ |
    with_reducible refine Keeps.bind ?_ fun _ => ?_ | dsimp only
  all_goals simp [*]

@[simp] theorem enumInitial_keeps (e : EnumDecl) (v : EnumValue) (x : Expr) :
    Keeps P (enumInitial sub e v x) := by
  unfold enumInitial
  repeat' first | split | with_reducible refine Keeps.bind ?_ fun _ => ?_ | dsimp only
  all_goals simp [*]

@[simp] theorem enumValueStep_keeps (e : EnumDecl) (v : EnumValue) {previous : Option (Analysis Int64)} (hprevious : ∀ p ∈ previous, Keeps P p) :
    Keeps P (enumValueStep sub e v previous) := by
  unfold enumValueStep
  repeat' first | split | with_reducible refine Keeps.bind ?_ fun _ => ?_ | dsimp only
  all_goals simp [*]

@[simp] theorem resolveEnumValue_keeps (e : EnumDecl) (i : Nat) : Keeps P (resolveEnumValue sub e i) := by
  induction i with
  | zero => exact enumValueStep_keeps hP hsub e _ (by simp)
  | succ i ih =>
    unfold resolveEnumValue
    refine enumValueStep_keeps hP hsub e _ fun p hp => ?_
    cases hp
    exact ih.bind fun _ => (localId_keeps _).bind fun id => (note_keeps id).bind fun _ => pure_keeps _

@[simp] theorem resolveEnum_keeps (e : EnumDecl) : Keeps P (resolveEnum sub e) := by
  unfold resolveEnum
  repeat' first | split | with_reducible refine mapM_keeps (fun _ => ?_) _ |
    with_reducible refine Keeps.bind ?_ fun _ => ?_ | dsimp only
  all_goals simp [*]

@[simp] theorem resolveMember_keeps (cls : DeclId) (m : Member) : Keeps P (resolveMember sub cls m) := by
  unfold resolveMember
  refine owner_bind_keeps hP cls fun o => onBehalfOf_keepsWith (inClass_keeps hP cls ?_)
  repeat' first | split | with_reducible refine Keeps.bind ?_ fun _ => ?_ | dsimp only
  all_goals simp [*]

@[simp] theorem resolveInterface_keeps (id : DeclId) (recursive : Bool) :
    Keeps P (resolveInterface sub id recursive) := by
  have hbegin : Keeps P (modifyClass id ({ · with hasInterface := true })) := modifyClass_keeps hP id fun _ => rfl
  unfold resolveInterface
  refine (classRecord_keeps id).bind fun c => ?_
  extract_lets inner members
  have hinner : ∀ r, Keeps P (inner r) := by
    intro r
    dsimp only [inner]
    split
    · refine forIn_keeps (fun i _ => ?_) _ _
      exact (hsub.interface i true).bind fun _ => pure_keeps _
    · exact pure_keeps _
  clear_value inner
  have hmembers : ∀ r, Keeps P (members r) := by
    intro r
    refine Keeps.bind (forIn_keeps (fun m _ => ?_) _ _) hinner
    exact (hsub.member id m).bind fun _ => (checkMemberName_keeps hP id m).bind fun _ => pure_keeps _
  clear_value members
  split
  · refine hbegin.bind fun _ => (hsub.inheritance id false).bind fun known => ?_
    split
    · exact pure_keeps ()
    refine (baseOf_keeps id).bind fun base => ?_
    split
    · refine owner_bind_keeps hP _ fun o => ?_
      repeat' first | split | with_reducible refine KeepsWith.bind ?_ fun _ => ?_ | dsimp only
      all_goals simp [*]
    · exact hmembers ()
  · exact hinner ()

end

end Analysis

end GameScript
