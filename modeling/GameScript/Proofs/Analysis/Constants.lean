import GameScript.Proofs.Analysis.Callees
import GameScript.Proofs.Running.Programs
import GameScript.Proofs.Value.Types

/-!
# Types of constants

The analysis finds the type of an expression and its value, if that is known, one apart from the other.

* `StaticType.Admits` — a value is of a type; `Info.Fits`, `Expr.Fits` — what is found of an expression fits;
* `Analysis.constants_fit` — **the values of constants are of their types**: those of all expressions but names of
  declarations, and those of declared constants that can be converted;
* `Compiler.constant_of_other_type` — a declared constant whose value cannot be converted.
-/

namespace GameScript

/-- The value is of the type: one of a builtin type, or an integer if the type is an enumeration. Callables and
signals have no values of their own, and null stands for them. -/
def StaticType.Admits (t : StaticType) (v : Value) : Prop :=
  t.isMeta = false →
    match t.shape with
    | .builtin b => v.type = b ∨ b = .object ∨ v.type = .nil ∧ (b = .callable ∨ b = .signal)
    | .enum .. => v.type = .int
    | _ => True

theorem StaticType.admits_ofValue (v : Value) : (ofValue v).Admits v := by
  intro _
  cases v <;> first | exact .inl rfl | trivial

/-- If the value is known, it is of the type. -/
def Info.Fits (i : Info) : Prop := ∀ v, i.value = some v → i.type.Admits v

namespace Info

variable {i : Info}

theorem fits_of_none (h : i.value = none) : i.Fits := fun v hv => by
  rw [h] at hv
  cases hv

theorem fits_of_meta (h : i.type.isMeta = true) : i.Fits := fun v _ hmeta => by
  rw [h] at hmeta
  cases hmeta

theorem fits_of_variant (h : i.type.isVariant = true) : i.Fits := fun v _ _ => by
  unfold StaticType.isVariant at h
  split at h
  all_goals simp_all

theorem fits_constant (v : Value) (i : Info) : (Analysis.constant v i).Fits := fun w hw => by
  cases hw
  exact StaticType.admits_ofValue v

theorem Fits.done (h : i.Fits) : (Analysis.done i).Fits := by
  unfold Analysis.done
  by_cases hset : i.type.isSet = true
  · rw [if_pos hset]
    exact h
  · rw [if_neg hset]
    exact fits_of_variant rfl

end Info

namespace Analysis

variable {sub : Steps}

/-! ### Operators and containers -/

theorem unaryInfo_fits (span : Span) (op : Operator) (x : Expr) : Gives Info.Fits (unaryInfo span op x) := by
  unfold unaryInfo
  repeat' first | split | with_reducible refine gives_bind fun _ => ?_
  all_goals first | exact gives_pure (Info.fits_constant _ _) | exact gives_pure (Info.fits_of_none rfl)

theorem binaryInfo_fits (span : Span) (op : BinaryOp) (x y : Expr) : Gives Info.Fits (binaryInfo span op x y) := by
  unfold binaryInfo
  dsimp only
  repeat' first | split | with_reducible refine gives_bind fun _ => ?_
  all_goals first | exact gives_pure (Info.fits_constant _ _) | exact gives_pure (Info.fits_of_none rfl)

theorem condInfo_fits (span : Span) (yes cond no : Expr) : Gives Info.Fits (condInfo span yes cond no) := by
  unfold condInfo
  repeat' first | split | with_reducible refine gives_bind fun _ => ?_
  all_goals first | exact gives_pure (Info.fits_constant _ _) | exact gives_pure (Info.fits_of_none rfl)

theorem typeTestInfo_fits (span : Span) (x : Expr) (negated : Bool) (test : StaticType) :
    Gives Info.Fits (typeTestInfo span x negated test) := by
  unfold typeTestInfo
  dsimp only
  repeat' first | split | with_reducible refine gives_bind fun _ => ?_
  all_goals first | exact gives_pure (Info.fits_constant _ _) | exact gives_pure (Info.fits_of_none rfl)

theorem castInfo_fits (span : Span) (x : Expr) (target : TypeSpec) : Gives Info.Fits (castInfo span x target) := by
  unfold castInfo
  dsimp only
  repeat' first | split | with_reducible refine gives_bind fun _ => ?_
  all_goals exact gives_pure (Info.fits_of_none rfl)

theorem indexInfo_fits (span : Span) (x y : Expr) : Gives Info.Fits (indexInfo span x y) := by
  unfold indexInfo
  dsimp only
  repeat' first | split | with_reducible refine gives_bind fun _ => ?_
  all_goals first | exact gives_pure (Info.fits_constant _ _) | exact gives_pure (Info.fits_of_none rfl)

theorem reduceList_fits (items : List Expr) : Gives (fun r => r.2.Fits) (reduceList sub items) := by
  unfold reduceList
  refine gives_bind fun items => gives_pure fun v hv _ => ?_
  obtain ⟨vs, -, rfl⟩ := Option.map_eq_some_iff.1 hv
  exact .inl rfl

theorem reduceDict_fits (entries : List DictEntry) : Gives (fun r => r.2.Fits) (reduceDict sub entries) := by
  unfold reduceDict
  refine gives_bind fun entries => gives_pure fun v hv _ => ?_
  obtain ⟨es, -, rfl⟩ := Option.map_eq_some_iff.1 hv
  exact .inl rfl

/-! ### Calls -/

theorem reduceConstructor_fits (c : CallNode) (id : Ident) (t : BuiltinType) :
    Gives (fun c' => c'.info.Fits) (reduceConstructor c id t) := by
  unfold reduceConstructor
  dsimp only
  split
  · exact gives_bind fun _ => gives_pure (Info.fits_of_none rfl)
  · split
    · split
      · rename_i v hv
        refine gives_pure fun w hw _ => ?_
        cases hw
        rcases Value.construct_type hv with htype | ⟨htype, hobject | hother⟩
        · exact .inl htype
        · exact .inr (.inl hobject)
        · exact .inr (.inr ⟨htype, hother⟩)
      · exact gives_bind fun _ => gives_bind fun _ => gives_pure (Info.fits_of_none rfl)
    · exact gives_bind fun _ => gives_pure (Info.fits_of_none rfl)

/-- The result of a function that is computed in advance. -/
theorem result_fits {db : Catalog} {f : GlobalFunction} {rule : Rule} {vs : List Value} {v : Value} {i : Info}
    (h : f.Typed) (hrule : (if f.signature.isConst then f.eval else none) = some rule) (hv : rule vs = .ok v)
    (htype : i.type = (FunctionType.ofSignature db f.signature).result) : Info.Fits { i with
      value := some v, type := if !i.type.isHard || i.type.isVariant then .ofValue v else i.type } := by
  intro w hw
  cases hw
  rw [htype]
  show (ite _ _ (db.typeOf f.signature.returns)).Admits v
  split
  · exact StaticType.admits_ofValue v
  · rename_i hhard
    split at hrule
    · rcases h rule vs v hrule hv with hany | hbuiltin
      · rw [show (FunctionType.ofSignature db f.signature).result = db.typeOf f.signature.returns from rfl, hany]
          at hhard
        exact absurd rfl hhard
      · rw [hbuiltin]
        exact fun _ => .inl rfl
    · cases hrule

theorem reduceGlobalCall_fits (c : CallNode) (id : Ident) (f : GlobalFunction) (discarded : Bool) (h : f.Typed) :
    Gives (fun c' => c'.info.Fits) (reduceGlobalCall c id f discarded) := by
  unfold reduceGlobalCall
  refine gives_bind fun db => ?_
  extract_lets name _ id' type _ c' t _ check
  have hcheck : ∀ u, Gives (fun c' => c'.info.Fits) (check u) := by
    intro u
    refine gives_bind fun ok => ?_
    split
    · exact gives_pure (Info.fits_of_none rfl)
    · split
      · rename_i rule vs hrule _
        split
        · rename_i v hv
          exact gives_pure (result_fits (i := c'.info) h hrule hv rfl)
        · exact gives_bind fun _ => gives_pure (Info.fits_of_none rfl)
      · exact gives_pure (Info.fits_of_none rfl)
  split
  · exact gives_bind fun u => hcheck u
  · exact hcheck ()

theorem reduceCall_fits (root : Bool) (c : CallNode) : Gives (fun c' => c'.info.Fits) (reduceCall sub root c) := by
  apply reduceCall_cases
  · intro c₁ id t _ _
    exact reduceConstructor_fits c₁ id t
  · intro c₁ id f discarded _ _ hglobal
    refine reduceGlobalCall_fits c₁ id f discarded ?_
    unfold globalCallee? at hglobal
    split at hglobal
    · cases hglobal
    · split at hglobal
      · cases hglobal
      · obtain ⟨g, hg, heq⟩ := Option.map_eq_some_iff.1 hglobal
        cases heq
        exact GlobalFunction.typed hg
  · intro c₁ name hcallee hvalue hname
    refine (reduceMethodCall_gives c₁ name root fun id hid => (hname id (hcallee.symm.trans hid)).1).mono
      fun c' hc' => Info.fits_of_none (hc'.2.trans hvalue)
  · intro c' _ hvalue _
    exact Info.fits_of_none hvalue

end Analysis

/-! ### Members -/

/-- What has been found fits, or it is declared in source. -/
def Found.Fits (f : Found) : Prop := f.member.isSome = true ∨ Info.Fits { type := f.type, value := f.value }

def Search.Fits : Search → Prop
  | .found f => f.Fits
  | _ => True

/-- The name fits, or it is that of a declaration. -/
def Ident.Fits (id : Ident) : Prop := id.info.Fits ∨ id.binding ≠ .unbound

namespace Analysis

variable {sub : Steps}

theorem constantType_admits (db : Catalog) (cls name : Text) (i : Int64) :
    (constantType db cls name).Admits (.int i) := by
  have henum : ∀ {name : Text} {t : StaticType}, db.enumType? name = some t → t.Admits (.int i) := by
    intro name t ht
    unfold Catalog.enumType? at ht
    split at ht
    · cases ht
      exact fun _ => rfl
    · split at ht
      · cases ht
      · split at ht
        · cases ht
        · obtain ⟨es, -, rfl⟩ := Option.map_eq_some_iff.1 ht
          exact fun _ => rfl
  unfold constantType
  split
  · dsimp only
    cases ht : db.enumType? _ with
    | some t => exact henum ht
    | none => exact fun _ => .inl rfl
  · exact fun _ => .inl rfl

theorem nativeMember?_fits {db : Catalog} {cls name : Text} {f : Found} (h : nativeMember? db cls name = some f) :
    f.Fits := by
  unfold nativeMember? at h
  split at h
  · cases h
    exact .inr (Info.fits_of_none rfl)
  · split at h
    · cases h
      exact .inr (Info.fits_of_none rfl)
    · split at h
      · cases h
        exact .inr (Info.fits_of_none rfl)
      · split at h
        · cases h
          exact .inr (Info.fits_of_meta rfl)
        · obtain ⟨v, -, rfl⟩ := Option.map_eq_some_iff.1 h
          refine .inr fun w hw => ?_
          cases hw
          exact constantType_admits db cls name v

theorem nativeMember_gives (cls name : Text) : Gives Search.Fits (nativeMember cls name) := by
  unfold nativeMember
  refine gives_bind fun db => ?_
  split
  · rename_i f hf
    exact gives_pure (nativeMember?_fits hf)
  · exact gives_pure trivial

theorem memberFacts_gives (cls : DeclId) (m : Member) : Gives Found.Fits (memberFacts cls m) := by
  unfold memberFacts
  dsimp only
  repeat' first | split | with_reducible refine gives_bind fun _ => ?_
  all_goals exact gives_pure (.inl rfl)

theorem classMember_gives (cls : DeclId) (name : Text) :
    Gives (fun f? => ∀ f, f? = some f → f.Fits) (classMember sub cls name) := by
  unfold classMember
  refine gives_bind fun found => ?_
  split
  · exact gives_pure fun f hf => by cases hf
  · refine gives_bind fun _ => (memberFacts_gives _ _).bind fun f hf => gives_pure fun f' hf' => ?_
    cases hf'
    exact hf

theorem scriptMember_gives (name : Text) (fuel : Nat) (t : StaticType) :
    Gives Search.Fits (scriptMember name fuel t) := by
  induction fuel generalizing t with
  | zero => exact gives_pure trivial
  | succ fuel ih =>
    unfold scriptMember
    split
    · refine gives_bind fun ctx => (ih _).bind fun r hr => ?_
      split
      · exact gives_pure hr
      · exact gives_pure trivial
    · exact nativeMember_gives _ _
    · exact nativeMember_gives _ _
    · exact gives_pure trivial

theorem objectMember_gives (t : StaticType) (name : Text) : Gives Search.Fits (objectMember sub t name) := by
  unfold objectMember
  split
  · refine (classMember_gives _ _).bind fun found hfound => ?_
    split
    · rename_i f
      exact gives_pure (hfound f rfl)
    · refine gives_bind fun _ => gives_bind fun _ => ?_
      split
      · exact gives_bind fun _ => scriptMember_gives _ _ _
      · exact gives_bind fun _ => scriptMember_gives _ _ _
      · refine gives_bind fun _ => gives_bind fun native => ?_
        split
        · exact gives_pure trivial
        · exact nativeMember_gives _ _
  · exact gives_bind fun _ => scriptMember_gives _ _ _

/-- The name of a member that is declared in source is that of a declaration. -/
theorem useMember_gives (id : Ident) (f : Found) : Gives (fun id' => id'.info.type = f.type ∧
    (id.info.value = none → id'.info.value = f.value) ∧ (f.member.isSome = true → id'.binding ≠ .unbound))
    (useMember id f) := by
  unfold useMember
  refine gives_bind fun _ => gives_pure ⟨rfl, fun h => ?_, fun h => ?_⟩
  · dsimp only
    rw [h]
    cases f.value <;> rfl
  · dsimp only
    cases hmember : f.member with
    | some m => exact Binding.noConfusion
    | none => simp [hmember] at h

/-! ### Names -/

theorem useFound_fits {id : Ident} {f : Found} (hf : f.Fits) (h : id.info.value = none) :
    Gives Ident.Fits (useMember id f) := by
  refine (useMember_gives id f).mono fun id' hid' => ?_
  obtain ⟨htype, hvalue, hbound⟩ := hid'
  rcases hf with hmember | hfits
  · exact .inr (hbound hmember)
  · refine .inl fun v hv => ?_
    rw [hvalue h] at hv
    rw [htype]
    exact hfits v hv

theorem reduceMember_fits (inner : DeclId) {id : Ident} (h : id.info.value = none) (cs : List DeclId) :
    Gives (fun r => ∀ id', r = some id' → id'.Fits) (reduceMember sub inner id cs) := by
  induction cs with
  | nil => exact gives_pure fun id' hid' => by cases hid'
  | cons c cs ih =>
    have hfound : ∀ {f : Found}, f.Fits → Gives (fun r => ∀ id', r = some id' → id'.Fits) (do
        let id ← useMember id f
        checkInstanceUse id f
        return some id) := by
      intro f hf
      refine (useFound_fits hf h).bind fun id' hid' => gives_bind fun _ => gives_pure fun n hn => ?_
      cases hn
      exact hid'
    unfold reduceMember
    refine gives_bind fun facts => ?_
    split
    · refine gives_bind fun _ => gives_bind fun _ => gives_bind fun _ => gives_pure fun n hn => ?_
      cases hn
      exact .inr Binding.noConfusion
    · extract_lets rest
      have hrest : ∀ found?, (∀ f, found? = some f → f.Fits) →
          Gives (fun r => ∀ id', r = some id' → id'.Fits) (rest found?) := by
        intro found? hfits
        dsimp only [rest]
        split
        · exact ih
        · rename_i f
          exact hfound (hfits f rfl)
      split
      · refine gives_bind fun _ => (objectMember_gives _ _).bind fun r hr => ?_
        split
        · rename_i f
          exact hrest (some f) fun f' hf' => Option.some.inj hf' ▸ hr
        · exact hrest none fun f' hf' => by cases hf'
      · refine (classMember_gives _ _).bind fun f? hf? => hrest _ fun f hf => hf? f ?_
        exact (Option.filter_eq_some_iff.1 hf).1

theorem globalInfo_fits (id : Ident) (asBase : Bool) : Gives Info.Fits (globalInfo sub id asBase) := by
  have hclass : ∀ path, Gives Info.Fits (globalClassInfo sub id path) := by
    intro path
    unfold globalClassInfo
    refine gives_bind fun r => ?_
    split
    · exact gives_bind fun _ => gives_pure (Info.fits_of_none rfl)
    · dsimp only
      split
      all_goals exact gives_bind fun _ => gives_pure (Info.fits_of_meta rfl)
  have hautoload : ∀ path, Gives Info.Fits (autoloadInfo sub id path) := by
    intro path
    unfold autoloadInfo
    repeat' first | split | with_reducible refine gives_bind fun _ => ?_
    all_goals exact gives_pure (Info.fits_of_none rfl)
  unfold globalInfo
  dsimp only
  repeat' first | split | with_reducible refine gives_bind fun _ => ?_
  all_goals first
    | exact gives_pure (Info.fits_constant _ _)
    | exact gives_pure (Info.fits_of_none rfl)
    | exact gives_pure (Info.fits_of_meta rfl)
    | exact hclass _
    | exact hautoload _

/-- The value that a name has been found to have is of its type, unless the name is that of a declaration. -/
theorem reduceIdent_fits {id : Ident} (asBase : Bool) (h : id.info.value = none) :
    Gives Ident.Fits (reduceIdent sub id asBase) := by
  unfold reduceIdent
  refine gives_bind fun x => ?_
  dsimp only
  split
  · unfold reduceEnumValue
    repeat' first | split | with_reducible refine gives_bind fun _ => ?_
    all_goals exact gives_pure (.inr Binding.noConfusion)
  · split
    · rename_i r hr
      refine (reduceLocal_gives id r).mono fun id' hid' => .inr ?_
      rw [hid'.2.2, hr]
      exact Binding.noConfusion
    · refine gives_bind fun cls => gives_bind fun cs => (reduceMember_fits cls h cs).bind fun r hr => ?_
      split
      · rename_i id'
        exact gives_pure (hr id' rfl)
      · exact (globalInfo_fits id asBase).bind fun i hi => gives_pure (.inl hi)

/-! ### Attributes -/

theorem builtinAttribute_fits (id : Ident) (base : StaticType) (b : BuiltinType) :
    Gives Info.Fits (builtinAttribute id base b) := by
  unfold builtinAttribute
  dsimp only
  repeat' first | split | with_reducible refine gives_bind fun _ => ?_
  all_goals first | exact gives_pure (Info.fits_constant _ _) | exact gives_pure (Info.fits_of_none rfl)

theorem enumAttribute_fits (id : Ident) {base : StaticType} (h : base.isEnum = true) :
    Gives Info.Fits (enumAttribute id base) := by
  unfold enumAttribute
  split
  · exact gives_bind fun _ => gives_pure (Info.fits_of_none rfl)
  · split
    · refine gives_pure fun v hv _ => ?_
      cases hv
      obtain ⟨shape, _⟩ := base
      cases shape
      case enum => rfl
      all_goals cases h
    · exact gives_bind fun _ => gives_bind fun _ => gives_pure (Info.fits_of_none rfl)

/-- What an attribute has been found to be: it fits, or its name is that of a declaration. -/
theorem objectAttribute_fits (id : Ident) (base : StaticType) :
    Gives (fun r => r.2.Fits ∨ r.1.binding ≠ .unbound) (objectAttribute sub id base) := by
  unfold objectAttribute
  refine (objectMember_gives _ _).bind fun search hsearch => ?_
  extract_lets found? isUnknown
  have hfound : ∀ f, found? = some f → f.Fits := by
    intro f hf
    cases search with
    | found f' =>
      simp only [found?, Option.ite_none_right_eq_some, Option.some.injEq] at hf
      exact hf.2 ▸ hsearch
    | absent => simp only [found?, reduceCtorEq] at hf
    | unknown => simp only [found?, reduceCtorEq] at hf
  clear_value found? isUnknown
  split
  · rename_i f
    refine (useMember_gives id f).bind fun id' hid' => gives_pure ?_
    exact (hfound f rfl).elim (fun hmember => .inr (hid'.2.2 hmember)) .inl
  · repeat' first | split | with_reducible refine gives_bind fun _ => ?_
    all_goals exact gives_pure (.inl (Info.fits_of_none rfl))

theorem attributeOf_fits (span : Span) (x : Expr) (id : Ident) :
    Gives (fun r => r.2.Fits ∨ r.1.binding ≠ .unbound) (attributeOf sub span x id) := by
  unfold attributeOf
  dsimp only
  split
  · rename_i henum
    exact (enumAttribute_fits id (by unfold StaticType.isEnum; rw [henum])).bind fun i hi => gives_pure (.inl hi)
  · split
    · exact gives_pure (.inl (Info.fits_constant _ _))
    · repeat' first | split | with_reducible refine gives_bind fun _ => ?_
      all_goals exact gives_pure (.inl (Info.fits_of_none rfl))
  · split
    · exact gives_bind fun _ => gives_pure (.inl (Info.fits_of_none rfl))
    · split
      · split
        · exact objectAttribute_fits id _
        · exact (builtinAttribute_fits id _ _).bind fun i hi => gives_pure (.inl hi)
      · exact objectAttribute_fits id _

end Analysis

/-! ### Expressions -/

namespace Expr

/-- The name that an expression or an attribute is. -/
def name? : Expr → Option Ident
  | .ident id | .dot _ id _ => some id
  | _ => none

/-- If the value is known, it is of the type, unless the expression is the name of a declaration. -/
def Fits (e : Expr) : Prop := e.info.Fits ∨ ∃ id, e.name? = some id ∧ id.binding ≠ .unbound

/-- Whether no value is known yet of an expression, nor of what it awaits. -/
def isFresh : Expr → Bool
  | .await _ x i => i.value.isNone && x.value?.isNone
  | e => e.value?.isNone

variable {e : Expr} {i : Info}

theorem value?_of_isFresh (h : e.isFresh = true) : e.info.value = none := by
  cases e
  case await => exact Option.isNone_iff_eq_none.1 (Bool.and_eq_true _ _ ▸ h).1
  all_goals exact Option.isNone_iff_eq_none.1 h

theorem info_withInfo (i : Info) (e : Expr) : (e.withInfo i).info = i := by
  cases e <;> rfl

theorem Fits.withInfo (h : e.Fits) (hi : e.info.Fits → i.Fits) : (e.withInfo i).Fits := by
  rcases h with hfits | ⟨id, hid, hbound⟩
  · refine .inl ?_
    rw [info_withInfo]
    exact hi hfits
  · right
    cases e with
    | ident n =>
      cases hid
      exact ⟨_, rfl, hbound⟩
    | dot x n _ =>
      cases hid
      exact ⟨_, rfl, hbound⟩
    | _ => cases hid

end Expr

theorem CallNode.info_toExpr (c : CallNode) : c.toExpr.info = c.info := by
  obtain ⟨pos, callee, args, close, facts, info⟩ := c
  cases callee <;> rfl

namespace Analysis

variable {sub : Steps}

theorem selfInfo_fits (span : Span) : Gives Info.Fits (selfInfo span) := by
  unfold selfInfo
  repeat' first | split | with_reducible refine gives_bind fun _ => ?_
  all_goals exact gives_pure (Info.fits_of_none rfl)

theorem reducePreload_fits (path : Literal) : Gives (fun r => r.2.2.Fits) (reducePreload sub path) := by
  unfold reducePreload
  dsimp only
  split
  · refine gives_bind fun file => gives_bind fun isScript => ?_
    split
    · exact gives_bind fun _ => gives_pure fun _ _ _ => trivial
    · refine gives_bind fun r => ?_
      split
      · exact gives_bind fun _ => gives_pure (Info.fits_of_none rfl)
      · exact gives_bind fun _ => gives_pure (Info.fits_of_meta rfl)
  · exact gives_bind fun _ => gives_pure (Info.fits_of_none rfl)

theorem reduceDot_fits (span : Span) (x : Expr) (id : Ident) : Gives Expr.Fits (reduceDot sub span x id) := by
  unfold reduceDot
  refine gives_bind fun x => (attributeOf_fits span x id).bind fun r hr => gives_pure ?_
  exact hr.elim (fun h => .inl h.done) fun h => .inr ⟨_, rfl, h⟩

/-- What is awaited has its own type if it is a call, and any type otherwise. -/
theorem reduceAwait_fits (span : Span) {x : Expr} (h : x.info.value = none)
    (hcall : ∀ e c, CallNode.ofExpr? e = some c → e.info.value = none →
      Gives (fun e' => e'.info.Fits) (sub.reduce false e)) :
    Gives (fun r => r.2.Fits) (reduceAwait sub span x) := by
  obtain ⟨x', isCall, hx'⟩ : ∃ x' isCall, awaited x = (x', isCall) := ⟨_, _, rfl⟩
  have hreduce : Gives (fun y : Expr => isCall = true → y.info.Fits) (sub.reduce false x') := by
    cases x with
    | call fn args close facts i =>
      cases hx'
      exact (hcall (.call fn args close { facts with isAwaited := true } i) _ rfl h).mono fun _ hy _ => hy
    | superCall pos fn args close facts i =>
      cases hx'
      exact (hcall (.superCall pos fn args close { facts with isAwaited := true } i) _ rfl h).mono fun _ hy _ => hy
    | _ =>
      cases hx'
      exact fun _ _ hcall => by cases hcall
  have hgives : ∀ y : Expr, (isCall = true → y.info.Fits) → Info.Fits
      { type := if isCall && !y.type.isBuiltin .signal then { y.type with isCoroutine := false } else .variant
        value := y.value? } := by
    intro y hy v hv
    dsimp only
    split
    · rename_i hcond
      exact hy (Bool.and_eq_true _ _ ▸ hcond).1 v hv
    · exact fun _ => trivial
  unfold reduceAwait
  rw [hx']
  dsimp only
  refine hreduce.bind fun y hy => gives_bind fun f? => ?_
  cases f? with
  | none =>
    dsimp only
    split
    · exact gives_bind fun _ => gives_pure (hgives y hy)
    · exact gives_pure (hgives y hy)
  | some f =>
    refine gives_bind fun _ => gives_bind fun _ => ?_
    split
    · exact gives_bind fun _ => gives_pure (hgives y hy)
    · exact gives_pure (hgives y hy)

/-- The value of a call is of its type. -/
theorem reduce_call_fits (fuel : Nat) (root : Bool) {e : Expr} {c : CallNode} (h : CallNode.ofExpr? e = some c)
    (hvalue : e.info.value = none) : Gives (fun e' => e'.info.Fits) ((steps fuel).reduce root e) := by
  cases fuel with
  | zero => exact gives_pure (Info.fits_of_none hvalue)
  | succ fuel =>
    show Gives _ (reduce (steps fuel) root e)
    unfold reduce
    split
    · exact gives_pure (Info.fits_of_none hvalue)
    · have hparts : Gives (fun e' => e'.info.Fits) (reduceParts (steps fuel) root e) := by
        have hreduced : Gives (fun e' => e'.info.Fits) (do return (← reduceCall (steps fuel) root c).toExpr) :=
          (reduceCall_fits root c).bind fun c' hc' => gives_pure (by rw [CallNode.info_toExpr]; exact hc')
        cases e with
        | call fn args close facts i =>
          cases h
          exact hreduced
        | superCall pos fn args close facts i =>
          cases h
          exact hreduced
        | _ => cases h
      refine hparts.bind fun e' he' => gives_pure ?_
      rw [Expr.info_withInfo]
      exact he'.done

theorem reduceParts_fits (root : Bool) {e : Expr} (h : e.isFresh = true)
    (hcall : ∀ e c, CallNode.ofExpr? e = some c → e.info.value = none →
      Gives (fun e' => e'.info.Fits) (sub.reduce false e)) : Gives Expr.Fits (reduceParts sub root e) := by
  have hvalue := Expr.value?_of_isFresh h
  cases e with
  | ident id =>
    refine (reduceIdent_fits false hvalue).bind fun id' hid' => gives_pure ?_
    exact hid'.elim .inl fun hbound => .inr ⟨id', rfl, hbound⟩
  | literal l => exact gives_pure (.inl (Info.fits_constant _ _))
  | self pos i => exact (selfInfo_fits _).bind fun i hi => gives_pure (.inl hi)
  | call fn args close facts i =>
    exact (reduceCall_fits root _).bind fun c hc => gives_pure (.inl (by rw [CallNode.info_toExpr]; exact hc))
  | superCall pos fn args close facts i =>
    exact (reduceCall_fits root _).bind fun c hc => gives_pure (.inl (by rw [CallNode.info_toExpr]; exact hc))
  | dot x id i => exact reduceDot_fits _ x id
  | index x y close i =>
    exact gives_bind fun x => gives_bind fun y => (indexInfo_fits _ x y).bind fun i hi => gives_pure (.inl hi)
  | unary pos op x i => exact gives_bind fun x => (unaryInfo_fits _ _ x).bind fun i hi => gives_pure (.inl hi)
  | binary x op y i =>
    exact gives_bind fun x => gives_bind fun y => (binaryInfo_fits _ op x y).bind fun i hi => gives_pure (.inl hi)
  | cond yes cond no i =>
    exact gives_bind fun cond => gives_bind fun yes => gives_bind fun no =>
      (condInfo_fits _ yes cond no).bind fun i hi => gives_pure (.inl hi)
  | typeTest x negated test i =>
    exact gives_bind fun x => gives_bind fun test =>
      (typeTestInfo_fits _ x negated _).bind fun i hi => gives_pure (.inl hi)
  | cast x target i =>
    exact gives_bind fun x => gives_bind fun target => (castInfo_fits _ x target).bind fun i hi => gives_pure (.inl hi)
  | list pos items close i => exact (reduceList_fits items).bind fun r hr => gives_pure (.inl hr)
  | dict pos entries style close i => exact (reduceDict_fits entries).bind fun r hr => gives_pure (.inl hr)
  | lambda f captures usesSelf i =>
    have hlambda : Gives Expr.Fits (reduceLambda sub f) := by
      unfold reduceLambda
      repeat with_reducible refine gives_bind fun _ => ?_
      exact gives_pure (.inl (Info.fits_of_none rfl))
    exact hlambda
  | await pos x i =>
    have hawaited : x.info.value = none := Option.isNone_iff_eq_none.1 (Bool.and_eq_true _ _ ▸ h).2
    exact (reduceAwait_fits _ hawaited hcall).bind fun r hr => gives_pure (.inl hr)
  | preload pos path close resolved i => exact (reducePreload_fits path).bind fun r hr => gives_pure (.inl hr)

/-- **The value of an expression is of its type.** Whatever has been found of its parts, of the file and of the
session, if the analysis finds the value of an expression, then the value is of the type that it finds, unless the
expression is the name of a local or a member that is declared in source. -/
theorem reduce_fits (fuel : Nat) (root : Bool) (e : Expr) (h : e.isFresh = true) :
    Gives Expr.Fits ((steps fuel).reduce root e) := by
  have hvalue := Expr.value?_of_isFresh h
  cases fuel with
  | zero => exact gives_pure (.inl (Info.fits_of_none hvalue))
  | succ fuel =>
    show Gives _ (reduce (steps fuel) root e)
    unfold reduce
    split
    · exact gives_pure (.inl (Info.fits_of_none hvalue))
    · have hparts : Gives Expr.Fits (reduceParts (steps fuel) root e) :=
        reduceParts_fits root h fun _ _ => reduce_call_fits fuel false
      exact hparts.bind fun e' he' => gives_pure (he'.withInfo Info.Fits.done)

/-! ### Declared constants -/

/-- The value of a constant of a declared type, if it is of that type or can be converted. -/
theorem declaredValue_type {t : StaticType} {v : Value} {b : BuiltinType} (hshape : t.shape = .builtin b)
    (hmeta : t.isMeta = false) (h : v.type = b ∨ ∃ w, v.convert b = .ok w) : (declaredValue t v).type = b := by
  unfold declaredValue
  rw [hshape, hmeta]
  by_cases htype : v.type = b
  · simp [htype]
  · obtain ⟨w, hw⟩ := h.resolve_left htype
    simp [htype, hw, Value.convert_type hw]

/-- A constant that is not resolved yet gets its declared type, and its value as one of that type. -/
theorem resolveConst_stores (d : ConstDecl) {unit : Nat} {s : Session} {id : DeclId}
    (hid : (localId d.name.pos unit s).1 = id) (hset : (s.note id).type.isSet = false)
    (hbusy : (s.note id).isBusy = false) : After (resolveConst sub d) unit s fun d' s' =>
      ∀ v, d'.init.value? = some v → (s'.note id).value = some (declaredValue (s'.note id).type v) := by
  unfold resolveConst
  rw [after_bind, after_localId hid, after_bind, after_note, hset, hbusy]
  dsimp only
  refine After.bind (R := fun _ _ => True) trivial fun _ s₁ _ => ?_
  refine After.bind (R := fun _ _ => True) trivial fun _ s₂ _ => ?_
  refine After.bind (R := fun _ _ => True) trivial fun r s₃ _ => ?_
  rw [after_bind, after_modifyNote, after_pure, Session.note_set, if_pos rfl]
  intro v hv
  dsimp only at hv ⊢
  rw [hv]

/-- **The values of constants are of their types.** The value that is found of an expression is of its type, unless
the expression is the name of a declaration. Of a declared constant the value is made one of the declared type
if it can be converted. -/
theorem constants_fit (fuel : Nat) (root : Bool) (e : Expr) (sub : Steps) (d : ConstDecl) (unit : Nat) (s : Session)
    (id : DeclId) :
    (e.isFresh = true → Gives Expr.Fits ((steps fuel).reduce root e)) ∧
    ((localId d.name.pos unit s).1 = id → (s.note id).type.isSet = false → (s.note id).isBusy = false →
      After (resolveConst sub d) unit s fun d' s' => ∀ v b, d'.init.value? = some v →
        (s'.note id).type.shape = .builtin b → (s'.note id).type.isMeta = false →
        (v.type = b ∨ ∃ w, v.convert b = .ok w) → ∃ w, (s'.note id).value = some w ∧ w.type = b) := by
  refine ⟨reduce_fits fuel root e, fun hid hset hbusy => ?_⟩
  refine (resolveConst_stores d hid hset hbusy).mono fun d' s' hstored v b hv hshape hmeta h => ?_
  exact ⟨_, hstored v hv, declaredValue_type hshape hmeta h⟩

/-- A constant without a written type. -/
def oneConst : ConstDecl :=
  { pos := ⟨1, 1⟩
    name := { pos := ⟨1, 7⟩, name := "ONE" }
    spec := none
    infer := false
    init := .literal { pos := ⟨1, 13⟩, raw := "1", value := .int 1 }
    isLocal := false }

/-- A session without files. -/
def emptySession : Session := { env := { catalog := {}, load := fun _ => .error default, extent := 0 } }

theorem constants_fit_oneConst :
    oneConst.init.isFresh = true ∧ Gives Expr.Fits ((steps 1).reduce false oneConst.init) ∧
    ∃ w, ((resolveConst (steps 1) oneConst 0 emptySession).2.note ⟨0, ⟨1, 7⟩⟩).value = some w ∧ w.type = .int := by
  have hfresh : oneConst.init.isFresh = true := rfl
  have hvalue : (resolveConst (steps 1) oneConst 0 emptySession).1.init.value? = some (.int 1) := rfl
  have hshape : ((resolveConst (steps 1) oneConst 0 emptySession).2.note ⟨0, ⟨1, 7⟩⟩).type.shape = .builtin .int :=
    rfl
  have h := constants_fit 1 false oneConst.init (steps 1) oneConst 0 emptySession ⟨0, ⟨1, 7⟩⟩
  exact ⟨hfresh, h.1 hfresh, h.2 rfl rfl rfl _ _ hvalue hshape rfl (.inl rfl)⟩

end Analysis

namespace Compiler

/-- A file with a constant whose initial value is of a type that is not known, and cannot be converted. -/
def misfitProject : Compiler :=
  ofSource "res://test.gd" "const X: Variant = 1\nconst B: Vector2 = X\nfunc f():\n\treturn B\n"

/-- A file with a callable that is null. -/
def nullCallableProject : Compiler := ofSource "res://test.gd" "func f():\n\treturn Callable()\n"

/-- The analysis finds no error in the files, but the constant is a vector by its type and an integer by its value,
and the callable is null. -/
theorem constant_of_other_type :
    (((misfitProject.compile 0).2.session.files[0]?).bind FileRecord.failure = none ∧
      ∃ f ∈ ((misfitProject.compile 0).2.session.annotated 0).cls.functions, ∃ x ∈ f.1.body.result?,
        x.type.tag = .vector2 ∧ x.type.isMeta = false ∧ x.value?.map Value.type = some .int) ∧
    ((nullCallableProject.compile 0).2.session.files[0]?).bind FileRecord.failure = none ∧
      ∃ f ∈ ((nullCallableProject.compile 0).2.session.annotated 0).cls.functions, ∃ x ∈ f.1.body.result?,
        x.type.tag = .callable ∧ x.type.isMeta = false ∧ x.value?.map Value.type = some .nil := by
  decide +kernel

end Compiler

end GameScript
