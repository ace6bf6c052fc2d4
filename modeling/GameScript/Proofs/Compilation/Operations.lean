import GameScript.Proofs.Analysis.Constants
import GameScript.Proofs.Analysis.Progress
import GameScript.Proofs.Execution.Addresses

/-!
# Unchecked operators

An operator is compiled to an unchecked instruction if the addresses of its operands are of declared builtin types. That
the operator has a result on these types has been checked before, by the analysis, on the types that it has found of the
operands. The two agree unless an operand is retyped.

* `Operator.admits` — an operator has a result on values of builtin types;
* `Expr.isRetyped` — the address of a value can be of another type than has been found: that of a constant, of a logical
  operation, or of a cast to a type that says nothing;
* `Lower.Operates` — the code of an operator;
* `Analysis.operators_checked` — **an unchecked instruction has a result on the types it has been chosen for**, if no
  operand is retyped;
* `Compiler.operators_retyped` — retyped operands of each kind.
-/

namespace GameScript

/-! ### Operators and operands -/

/-- The operator has a result on values of the types. The second operand of an operator with one is null. -/
def Operator.admits (op : Operator) : List BuiltinType → Bool
  | [b] => (op.resultType? b .nil).isSome
  | [b, c] => (op.resultType? b c).isSome
  | _ => false

namespace StaticType

/-- The type was declared, and what is denoted is of the builtin type. -/
def declares (t : StaticType) (b : BuiltinType) : Bool := t.isHard && t.builtin? = some b

theorem declares_iff {t : StaticType} {b : BuiltinType} : t.declares b = true ↔ t.isHard = true ∧ t.builtin? = some b := by
  simp [declares]

/-- What the choice of an instruction takes for a type that can be relied on. -/
theorem declares_tag {t : StaticType} (h : t.isHardValue = true) : t.declares t.tag = true := by
  unfold isHardValue at h
  rw [declares_iff, builtin?, tag]
  cases hshape : t.shape <;> simp_all

theorem tag_ofValue (v : Value) : (ofValue v).tag = v.type := by
  cases v <;> rfl

theorem builtin?_of_isVariant {t : StaticType} (h : t.isVariant = true) : t.builtin? = none := by
  unfold isVariant at h
  unfold builtin?
  cases hshape : t.shape <;> simp_all

end StaticType

namespace Expr

/-- An operator whose operands are all computed, and these. -/
def operation? : Expr → Option (Operator × List Expr)
  | .unary _ op x _ => some (op.operator, [x])
  | .binary x op y _ => if op.isLogical then none else some (op.operator, [x, y])
  | _ => none

/-- Whether the address of a value can be of another type than has been found of the expression. The address of a
constant is of the type of the value, that of a logical operation is a boolean, and a cast to a type that says nothing
leaves the value where it is. -/
def isRetyped (x : Expr) : Bool :=
  (x.value?.any fun v => !x.type.declares v.type) ||
    match x with
    | .literal l => !x.type.declares l.value.type
    | .binary _ op _ _ => op.isLogical && !x.type.declares .bool
    | .cast .. => x.type.isVariant
    | _ => false

/-- **What is not retyped has the type that has been found**, if its address is of a type that can be relied on. -/
theorem declares_of_not_retyped {ctx : LowerContext} {x : Expr} (h : x.isRetyped = false)
    (ht : (x.codeType ctx).isHardValue = true) : x.type.declares (x.codeType ctx).tag = true := by
  obtain ⟨hvalue, hform⟩ := Bool.or_eq_false_iff.mp h
  unfold codeType at ht ⊢
  split at ht
  · rename_i hd
    rw [if_pos hd]
    unfold directType at ht ⊢
    split at ht
    · rename_i hden
      rw [if_pos hden]
      exact StaticType.declares_tag ht
    · rename_i hden
      rw [if_neg hden]
      cases hv : x.value? with
      | none =>
        rw [hv] at ht
        exact StaticType.declares_tag ht
      | some v =>
        rw [hv] at ht hvalue
        simpa [StaticType.tag_ofValue] using hvalue
  · rename_i hd
    rw [if_neg hd]
    cases x with
    | literal l => simpa [StaticType.tag_ofValue] using hform
    | binary y op z i =>
      cases hop : op.isLogical with
      | false =>
        simp only [hop] at ht ⊢
        exact StaticType.declares_tag ht
      | true => simpa [hop, StaticType.ofBuiltin, StaticType.tag] using hform
    | cast y u i =>
      have hi : i.type.isVariant = false := hform
      simp only [hi] at ht ⊢
      exact StaticType.declares_tag ht
    | preload => exact absurd ht (by simp [StaticType.ofValue, StaticType.ofNative, StaticType.isHardValue])
    | _ => exact StaticType.declares_tag ht

end Expr

/-! ### What the analysis checks -/

namespace Analysis

variable {unit : Nat} {s : Session} {x y : Expr}

/-- What is found of an operator is about a value. If the value is not known, the operator has a result on the types of
its operands, which are declared builtin types. -/
structure Checks (op : Operator) (xs : List Expr) (i : Info) : Prop where
  plain : i.type.isMeta = false
  admits : i.value = none → (∀ x ∈ xs, x.type.isHard = true) → ∀ bs, xs.map (·.type.builtin?) = bs.map some →
    op.admits bs = true

variable {op : Operator} {xs : List Expr}

theorem checks_constant (v : Value) : Checks op xs (constant v {}) where
  plain := by cases v <;> rfl
  admits := nofun

/-- An operand of a type that says nothing. -/
theorem checks_variant (h : ∃ x ∈ xs, x.type.isVariant = true) : Checks op xs {} where
  plain := rfl
  admits := by
    intro _ _ bs hbs
    obtain ⟨x, hx, hvariant⟩ := h
    have hnone : none ∈ bs.map some := hbs ▸ List.mem_map.mpr ⟨x, hx, StaticType.builtin?_of_isVariant hvariant⟩
    simp at hnone

theorem operationType_isMeta {t u r : StaticType} (h : operationType op t u = some r) : r.isMeta = false := by
  unfold operationType at h
  split at h
  · obtain rfl := Option.some.inj h
    rfl
  · obtain ⟨b, -, rfl⟩ := Option.map_eq_some_iff.mp h
    rfl

/-- The type of an operation on builtin types is known just if the operator has a result on them. -/
theorem isSome_operationType {t u : StaticType} {b c : BuiltinType} (ht : t.builtin? = some b)
    (hu : u.builtin? = some c) : (operationType op t u).isSome = (op.resultType? b c).isSome := by
  have hvariant : ∀ {t : StaticType} {b : BuiltinType}, t.builtin? = some b → t.isVariant = false := by
    intro t b h
    cases hv : t.isVariant with
    | false => rfl
    | true =>
      rw [StaticType.builtin?_of_isVariant hv] at h
      cases h
  unfold operationType
  rw [hvariant ht, hvariant hu, ht, hu]
  simp

/-- The types of the operands admit the operator if the type of the operation is known. -/
theorem checks_operation {t u r : StaticType} (hr : operationType op t u = some r)
    (hbs : ∀ bs, xs.map (·.type.builtin?) = bs.map some → ∃ b c, t.builtin? = some b ∧ u.builtin? = some c ∧
      op.admits bs = (op.resultType? b c).isSome) : Checks op xs { type := r } where
  plain := operationType_isMeta hr
  admits := by
    intro _ _ bs h
    obtain ⟨b, c, hb, hc, hadmits⟩ := hbs bs h
    rw [hadmits, ← isSome_operationType hb hc, hr, Option.isSome_some]

theorem exists_of_map_one {bs : List BuiltinType} (h : [x].map (·.type.builtin?) = bs.map some) :
    ∃ b, bs = [b] ∧ x.type.builtin? = some b := by
  obtain ⟨b, rfl⟩ := List.length_eq_one_iff.mp (by simpa using (congrArg List.length h).symm)
  exact ⟨b, rfl, by simpa using h⟩

theorem exists_of_map_two {bs : List BuiltinType} (h : [x, y].map (·.type.builtin?) = bs.map some) :
    ∃ b c, bs = [b, c] ∧ x.type.builtin? = some b ∧ y.type.builtin? = some c := by
  obtain ⟨b, c, rfl⟩ := List.length_eq_two.mp (by simpa using (congrArg List.length h).symm)
  exact ⟨b, c, rfl, by simpa using h⟩

theorem unaryInfo_checks (hunit : unit < s.files.length) (span : Span) (op : Operator) (x : Expr) :
    After (unaryInfo span op x) unit s fun i s' => ¬ s'.Failed unit → Checks op [x] i := by
  unfold unaryInfo
  split
  · split
    · exact fun _ => checks_constant _
    · exact After.bind (complain_fails hunit _ _) fun _ s' h hok => absurd h.2 hok
  · split
    · rename_i hvariant
      exact After.bind (R := fun _ _ => True) trivial fun _ _ _ _ => checks_variant ⟨x, by simp, hvariant⟩
    · split
      · rename_i r hr
        refine fun _ => checks_operation hr fun bs h => ?_
        obtain ⟨b, rfl, hb⟩ := exists_of_map_one h
        exact ⟨b, .nil, hb, rfl, rfl⟩
      · refine After.bind (R := fun _ s' => unit < s'.files.length) hunit fun _ s' hunit' => ?_
        exact After.bind (complain_fails hunit' _ _) fun _ s' h hok => absurd h.2 hok

theorem binaryInfo_checks (hs : s.Paced) (hunit : unit < s.files.length) (span : Span) (op : BinaryOp) (x y : Expr) :
    After (binaryInfo span op x y) unit s fun i s' => ¬ s'.Failed unit → Checks op.operator [x, y] i := by
  unfold binaryInfo
  extract_lets o erred unsuited found
  have hfound : ∀ u (s' : Session), unit < s'.files.length →
      After (found u) unit s' fun i s'' => ¬ s''.Failed unit → Checks o [x, y] i := by
    intro _ s' hunit'
    unfold found
    split
    · split
      · exact fun _ => checks_constant _
      · split
        · exact After.bind (complain_fails hunit' _ _) fun _ s'' h hok => absurd h.2 hok
        · exact After.bind (complain_fails hunit' _ _) fun _ s'' h hok => absurd h.2 hok
    · split
      · rename_i hvariant
        refine After.bind (R := fun _ _ => True) trivial fun _ _ _ _ => checks_variant ?_
        simpa using hvariant
      · split
        · rename_i r hr
          refine fun _ => checks_operation hr fun bs h => ?_
          obtain ⟨b, c, rfl, hb, hc⟩ := exists_of_map_two h
          exact ⟨b, c, hb, hc, rfl⟩
        · split
          · refine After.bind (R := fun _ s'' => unit < s''.files.length) hunit' fun _ s₁ hunit₁ => ?_
            refine After.bind (R := fun _ s'' => unit < s''.files.length) hunit₁ fun _ s₂ hunit₂ => ?_
            exact After.bind (complain_fails hunit₂ _ _) fun _ s'' h hok => absurd h.2 hok
          · rename_i hsoft
            refine fun _ => ⟨rfl, fun _ hhard => absurd ?_ hsoft⟩
            simp [hhard x (by simp), hhard y (by simp)]
  split
  · have hwarn := warn_keeps (going_lasting s).toElementary span .integerDivision unit s ⟨.refl, hs⟩ hunit
    exact hwarn.bind fun u s' h => hfound u s' (by omega)
  · exact hfound () s hunit

theorem reduceParts_checked (fuel : Nat) (root : Bool) {e : Expr} (he : e.operation?.isSome = true) (hs : s.Paced)
    (hunit : unit < s.files.length) : After (reduceParts (steps fuel) root e) unit s fun e' s' =>
      ∃ op xs, e'.operation? = some (op, xs) ∧ (¬ s'.Failed unit → Checks op xs e'.info) := by
  have hsub := fun x => (steps_going s fuel).reduce false x
  unfold reduceParts
  cases e with
  | unary pos op x i =>
    refine (hsub x unit s ⟨.refl, hs⟩ hunit).bind fun x' s₁ h₁ => ?_
    refine (unaryInfo_checks (s := s₁) (by omega) _ op.operator x').bind fun i' s₂ h₂ => ?_
    exact ⟨op.operator, [x'], rfl, h₂⟩
  | binary x op y i =>
    cases hop : op.isLogical with
    | true => simp [Expr.operation?, hop] at he
    | false =>
      refine (hsub x unit s ⟨.refl, hs⟩ hunit).bind fun x' s₁ h₁ => ?_
      refine (hsub y unit s₁ h₁.1 (by omega)).bind fun y' s₂ h₂ => ?_
      refine (binaryInfo_checks h₂.1.2 (by omega) _ op x' y').bind fun i' s₃ h₃ => ?_
      exact ⟨op.operator, [x', y'], if_neg (by simp [hop]), h₃⟩
  | _ => cases he

theorem operation?_withInfo (e : Expr) (i : Info) : (e.withInfo i).operation? = e.operation? := by
  cases e <;> rfl

theorem Checks.done {i : Info} (h : Checks op xs i) : Checks op xs (Analysis.done i) where
  plain := by
    unfold Analysis.done
    dsimp only
    split
    · exact h.plain
    · rfl
  admits := h.admits

theorem reduce_checked (fuel : Nat) (root : Bool) {e : Expr} (he : e.operation?.isSome = true)
    (hnew : e.info.reduced = false) (hs : s.Paced) (hunit : unit < s.files.length) :
    After (reduce (steps fuel) root e) unit s fun e' s' =>
      ∃ op xs, e'.operation? = some (op, xs) ∧ (¬ s'.Failed unit → Checks op xs e'.info) := by
  unfold reduce
  rw [if_neg (by simp [hnew])]
  refine (reduceParts_checked fuel root he hs hunit).bind fun e' s' h => ?_
  obtain ⟨op, xs, hop, hchecks⟩ := h
  refine ⟨op, xs, (operation?_withInfo _ _).trans hop, fun hok => ?_⟩
  show Checks op xs (e'.withInfo (Analysis.done e'.info)).info
  rw [Expr.info_withInfo]
  exact (hchecks hok).done

end Analysis

/-! ### The code of an operator -/

namespace Lower

variable {ctx : LowerContext} {s s₁ : Lowering} {a : Address} {op : Operator}

/-- Two operands for an instruction; null stands for the second one of an operator with one. -/
def operands : List Address → List Nat
  | [a] => [a.encode, Address.nil.encode]
  | as => as.map Address.encode

/-- **The code of an operator** that leaves its value at an address: after the code of the operands, there is an
instruction with their addresses, which is chosen by the types of these. No other instruction after that is an unchecked
one. -/
def Operates (ctx : LowerContext) (op : Operator) (xs : List Expr) (as : List Address) (a : Address) (s s' : Lowering) :
    Prop :=
  ∃ s₁ s₂ rest, s₁.code = s.code ∧ exprs xs ctx s₁ = (.ok as, s₂) ∧
    s'.code = s₂.code ++ ⟨operation (as.map Address.type), a.encode :: op.number :: operands as⟩ :: rest ∧
    ∀ i ∈ rest, i.op ≠ .operatorValidated

theorem ends_run {α : Type} (x : Lower α) (ctx : LowerContext) (s : Lowering) :
    Ends x ctx s fun a s' => x ctx s = (.ok a, s') := by
  unfold Ends After
  rcases x ctx s with ⟨_ | a, s'⟩
  · trivial
  · rfl

theorem addTemporary_code (t : StaticType) : Ends (Gen.addTemporary t) ctx s fun _ s' => s'.code = s.code := by
  unfold Ends
  rw [after_lift, Gen.after_addTemporary]
  rfl

theorem release_code (a : Address) : Ends (Gen.release a) ctx s fun _ s' => s'.code = s.code := by
  unfold Ends
  rw [after_lift, Gen.after_release]
  split
  · split
    · rfl
    · trivial
  · rfl

theorem emit_code (op : Opcode) (args : List Nat) :
    Ends (Gen.emit op args) ctx s fun _ s' => s'.code = s.code ++ [⟨op, args⟩] := by
  unfold Ends
  rw [after_lift, Gen.after_emit]
  split
  · exact List.map_append
  · trivial

theorem unary_operates (t : StaticType) (op : Operator) (x : Expr) : Ends (unary t op (expr x)) ctx s fun a s' =>
    ∃ as, Operates ctx op [x] as a s s' := by
  unfold unary
  refine (addTemporary_code t).bind fun dst s₁ h₁ => (ends_run (expr x) ctx s₁).bind fun b s₂ h₂ => ?_
  refine (emit_code _ _).bind fun _ s₃ h₃ => (release_code b).bind fun _ s₄ h₄ => ?_
  have hxs : exprs [x] ctx s₁ = (.ok [b], s₂) := by
    rw [exprs, run_bind, h₂]
    rfl
  exact ⟨[b], s₁, s₂, [], h₁, hxs, h₄.trans h₃, by simp⟩

theorem binary_operates (t : StaticType) (op : BinaryOp) (x y : Expr) :
    Ends (binary t op (expr x) (expr y)) ctx s fun a s' => ∃ as, Operates ctx op.operator [x, y] as a s s' := by
  unfold binary
  refine (addTemporary_code t).bind fun dst s₁ h₁ => (ends_run (expr x) ctx s₁).bind fun b s₂ h₂ => ?_
  refine (ends_run (expr y) ctx s₂).bind fun c s₃ h₃ => (emit_code _ _).bind fun _ s₄ h₄ => ?_
  refine (release_code c).bind fun _ s₅ h₅ => (release_code b).bind fun _ s₆ h₆ => ?_
  have hxs : exprs [x, y] ctx s₁ = (.ok [b, c], s₃) := by
    rw [exprs, run_bind, h₂]
    dsimp only
    rw [run_bind, exprs, run_bind, h₃]
    rfl
  have hcode := h₆.trans (h₅.trans h₄)
  split
  · refine (emit_code _ _).bind fun _ s₇ h₇ => ?_
    rw [hcode, List.append_assoc] at h₇
    exact ⟨[b, c], s₁, s₃, _, h₁, hxs, h₇, by simp⟩
  · exact ⟨[b, c], s₁, s₃, [], h₁, hxs, hcode, by simp⟩

/-- The addresses of operands are of the types that are known before. -/
theorem exprs_types (xs : List Expr) : Ends (exprs xs) ctx s fun as _ =>
    as.map Address.type = xs.map (Expr.codeType ctx) := by
  induction xs generalizing s with
  | nil => exact rfl
  | cons x xs ih =>
    rw [exprs]
    refine (expr_leftAt x).bind fun a s₁ ha => (ih (s := s₁)).bind fun as s₂ has => ?_
    show (a :: as).map Address.type = _
    rw [List.map_cons, List.map_cons, ha.type, has]

theorem otherwise_ends {e : Expr} {code : Lower Address} {Q : Address → Lowering → Prop}
    (hplain : e.info.type.isMeta = false) (hvalue : e.value? = none) (h : Ends code ctx s Q) :
    Ends (otherwise e code) ctx s Q := by
  have hd : e.isDirect ctx = false := by
    unfold Expr.isDirect StaticType.denotes
    simp [hplain, hvalue]
  refine (direct?_open hd).bind fun r s₁ hpost => ?_
  obtain ⟨hr, hs₁⟩ := hpost
  subst hr hs₁
  exact h

/-- An operator whose value is not known is computed. -/
theorem expr_operates {e : Expr} {xs : List Expr} (hop : e.operation? = some (op, xs))
    (hplain : e.info.type.isMeta = false) (hvalue : e.value? = none) :
    Ends (expr e) ctx s fun a s' => ∃ as, Operates ctx op xs as a s s' := by
  cases e with
  | unary pos o x i =>
    cases hop
    have hx : expr (.unary pos o x i) = otherwise (.unary pos o x i) (unary i.type o.operator (expr x)) := by
      rw [expr]
      rfl
    rw [hx]
    exact otherwise_ends hplain hvalue (unary_operates _ _ _)
  | binary x o y i =>
    cases hlogical : o.isLogical with
    | true => simp [Expr.operation?, hlogical] at hop
    | false =>
      have hx : expr (.binary x o y i) = otherwise (.binary x o y i) (binary i.type o (expr x) (expr y)) := by
        rw [expr, hlogical]
        rfl
      simp only [Expr.operation?, hlogical, Bool.false_eq_true, if_false, Option.some.injEq, Prod.mk.injEq] at hop
      obtain ⟨rfl, rfl⟩ := hop
      rw [hx]
      exact otherwise_ends hplain hvalue (binary_operates _ _ _ _)
  | _ => cases hop

theorem operation_validated {ts : List StaticType} (h : operation ts = .operatorValidated) :
    ∀ t ∈ ts, t.isHardValue = true := by
  unfold operation at h
  split at h
  · rename_i hall
    simpa using hall
  · cases h

end Lower

namespace Analysis

variable {unit : Nat} {s : Session}

/-- **An unchecked instruction has a result on the types it has been chosen for.** Let an operator be analysed such that
there are no complaints about its file, its value is not known, and none of its operands is retyped. Then its code has one
instruction that computes the value from those of the operands. If this is an unchecked one, the operator has a result on
the types of the addresses; if the type of an operand says nothing, it is a checked one. -/
theorem operators_checked (fuel : Nat) (root : Bool) (e : Expr) (he : e.operation?.isSome = true)
    (hnew : e.info.reduced = false) (hs : s.Paced) (hunit : unit < s.files.length) :
    After ((steps (fuel + 1)).reduce root e) unit s fun e' s' => ∃ op xs, e'.operation? = some (op, xs) ∧
      (¬ s'.Failed unit → e'.value? = none → (∀ x ∈ xs, x.isRetyped = false) → ∀ ctx l,
        Lower.Ends (Lower.expr e') ctx l fun a l' => ∃ as, Lower.Operates ctx op xs as a l l' ∧
          (Lower.operation (as.map Address.type) = .operatorValidated → op.admits (as.map (·.type.tag)) = true) ∧
          ((∃ x ∈ xs, x.type.isVariant = true) → Lower.operation (as.map Address.type) = .operator)) := by
  show After (reduce (steps fuel) root e) unit s _
  refine (reduce_checked fuel root he hnew hs hunit).mono fun e' s' h => ?_
  obtain ⟨op, xs, hop, hchecks⟩ := h
  refine ⟨op, xs, hop, fun hok hvalue hkept ctx l => ?_⟩
  have hchecks := hchecks hok
  refine (Lower.expr_operates hop hchecks.plain hvalue).post fun a l' h => ?_
  obtain ⟨as, hoperates⟩ := h
  obtain ⟨l₁, l₂, -, -, hrun, -, -⟩ := id hoperates
  have htypes : as.map Address.type = xs.map (Expr.codeType ctx) := (Lower.exprs_types xs).of_run hrun
  refine ⟨as, hoperates, ?_, ?_⟩
  · rw [htypes]
    intro hvalidated
    have hdeclares : ∀ x ∈ xs, x.type.declares (x.codeType ctx).tag = true := fun x hx =>
      Expr.declares_of_not_retyped (hkept x hx)
        (Lower.operation_validated hvalidated _ (List.mem_map_of_mem hx))
    have htags : as.map (·.type.tag) = xs.map fun x => (x.codeType ctx).tag := by
      simpa [Function.comp_def] using congrArg (List.map StaticType.tag) htypes
    rw [htags]
    refine hchecks.admits hvalue (fun x hx => (StaticType.declares_iff.mp (hdeclares x hx)).1) _ ?_
    rw [List.map_map]
    exact List.map_congr_left fun x hx => (StaticType.declares_iff.mp (hdeclares x hx)).2
  · rw [htypes]
    intro hvariant
    obtain ⟨x, hx, hvariant⟩ := hvariant
    unfold Lower.operation
    refine if_neg fun hall => ?_
    have hhard : (x.codeType ctx).isHardValue = true := List.all_eq_true.mp hall _ (List.mem_map_of_mem hx)
    have hdeclares := (StaticType.declares_iff.mp (Expr.declares_of_not_retyped (hkept x hx) hhard)).2
    rw [StaticType.builtin?_of_isVariant hvariant] at hdeclares
    cases hdeclares

/-- A parameter that is an integer. -/
def integerParameter : Expr :=
  .ident { pos := ⟨1, 8⟩, name := "x", info := { type := .ofBuiltin .int, reduced := true }, source := .parameter }

def doubled : Expr := .binary integerParameter .plus integerParameter {}

/-- A file without anything in it. -/
def blankFile : Session :=
  { env := { catalog := {}, load := fun _ => .error default, extent := 0 }, files := [{ file := default }] }

theorem operators_checked_doubled :
    doubled.operation?.isSome = true ∧ doubled.info.reduced = false ∧ blankFile.Paced ∧
    ∀ ctx l, Lower.Ends (Lower.expr ((steps 1).reduce false doubled 0 blankFile).1) ctx l fun a l' =>
      ∃ as, Lower.Operates ctx .add [integerParameter, integerParameter] as a l l' ∧
        (Lower.operation (as.map Address.type) = .operatorValidated →
          Operator.add.admits (as.map (·.type.tag)) = true) := by
  have hpaced : blankFile.Paced := by
    refine ⟨fun path u h => (by cases h), fun u r hr => ?_⟩
    cases u with
    | zero =>
      cases hr
      rfl
    | succ u => cases hr
  have hok : ¬ ((steps 1).reduce false doubled 0 blankFile).2.Failed 0 := fun h => h rfl
  obtain ⟨op, xs, hop, hchecked⟩ := operators_checked 0 false doubled rfl rfl hpaced Nat.zero_lt_one
  cases hop
  have hkept : ∀ x ∈ [integerParameter, integerParameter], x.isRetyped = false := by decide
  refine ⟨rfl, rfl, hpaced, fun ctx l => (hchecked hok rfl hkept ctx l).post fun a l' h => ?_⟩
  obtain ⟨as, hoperates, hadmits, -⟩ := h
  exact ⟨as, hoperates, hadmits⟩

end Analysis

namespace Compiler

/-- A function that adds a string to an integer, which is cast to a type that says nothing. -/
def castProject : Compiler := ofSource "res://test.gd" "func f(x: int, y: String):\n\treturn (x as Variant) + y\n"

/-- A function that adds a string to the conjunction of values of any types. -/
def conjunctionProject : Compiler := ofSource "res://test.gd" "func f(a, y: String):\n\treturn (a and a) + y\n"

/-- A function that adds a string to a constant of a type that says nothing. -/
def constantProject : Compiler := ofSource "res://test.gd" "const X: Variant = 1\nfunc f(y: String):\n\treturn X + y\n"

/-- The analysis finds no errors in a file, and a line is in the code of a function. -/
def Accepts (c : Compiler) (function line : Text) : Prop :=
  ((c.compile 0).2.session.files[0]?).bind FileRecord.failure = none ∧
    ∃ p ∈ (c.compile 0).2.library, ∃ fn ∈ p.functions, fn.name = function ∧ line ∈ (p.listing fn).1

instance (c : Compiler) (function line : Text) : Decidable (c.Accepts function line) :=
  inferInstanceAs (Decidable (_ ∧ _))

/-- Operators on retyped operands are compiled to unchecked instructions, although they have no result on the types that
these have been chosen for. -/
theorem operators_retyped :
    (castProject.Accepts "f" "\t0\toperator_validated %0, +, x, y" ∧
      conjunctionProject.Accepts "f" "\t14\toperator_validated %0, +, %1, y" ∧
      constantProject.Accepts "f" "\t0\toperator_validated %0, +, 1, y") ∧
    Operator.add.admits [.int, .string] = false ∧ Operator.add.admits [.bool, .string] = false := by
  decide +kernel

end Compiler

end GameScript
