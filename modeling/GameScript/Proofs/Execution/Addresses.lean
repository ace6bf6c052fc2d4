import GameScript.Proofs.Execution.Roots

/-!
# Where the code of expressions leaves values

The code of an expression computes into a temporary of its own, unless the value is somewhere already: in a constant,
in a variable, or at the place of the operand of a cast to a type that says nothing.

* `Lower.Temporary` — code with a temporary of its own, and the type of that;
* `Expr.codeType` — the type of the address at which a value is left;
* `Lower.expr_leftAt` — the code of an expression leaves an address of this type. It is a variable of the instance
  only if the expression refers to that.
-/

namespace GameScript

/-! ### Types of addresses -/

/-- The type of the address of the class itself or of a constant. -/
def Expr.directType (ctx : LowerContext) (x : Expr) : StaticType :=
  if x.type.denotes ctx.cls then x.type else (x.value?.map StaticType.ofValue).getD x.type

/-- **The type of the address** at which the code of an expression leaves its value. It need not be the type that has
been found of the expression. -/
def Expr.codeType (ctx : LowerContext) (x : Expr) : StaticType :=
  if x.isDirect ctx then x.directType ctx
  else match x with
    | .literal l => .ofValue l.value
    | .binary _ op _ i => if op.isLogical then .ofBuiltin .bool else i.type
    | .cast y _ i => if i.type.isVariant then y.codeType ctx else i.type
    | .preload _ _ _ path _ => .ofValue (.resource path "Resource" 0)
    | x => x.type

namespace Lower

variable {ctx : LowerContext} {s : Lowering} {x : Expr} {a : Address} {t : StaticType}

/-! ### Temporaries -/

theorem ends_trivial {α : Type} (x : Lower α) (ctx : LowerContext) (s : Lowering) : Ends x ctx s fun _ _ => True := by
  unfold Ends After
  cases x ctx s with
  | mk r s' => cases r <;> trivial

/-- The result of the last step is that of all. -/
theorem Ends.last {α : Type} {x : Lower α} {f : α → Lower Address} {Q : Address → Lowering → Prop}
    (h : ∀ b s', Ends (f b) ctx s' Q) : Ends (x >>= f) ctx s Q :=
  (ends_trivial x ctx s).bind fun b s' _ => h b s'

/-- Code that computes into a temporary of its own, which is of the type `t`. -/
def Temporary (t : StaticType) (x : Lower Address) : Prop :=
  ∀ ctx s, Ends x ctx s fun a _ => a.mode = .temporary ∧ a.type = t

theorem temporary_intro {f : Address → Lower Address} (t : StaticType)
    (h : ∀ dst ctx s, Ends (f dst) ctx s fun a _ => a = dst) : Temporary t (do
      let dst ← Gen.addTemporary t
      f dst) := by
  intro ctx s
  have htemp : Ends (Gen.addTemporary t) ctx s fun a _ => a.mode = .temporary ∧ a.type = t := by
    unfold Ends
    rw [after_lift, Gen.after_addTemporary]
    exact ⟨rfl, rfl⟩
  refine htemp.bind fun dst s₁ hdst => (h dst ctx s₁).post fun a _ ha => ?_
  exact ha ▸ hdst

theorem array_temporary (t : StaticType) (items : Lower (List Address)) : Temporary t (array t items) := by
  refine temporary_intro t fun dst ctx s => .last fun items s₁ => ?_
  dsimp only
  split
  · exact .last fun _ _ => .last fun _ _ => .last fun _ _ => .last fun _ _ => rfl
  · exact .last fun _ _ => .last fun _ _ => rfl

theorem dictionary_temporary (t : StaticType) (items : Lower (List Address)) : Temporary t (dictionary t items) :=
  temporary_intro t fun _ _ _ => .last fun _ _ => .last fun _ _ => .last fun _ _ => rfl

theorem property_temporary (t : StaticType) (base : Lower Address) (n : Text) : Temporary t (property t base n) :=
  temporary_intro t fun _ _ _ => .last fun _ _ => .last fun _ _ => .last fun _ _ => .last fun _ _ => rfl

theorem element_temporary (t : StaticType) (base key : Lower Address) : Temporary t (element t base key) :=
  temporary_intro t fun _ _ _ => .last fun _ _ => .last fun _ _ => .last fun _ _ => .last fun _ _ => .last fun _ _ => rfl

theorem result_temporary (t : StaticType) (call : Address → Lower Unit) : Temporary t (result t call) :=
  temporary_intro t fun _ _ _ => .last fun _ _ => rfl

theorem unary_temporary (t : StaticType) (op : Operator) (x : Lower Address) : Temporary t (unary t op x) :=
  temporary_intro t fun _ _ _ => .last fun _ _ => .last fun _ _ => .last fun _ _ => rfl

theorem binary_temporary (t : StaticType) (op : BinaryOp) (x y : Lower Address) : Temporary t (binary t op x y) := by
  refine temporary_intro t fun dst ctx s => .last fun _ _ => .last fun _ _ => .last fun _ _ => .last fun _ _ =>
    .last fun _ _ => ?_
  split
  · exact .last fun _ _ => rfl
  · exact rfl

theorem logical_temporary (isAnd : Bool) (x y : Lower Address) :
    Temporary (.ofBuiltin .bool) (logical isAnd x y) := by
  refine temporary_intro _ fun dst ctx s => ?_
  split <;> exact .last fun _ _ => .last fun _ _ => .last fun _ _ => .last fun _ _ => rfl

theorem conditional_temporary (t : StaticType) (c x y : Lower Address) : Temporary t (conditional t c x y) :=
  temporary_intro t fun _ _ _ => .last fun _ _ => .last fun _ _ => .last fun _ _ => .last fun _ _ => .last fun _ _ =>
    .last fun _ _ => rfl

theorem typeTest_temporary (t : StaticType) (x : Lower Address) (negated : Bool) (u : StaticType) :
    Temporary t (typeTest t x negated u) := by
  refine temporary_intro t fun dst ctx s => .last fun _ _ => .last fun _ _ => .last fun _ _ => ?_
  split
  · exact .last fun _ _ => rfl
  · exact rfl

theorem cast_temporary (ht : t.isVariant = false) (x : Lower Address) : Temporary t (cast t x) := by
  unfold cast
  rw [ht, if_neg Bool.false_ne_true]
  refine temporary_intro t fun dst ctx s => .last fun _ _ => ?_
  split
  · exact .last fun _ _ => .last fun _ _ => rfl
  · exact .last fun _ _ => .last fun _ _ => rfl
  · exact .last fun _ _ => .last fun _ _ => .last fun _ _ => rfl
  · exact .last fun _ _ => .last fun _ _ => .last fun _ _ => rfl
  · exact .last fun _ _ => .last fun _ _ => .last fun _ _ => rfl
  · exact .last fun _ _ => .last fun _ _ => .last fun _ _ => rfl

theorem await_temporary (t : StaticType) (x : Lower Address) : Temporary t (await t x) :=
  temporary_intro t fun _ _ _ => .last fun _ _ => .last fun _ _ => .last fun _ _ => rfl

theorem closure_temporary (t : StaticType) (n : Nat) (captures : List Ident) (usesSelf : Bool) :
    Temporary t (closure t n captures usesSelf) :=
  temporary_intro t fun _ _ _ => .last fun _ _ => .last fun _ _ => .last fun _ _ => rfl

theorem fetch_temporary (t : StaticType) (op : Opcode) (args : List Nat) : Temporary t (fetch t op args) :=
  temporary_intro t fun _ _ _ => .last fun _ _ => rfl

/-! ### Constants and names -/

theorem constant_leftAt (v : Value) : Ends (Gen.constant v) ctx s fun a _ =>
    a.mode ≠ .member ∧ a.type = .ofValue v := by
  unfold Ends
  rw [after_lift, Gen.after_constant]
  simp

theorem direct?_leftAt : Ends (direct? x) ctx s fun r s' =>
    (∀ a ∈ r, x.isDirect ctx = true ∧ a.mode ≠ .member ∧ a.type = x.directType ctx) ∧
      (r = none → x.isDirect ctx = false ∧ s' = s) := by
  cases hd : x.isDirect ctx with
  | false =>
    refine (direct?_open hd).post fun r s' hpost => ?_
    obtain ⟨hr, hs⟩ := hpost
    subst hr
    exact ⟨by simp, fun _ => ⟨rfl, hs⟩⟩
  | true =>
    unfold direct? Ends
    cases hr : x.info.reduced with
    | false => simp [hr, after_bind]
    | true =>
      unfold Expr.isDirect at hd
      cases hden : x.info.type.denotes ctx.cls with
      | true =>
        have htype : x.directType ctx = x.info.type := if_pos hden
        simp only [hr, hden, Bool.not_true, Bool.false_eq_true, if_false, if_true, after_bind, after_read]
        cases x.info.value <;> exact ⟨by simp [htype], fun h => by cases h⟩
      | false =>
        rw [hden, Bool.false_or] at hd
        simp only [hr, hden, Bool.not_true, Bool.false_eq_true, if_false, after_bind, after_read]
        cases hvalue : x.info.value with
        | none => simp [Expr.value?, hvalue] at hd
        | some v =>
          have hv : (!x.isContainer && !x.info.type.isScriptValue) = true := by
            simpa [Expr.value?, hvalue] using hd
          have htype : x.directType ctx = .ofValue v := by
            rw [Expr.directType, if_neg (by simpa [Expr.type] using hden)]
            simp [Expr.value?, hvalue]
          dsimp only
          rw [if_pos hv]
          refine (constant_leftAt v).bind fun a s' ha => ⟨?_, fun h => by cases h⟩
          simpa [htype] using ha

theorem localVar_leftAt {id : Ident} : Ends (localVar id) ctx s fun a _ =>
    a.type = id.info.type ∧ (s.Ready → a.mode ≠ .member) := by
  unfold localVar Ends
  rw [after_bind, after_current]
  dsimp only
  split
  · rename_i b hb
    refine ⟨rfl, fun hs => ?_⟩
    split at hb
    · rcases hs.placed.mode hb with h | h <;> simp [h]
    · cases hb
  · trivial

/-- The address of the value of a name has the type of the name. It is a variable of the instance only if the name is
that of one. -/
theorem name_leftAt {id : Ident} : Ends (name id) ctx s fun a _ => a.type = id.info.type ∧
    ((Expr.ident id).slot? ctx = none → (Expr.ident id).isDirect ctx = false → s.Ready → a.mode ≠ .member) := by
  have hlocal : Ends (localVar id) ctx s fun a _ => a.type = id.info.type ∧
      ((Expr.ident id).slot? ctx = none → (Expr.ident id).isDirect ctx = false → s.Ready → a.mode ≠ .member) :=
    localVar_leftAt.post fun a _ ha => ⟨ha.1, fun _ _ => ha.2⟩
  have htemp : ∀ {code : Lower Address} {s₁ : Lowering}, Temporary id.info.type code → Ends code ctx s₁ fun a _ =>
      a.type = id.info.type ∧
      ((Expr.ident id).slot? ctx = none → (Expr.ident id).isDirect ctx = false → s.Ready → a.mode ≠ .member) :=
    fun h => (h ctx _).post fun a _ ha => ⟨ha.2, fun _ _ _ => by simp [ha.1]⟩
  unfold name
  dsimp only
  split
  · exact hlocal
  · exact hlocal
  · exact hlocal
  · exact hlocal
  · exact hlocal
  · rename_i hsource
    refine (member_ends _ _).bind fun m s₁ hpost => ?_
    obtain ⟨hs₁, hm⟩ := hpost
    refine (inAccessor_ends m).bind fun b s₂ hpost => ?_
    obtain ⟨hs₂, hb⟩ := hpost
    subst hb
    split
    · exact htemp (temporary_intro _ fun _ _ _ => .last fun _ _ => .last fun _ _ => rfl)
    · rename_i hplain
      refine ⟨rfl, fun h hd _ => ?_⟩
      have horigin : (Expr.ident id).origin? ctx = m.origin? (ctx.isAccessorOf m) := by
        unfold Expr.origin? Ident.origin?
        rw [hd, if_neg Bool.false_ne_true]
        simp [hsource, hm]
      simp only [Expr.slot?, horigin] at h
      unfold MemberSlot.origin? at h
      cases hin : ctx.isAccessorOf m <;> cases hg : m.getter.isEmpty <;> cases hset : m.setter.isEmpty <;>
        simp_all
  · exact .last fun _ _ => htemp (fetch_temporary _ _ _)
  · exact .last fun _ _ => htemp (fetch_temporary _ _ _)
  · exact .last fun _ _ => htemp (fetch_temporary _ _ _)
  · split <;> split <;> exact .last fun _ _ => htemp (fetch_temporary _ _ _)
  · split <;> split <;> exact .last fun _ _ => htemp (fetch_temporary _ _ _)
  · refine .last fun _ _ => ?_
    split
    · trivial
    · exact .last fun _ _ => htemp (fetch_temporary _ _ _)

/-! ### Expressions -/

/-- The code of an expression can leave its value at the address. -/
structure LeftAt (ctx : LowerContext) (s : Lowering) (x : Expr) (a : Address) : Prop where
  type : a.type = x.codeType ctx
  outside : x.slot? ctx = none → s.Ready → a.mode ≠ .member

/-- Code for an expression that is neither the class nor a constant. -/
def otherwise (x : Expr) (code : Lower Address) : Lower Address := do
  if let some a ← direct? x then return a
  code

theorem leftAt_code {code : Lower Address} (hx : expr x = otherwise x code)
    (h : x.isDirect ctx = false → Ends code ctx s fun a _ => LeftAt ctx s x a) :
    Ends (expr x) ctx s fun a _ => LeftAt ctx s x a := by
  rw [hx]
  refine direct?_leftAt.bind fun r s₁ hpost => ?_
  obtain ⟨ha, hnone⟩ := hpost
  cases r with
  | some a =>
    obtain ⟨hd, hmode, htype⟩ := ha a rfl
    have hcode : x.codeType ctx = x.directType ctx := by
      unfold Expr.codeType
      rw [if_pos hd]
    exact ⟨htype.trans hcode.symm, fun _ _ => hmode⟩
  | none =>
    obtain ⟨hd, hs₁⟩ := hnone rfl
    exact hs₁ ▸ h hd

/-- Code with a temporary of its own, for an expression of the type of that. -/
theorem leftAt_temporary {code : Lower Address} (hx : expr x = otherwise x code) (hcode : Temporary t code)
    (ht : x.isDirect ctx = false → t = x.codeType ctx) : Ends (expr x) ctx s fun a _ => LeftAt ctx s x a :=
  leftAt_code hx fun hd => (hcode ctx s).post fun a _ ha => ⟨ha.2.trans (ht hd), fun _ _ => by simp [ha.1]⟩

theorem leftAt_constant {v : Value} (hx : expr x = otherwise x (Gen.constant v))
    (hv : x.isDirect ctx = false → .ofValue v = x.codeType ctx) : Ends (expr x) ctx s fun a _ => LeftAt ctx s x a :=
  leftAt_code hx fun hd => (constant_leftAt v).post fun _ _ ha => ⟨ha.2.trans (hv hd), fun _ _ => ha.1⟩

/-- **The code of an expression leaves its value** at an address of the type that is known before. It is a variable of
the instance only if the expression refers to that. -/
theorem expr_leftAt : ∀ (x : Expr), Ends (expr x) ctx s fun a _ => LeftAt ctx s x a
  | .literal l => leftAt_constant (by rw [expr]; rfl) fun hd => by simp [Expr.codeType, hd]
  | .ident id => leftAt_code (by rw [expr]; rfl) fun hd =>
    name_leftAt.post fun _ _ ha => ⟨ha.1.trans (by simp [Expr.codeType, hd, Expr.type, Expr.info]), fun h => ha.2 h hd⟩
  | .self pos i => by
    refine leftAt_code (by rw [expr]; rfl) fun hd => ?_
    have htype : i.type = (Expr.self pos i).codeType ctx := by simp [Expr.codeType, hd, Expr.type, Expr.info]
    exact LeftAt.mk htype fun _ _ => nofun
  | .list .. => leftAt_temporary (by rw [expr]; rfl) (array_temporary _ _) fun hd => by
    simp [Expr.codeType, hd, Expr.type, Expr.info]
  | .dict .. => leftAt_temporary (by rw [expr]; rfl) (dictionary_temporary _ _) fun hd => by
    simp [Expr.codeType, hd, Expr.type, Expr.info]
  | .dot x id i => by
    refine leftAt_temporary (t := i.type) (by rw [expr]; rfl) (fun ctx s => .last fun c s₁ => ?_) fun hd => ?_
    · split
      · split
        · exact .last fun _ _ => property_temporary _ _ _ _ _
        · exact property_temporary _ _ _ _ _
      · exact property_temporary _ _ _ _ _
    · simp [Expr.codeType, hd, Expr.type, Expr.info]
  | .index .. => leftAt_temporary (by rw [expr]; rfl) (element_temporary _ _ _) fun hd => by
    simp [Expr.codeType, hd, Expr.type, Expr.info]
  | .call .. => leftAt_temporary (by rw [expr]; rfl) (result_temporary _ _) fun hd => by
    simp [Expr.codeType, hd, Expr.type, Expr.info]
  | .superCall .. => leftAt_temporary (by rw [expr]; rfl) (result_temporary _ _) fun hd => by
    simp [Expr.codeType, hd, Expr.type, Expr.info]
  | .unary .. => leftAt_temporary (by rw [expr]; rfl) (unary_temporary _ _ _) fun hd => by
    simp [Expr.codeType, hd, Expr.type, Expr.info]
  | .binary x op y i => by
    refine leftAt_code (by rw [expr]; rfl) fun hd => ?_
    split
    · rename_i hop
      exact (logical_temporary _ _ _ _ _).post fun a _ ha => ⟨by simp [Expr.codeType, hd, hop, ha.2], by simp [ha.1]⟩
    · rename_i hop
      exact (binary_temporary _ _ _ _ _ _).post fun a _ ha => ⟨by simp [Expr.codeType, hd, hop, ha.2], by simp [ha.1]⟩
  | .cond .. => leftAt_temporary (by rw [expr]; rfl) (conditional_temporary _ _ _ _) fun hd => by
    simp [Expr.codeType, hd, Expr.type, Expr.info]
  | .typeTest .. => leftAt_temporary (by rw [expr]; rfl) (typeTest_temporary _ _ _ _) fun hd => by
    simp [Expr.codeType, hd, Expr.type, Expr.info]
  | .cast x u i => by
    refine leftAt_code (by rw [expr]; rfl) fun hd => ?_
    cases ht : i.type.isVariant with
    | false =>
      exact (cast_temporary ht _ _ _).post fun a _ ha => ⟨by simp [Expr.codeType, hd, ht, ha.2], by simp [ha.1]⟩
    | true =>
      -- A cast to a type that says nothing leaves its value where it is.
      unfold cast
      rw [ht, if_pos rfl]
      refine (expr_leftAt x).post fun a _ ha => ⟨ha.type.trans (by simp [Expr.codeType, hd, ht]), fun h => ?_⟩
      rw [Expr.slot?, hd, ht, if_neg (by decide)] at h
      exact ha.outside h
  | .await .. => leftAt_temporary (by rw [expr]; rfl) (await_temporary _ _) fun hd => by
    simp [Expr.codeType, hd, Expr.type, Expr.info]
  | .preload .. => leftAt_constant (by rw [expr]; rfl) fun hd => by simp [Expr.codeType, hd]
  | .lambda .. => leftAt_temporary (by rw [expr]; rfl) (fun _ _ => .last fun _ _ => closure_temporary _ _ _ _ _ _)
    fun hd => by simp [Expr.codeType, hd, Expr.type, Expr.info]

end Lower

end GameScript
