import GameScript.Value.Basic
import GameScript.Proofs.Running.Functions

/-!
# Which functions are plain

Whether a function is plain, whether the constants of a program are told apart and whether the numbers in
its code fit can be decided.
-/

/-!
## Equality of values

Whether two values are the same, constructor by constructor (`Value.same`). This is not the equality of
programs, which takes `1` and `1.0` for equal.
-/

namespace GameScript

mutual

/-- Whether two values are the same. -/
def Value.same : Value → Value → Bool
  | .nil, .nil => true
  | .bool b, .bool b' => b = b'
  | .int i, .int i' => i = i'
  | .float x, .float x' => x = x'
  | .string t, .string t' | .stringName t, .stringName t' | .nodePath t, .nodePath t' => t = t'
  | .vector2 x y, .vector2 x' y' => x = x' && y = y'
  | .vector2i x y, .vector2i x' y' => x = x' && y = y'
  | .vector3 x y z, .vector3 x' y' z' => x = x' && y = y' && z = z'
  | .vector3i x y z, .vector3i x' y' z' => x = x' && y = y' && z = z'
  | .color r g b a, .color r' g' b' a' => r = r' && g = g' && b = b' && a = a'
  | .resource p c i, .resource p' c' i' => p = p' && c = c' && i = i'
  | .dictionary es f, .dictionary es' f' => Entry.sameAll es es' && f = f'
  | .array k e n vs f, .array k' e' n' vs' f' =>
    k = k' && e = e' && n = n' && Value.sameAll vs vs' && f = f'
  | _, _ => false

def Value.sameAll : List Value → List Value → Bool
  | [], [] => true
  | v :: vs, w :: ws => v.same w && Value.sameAll vs ws
  | _, _ => false

def Entry.sameAll : List Entry → List Entry → Bool
  | [], [] => true
  | ⟨k, v⟩ :: es, ⟨k', v'⟩ :: es' => k.same k' && v.same v' && Entry.sameAll es es'
  | _, _ => false

end

mutual

theorem Value.eq_of_same {v w : Value} (h : v.same w = true) : v = w := by
  cases v with
  | dictionary es f =>
    cases w with
    | dictionary es' f' =>
      simp only [Value.same, Bool.and_eq_true, decide_eq_true_eq] at h
      rw [Entry.eq_of_sameAll h.1, h.2]
    | _ => cases h
  | array k e n vs f =>
    cases w with
    | array k' e' n' vs' f' =>
      simp only [Value.same, Bool.and_eq_true, decide_eq_true_eq] at h
      obtain ⟨⟨⟨⟨rfl, rfl⟩, rfl⟩, hvs⟩, rfl⟩ := h
      rw [Value.eq_of_sameAll hvs]
    | _ => cases h
  | _ => cases w <;> simp_all [Value.same]

theorem Value.eq_of_sameAll {vs ws : List Value} (h : Value.sameAll vs ws = true) : vs = ws := by
  match vs, ws, h with
  | [], [], _ => rfl
  | v :: vs, w :: ws, h =>
    rw [Value.sameAll, Bool.and_eq_true] at h
    rw [Value.eq_of_same h.1, Value.eq_of_sameAll h.2]

theorem Entry.eq_of_sameAll {es es' : List Entry} (h : Entry.sameAll es es' = true) : es = es' := by
  match es, es', h with
  | [], [], _ => rfl
  | ⟨k, v⟩ :: es, ⟨k', v'⟩ :: es', h =>
    simp only [Entry.sameAll, Bool.and_eq_true] at h
    rw [Value.eq_of_same h.1.1, Value.eq_of_same h.1.2, Entry.eq_of_sameAll h.2]

end

mutual

theorem Value.same_self (v : Value) : v.same v = true := by
  cases v with
  | dictionary es f => simp [Value.same, Entry.sameAll_self es]
  | array k e n vs f => simp [Value.same, Value.sameAll_self vs]
  | _ => simp [Value.same]

theorem Value.sameAll_self (vs : List Value) : Value.sameAll vs vs = true := by
  match vs with
  | [] => rfl
  | v :: vs => simp [Value.sameAll, Value.same_self v, Value.sameAll_self vs]

theorem Entry.sameAll_self (es : List Entry) : Entry.sameAll es es = true := by
  match es with
  | [] => rfl
  | ⟨k, v⟩ :: es => simp [Entry.sameAll, Value.same_self k, Value.same_self v, Entry.sameAll_self es]

end

instance : DecidableEq Value := fun v w =>
  decidable_of_iff (v.same w = true) ⟨Value.eq_of_same, fun h => h ▸ Value.same_self v⟩

end GameScript

namespace GameScript

/-! ### Constants that come from their parts -/

theorem toOption_eq_some {ε α : Type} {r : Except ε α} {a : α} :
    r.toOption = some a ↔ r = .ok a := by
  cases r <;> simp [Except.toOption]

instance (op : Operator) (x : Option Value) (v : Value) :
    Decidable (∃ a, x = some a ∧ Value.unary op a = .ok v) :=
  decidable_of_iff (∃ a ∈ x, (Value.unary op a).toOption = some v)
    (by simp [toOption_eq_some])

instance (op : BinaryOp) (x y : Option Value) (v : Value) :
    Decidable (∃ a b r, x = some a ∧ y = some b ∧ Value.binary op.operator a b = .ok r ∧
      v = if op = .notWithin then .bool (!r.truth) else r) :=
  decidable_of_iff (∃ a ∈ x, ∃ b ∈ y, ∃ r ∈ (Value.binary op.operator a b).toOption,
      v = if op = .notWithin then .bool (!r.truth) else r)
    (by simp [toOption_eq_some])

instance (yes c no : Option Value) (v : Value) :
    Decidable (∃ a b c', c = some c' ∧ yes = some a ∧ no = some b ∧ v = if c'.truth then a else b) :=
  decidable_of_iff (∃ a ∈ yes, ∃ b ∈ no, ∃ c' ∈ c, v = if c'.truth then a else b) (by
    simp only [Option.mem_def]
    grind)

instance {i : Info} {folded : Value → Prop} [DecidablePred folded] : Decidable (i.Plain folded) :=
  decidable_of_iff (i.type.isMeta = false ∧ ∀ v ∈ i.value, folded v)
    ⟨fun h => ⟨h.1, h.2⟩, fun h => ⟨h.isValue, h.folds⟩⟩

instance (b : Binding) : Decidable (∃ r, b = .toLocal r) :=
  match b with
  | .toLocal r => .isTrue ⟨r, rfl⟩
  | .unbound | .toMember .. => .isFalse (by simp)

/-! ### Plain trees -/

def Expr.decidablePlain : (x : Expr) → Decidable x.Plain
  | .literal l => inferInstanceAs (Decidable (l.info.Plain (· = l.value) ∧ l.info.value.isSome))
  | .ident id => inferInstanceAs (Decidable (id.info.Plain (fun _ => True) ∧
      (id.info.value = none → id.source.isVariable ∧ ∃ r, id.binding = .toLocal r)))
  | .unary _ op x i =>
    have := x.decidablePlain
    inferInstanceAs (Decidable (x.Plain ∧ i.Plain fun v =>
      ∃ a, x.value? = some a ∧ Value.unary op.operator a = .ok v))
  | .binary x op y i =>
    have := x.decidablePlain
    have := y.decidablePlain
    inferInstanceAs (Decidable (x.Plain ∧ y.Plain ∧ i.Plain fun v =>
      ∃ a b r, x.value? = some a ∧ y.value? = some b ∧ Value.binary op.operator a b = .ok r ∧
        v = if op = .notWithin then .bool (!r.truth) else r))
  | .cond yes c no i =>
    have := yes.decidablePlain
    have := c.decidablePlain
    have := no.decidablePlain
    inferInstanceAs (Decidable (yes.Plain ∧ c.Plain ∧ no.Plain ∧ i.Plain fun v =>
      ∃ a b c', c.value? = some c' ∧ yes.value? = some a ∧ no.value? = some b ∧
        v = if c'.truth then a else b))
  | .self .. | .call .. | .superCall .. | .dot .. | .index .. | .typeTest .. | .cast .. | .list ..
  | .dict .. | .lambda .. | .await .. | .preload .. =>
    inferInstanceAs (Decidable (Info.Plain _ _ ∧ _ ∧ _ = false))

instance : DecidablePred Expr.Plain := Expr.decidablePlain

instance : DecidablePred Pattern.Plain
  | .literal l => inferInstanceAs (Decidable (Expr.literal l).Plain)
  | .expr x => inferInstanceAs (Decidable (x.Plain ∧ x.value?.isSome))
  | .bind .. | .wildcard _ => .isTrue trivial
  | .array .. | .dict .. | .rest .. => .isFalse id

instance : DecidablePred StaticType.Untyped := fun t =>
  inferInstanceAs (Decidable (t.isHard = false ∨ t.isVariant = true))

mutual

def Stmt.decidablePlain (notes : Pos → Note) : (s : Stmt) → Decidable (s.Plain notes)
  | .expr x => inferInstanceAs (Decidable (x.isCall = false ∧ x.Plain))
  | .var ⟨_, id, _, _, some x, _, _, _, _, _, _, _, _⟩ =>
    inferInstanceAs (Decidable ((notes id.pos).type.Untyped ∧ x.Plain))
  | .var ⟨_, id, _, _, none, _, _, _, _, _, _, _, _⟩ =>
    inferInstanceAs (Decidable (notes id.pos).type.Untyped)
  | .const _ => .isTrue trivial
  | .assign op (.ident id) rhs facts _ =>
    inferInstanceAs (Decidable (id.source.isVariable ∧ (∃ r, id.binding = .toLocal r) ∧
      id.info.type.Untyped ∧ rhs.Plain ∧ facts = op.map BinaryOp.operator))
  | .cond _ c yes (some no) =>
    have := yes.decidablePlain notes
    have := no.decidablePlain notes
    inferInstanceAs (Decidable (c.Plain ∧ yes.Plain notes ∧ no.Plain notes))
  | .cond _ c yes none =>
    have := yes.decidablePlain notes
    inferInstanceAs (Decidable (c.Plain ∧ yes.Plain notes ∧ True))
  | .while _ c body =>
    have := body.decidablePlain notes
    inferInstanceAs (Decidable (c.Plain ∧ body.Plain notes))
  | .match _ x bs =>
    have := Branch.decidableAllPlain notes bs
    inferInstanceAs (Decidable (x.Plain ∧ Branch.AllPlain notes bs))
  | .jump _ j => inferInstanceAs (Decidable (j = .pass ∨ j = .break ∨ j = .continue false))
  | .return _ none _ => .isTrue trivial
  | .return _ (some x) void => inferInstanceAs (Decidable ((void && x.isCall) = false ∧ x.Plain))
  | .loop .. | .assert .. => .isFalse id
  | .assign _ (.literal _) _ _ _ | .assign _ (.self ..) _ _ _ | .assign _ (.call ..) _ _ _
  | .assign _ (.superCall ..) _ _ _ | .assign _ (.dot ..) _ _ _ | .assign _ (.index ..) _ _ _
  | .assign _ (.unary ..) _ _ _ | .assign _ (.binary ..) _ _ _ | .assign _ (.cond ..) _ _ _
  | .assign _ (.typeTest ..) _ _ _ | .assign _ (.cast ..) _ _ _ | .assign _ (.list ..) _ _ _
  | .assign _ (.dict ..) _ _ _ | .assign _ (.lambda ..) _ _ _ | .assign _ (.await ..) _ _ _
  | .assign _ (.preload ..) _ _ _ => .isFalse id

def Block.decidablePlain (notes : Pos → Note) : (b : Block) → Decidable (b.Plain notes)
  | ⟨_, ss, _, _, _, _, _⟩ => Stmt.decidableAllPlain notes ss

def Stmt.decidableAllPlain (notes : Pos → Note) : (ss : List Stmt) → Decidable (Stmt.AllPlain notes ss)
  | [] => .isTrue trivial
  | s :: ss =>
    have := s.decidablePlain notes
    have := Stmt.decidableAllPlain notes ss
    inferInstanceAs (Decidable (s.start.line < 2 ^ 32 ∧ s.Plain notes ∧ Stmt.AllPlain notes ss))

def Branch.decidableAllPlain (notes : Pos → Note) :
    (bs : List Branch) → Decidable (Branch.AllPlain notes bs)
  | [] => .isTrue trivial
  | ⟨ps, body, _⟩ :: bs =>
    have := body.decidablePlain notes
    have := Branch.decidableAllPlain notes bs
    inferInstanceAs (Decidable ((∀ p ∈ ps, p.Plain) ∧ body.Plain notes ∧ Branch.AllPlain notes bs))

end

instance : DecidablePred Param.OptionalLast := go
where
  go : (ps : List Param) → Decidable (Param.OptionalLast ps)
    | [] => .isTrue trivial
    | p :: ps =>
      have := go ps
      inferInstanceAs (Decidable ((p.default.isSome → ∀ q ∈ ps, q.default.isSome) ∧ Param.OptionalLast ps))

instance (notes : Pos → Note) (p : Param) : Decidable (p.Plain notes) :=
  inferInstanceAs (Decidable (∀ x ∈ p.default, x.start.line < 2 ^ 32 ∧ x.Plain ∧
    (notes p.name.pos).type.Untyped))

instance (notes : Pos → Note) (f : Func) : Decidable (f.Plain notes) :=
  have := f.body.decidablePlain notes
  decidable_of_iff (Param.OptionalLast f.params ∧ (∀ p ∈ f.params, p.Plain notes) ∧
      f.body.Plain notes ∧ (f.params.map (·.name.pos) ++ f.body.declared).Nodup)
    ⟨fun ⟨h₁, h₂, h₃, h₄⟩ => ⟨h₁, h₂, h₃, h₄⟩,
      fun h => ⟨h.optionalLast, h.params, h.body, h.declared⟩⟩

/-! ### Programs and their runs -/

deriving instance DecidableEq for ValueError

deriving instance DecidableEq for RunFault

instance (cs : List Value) (v : Value) : Decidable (Pool.Told cs v) :=
  inferInstanceAs (Decidable (∀ c ∈ cs, Pool.key c = Pool.key v → c.unify = v.unify))

instance (fn : Function) (cs : List Value) : Decidable (fn.Addressable cs) :=
  decidable_of_iff (fn.code.length < 2 ^ 32 ∧ fn.params.length ≤ Address.limit ∧
      fn.locals.length ≤ Address.limit ∧ fn.maxTemps.toNat ≤ Address.limit ∧ cs.length ≤ Address.limit)
    ⟨fun ⟨h₁, h₂, h₃, h₄, h₅⟩ => ⟨h₁, h₂, h₃, h₄, h₅⟩,
      fun h => ⟨h.code, h.params, h.locals, h.temps, h.constants⟩⟩

end GameScript
