import GameScript.Proofs.Analysis.Logic

/-!
# Types of results of operators

What an operator makes of values, and the type that it has for their types, are two tables.

* `Value.binary_type_of_not_relational`, `Value.relational_type`, `Value.unary_type` — the results of operators;
* `Operator.results_typed` — **results are of the types that the operators have**, also where the analysis folds
  an expression of constants;
* `Operator.packed_arrays_compared` — the exception: arrays of all kinds are compared by their elements, and
  only two arrays of type `Array` have an order by their types.
-/

namespace GameScript

/-! ### Kinds of arrays -/

namespace Value

/-- An array is of type `Array` or of the type of a packed array. -/
def IsKinded : Value → Prop
  | array kind .. => kind = .array ∨ kind.isPacked
  | _ => True

def isArray : Value → Bool
  | array .. => true
  | _ => false

/-- Whether both values are arrays and one of them is packed. -/
def arePacked (x y : Value) : Bool :=
  x.isArray && y.isArray && (x.type.isPacked || y.type.isPacked)

end Value

namespace Operator

/-- Whether the operator asks for an order. -/
def isRelational : Operator → Bool
  | less | lessEqual | greater | greaterEqual => true
  | _ => false

end Operator

namespace Value

variable {x y v : Value}

/-! ### Numbers -/

theorem number?_cases {d : Double} (h : x.number? = some d) : (∃ i, x = int i) ∨ ∃ f, x = float f := by
  cases x with
  | int i => exact .inl ⟨i, rfl⟩
  | float f => exact .inr ⟨f, rfl⟩
  | _ => cases h

theorem number?_numeric {d : Double} (h : x.number? = some d) : x.type.isNumeric = true := by
  obtain ⟨i, rfl⟩ | ⟨f, rfl⟩ := number?_cases h
  · rfl
  · rfl

theorem isNumeric_cases {t : BuiltinType} (h : t.isNumeric = true) : t = .int ∨ t = .float := by
  simpa [BuiltinType.isNumeric] using h

/-! ### Types of operands -/

theorem isTuple_cases {t : BuiltinType} (h : Operator.isTuple t = true) :
    t = .vector2 ∨ t = .vector2i ∨ t = .vector3 ∨ t = .vector3i ∨ t = .color := by
  revert h
  cases t <;> decide

theorem packed_sum {t : BuiltinType} (h : t.isPacked = true) : Operator.add.resultType? t t = some t := by
  revert h
  cases t <;> decide

/-- A tuple is multiplied with and divided by a number; a float makes the components of the result floats. -/
theorem resultType?_scale {op : Operator} {a b : BuiltinType} (hop : op = .multiply ∨ op = .divide)
    (ha : Operator.isTuple a = true) (hb : b.isNumeric = true) :
    op.resultType? a b = some (if b = .float then a.floatVector else a) := by
  rcases hop with rfl | rfl
  all_goals rcases isTuple_cases ha with rfl | rfl | rfl | rfl | rfl
  all_goals rcases isNumeric_cases hb with rfl | rfl
  all_goals rfl

theorem resultType?_multiply_comm {a b : BuiltinType} (ha : a.isNumeric = true) :
    Operator.multiply.resultType? a b = Operator.multiply.resultType? b a := by
  rcases isNumeric_cases ha with rfl | rfl
  all_goals cases b
  all_goals rfl

variable {f : Double → Double → Double} {g : Int64 → Int64 → Int64}

/-! ### Componentwise arithmetic -/

theorem mapNumbers_type (h : mapNumbers f g x y = some v) :
    x.type.isNumeric = true ∧ y.type.isNumeric = true ∧ v.type = Operator.numericResult x.type y.type := by
  unfold mapNumbers at h
  split at h
  · cases h
    exact ⟨rfl, rfl, rfl⟩
  · rename_i hnotInts
    simp only [Option.bind_eq_bind, Option.bind_eq_some_iff, Option.pure_def, Option.some.injEq] at h
    obtain ⟨a, hx, b, hy, rfl⟩ := h
    refine ⟨number?_numeric hx, number?_numeric hy, ?_⟩
    obtain ⟨i, rfl⟩ | ⟨a, rfl⟩ := number?_cases hx
    · obtain ⟨j, rfl⟩ | ⟨b, rfl⟩ := number?_cases hy
      · exact absurd rfl (hnotInts i j rfl)
      · rfl
    · rfl

theorem mapFloats_type (h : mapFloats f x y = some v) :
    x.type = y.type ∧ v.type = x.type ∧ (x.type = .vector2 ∨ x.type = .vector3 ∨ x.type = .color) := by
  unfold mapFloats at h
  split at h
  all_goals cases h
  all_goals simp [type]

theorem mapInts_type (h : mapInts g x y = some v) :
    x.type = y.type ∧ v.type = x.type ∧ (x.type = .vector2i ∨ x.type = .vector3i) := by
  unfold mapInts at h
  split at h
  all_goals cases h
  all_goals simp [type]

theorem scale_type (h : scale f g x y = some v) :
    Operator.isTuple x.type = true ∧ y.type.isNumeric = true ∧
      v.type = if y.type = .float then x.type.floatVector else x.type := by
  unfold scale at h
  split at h
  iterate 4
    cases h
    exact ⟨rfl, rfl, rfl⟩
  simp only [Option.bind_eq_bind, Option.bind_eq_some_iff] at h
  obtain ⟨n, hy, h⟩ := h
  obtain ⟨i, rfl⟩ | ⟨n, rfl⟩ := number?_cases hy
  all_goals split at h
  all_goals cases h
  all_goals exact ⟨rfl, rfl, rfl⟩

theorem of_orElse {o p : Option Value} (h : (o <|> p) = some v) : o = some v ∨ p = some v := by
  cases o with
  | some w => exact .inl h
  | none => exact .inr h

/-- What the four arithmetic operators share. -/
theorem componentwise_type {op : Operator}
    (hop : op = .add ∨ op = .subtract ∨ op = .multiply ∨ op = .divide)
    (h : mapNumbers f g x y = some v ∨ mapFloats f x y = some v ∨ mapInts g x y = some v) :
    op.resultType? x.type y.type = some v.type := by
  obtain h | h | h := h
  · obtain ⟨hx, hy, hv⟩ := mapNumbers_type h
    rcases hop with rfl | rfl | rfl | rfl
    all_goals simp [Operator.resultType?, hx, hy, hv]
  · obtain ⟨hxy, hv, hx⟩ := mapFloats_type h
    rw [← hxy, hv]
    rcases hx with hx | hx | hx
    all_goals rw [hx]
    all_goals rcases hop with rfl | rfl | rfl | rfl
    all_goals rfl
  · obtain ⟨hxy, hv, hx⟩ := mapInts_type h
    rw [← hxy, hv]
    rcases hx with hx | hx
    all_goals rw [hx]
    all_goals rcases hop with rfl | rfl | rfl | rfl
    all_goals rfl

theorem addValues_type (hx : x.IsKinded) (h : addValues x y = some v) :
    Operator.add.resultType? x.type y.type = some v.type := by
  unfold addValues at h
  split at h
  iterate 4
    cases h
    rfl
  · split at h
    · rename_i hkind
      subst hkind
      cases h
      obtain rfl | hpacked := hx
      · rfl
      · exact packed_sum hpacked
    · cases h
  · exact componentwise_type (.inl rfl) ((of_orElse h).imp_right of_orElse)

theorem subtractValues_type (h : subtractValues x y = some v) :
    Operator.subtract.resultType? x.type y.type = some v.type :=
  componentwise_type (.inr (.inl rfl)) ((of_orElse h).imp_right of_orElse)

/-- What multiplication and division share. -/
theorem scaled_type {op : Operator} (hop : op = .multiply ∨ op = .divide)
    (h : (mapNumbers f g x y <|> mapFloats f x y <|> mapInts g x y <|> scale f g x y) = some v) :
    op.resultType? x.type y.type = some v.type := by
  have harithmetic : op = .add ∨ op = .subtract ∨ op = .multiply ∨ op = .divide := .inr (.inr hop)
  obtain h | h := of_orElse h
  · exact componentwise_type harithmetic (.inl h)
  obtain h | h := of_orElse h
  · exact componentwise_type (g := g) harithmetic (.inr (.inl h))
  obtain h | h := of_orElse h
  · exact componentwise_type (f := f) harithmetic (.inr (.inr h))
  · obtain ⟨hx, hy, hv⟩ := scale_type h
    rw [hv]
    exact resultType?_scale hop hx hy

theorem multiplyValues_type (h : multiplyValues x y = some v) :
    Operator.multiply.resultType? x.type y.type = some v.type := by
  obtain h | h := of_orElse h
  · exact scaled_type (.inl rfl) h
  · split at h
    · rename_i hx
      rw [resultType?_multiply_comm hx]
      exact scaled_type (.inl rfl) h
    · cases h

theorem divideValues_type (h : divideValues x y = some (.ok v)) :
    Operator.divide.resultType? x.type y.type = some v.type := by
  unfold divideValues at h
  split at h
  · rename_i hw
    split at h
    · cases h
    cases h
    exact scaled_type (.inr rfl) hw
  · cases h

theorem moduloValues_type (h : moduloValues x y = some (.ok v)) :
    Operator.modulo.resultType? x.type y.type = some v.type := by
  simp only [moduloValues, Option.map_eq_some_iff] at h
  obtain ⟨w, hw, h⟩ := h
  split at h
  · cases h
  cases h
  split at hw
  iterate 3
    cases hw
    rfl
  obtain ⟨hxy, hv, hx⟩ := mapInts_type hw
  rw [← hxy, hv]
  rcases hx with hx | hx
  all_goals rw [hx]
  all_goals rfl

/-! ### Comparison and membership -/

theorem relateNumbers?_numeric {op : Operator} {b : Bool} (h : relateNumbers? op x y = some b) :
    x.type.isNumeric = true ∧ y.type.isNumeric = true := by
  unfold relateNumbers? at h
  split at h
  · exact ⟨rfl, rfl⟩
  · simp only [Option.bind_eq_bind, Option.bind_eq_some_iff] at h
    obtain ⟨_, hx, _, hy, _⟩ := h
    exact ⟨number?_numeric hx, number?_numeric hy⟩

/-- Values that have an order are arrays or of types that have one. -/
theorem compare?_ordered {op : Operator} {o : Ordering} (hop : op.isRelational = true)
    (h : compare? x y = some o) :
    x.isArray = true ∧ y.isArray = true ∨ op.resultType? x.type y.type = some .bool := by
  unfold compare? at h
  split at h
  case h_12 => exact .inl ⟨rfl, rfl⟩
  case h_13 => cases h
  all_goals right
  all_goals cases op with
    | less | lessEqual | greater | greaterEqual => rfl
    | _ => cases hop

theorem isWithin?_type (hy : y.IsKinded) {b : Bool} (h : isWithin? x y = some b) :
    Operator.within.resultType? x.type y.type = some .bool := by
  unfold isWithin? at h
  split at h
  · obtain rfl | hpacked := hy
    · rfl
    · simp [Operator.resultType?, type, hpacked]
  · rfl
  · rfl
  · rfl
  · cases h

/-- Two arrays have an order by their types if neither of them is packed. -/
theorem resultType?_arrays {op : Operator} (hop : op.isRelational = true) (hx : x.IsKinded) (hy : y.IsKinded)
    (hxa : x.isArray = true) (hya : y.isArray = true) :
    op.resultType? x.type y.type = if arePacked x y then none else some .bool := by
  have hkinds : ∀ k l : BuiltinType, (k = .array ∨ k.isPacked = true) → (l = .array ∨ l.isPacked = true) →
      op.resultType? k l = if k.isPacked || l.isPacked then none else some .bool := by
    cases op with
    | less | lessEqual | greater | greaterEqual =>
      intro k l hk hl
      cases k <;> cases l <;> revert hk hl <;> decide
    | _ => cases hop
  cases x with
  | array k =>
    cases y with
    | array l => exact hkinds k l hx hy
    | _ => cases hya
  | _ => cases hxa

/-- A comparison of two values is one that their types admit, unless one of two arrays is packed. -/
theorem relate?_type {op : Operator} {b : Bool} (hop : op.isRelational = true) (hx : x.IsKinded)
    (hy : y.IsKinded) (h : relate? op x y = some b) :
    op.resultType? x.type y.type = if arePacked x y then none else some .bool := by
  by_cases harrays : x.isArray = true ∧ y.isArray = true
  · exact resultType?_arrays hop hx hy harrays.1 harrays.2
  have hpacked : arePacked x y = false := by
    simp only [arePacked]
    grind
  rw [hpacked, if_neg Bool.false_ne_true]
  cases hnumbers : relateNumbers? op x y with
  | some c =>
    obtain ⟨hxn, hyn⟩ := relateNumbers?_numeric hnumbers
    cases op with
    | less | lessEqual | greater | greaterEqual => simp [Operator.resultType?, hxn, hyn]
    | _ => cases hop
  | none =>
    unfold relate? at h
    rw [hnumbers] at h
    obtain ⟨o, ho, _⟩ := Option.map_eq_some_iff.mp h
    exact (compare?_ordered hop ho).resolve_left harrays

/-! ### All operators -/

theorem format_type {f : Text} (h : format f x = .ok v) : v.type = .string := by
  unfold format at h
  dsimp only at h
  split at h
  all_goals cases hbytes : formatBytes f.bytes _ with
    | error e =>
      rw [hbytes] at h
      cases h
    | ok bytes =>
      rw [hbytes] at h
      cases h
      rfl

theorem of_orInvalid {r : Option Value} {e : ValueError}
    (h : (match r with
      | some w => .ok w
      | none => .error e : Except ValueError Value) = .ok v) : r = some v := by
  cases r with
  | some w =>
    cases h
    rfl
  | none => cases h

theorem of_getD {r : Option (Except ValueError Value)} {e : ValueError}
    (h : r.getD (.error e) = .ok v) : r = some (.ok v) := by
  cases r with
  | some w => exact congrArg some h
  | none => cases h

theorem relational_type {op : Operator} (hop : op.isRelational = true) (h : binary op x y = .ok v) :
    v.type = .bool ∧ ∃ b, relate? op x y = some b := by
  have hrelate : (relate? op x y).map bool = some v := by
    cases op with
    | less | lessEqual | greater | greaterEqual => exact of_orInvalid h
    | _ => cases hop
  obtain ⟨b, hb, rfl⟩ := Option.map_eq_some_iff.mp hrelate
  exact ⟨rfl, b, hb⟩

theorem binary_type_of_not_relational {op : Operator} (hop : op.isRelational = false) (hx : x.IsKinded)
    (hy : y.IsKinded) (h : binary op x y = .ok v) : op.resultType? x.type y.type = some v.type := by
  unfold binary at h
  cases op with
  | less | lessEqual | greater | greaterEqual => cases hop
  | and | or | xor =>
    cases h
    rfl
  | equal | notEqual =>
    dsimp only at h
    split at h
    · rename_i hsome
      cases h
      obtain ⟨t, ht⟩ := Option.isSome_iff_exists.mp hsome
      rw [ht]
      simp only [Operator.resultType?] at ht
      split at ht
      all_goals cases ht
      rfl
    · cases h
  | add => exact addValues_type hx (of_orInvalid h)
  | subtract => exact subtractValues_type (of_orInvalid h)
  | multiply => exact multiplyValues_type (of_orInvalid h)
  | divide => exact divideValues_type (of_getD h)
  | modulo =>
    dsimp only at h
    split at h
    · rw [format_type h]
      rfl
    · exact moduloValues_type (of_getD h)
  | power =>
    obtain ⟨hxn, hyn, hv⟩ := mapNumbers_type (of_orInvalid h)
    simp [Operator.resultType?, hxn, hyn, hv]
  | shiftLeft | shiftRight =>
    dsimp only at h
    split at h
    · split at h
      all_goals cases h
      rfl
    · cases h
  | bitAnd | bitOr | bitXor =>
    dsimp only at h
    split at h
    all_goals cases h
    rfl
  | within =>
    obtain ⟨b, hb, rfl⟩ := Option.map_eq_some_iff.mp (of_orInvalid h)
    exact isWithin?_type hy hb
  | negate | positive | bitNegate | not => cases h

theorem unary_type {op : Operator} (h : unary op x = .ok v) (t : BuiltinType) :
    op.resultType? x.type t = some v.type := by
  unfold unary at h
  split at h
  all_goals cases h
  all_goals rfl

end Value

/-! ### Folding -/

open Value

/-- The value `v` is of the type that the operator has for the types of the operands. There is one
exception: a comparison of arrays has no type if one of them is packed, and is a truth value all the same. -/
def Operator.Types (op : Operator) (x y v : Value) : Prop :=
  if op.isRelational && arePacked x y then op.resultType? x.type y.type = none ∧ v.type = .bool
  else op.resultType? x.type y.type = some v.type

variable {op : Operator} {x y v : Value}

theorem Operator.types_binary (hx : x.IsKinded) (hy : y.IsKinded) (h : binary op x y = .ok v) :
    op.Types x y v := by
  unfold Operator.Types
  cases hop : op.isRelational with
  | false => exact binary_type_of_not_relational hop hx hy h
  | true =>
    obtain ⟨hv, b, hb⟩ := relational_type hop h
    have htype := relate?_type hop hx hy hb
    cases hpacked : arePacked x y with
    | false => simpa [hpacked, hv] using htype
    | true => simpa [hpacked, hv] using htype

namespace Analysis

theorem unaryInfo_types {e : Expr} (span : Span) (op : Operator) (hx : e.value? = some x) (t : BuiltinType) :
    Gives (fun i => ∀ v, i.value = some v → op.resultType? x.type t = some v.type) (unaryInfo span op e) := by
  unfold unaryInfo
  rw [hx]
  dsimp only
  split
  · rename_i w hw
    refine gives_pure fun v hv => ?_
    cases hv
    exact unary_type hw t
  · exact gives_bind fun _ => gives_pure fun v hv => by cases hv

/-- Folding an operator on constants. -/
theorem foldedInfo_types (span : Span) (written : BinaryOp) (hkx : x.IsKinded) (hky : y.IsKinded) :
    Gives (fun i => ∀ v, i.value = some v → written.operator.Types x y v)
      (match binary written.operator x y with
        | .ok r => return constant (if written = .notWithin then .bool (!r.truth) else r) {}
        | .error e => do
          if (written.operator.resultType? x.type y.type).isSome then complain span (.value e)
          else complain span (.constantOperands written.operator.name x.type.name y.type.name)
          return {} : Analysis Info) := by
  split
  · rename_i r hr
    refine gives_pure fun v hv => ?_
    cases hv
    have htypes := Operator.types_binary hkx hky hr
    split
    · -- a truth value is negated
      rename_i hwritten
      subst hwritten
      obtain ⟨b, -, rfl⟩ := Option.map_eq_some_iff.mp (of_orInvalid hr)
      exact htypes
    · exact htypes
  · split
    all_goals exact gives_bind fun _ => gives_pure fun v hv => by cases hv

theorem binaryInfo_types {e f : Expr} (span : Span) (written : BinaryOp) (hx : e.value? = some x)
    (hy : f.value? = some y) (hkx : x.IsKinded) (hky : y.IsKinded) :
    Gives (fun i => ∀ v, i.value = some v → written.operator.Types x y v) (binaryInfo span written e f) := by
  unfold binaryInfo
  rw [hx, hy]
  dsimp only
  split
  · exact gives_bind fun _ => foldedInfo_types span written hkx hky
  · exact foldedInfo_types span written hkx hky

end Analysis

/-- What an operator makes of values, at run time or when an expression of constants is folded, is of the
type that it has for the types of the operands; only arrays are compared that have no order by their types. -/
theorem Operator.results_typed (op : Operator) (hx : x.IsKinded) (hy : y.IsKinded) :
    (∀ v, binary op x y = .ok v → op.Types x y v) ∧
    (∀ v t, unary op x = .ok v → op.resultType? x.type t = some v.type) ∧
    (∀ span written (e f : Expr), written.operator = op → e.value? = some x → f.value? = some y →
      Analysis.Gives (fun i => ∀ v, i.value = some v → op.Types x y v)
        (Analysis.binaryInfo span written e f)) ∧
    ∀ span (e : Expr) t, e.value? = some x →
      Analysis.Gives (fun i => ∀ v, i.value = some v → op.resultType? x.type t = some v.type)
        (Analysis.unaryInfo span op e) := by
  refine ⟨fun v h => types_binary hx hy h, fun v t h => unary_type h t, ?_, ?_⟩
  · rintro span written e f rfl he hf
    exact Analysis.binaryInfo_types span written he hf hx hy
  · exact fun span e t he => Analysis.unaryInfo_types span op he t

theorem Operator.results_typed_sum :
    let x := array .packedInt32Array .nil "" [int 1] false
    let y := array .packedInt32Array .nil "" [int 2] false
    let z := array .packedInt32Array .nil "" [int 1, int 2] false
    x.IsKinded ∧ y.IsKinded ∧ binary .add x y = .ok z ∧ Operator.add.Types x y z := by
  intro x y z
  have hx : x.IsKinded := .inr rfl
  have hy : y.IsKinded := .inr rfl
  have hsum : binary .add x y = .ok z := rfl
  exact ⟨hx, hy, hsum, (results_typed .add hx hy).1 z hsum⟩

/-- Two packed arrays are compared though the operator has no type for theirs. -/
theorem Operator.packed_arrays_compared :
    binary .less (array .packedInt32Array .nil "" [int 1] false) (array .packedInt32Array .nil "" [int 2] false) =
      .ok (.bool true) ∧
    Operator.less.resultType? .packedInt32Array .packedInt32Array = none :=
  ⟨rfl, rfl⟩

end GameScript
