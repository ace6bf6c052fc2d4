import GameScript.Lowering.Generator
import GameScript.Proofs.Running.Source
import Mathlib.Data.Nat.Bitwise

/-!
# Values that differ in their NaNs

A program has at most one constant that is no number, whatever bits it has in the source. So the values
of running code are those of the source up to the bits of NaNs (`Value.Alike`), which no operator looks
at.
-/

namespace GameScript

/-! ### Numbers -/

namespace Double

/-- The number with one NaN in place of all. -/
def unify (x : Double) : Double := if x.isNaN then nan else x

variable (x y : Double)

theorem isNaN_nan : nan.isNaN = true := by decide

theorem unify_of_isNaN {x : Double} (h : x.isNaN = true) : x.unify = nan := by simp [unify, h]

theorem unify_of_not_isNaN {x : Double} (h : x.isNaN = false) : x.unify = x := by simp [unify, h]

@[simp] theorem isNaN_unify : x.unify.isNaN = x.isNaN := by
  cases h : x.isNaN
  · rw [unify_of_not_isNaN h, h]
  · rw [unify_of_isNaN h, isNaN_nan]

@[simp] theorem unify_unify : x.unify.unify = x.unify := by
  cases h : x.isNaN
  · rw [unify_of_not_isNaN h, unify_of_not_isNaN h]
  · rw [unify_of_isNaN h, unify_of_isNaN isNaN_nan]

theorem eq_unify_left : x.unify.eq y = x.eq y := by
  cases hx : x.isNaN <;> simp [eq, unify, hx, isNaN_nan]

theorem eq_unify_right : x.eq y.unify = x.eq y := by
  cases hy : y.isNaN <;> simp [eq, unify, hy, isNaN_nan]

theorem lt_unify_left : x.unify.lt y = x.lt y := by
  cases hx : x.isNaN <;> simp [lt, unify, hx, isNaN_nan]

theorem lt_unify_right : x.lt y.unify = x.lt y := by
  cases hy : y.isNaN <;> simp [lt, unify, hy, isNaN_nan]

theorem le_unify_left : x.unify.le y = x.le y := by
  cases hx : x.isNaN <;> simp [le, unify, hx, isNaN_nan]

theorem le_unify_right : x.le y.unify = x.le y := by
  cases hy : y.isNaN <;> simp [le, unify, hy, isNaN_nan]

theorem isZero_unify : x.unify.isZero = x.isZero := by
  cases hx : x.isNaN
  · rw [unify_of_not_isNaN hx]
  · simp [isZero, eq, unify, hx, isNaN_nan]

theorem text_unify : x.unify.text = x.text := by
  cases hx : x.isNaN
  · rw [unify_of_not_isNaN hx]
  · simp [text, unify, hx, isNaN_nan]

theorem fixedText_unify : x.unify.fixedText = x.fixedText := by
  cases hx : x.isNaN
  · rw [unify_of_not_isNaN hx]
  · simp [fixedText, unify, hx, isNaN_nan]

theorem not_isFinite_of_isNaN {x : Double} (h : x.isNaN = true) : x.isFinite = false := by
  simp only [isNaN, Bool.and_eq_true, decide_eq_true_eq] at h
  simp [isFinite, h.1]

theorem truncate_unify : x.unify.truncate = x.truncate := by
  cases hx : x.isNaN
  · rw [unify_of_not_isNaN hx]
  · simp only [truncate, not_isFinite_of_isNaN hx,
      not_isFinite_of_isNaN (x.isNaN_unify.trans hx), Bool.not_false, if_true]

/-! The fields of a number after a change of a single bit. -/

theorem exponentField_eq : x.exponentField = x.bits.toNat / 2 ^ 52 % 2 ^ 11 := by
  show (x.bits >>> 52).toNat % 2048 = _
  rw [UInt64.toNat_shiftRight, Nat.shiftRight_eq_div_pow]
  rfl

theorem isNaN_quiet {x : Double} (h : x.isNaN = true) : x.quiet.isNaN = true := by
  simp only [isNaN, Bool.and_eq_true, decide_eq_true_eq, exponentField_eq] at h ⊢
  have hbits : x.quiet.bits.toNat = x.bits.toNat ||| 2 ^ 51 := by
    show (x.bits ||| 0x0008000000000000).toNat = _
    rw [UInt64.toNat_or]
    rfl
  refine ⟨?_, ?_⟩
  · rw [hbits, Nat.or_div_two_pow]
    simpa using h.1
  · show x.quiet.bits.toNat % 2 ^ 52 ≠ 0
    rw [hbits, Nat.or_mod_two_pow]
    intro h0
    have := Nat.right_le_or (n := x.bits.toNat % 2 ^ 52) (m := 2 ^ 51 % 2 ^ 52)
    omega

@[simp] theorem isNaN_neg : x.neg.isNaN = x.isNaN := by
  have hbits : x.neg.bits.toNat = x.bits.toNat ^^^ 2 ^ 63 := by
    show (x.bits ^^^ 0x8000000000000000).toNat = _
    rw [UInt64.toNat_xor]
    rfl
  have hexp : x.neg.exponentField = x.exponentField := by
    rw [exponentField_eq, exponentField_eq, hbits, Nat.xor_div_two_pow, Nat.xor_mod_two_pow]
    simp
  have hfrac : x.neg.fractionField = x.fractionField := by
    show x.neg.bits.toNat % 2 ^ 52 = x.bits.toNat % 2 ^ 52
    rw [hbits, Nat.xor_mod_two_pow]
    simp
  rw [isNaN, isNaN, hexp, hfrac]

theorem neg_unify : x.unify.neg.unify = x.neg.unify := by
  cases hx : x.isNaN
  · rw [unify_of_not_isNaN hx]
  · rw [unify_of_isNaN (x := x.unify.neg) (by simpa using hx), unify_of_isNaN (x := x.neg) (by simpa using hx)]

/-- An operation whose result, up to its bits if it is none, does not depend on the bits of NaNs. -/
def Blind (f : Double → Double → Double) : Prop :=
  ∀ x y, (f x.unify y.unify).unify = (f x y).unify

theorem Blind.left {f : Double → Double → Double} (h : Blind f) (x y : Double) :
    (f x.unify y).unify = (f x y).unify := by
  rw [← h x.unify y, unify_unify, h]

theorem Blind.right {f : Double → Double → Double} (h : Blind f) (x y : Double) :
    (f x y.unify).unify = (f x y).unify := by
  rw [← h x y.unify, unify_unify, h]

theorem blind_combine (f : Float → Float → Float) : Blind (combine f) := by
  intro x y
  have hnan : ∀ a b : Double, a.isNaN = true ∨ b.isNaN = true → (combine f a b).unify = nan := by
    intro a b h
    unfold combine
    cases ha : a.isNaN
    · have hb : b.isNaN = true := by simpa [ha] using h
      simp only [hb, Bool.false_eq_true, if_false, if_true]
      exact unify_of_isNaN (isNaN_quiet hb)
    · simp only [if_true]
      exact unify_of_isNaN (isNaN_quiet ha)
  by_cases h : x.isNaN = true ∨ y.isNaN = true
  · rw [hnan x y h, hnan _ _ (by simpa using h)]
  · simp only [not_or, Bool.not_eq_true] at h
    rw [unify_of_not_isNaN h.1, unify_of_not_isNaN h.2]

theorem blind_pow : Blind pow := by
  intro x y
  -- A NaN to the power zero is one, and to the power one itself.
  have hnan : ∀ a b : Double, a.isNaN = true ∨ b.isNaN = true → (pow a b).unify =
      if b.isZero || a.eq 1.0 then one else nan := by
    intro a b h
    unfold pow
    by_cases hone : (b.isZero || a.eq 1.0) = true
    · rw [if_pos hone, if_pos hone]
      exact unify_of_not_isNaN (by decide)
    rw [if_neg hone, if_neg hone]
    by_cases hb : b.eq 1.0 = true
    · have hbn : b.isNaN = false := by
        rw [eq] at hb
        simp only [Bool.and_eq_true, Bool.not_eq_eq_eq_not, Bool.not_true] at hb
        exact hb.1.1
      rw [if_pos hb]
      exact unify_of_isNaN (by simpa [hbn] using h)
    · rw [if_neg hb, if_pos (by simpa using h)]
      exact unify_of_isNaN (by decide)
  by_cases h : x.isNaN = true ∨ y.isNaN = true
  · rw [hnan x y h, hnan _ _ (by simpa using h), isZero_unify, eq_unify_left]
  · simp only [not_or, Bool.not_eq_true] at h
    rw [unify_of_not_isNaN h.1, unify_of_not_isNaN h.2]

end Double

/-! ### Values -/

namespace Value

/-- The value with one NaN in place of all; the elements of containers stay as they are. -/
def unify : Value → Value
  | float x => float x.unify
  | vector2 x y => vector2 x.unify y.unify
  | vector3 x y z => vector3 x.unify y.unify z.unify
  | color r g b a => color r.unify g.unify b.unify a.unify
  | v => v

/-- The same value, up to the bits of NaNs. -/
def Alike (v w : Value) : Prop := v.unify = w.unify

theorem Alike.refl (v : Value) : Alike v v := rfl

theorem Alike.trans {u v w : Value} (h₁ : Alike u v) (h₂ : Alike v w) : Alike u w := Eq.trans h₁ h₂

variable (x y : Value)

@[simp] theorem type_unify : x.unify.type = x.type := by cases x <;> rfl

section Parts

attribute [local simp] unify

@[simp] theorem truth_unify : x.unify.truth = x.truth := by
  cases x <;> simp [truth, Double.isZero_unify]

@[simp] theorem repr_unify : x.unify.repr = x.repr := by
  cases x <;> simp [repr, Double.text_unify]

@[simp] theorem text_unify : x.unify.text = x.text := by
  cases x <;> simp [text, repr, Double.text_unify]

@[simp] theorem hash_unify : x.unify.hash = x.hash := by
  cases x <;> simp [hash, repr, type, Double.text_unify]

end Parts

/-! ### Operators -/

theorem unary_unify (op : Operator) : (unary op x.unify).map unify = (unary op x).map unify := by
  have hneg : ∀ a : Double, (-a.unify).unify = (-a).unify := Double.neg_unify
  have hsub : ∀ a : Double, (Double.one - a.unify).unify = (Double.one - a).unify := fun a =>
    (Double.blind_combine (· - ·)).right _ a
  cases op with
  | negate | positive | bitNegate | not =>
    cases x <;> simp [unary, unify, Except.map, hneg, hsub, truth, Double.isZero_unify, type]
  | _ => simp only [unary, type_unify]

section Arithmetic

variable {f : Double → Double → Double} (hf : Double.Blind f) (g : Int64 → Int64 → Int64)

include hf

theorem mapNumbers_unify :
    (mapNumbers f g x.unify y.unify).map unify = (mapNumbers f g x y).map unify := by
  cases x with
  | int | float => cases y <;> simp [mapNumbers, unify, number?, hf.left, hf.right]
  | _ => rfl

theorem mapFloats_unify :
    (mapFloats f x.unify y.unify).map unify = (mapFloats f x y).map unify := by
  cases x with
  | vector2 | vector3 | color => cases y <;> simp [mapFloats, unify, hf.left, hf.right]
  | _ => rfl

theorem scale_unify :
    (scale f g x.unify y.unify).map unify = (scale f g x y).map unify := by
  cases y with
  | int | float => cases x <;> simp [scale, unify, number?, hf.left, hf.right]
  | _ => cases x <;> rfl

end Arithmetic

theorem mapInts_unify (g : Int64 → Int64 → Int64) :
    mapInts g x.unify y.unify = mapInts g x y := by
  cases x with
  | vector2i | vector3i => cases y <;> rfl
  | _ => rfl

theorem integers_unify : integers x.unify = integers x := by cases x <;> rfl

theorem equal_unify_left : x.unify.equal y = x.equal y := by
  cases x with
  | float | vector2 | vector3 | color => cases y <;> simp [equal, unify, Double.eq_unify_left]
  | _ => rfl

theorem equal_unify : x.unify.equal y.unify = x.equal y := by
  rw [equal_unify_left]
  cases y with
  | float | vector2 | vector3 | color => cases x <;> simp [equal, unify, Double.eq_unify_right]
  | _ => rfl

theorem compare?_unify_left : compare? x.unify y = compare? x y := by
  cases x with
  | float | vector2 | vector3 | color =>
    cases y <;> simp [compare?, unify, Double.eq_unify_left, Double.lt_unify_left, Double.lt_unify_right]
  | _ => rfl

theorem compare?_unify : compare? x.unify y.unify = compare? x y := by
  rw [compare?_unify_left]
  cases y with
  | float | vector2 | vector3 | color =>
    cases x <;> simp [compare?, unify, Double.eq_unify_right, Double.lt_unify_left, Double.lt_unify_right]
  | _ => rfl

theorem relateNumbers?_unify (op : Operator) :
    relateNumbers? op x.unify y.unify = relateNumbers? op x y := by
  cases x with
  | int | float =>
    cases y <;> simp [relateNumbers?, unify, number?, Double.lt_unify_left, Double.lt_unify_right,
      Double.le_unify_left, Double.le_unify_right]
  | _ => rfl

theorem relate?_unify (op : Operator) : relate? op x.unify y.unify = relate? op x y := by
  rw [relate?, relate?, relateNumbers?_unify, compare?_unify]

theorem isWithin?_unify : isWithin? x.unify y.unify = isWithin? x y := by
  cases y with
  | array kind element elementName elements frozen =>
    have h : x.unify.equal = x.equal := funext fun z => equal_unify_left x z
    show some (elements.any x.unify.equal) = some (elements.any x.equal)
    rw [h]
  | dictionary entries frozen =>
    show some (lookup? x.unify entries).isSome = some (lookup? x entries).isSome
    rw [lookup?, lookup?, hash_unify]
  | _ => cases x <;> simp [isWithin?, unify]

theorem map_unify_orElse (a b : Option Value) :
    (a <|> b).map unify = (a.map unify <|> b.map unify) := by
  cases a <;> rfl

/-- Numbers and the components of vectors and colors. -/
theorem combined_unify {f : Double → Double → Double} (hf : Double.Blind f)
    (g : Int64 → Int64 → Int64) :
    (mapNumbers f g x.unify y.unify <|> mapFloats f x.unify y.unify <|>
      mapInts g x.unify y.unify).map unify =
    (mapNumbers f g x y <|> mapFloats f x y <|> mapInts g x y).map unify := by
  simp only [map_unify_orElse, mapNumbers_unify x y hf g, mapFloats_unify x y hf, mapInts_unify]

theorem addValues_unify : (addValues x.unify y.unify).map unify = (addValues x y).map unify := by
  have h := combined_unify x y (Double.blind_combine (· + ·)) (· + ·)
  cases x with
  | string a | stringName a =>
    cases y with
    | string b | stringName b => rfl
    | _ => exact h
  | array =>
    cases y with
    | array => rfl
    | _ => exact h
  | _ => exact h

theorem subtractValues_unify :
    (subtractValues x.unify y.unify).map unify = (subtractValues x y).map unify :=
  combined_unify x y (Double.blind_combine (· - ·)) (· - ·)

theorem multiplyRight_unify :
    (multiplyRight x.unify y.unify).map unify = (multiplyRight x y).map unify := by
  have hf : Double.Blind (· * ·) := Double.blind_combine (· * ·)
  simp only [multiplyRight, map_unify_orElse, mapNumbers_unify x y hf, mapFloats_unify x y hf,
    mapInts_unify, scale_unify x y hf]

theorem multiplyValues_unify :
    (multiplyValues x.unify y.unify).map unify = (multiplyValues x y).map unify := by
  simp only [multiplyValues, map_unify_orElse, multiplyRight_unify, type_unify]
  split
  · rw [multiplyRight_unify]
  · rfl

theorem divideValues_unify : (divideValues x.unify y.unify).map (Except.map unify) =
    (divideValues x y).map (Except.map unify) := by
  have hf : Double.Blind (· / ·) := Double.blind_combine (· / ·)
  have h : (mapNumbers (· / ·) (· / ·) x.unify y.unify <|> mapFloats (· / ·) x.unify y.unify <|>
      mapInts (· / ·) x.unify y.unify <|> scale (· / ·) (· / ·) x.unify y.unify).map unify =
      (mapNumbers (· / ·) (· / ·) x y <|> mapFloats (· / ·) x y <|> mapInts (· / ·) x y <|>
        scale (· / ·) (· / ·) x y).map unify := by
    simp only [map_unify_orElse, mapNumbers_unify x y hf, mapFloats_unify x y hf, mapInts_unify,
      scale_unify x y hf]
  unfold divideValues
  rw [integers_unify, integers_unify]
  generalize (mapNumbers (· / ·) (· / ·) x.unify y.unify <|> _) = r at h
  generalize (mapNumbers (· / ·) (· / ·) x y <|> _) = r' at h
  cases r with
  | none => cases r' <;> simp_all
  | some v =>
    cases r' with
    | none => simp at h
    | some w =>
      simp only [Option.map_some, Option.some.injEq] at h
      simp only [apply_ite (Option.map (Except.map unify)), Option.map_some, Except.map, h]

theorem moduloValues_unify : moduloValues x.unify y.unify = moduloValues x y := by
  cases x with
  | int | vector2i | vector3i => cases y <;> rfl
  | _ => rfl

theorem formatArgument_unify (verb : UInt8) : formatArgument verb x.unify = formatArgument verb x := by
  cases x <;> simp [formatArgument, unify, number?, text, repr, Double.text_unify,
    Double.truncate_unify, Double.fixedText_unify]

theorem formatBytes_unify (bs : List UInt8) (args : List Value) :
    formatBytes bs (args.map unify) = formatBytes bs args := by
  fun_induction formatBytes bs args with
  | case3 c cs args hc ih =>
    rw [formatBytes.eq_def]
    simp [hc, ih]
  | _ => simp_all [formatBytes, formatArgument_unify]

theorem format_unify (t : Text) : format t x.unify = format t x := by
  have key : ∀ v : Value, formatBytes t.bytes [v.unify] = formatBytes t.bytes [v] := fun v =>
    formatBytes_unify t.bytes [v]
  cases x with
  | float a | vector2 a b | vector3 a b c | color a b c d =>
    unfold format
    exact congrArg (· >>= fun bytes => pure (string ⟨bytes⟩)) (key _)
  | _ => rfl

theorem binary_modulo {x y : Value} (h : ∀ t, x ≠ string t) : binary .modulo x y =
    (moduloValues x y).getD (.error (.invalidOperands x.type y.type Operator.modulo.name)) := by
  cases x with
  | string t => exact absurd rfl (h t)
  | _ => rfl

/-- A result that may be missing, or else an error. -/
theorem orError_unify (r r' : Option Value) (e : ValueError) (h : r.map unify = r'.map unify) :
    (match r with
      | some v => Except.ok v
      | none => .error e).map unify =
    (match r' with
      | some v => Except.ok v
      | none => .error e).map unify := by
  cases r <;> cases r' <;> simp_all [Except.map]

/-- **Operators do not look at the bits of NaNs.** -/
theorem binary_unify (op : Operator) :
    (binary op x.unify y.unify).map unify = (binary op x y).map unify := by
  have hgetD : ∀ (r r' : Option (Except ValueError Value)) (e : Except ValueError Value),
      r.map (Except.map unify) = r'.map (Except.map unify) →
      (r.getD e).map unify = (r'.getD e).map unify := by
    intro r r' e h
    cases r <;> cases r' <;> simp_all
  cases op with
  | and | or | xor => simp only [binary, truth_unify]
  | equal | notEqual => simp only [binary, type_unify, equal_unify]
  | less | lessEqual | greater | greaterEqual => simp only [binary, type_unify, relate?_unify]
  | add =>
    simp only [binary, type_unify]
    exact orError_unify _ _ _ (addValues_unify x y)
  | subtract =>
    simp only [binary, type_unify]
    exact orError_unify _ _ _ (subtractValues_unify x y)
  | multiply =>
    simp only [binary, type_unify]
    exact orError_unify _ _ _ (multiplyValues_unify x y)
  | divide =>
    simp only [binary, type_unify]
    exact hgetD _ _ _ (divideValues_unify x y)
  | modulo =>
    have h := moduloValues_unify x y
    cases x with
    | string t => exact congrArg (Except.map unify) (format_unify y t)
    | _ =>
      rw [binary_modulo (by simp [unify]), binary_modulo (by simp), h, type_unify, type_unify]
  | power =>
    simp only [binary, type_unify]
    exact orError_unify _ _ _ (mapNumbers_unify x y Double.blind_pow intPower)
  | within => simp only [binary, type_unify, isWithin?_unify]
  | shiftLeft | shiftRight | bitAnd | bitOr | bitXor =>
    simp only [binary, type_unify]
    cases x with
    | int => cases y <;> rfl
    | _ => rfl
  | negate | positive | bitNegate | not => simp only [binary, type_unify]

/-! ### Operators on values that are alike -/

variable {x y}

theorem Alike.type_eq (h : Alike x y) : x.type = y.type := by
  rw [← x.type_unify, h, type_unify]

theorem Alike.truth_eq (h : Alike x y) : x.truth = y.truth := by
  rw [← x.truth_unify, h, truth_unify]

theorem Alike.unary_eq (h : Alike x y) (op : Operator) : (unary op x).map unify = (unary op y).map unify := by
  rw [← unary_unify x, h, unary_unify]

theorem Alike.binary_eq {x' y' : Value} (hx : Alike x x') (hy : Alike y y') (op : Operator) :
    (binary op x y).map unify = (binary op x' y').map unify := by
  rw [← binary_unify x, hx, hy, binary_unify]

end Value

end GameScript

/-!
## Constants and their keys

A pool takes constants with the same key for one. A constant is told from those of a program if none of
them has its key but is another value (`Pool.Told`).
-/

namespace GameScript

namespace Pool

/-- Among the constants `cs`, those with the key of `v` are `v`, up to the bits of NaNs. -/
def Told (cs : List Value) (v : Value) : Prop := ∀ c ∈ cs, key c = key v → c.Alike v

variable {c v : Value} {cs : List Value}

/-! ### The type in a key -/

/-- The bytes up to the first colon. -/
def untilColon (t : Text) : List UInt8 := t.bytes.takeWhile (· ≠ 58)

theorem untilColon_append {a b : Text} (h : ∀ x ∈ a.bytes, x ≠ 58) :
    untilColon (a ++ ":" ++ b) = a.bytes := by
  have hcolon : (Text.ofString ":").bytes = [58] := by decide
  unfold untilColon
  rw [Text.bytes_append, Text.bytes_append, hcolon, List.append_assoc,
    List.takeWhile_append_of_pos (by simpa using h)]
  simp

theorem untilColon_key (v : Value) : untilColon (key v) = (Text.ofNat v.type.number).bytes := by
  have hdigits : ∀ t ∈ BuiltinType.all, ∀ x ∈ (Text.ofNat t.number).bytes, x ≠ 58 := by decide +kernel
  exact untilColon_append (hdigits _ (BuiltinType.mem_all _))

/-- Constants with the same key have the same type. -/
theorem type_eq_of_key (h : key c = key v) : c.type = v.type := by
  have hnumbers : ∀ t ∈ BuiltinType.all, ∀ u ∈ BuiltinType.all,
      (Text.ofNat t.number).bytes = (Text.ofNat u.number).bytes → t = u := by decide
  refine hnumbers _ (BuiltinType.mem_all _) _ (BuiltinType.mem_all _) ?_
  rw [← untilColon_key, ← untilColon_key, h]

/-! ### Constants that are always told -/

/-- An array is told from a constant whose written form does not begin with a bracket. -/
theorem key_array_ne {kind element : BuiltinType} {name : Text} {vs : List Value} {frozen : Bool}
    (b : UInt8) (bs : List UInt8)
    (hv : (key v).bytes = (Text.ofNat v.type.number).bytes ++ 58 :: b :: bs) (hb : b ≠ 91) :
    key (.array kind element name vs frozen) ≠ key v := by
  intro h
  have hopen : (Text.ofString "[").bytes = [91] := by decide
  have hcolon : (Text.ofString ":").bytes = [58] := by decide
  have htype : kind = v.type := type_eq_of_key h
  have hbytes := congrArg Text.bytes h
  rw [hv, ← htype] at hbytes
  unfold key at hbytes
  simp only [Text.bytes_append, Value.repr, hopen, hcolon, List.append_assoc] at hbytes
  have hrest := List.append_cancel_left hbytes
  simp only [List.cons_append, List.nil_append, List.cons.injEq, true_and] at hrest
  exact hb hrest.1.symm

theorem told_nil (cs : List Value) : Told cs .nil := by
  intro c _ h
  cases c with
  | nil => rfl
  | array => exact absurd h (key_array_ne 110 [117, 108, 108] (by decide) (by decide))
  | _ => cases type_eq_of_key h

theorem told_bool (cs : List Value) (b : Bool) : Told cs (.bool b) := by
  intro c _ h
  cases c with
  | bool b' =>
    cases b <;> cases b' <;> first | rfl | exact absurd h (by decide)
  | array =>
    cases b with
    | true => exact absurd h (key_array_ne 116 [114, 117, 101] (by decide) (by decide))
    | false =>
      exact absurd h (key_array_ne 102 [97, 108, 115, 101] (by decide) (by decide))
  | _ => cases type_eq_of_key h

end Pool

end GameScript
