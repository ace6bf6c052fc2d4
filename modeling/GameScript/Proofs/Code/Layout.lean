import GameScript.Code.Assembly
import Mathlib.Data.List.Forall2
import Mathlib.Logic.Function.Iterate
import Mathlib.Tactic.Ring

/-!
# The layout settles

Where the labels are put decides how many bytes the instructions take, and that decides where the
labels are put. Starting from zero, the places only grow (`Assembly.layout_iterate_le`), and each layout
that differs from the one before it makes some instruction longer. An operand takes at most ten bytes,
so the places settle within the bound of `Assembly.places`: `Assembly.layout_places`.
-/

/-! ## Reading numbers back

* `Varint.decode_encode` — a number below `2 ^ 64` is read back, whatever follows it;
* `Varint.size_mono`, `Varint.size_le` — a greater number takes no fewer bytes, and none takes more
  than ten;
* `Varint.unfold_fold` — folding a signed number into a natural one loses nothing.
-/

namespace GameScript.Varint

theorem toNat_toUInt8_of_lt {n : Nat} (h : n < 256) : n.toUInt8.toNat = n := by
  rw [Nat.toUInt8, UInt8.toNat_ofNat']
  exact Nat.mod_eq_of_lt h

/-! ### Sizes -/

theorem encodeUpTo_zero (n : Nat) : encodeUpTo 0 n = [n.toUInt8] := rfl

theorem encodeUpTo_succ (k n : Nat) : encodeUpTo (k + 1) n =
    if n < 128 then [n.toUInt8] else (n % 128 + 128).toUInt8 :: encodeUpTo k (n / 128) := rfl

theorem encodeUpTo_ne_nil (k n : Nat) : encodeUpTo k n ≠ [] := by
  cases k with
  | zero => simp [encodeUpTo_zero]
  | succ k =>
    rw [encodeUpTo_succ]
    split <;> simp

theorem size_pos (n : Nat) : 1 ≤ size n :=
  List.length_pos_iff.mpr (encodeUpTo_ne_nil 9 n)

theorem length_encodeUpTo_le (k n : Nat) : (encodeUpTo k n).length ≤ k + 1 := by
  induction k generalizing n with
  | zero => simp [encodeUpTo_zero]
  | succ k ih =>
    rw [encodeUpTo_succ]
    split
    · simp
    · have := ih (n / 128)
      simp only [List.length_cons]
      omega

theorem size_le (n : Nat) : size n ≤ 10 := length_encodeUpTo_le 9 n

theorem length_encodeUpTo_mono (k : Nat) {n m : Nat} (h : n ≤ m) :
    (encodeUpTo k n).length ≤ (encodeUpTo k m).length := by
  induction k generalizing n m with
  | zero => simp [encodeUpTo_zero]
  | succ k ih =>
    rw [encodeUpTo_succ, encodeUpTo_succ]
    by_cases hn : n < 128
    · rw [if_pos hn]
      split <;> simp
    · have hm : ¬ m < 128 := by omega
      rw [if_neg hn, if_neg hm]
      have := ih (Nat.div_le_div_right (c := 128) h)
      simp only [List.length_cons]
      omega

theorem size_mono {n m : Nat} (h : n ≤ m) : size n ≤ size m := length_encodeUpTo_mono 9 h

/-! ### Reading -/

/-- A number is read back if its last byte holds no more than the reader takes there: with nine bytes
before the last, a single bit. -/
theorem decodeUpTo_encodeUpTo (k n : Nat) (rest : List UInt8) (h : n < 2 * 128 ^ k) :
    decodeUpTo k (encodeUpTo k n ++ rest) = .ok (n, rest) := by
  induction k generalizing n with
  | zero =>
    have hn : n < 2 := by simpa using h
    have hb : n.toUInt8.toNat = n := toNat_toUInt8_of_lt (by omega)
    have hlt : n.toUInt8 < 2 := by
      rw [UInt8.lt_iff_toNat_lt, hb]
      exact hn
    simp [encodeUpTo_zero, decodeUpTo, hlt, hb]
  | succ k ih =>
    rw [encodeUpTo_succ]
    by_cases hn : n < 128
    · have hb : n.toUInt8.toNat = n := toNat_toUInt8_of_lt (by omega)
      have hlt : n.toUInt8 < 128 := by
        rw [UInt8.lt_iff_toNat_lt, hb]
        exact hn
      rw [if_pos hn]
      simp [decodeUpTo, hlt, hb]
    · have hb : (n % 128 + 128).toUInt8.toNat = n % 128 + 128 := toNat_toUInt8_of_lt (by omega)
      have hge : ¬ (n % 128 + 128).toUInt8 < 128 := by
        rw [UInt8.lt_iff_toNat_lt, hb]
        show ¬ n % 128 + 128 < 128
        omega
      have hdiv : n / 128 < 2 * 128 ^ k := by
        rw [Nat.div_lt_iff_lt_mul (by omega)]
        calc n < 2 * 128 ^ (k + 1) := h
          _ = 2 * 128 ^ k * 128 := by ring
      rw [if_neg hn, List.cons_append, decodeUpTo, if_neg hge, ih (n / 128) hdiv, hb]
      show Except.ok (n % 128 + 128 - 128 + 128 * (n / 128), rest) = _
      congr 2
      omega

/-- **A number of 64 bits is read back**, and what follows it is left. -/
theorem decode_encode (n : Nat) (rest : List UInt8) (h : n < 2 ^ 64) :
    decode (encode n ++ rest) = .ok (n, rest) :=
  decodeUpTo_encodeUpTo 9 n rest (by norm_num at h ⊢; omega)

/-! ### Signed numbers -/

theorem unfold_fold (i : Int) : unfold (fold i) = i := by
  unfold fold Varint.unfold
  split <;> split <;> omega

theorem fold_lt {i : Int} (h₁ : -2 ^ 63 ≤ i) (h₂ : i < 2 ^ 63) : fold i < 2 ^ 64 := by
  unfold fold
  split <;> omega

end GameScript.Varint

/-! ## The layout settles -/

namespace GameScript

/-- Pointwise order of lists of the same length. -/
def LeAll (xs ys : List Nat) : Prop := List.Forall₂ (· ≤ ·) xs ys

namespace LeAll

theorem refl (xs : List Nat) : LeAll xs xs := List.forall₂_refl xs

theorem getD {xs ys : List Nat} (h : LeAll xs ys) (i : Nat) : xs.getD i 0 ≤ ys.getD i 0 := by
  induction h generalizing i with
  | nil => simp
  | cons hle _ ih =>
    cases i with
    | zero => simpa using hle
    | succ i => simpa using ih i

theorem replicate_zero (xs : List Nat) : LeAll (List.replicate xs.length 0) xs := by
  induction xs with
  | nil => exact .nil
  | cons x xs ih => exact .cons (Nat.zero_le x) ih

theorem total_le {xs ys : List Nat} (h : LeAll xs ys) : total xs ≤ total ys := by
  induction h with
  | nil => exact le_rfl
  | cons hle _ ih =>
    simp only [total]
    omega

/-- Lists in pointwise order with the same total are the same. -/
theorem eq_of_total_le {xs ys : List Nat} (h : LeAll xs ys) (ht : total ys ≤ total xs) : xs = ys := by
  induction h with
  | nil => rfl
  | @cons x y xs ys hle hrest ih =>
    have hr := total_le hrest
    simp only [total] at ht
    rw [show x = y by omega, ih (by omega)]

end LeAll

/-! ### Sizes of instructions -/

namespace Instruction

theorem length_operandsFrom (ks : List OperandKind) (as : List Nat) :
    (operandsFrom ks as).length = as.length := by
  induction ks generalizing as with
  | nil => simp [operandsFrom]
  | cons k ks ih => cases as <;> simp [operandsFrom, ih]

theorem length_resolve_args (f : Nat → Nat) (i : Instruction) :
    (i.resolve f).args.length = i.args.length := by
  simp [resolve, operands, length_operandsFrom]

theorem length_encode (i : Instruction) : i.encode.length = i.size := by
  have h : ∀ as : List Nat, (as.flatMap Varint.encode).length = total (as.map Varint.size) := by
    intro as
    induction as with
    | nil => rfl
    | cons a as ih => simp [total, ih, Varint.size]
  rw [encode, List.length_cons, h, size]
  omega

theorem size_pos (i : Instruction) : 1 ≤ i.size := by
  unfold size
  omega

theorem size_le (i : Instruction) : i.size ≤ 1 + 10 * i.args.length := by
  have h : ∀ as : List Nat, total (as.map Varint.size) ≤ 10 * as.length := by
    intro as
    induction as with
    | nil => simp [total]
    | cons a as ih =>
      have := Varint.size_le a
      simp only [List.map_cons, total, List.length_cons]
      omega
  have := h i.args
  unfold size
  omega

/-- An instruction takes no fewer bytes if its labels are put further away. -/
theorem size_resolve_mono {f g : Nat → Nat} (h : ∀ l, f l ≤ g l) (i : Instruction) :
    (i.resolve f).size ≤ (i.resolve g).size := by
  have key : ∀ os : List (OperandKind × Nat),
      total ((os.map fun o => if o.1 = .label then f o.2 else o.2).map Varint.size) ≤
        total ((os.map fun o => if o.1 = .label then g o.2 else o.2).map Varint.size) := by
    intro os
    induction os with
    | nil => exact le_rfl
    | cons o os ih =>
      obtain ⟨k, a⟩ := o
      have hsize : Varint.size (if k = .label then f a else a) ≤
          Varint.size (if k = .label then g a else a) := by
        apply Varint.size_mono
        split
        · exact h a
        · exact le_rfl
      exact Nat.add_le_add hsize ih
  exact Nat.add_le_add_left (key i.operands) 1

end Instruction

namespace Assembly

/-! ### One layout -/

theorem starts_mono {xs ys : List Nat} (h : LeAll xs ys) {p q : Nat} (hpq : p ≤ q) :
    LeAll (starts p xs) (starts q ys) := by
  induction h generalizing p q with
  | nil => exact .cons hpq .nil
  | cons hle _ ih => exact .cons hpq (ih (by omega))

theorem length_starts (pc : Nat) (ns : List Nat) : (starts pc ns).length = ns.length + 1 := by
  induction ns generalizing pc with
  | nil => rfl
  | cons n ns ih => simp [starts, ih]

/-- How many bytes each instruction takes if the instructions start at the given places. -/
def sizes (a : Assembly) (pcs : List Nat) : List Nat := (a.resolved pcs).map Instruction.size

theorem layout_eq (a : Assembly) (pcs : List Nat) : a.layout pcs = starts 0 (a.sizes pcs) := rfl

theorem length_resolved (a : Assembly) (pcs : List Nat) :
    (a.resolved pcs).length = a.instructions.length := by
  simp [resolved]

theorem length_layout (a : Assembly) (pcs : List Nat) :
    (a.layout pcs).length = a.instructions.length + 1 := by
  simp [layout, length_starts, length_resolved]

theorem target_mono (a : Assembly) {ps qs : List Nat} (h : LeAll ps qs) (l : Nat) :
    a.target ps l ≤ a.target qs l := by
  unfold target
  split
  · exact h.getD _
  · exact le_rfl

theorem sizes_mono (a : Assembly) {ps qs : List Nat} (h : LeAll ps qs) :
    LeAll (a.sizes ps) (a.sizes qs) := by
  unfold sizes resolved
  induction a.instructions with
  | nil => exact .nil
  | cons s ss ih => exact .cons (Instruction.size_resolve_mono (a.target_mono h) s.instruction) ih

theorem layout_mono (a : Assembly) {ps qs : List Nat} (h : LeAll ps qs) :
    LeAll (a.layout ps) (a.layout qs) :=
  starts_mono (a.sizes_mono h) le_rfl

theorem length_instructions_le_total_sizes (a : Assembly) (pcs : List Nat) :
    a.instructions.length ≤ total (a.sizes pcs) := by
  unfold sizes resolved
  induction a.instructions with
  | nil => simp [total]
  | cons s ss ih =>
    have := Instruction.size_pos (s.instruction.resolve (a.target pcs))
    simp only [List.map_cons, total, List.length_cons]
    omega

theorem total_sizes_le (a : Assembly) (pcs : List Nat) :
    total (a.sizes pcs) ≤ a.instructions.length + 10 * a.operandCount := by
  unfold sizes resolved operandCount
  induction a.instructions with
  | nil => simp [total]
  | cons s ss ih =>
    have := Instruction.size_le (s.instruction.resolve (a.target pcs))
    rw [Instruction.length_resolve_args] at this
    simp only [List.map_cons, total, List.length_cons]
    omega

/-! ### Layout after layout -/

/-- The places before the first layout. -/
def initial (a : Assembly) : List Nat := List.replicate (a.instructions.length + 1) 0

theorem initial_le (a : Assembly) {pcs : List Nat} (h : pcs.length = a.instructions.length + 1) :
    LeAll a.initial pcs := by
  rw [initial, ← h]
  exact LeAll.replicate_zero pcs

/-- **The places never decrease** from one layout to the next. -/
theorem layout_iterate_le (a : Assembly) (k : Nat) :
    LeAll (a.layout^[k] a.initial) (a.layout^[k + 1] a.initial) := by
  induction k with
  | zero => exact a.initial_le (a.length_layout a.initial)
  | succ k ih =>
    rw [Function.iterate_succ_apply' _ k, Function.iterate_succ_apply' _ (k + 1)]
    exact a.layout_mono ih

/-- What `settle` returns is reached by repeating the layout. -/
theorem settle_eq_iterate (a : Assembly) (fuel : Nat) (pcs : List Nat) :
    ∃ k, a.settle fuel pcs = a.layout^[k] pcs := by
  induction fuel generalizing pcs with
  | zero => exact ⟨0, rfl⟩
  | succ fuel ih =>
    unfold settle
    dsimp only
    split
    · exact ⟨0, rfl⟩
    · obtain ⟨k, hk⟩ := ih (a.layout pcs)
      exact ⟨k + 1, hk⟩

/-- Places that a layout leaves as they are stay so. -/
theorem settle_of_fixed (a : Assembly) (fuel : Nat) {pcs : List Nat} (h : a.layout pcs = pcs) :
    a.settle fuel pcs = pcs := by
  cases fuel with
  | zero => rfl
  | succ fuel => simp [settle, h]

/-- The places settle if there are more layouts left than bytes by which the code can grow. -/
theorem layout_settle (a : Assembly) (fuel : Nat) (pcs : List Nat) (hle : LeAll pcs (a.layout pcs))
    (hfuel : a.instructions.length + 10 * a.operandCount < total (a.sizes pcs) + fuel) :
    a.layout (a.settle fuel pcs) = a.settle fuel pcs := by
  induction fuel generalizing pcs with
  | zero =>
    have := a.total_sizes_le pcs
    omega
  | succ fuel ih =>
    unfold settle
    dsimp only
    split
    · assumption
    · by_cases hs : a.sizes (a.layout pcs) = a.sizes pcs
      · -- no instruction has become longer, so the next layout changes nothing
        have hfix : a.layout (a.layout pcs) = a.layout pcs := by
          rw [layout_eq a (a.layout pcs), hs, ← layout_eq]
        rw [a.settle_of_fixed fuel hfix, hfix]
      · have hmono := a.sizes_mono hle
        have hlt : total (a.sizes pcs) < total (a.sizes (a.layout pcs)) := by
          by_contra hge
          exact hs (hmono.eq_of_total_le (by omega)).symm
        exact ih (a.layout pcs) (a.layout_mono hle) (by omega)

/-- **The layout settles**: with the places of `Assembly.places`, instructions start where their labels
say. -/
theorem layout_places (a : Assembly) : a.layout a.places = a.places := by
  apply a.layout_settle
  · exact a.initial_le (a.length_layout a.initial)
  · have := a.length_instructions_le_total_sizes a.initial
    show _ < total (a.sizes a.initial) + _
    omega

theorem length_places (a : Assembly) : a.places.length = a.instructions.length + 1 := by
  rw [← a.layout_places, a.length_layout]

theorem places_eq_starts (a : Assembly) : a.places = starts 0 (a.sizes a.places) := by
  rw [← layout_eq, a.layout_places]

end Assembly

end GameScript
