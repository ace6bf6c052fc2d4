import GameScript.Analysis.Expr
import GameScript.Number.Double
import GameScript.Value.Convert
import GameScript.Value.Operator
import Mathlib.Tactic.Ring

/-!
# Integers in constant evaluation

The constructors of vectors of integers and the verb `%d` take their arguments as floats, so that an integer
survives them if it is a double. Powers of integers stay integers, and wrap around.
-/

namespace GameScript

/-! ## Integers as doubles

An integer becomes the nearest double, which has 53 significant bits.

* `Double.HasFields` — the sign, the exponent and the fraction of a double;
* `Double.nearest` — the natural number that is nearest to one of up to 64 bits among those that are doubles;
* `Double.magnitude_ofInt` — it is the magnitude of the double of an integer;
* `Double.nearest_eq_iff` — the numbers that are their own nearest one: those of at most 53 bits, times a power
  of two.
-/

namespace Double

variable {x : Double} {s : Bool} {e f m n : Nat}

/-! ### Fields -/

/-- A double **has the fields** that its bits are made of. -/
structure HasFields (x : Double) (s : Bool) (e f : Nat) : Prop where
  bits_eq : x.bits.toNat = (if s then 2 ^ 63 else 0) + e * 2 ^ 52 + f
  exponent_lt : e < 2 ^ 11
  fraction_lt : f < 2 ^ 52

theorem sign_of_fields (h : x.HasFields s e f) : x.sign = s := by
  have hbits := h.bits_eq
  have he := h.exponent_lt
  have hf := h.fraction_lt
  have hsign : x.sign = true ↔ 2 ^ 63 ≤ x.bits.toNat := by
    unfold sign
    rw [decide_eq_true_iff, ge_iff_le, UInt64.le_iff_toNat_le]
    rfl
  cases s with
  | true =>
    rw [hsign]
    simp only [if_true] at hbits
    omega
  | false =>
    rw [← Bool.not_eq_true, hsign]
    simp only [Bool.false_eq_true, if_false] at hbits
    omega

theorem exponentField_of_fields (h : x.HasFields s e f) : x.exponentField = e := by
  have hbits := h.bits_eq
  have he := h.exponent_lt
  have hf := h.fraction_lt
  have hshift : x.exponentField = x.bits.toNat / 2 ^ 52 % 2048 := by
    unfold exponentField
    rw [UInt64.toNat_shiftRight, Nat.shiftRight_eq_div_pow]
    rfl
  rw [hshift]
  cases s
  all_goals
    simp only [if_true, Bool.false_eq_true, if_false] at hbits
    omega

theorem fractionField_of_fields (h : x.HasFields s e f) : x.fractionField = f := by
  have hbits := h.bits_eq
  have hf := h.fraction_lt
  show x.bits.toNat % 2 ^ 52 = f
  cases s
  all_goals
    simp only [if_true, Bool.false_eq_true, if_false] at hbits
    omega

/-! ### Signs -/

theorem toNat_abs (x : Double) : x.abs.bits.toNat = x.bits.toNat % 2 ^ 63 := by
  unfold abs
  rw [UInt64.toNat_and]
  exact Nat.and_two_pow_sub_one_eq_mod _ 63

theorem toNat_neg (h : x.bits.toNat < 2 ^ 63) : x.neg.bits.toNat = x.bits.toNat + 2 ^ 63 := by
  unfold neg
  rw [UInt64.toNat_xor]
  show x.bits.toNat ^^^ 2 ^ 63 = _
  have hhigh : (x.bits.toNat ^^^ 2 ^ 63) / 2 ^ 63 = 1 := by
    rw [Nat.xor_div_two_pow, Nat.div_eq_of_lt h]
    rfl
  have hlow : (x.bits.toNat ^^^ 2 ^ 63) % 2 ^ 63 = x.bits.toNat := by
    rw [Nat.xor_mod_two_pow, Nat.mod_eq_of_lt h, Nat.mod_self, Nat.xor_zero]
  omega

theorem withSign_fields (h : x.HasFields s e f) (t : Bool) : (withSign t x).HasFields t e f := by
  have hbits := h.bits_eq
  have he := h.exponent_lt
  have hf := h.fraction_lt
  have habs : x.abs.bits.toNat = e * 2 ^ 52 + f := by
    rw [toNat_abs]
    cases s
    all_goals
      simp only [if_true, Bool.false_eq_true, if_false] at hbits
      omega
  refine ⟨?_, he, hf⟩
  cases t with
  | true =>
    show x.abs.neg.bits.toNat = _
    rw [toNat_neg (by omega), habs]
    simp only [if_true]
    omega
  | false =>
    show x.abs.bits.toNat = _
    rw [habs]
    simp

/-! ### Magnitudes -/

/-- A number with 53 significant bits. -/
theorem pack_fields {e : Int} (hm : 2 ^ 52 ≤ m) (hm' : m < 2 ^ 53) (he : -1074 ≤ e) (he' : e ≤ 971) :
    (pack m e).HasFields false (e + 1075).toNat (m - 2 ^ 52) := by
  have htwoTo : twoTo 52 = 2 ^ 52 := rfl
  unfold pack
  rw [htwoTo, if_neg (by omega), if_neg (by omega)]
  refine ⟨?_, by omega, by omega⟩
  have hsize : (e + 1075).toNat * 2 ^ 52 + (m - 2 ^ 52) < 2 ^ 64 := by omega
  show ((e + 1075).toNat * 2 ^ 52 + (m - 2 ^ 52)).toUInt64.toNat = _
  rw [Nat.toUInt64, UInt64.toNat_ofNat_of_lt' hsize]
  simp

theorem isFinite_of_fields (h : x.HasFields s e f) (he : e < 2047) : x.isFinite = true := by
  unfold isFinite
  rw [exponentField_of_fields h, decide_eq_true_iff]
  omega

/-- The magnitude of a number with 53 significant bits. -/
theorem magnitude_of_fields {e : Int} (h : x.HasFields s (e + 1075).toNat (m - 2 ^ 52)) (hm : 2 ^ 52 ≤ m)
    (he : -1074 ≤ e) : x.magnitude.1 = if 0 ≤ e then m * 2 ^ e.toNat else m / 2 ^ (-e).toNat := by
  have hfield : x.exponentField ≠ 0 := by
    rw [exponentField_of_fields h]
    omega
  have hsignificand : x.significand = m := by
    unfold significand
    rw [if_neg hfield, fractionField_of_fields h, show twoTo 52 = 2 ^ 52 from rfl]
    omega
  have hexponent : x.exponent = e := by
    unfold exponent
    rw [if_neg hfield, exponentField_of_fields h]
    omega
  unfold magnitude
  rw [hexponent, hsignificand]
  split
  · rfl
  · rfl

/-! ### The nearest double -/

/-- The quotient rounded to an integer. -/
theorem divideToEven_of_dvd {d : Nat} (hd : 0 < d) (h : d ∣ n) : divideToEven n d = n / d := by
  unfold divideToEven
  dsimp only
  rw [if_pos (by rw [Nat.mod_eq_zero_of_dvd h]; omega)]

theorem divideToEven_bounds (n d : Nat) : n / d ≤ divideToEven n d ∧ divideToEven n d ≤ n / d + 1 := by
  unfold divideToEven
  dsimp only
  repeat' split
  all_goals omega

/-- The natural number **nearest** to `n` that is a double, an exact half going to the even significand; for
numbers of up to 64 bits. -/
def nearest (n : Nat) : Nat := divideToEven n (2 ^ (n.log2 - 52)) * 2 ^ (n.log2 - 52)

/-- The significand that `ofRatio` computes for a number of more than 53 bits. -/
theorem significand_bounds (h : 52 ≤ n.log2) :
    2 ^ 52 ≤ n / 2 ^ (n.log2 - 52) ∧ n / 2 ^ (n.log2 - 52) < 2 ^ 53 := by
  have hn : n ≠ 0 := by
    rintro rfl
    simp at h
  have hle := Nat.log2_self_le hn
  have hlt : n < 2 ^ (n.log2 + 1) := Nat.lt_log2_self
  constructor
  · rw [Nat.le_div_iff_mul_le (Nat.two_pow_pos _), ← Nat.pow_add]
    rwa [show 52 + (n.log2 - 52) = n.log2 by omega]
  · rw [Nat.div_lt_iff_lt_mul (Nat.two_pow_pos _), ← Nat.pow_add]
    rwa [show 53 + (n.log2 - 52) = n.log2 + 1 by omega]

/-- A number of at most 53 bits is shifted up to 53 bits. -/
theorem shifted_bounds (hn : n ≠ 0) (h : n.log2 ≤ 52) :
    2 ^ 52 ≤ n * 2 ^ (52 - n.log2) ∧ n * 2 ^ (52 - n.log2) < 2 ^ 53 := by
  have hle := Nat.log2_self_le hn
  have hlt : n < 2 ^ (n.log2 + 1) := Nat.lt_log2_self
  constructor
  · calc 2 ^ 52 = 2 ^ n.log2 * 2 ^ (52 - n.log2) := by rw [← Nat.pow_add]; congr 1; omega
      _ ≤ n * 2 ^ (52 - n.log2) := Nat.mul_le_mul_right _ hle
  · calc n * 2 ^ (52 - n.log2) < 2 ^ (n.log2 + 1) * 2 ^ (52 - n.log2) :=
          Nat.mul_lt_mul_of_pos_right hlt (Nat.two_pow_pos _)
      _ = 2 ^ 53 := by rw [← Nat.pow_add]; congr 1; omega

/-- The significand and the exponent that an integer is given. -/
theorem ofRatio_one (hn : n ≠ 0) {e : Int} (he : e = n.log2 - 52) (hlog : n.log2 < 64)
    (hbound : 2 ^ 52 ≤ n * 2 ^ (-e).toNat / 2 ^ e.toNat) :
    ofRatio n 1 = if divideToEven (n * 2 ^ (-e).toNat) (2 ^ e.toNat) = 2 ^ 53 then pack (2 ^ 52) (e + 1)
      else pack (divideToEven (n * 2 ^ (-e).toNat) (2 ^ e.toNat)) e := by
  have htwoTo : ∀ k, twoTo k = 2 ^ k := fun _ => rfl
  have hguess : ((n.log2 : Int) - (Nat.log2 1 : Nat) - 52) = e := by
    have hone : Nat.log2 1 = 0 := by decide
    rw [he, hone]
    simp
  unfold ofRatio
  rw [if_neg (by simp [hn])]
  dsimp only
  rw [hguess]
  simp only [htwoTo, Nat.one_mul]
  rw [if_neg (Nat.not_lt.mpr hbound), max_eq_left (by omega)]

/-- What an integer is as a double: its fields, and its magnitude. -/
theorem exists_fields (hn : n ≠ 0) (h : n < 2 ^ 64) : ∃ e f, (ofRatio n 1).HasFields false e f ∧ e < 2047 ∧
    (ofRatio n 1).magnitude.1 = nearest n := by
  have hlog : n.log2 < 64 := (Nat.log2_lt hn).mpr h
  by_cases hsmall : n.log2 ≤ 52
  · -- at most 53 bits: nothing is rounded
    obtain ⟨hlow, hhigh⟩ := shifted_bounds hn hsmall
    have hk : (-((n.log2 : Int) - 52)).toNat = 52 - n.log2 := by omega
    have hzero : ((n.log2 : Int) - 52).toNat = 0 := by omega
    have hvalue : ofRatio n 1 = pack (n * 2 ^ (52 - n.log2)) ((n.log2 : Int) - 52) := by
      rw [ofRatio_one hn rfl hlog (by rw [hk, hzero, Nat.pow_zero, Nat.div_one]; exact hlow), hk, hzero,
        Nat.pow_zero, divideToEven_of_dvd Nat.one_pos (Nat.one_dvd _), Nat.div_one, if_neg hhigh.ne]
    have hfields := pack_fields (e := (n.log2 : Int) - 52) hlow hhigh (by omega) (by omega)
    rw [hvalue]
    refine ⟨_, _, hfields, by omega, ?_⟩
    rw [magnitude_of_fields hfields hlow (by omega), nearest, Nat.sub_eq_zero_of_le hsmall, Nat.pow_zero,
      divideToEven_of_dvd Nat.one_pos (Nat.one_dvd _), Nat.div_one, Nat.mul_one]
    split
    · have hfull : n.log2 = 52 := by omega
      simp [hfull]
    · rw [hk, Nat.mul_div_cancel _ (Nat.two_pow_pos _)]
  · -- more than 53 bits: the quotient by a power of two is rounded
    have hlarge : 52 ≤ n.log2 := by omega
    obtain ⟨hlow, hhigh⟩ := significand_bounds hlarge
    obtain ⟨hdown, hup⟩ := divideToEven_bounds n (2 ^ (n.log2 - 52))
    have hk : ((n.log2 : Int) - 52).toNat = n.log2 - 52 := by omega
    have hzero : (-((n.log2 : Int) - 52)).toNat = 0 := by omega
    have hvalue := ofRatio_one hn rfl hlog (by rw [hk, hzero, Nat.pow_zero, Nat.mul_one]; exact hlow)
    rw [hk, hzero, Nat.pow_zero, Nat.mul_one] at hvalue
    rw [hvalue]
    split
    · rename_i hcarry
      have hfields := pack_fields (m := 2 ^ 52) (e := (n.log2 : Int) - 52 + 1) le_rfl (by omega) (by omega)
        (by omega)
      refine ⟨_, _, hfields, by omega, ?_⟩
      rw [magnitude_of_fields hfields le_rfl (by omega), if_pos (by omega), nearest, hcarry,
        show ((n.log2 : Int) - 52 + 1).toNat = n.log2 - 52 + 1 by omega, Nat.pow_succ]
      ring
    · rename_i hcarry
      have hfields := pack_fields (e := (n.log2 : Int) - 52) (hlow.trans hdown) (by omega) (by omega) (by omega)
      refine ⟨_, _, hfields, by omega, ?_⟩
      rw [magnitude_of_fields hfields (hlow.trans hdown) (by omega), if_pos (by omega), nearest, hk]

theorem significand_withSign (h : x.HasFields s e f) (t : Bool) : (withSign t x).significand = x.significand := by
  have ht := withSign_fields h t
  unfold significand
  rw [exponentField_of_fields ht, exponentField_of_fields h, fractionField_of_fields ht, fractionField_of_fields h]

theorem exponent_withSign (h : x.HasFields s e f) (t : Bool) : (withSign t x).exponent = x.exponent := by
  have ht := withSign_fields h t
  unfold exponent
  rw [exponentField_of_fields ht, exponentField_of_fields h]

theorem magnitude_withSign (h : x.HasFields s e f) (t : Bool) : (withSign t x).magnitude = x.magnitude := by
  unfold magnitude
  rw [significand_withSign h, exponent_withSign h]

/-- **An integer as a double**: it is finite, has the sign of the integer, and its magnitude is the nearest
one. -/
theorem magnitude_ofInt {i : Int} (h : i.natAbs < 2 ^ 64) : (ofInt i).isFinite = true ∧
    (ofInt i).sign = decide (i < 0) ∧ (ofInt i).magnitude.1 = nearest i.natAbs := by
  by_cases hi : i.natAbs = 0
  · obtain rfl : i = 0 := by omega
    decide +kernel
  · obtain ⟨e, f, hfields, he, hmagnitude⟩ := exists_fields hi h
    have hsigned := withSign_fields hfields (decide (i < 0))
    refine ⟨isFinite_of_fields hsigned he, sign_of_fields hsigned, ?_⟩
    show (withSign (decide (i < 0)) (ofRatio i.natAbs 1)).magnitude.1 = _
    rw [magnitude_withSign hfields, hmagnitude]

/-! ### Numbers that are doubles -/

/-- An integer is a double if it has **at most 53 significant bits**. -/
def IsExact (i : Int) : Prop := ∃ m : Int, ∃ k : Nat, m.natAbs ≤ 2 ^ 53 ∧ i = m * 2 ^ k

/-- A number is its own nearest one if it is a multiple of its last place. -/
theorem nearest_eq_iff_dvd (n : Nat) : nearest n = n ↔ 2 ^ (n.log2 - 52) ∣ n := by
  unfold nearest
  constructor
  · intro h
    exact ⟨_, by rw [Nat.mul_comm]; exact h.symm⟩
  · intro h
    rw [divideToEven_of_dvd (Nat.two_pow_pos _) h, Nat.div_mul_cancel h]

theorem exists_of_dvd (h : 2 ^ (n.log2 - 52) ∣ n) : ∃ m k, m ≤ 2 ^ 53 ∧ n = m * 2 ^ k := by
  by_cases hlarge : 52 ≤ n.log2
  · exact ⟨n / 2 ^ (n.log2 - 52), n.log2 - 52, (significand_bounds hlarge).2.le, (Nat.div_mul_cancel h).symm⟩
  · have hlt : n < 2 ^ (n.log2 + 1) := Nat.lt_log2_self
    have hpow : 2 ^ (n.log2 + 1) ≤ 2 ^ 53 := Nat.pow_le_pow_right Nat.two_pos (by omega)
    exact ⟨n, 0, (hlt.trans_le hpow).le, by simp⟩

theorem dvd_of_eq_mul (hm : m ≤ 2 ^ 53) (k : Nat) : 2 ^ ((m * 2 ^ k).log2 - 52) ∣ m * 2 ^ k := by
  by_cases hzero : m * 2 ^ k = 0
  · rw [hzero]
    exact Nat.dvd_zero _
  by_cases hk : (m * 2 ^ k).log2 - 52 ≤ k
  · exact (Nat.pow_dvd_pow 2 hk).mul_left m
  · -- the number is as large as its significand allows, so it is a power of two
    have hle := Nat.log2_self_le hzero
    have hbound : m * 2 ^ k ≤ 2 ^ (m * 2 ^ k).log2 := by
      calc m * 2 ^ k ≤ 2 ^ 53 * 2 ^ k := Nat.mul_le_mul_right _ hm
        _ = 2 ^ (53 + k) := (Nat.pow_add _ _ _).symm
        _ ≤ 2 ^ (m * 2 ^ k).log2 := Nat.pow_le_pow_right Nat.two_pos (by omega)
    have hpow : m * 2 ^ k = 2 ^ (m * 2 ^ k).log2 := Nat.le_antisymm hbound hle
    exact (Nat.pow_dvd_pow 2 (Nat.sub_le _ 52)).trans (dvd_of_eq hpow.symm)

/-- **The integers that are doubles** are those that are their own nearest ones. -/
theorem nearest_eq_iff (i : Int) : nearest i.natAbs = i.natAbs ↔ IsExact i := by
  rw [nearest_eq_iff_dvd]
  constructor
  · intro h
    obtain ⟨m, k, hm, hi⟩ := exists_of_dvd h
    refine ⟨i.sign * m, k, ?_, ?_⟩
    · rw [Int.natAbs_mul, Int.natAbs_natCast]
      calc i.sign.natAbs * m ≤ 1 * m := Nat.mul_le_mul_right _ (by rcases Int.sign_trichotomy i with h | h | h <;> simp [h])
        _ ≤ 2 ^ 53 := by omega
    · calc i = i.sign * (i.natAbs : Int) := (Int.sign_mul_natAbs i).symm
        _ = i.sign * m * 2 ^ k := by rw [hi]; push_cast; ring
  · rintro ⟨m, k, hm, rfl⟩
    have hi : (m * 2 ^ k).natAbs = m.natAbs * 2 ^ k := by
      rw [Int.natAbs_mul, Int.natAbs_pow]
      rfl
    rw [hi]
    exact dvd_of_eq_mul hm k

/-- No magnitude of a 64-bit integer is rounded beyond `2 ^ 63`. -/
theorem nearest_le (h : n ≤ 2 ^ 63) : nearest n ≤ 2 ^ 63 := by
  by_cases hexact : nearest n = n
  · rw [hexact]
    exact h
  · have hlarge : 52 ≤ n.log2 := by
      by_contra hsmall
      exact hexact ((nearest_eq_iff_dvd n).mpr (by simp [Nat.sub_eq_zero_of_le (Nat.le_of_not_le hsmall)]))
    have hlog : n.log2 ≤ 62 := by
      by_contra hlog
      have hn : n ≠ 0 := by
        rintro rfl
        simp at hlarge
      have hle : 2 ^ 63 ≤ n := (Nat.pow_le_pow_right Nat.two_pos (by omega)).trans (Nat.log2_self_le hn)
      obtain rfl : n = 2 ^ 63 := Nat.le_antisymm h hle
      exact hexact (by decide)
    have hsignificand := (significand_bounds hlarge).2
    have hup := (divideToEven_bounds n (2 ^ (n.log2 - 52))).2
    calc nearest n ≤ 2 ^ 53 * 2 ^ (n.log2 - 52) := Nat.mul_le_mul_right _ (by omega)
      _ ≤ 2 ^ 53 * 2 ^ 10 := Nat.mul_le_mul_left _ (Nat.pow_le_pow_right Nat.two_pos (by omega))
      _ = 2 ^ 63 := by norm_num

/-! ### There and back -/

section Words

variable (i : Int64)

theorem natAbs_toInt_le : i.toInt.natAbs ≤ 2 ^ 63 := by
  have hle := i.le_toInt
  have hlt := i.toInt_lt
  omega

theorem ofInt64_fields : (ofInt64 i).isFinite = true ∧ (ofInt64 i).sign = decide (i.toInt < 0) ∧
    (ofInt64 i).magnitude.1 = nearest i.toInt.natAbs :=
  magnitude_ofInt (by have := natAbs_toInt_le i; omega)

/-- The integer that a double with the sign of `i` and the nearest magnitude is cut to, where `top` stands for
those that are too large. -/
theorem word_eq_iff (top : Int64) :
    (if i.toInt < 0 then Int64.ofInt (-(nearest i.toInt.natAbs : Int))
      else if nearest i.toInt.natAbs < 2 ^ 63 then Int64.ofInt (nearest i.toInt.natAbs) else top) = i ↔
      IsExact i.toInt ∨ 0 ≤ i.toInt ∧ ¬ nearest i.toInt.natAbs < 2 ^ 63 ∧ top = i := by
  have hle := nearest_le (natAbs_toInt_le i)
  have hlt := i.toInt_lt
  have hmin := i.le_toInt
  have hexact := nearest_eq_iff i.toInt
  rw [← hexact, ← Int64.toInt_inj]
  split
  · rename_i hneg
    rw [Int64.toInt_ofInt_of_le (by omega) (by omega)]
    omega
  · rename_i hneg
    split
    · rename_i hsmall
      rw [Int64.toInt_ofInt_of_le (by omega) (by omega)]
      omega
    · rename_i hlarge
      rw [Int64.toInt_inj]
      constructor
      · intro htop
        exact .inr ⟨by omega, hlarge, htop⟩
      · rintro (hnearest | ⟨-, -, htop⟩)
        · omega
        · exact htop

/-- **An integer that is made a double and cut to an integer again** is the same if it is a double. -/
theorem truncate_ofInt64_iff : (ofInt64 i).truncate = i ↔ IsExact i.toInt := by
  obtain ⟨hfinite, hsign, hmagnitude⟩ := ofInt64_fields i
  have hle := nearest_le (natAbs_toInt_le i)
  have htwoTo : twoTo 63 = 2 ^ 63 := rfl
  have hvalue : (ofInt64 i).truncate = if i.toInt < 0 then Int64.ofInt (-(nearest i.toInt.natAbs : Int))
      else if nearest i.toInt.natAbs < 2 ^ 63 then Int64.ofInt (nearest i.toInt.natAbs) else Int64.minValue := by
    unfold truncate
    rw [hfinite, hsign, hmagnitude, htwoTo]
    simp only [Bool.not_true, Bool.false_eq_true, if_false, if_pos hle, decide_eq_true_eq]
  rw [hvalue, word_eq_iff]
  constructor
  · rintro (hexact | ⟨hpos, -, hmin⟩)
    · exact hexact
    · rw [← hmin] at hpos
      exact absurd hpos (by decide)
  · exact .inl

/-- Cut to the range of 64-bit integers, the greatest of them, which is no double, comes back as well. -/
theorem saturate_ofInt64_iff : (ofInt64 i).saturate = i ↔ IsExact i.toInt ∨ i = Int64.maxValue := by
  obtain ⟨hfinite, hsign, hmagnitude⟩ := ofInt64_fields i
  have hle := nearest_le (natAbs_toInt_le i)
  have htwoTo : twoTo 63 = 2 ^ 63 := rfl
  have hfield : (ofInt64 i).exponentField ≠ 2047 := by simpa [isFinite] using hfinite
  have hvalue : (ofInt64 i).saturate = if i.toInt < 0 then Int64.ofInt (-(nearest i.toInt.natAbs : Int))
      else if nearest i.toInt.natAbs < 2 ^ 63 then Int64.ofInt (nearest i.toInt.natAbs) else Int64.maxValue := by
    unfold saturate isNaN isInf
    rw [hsign, hmagnitude, htwoTo]
    simp only [hfield, decide_false, Bool.false_and, Bool.false_eq_true, if_false, if_pos hle, decide_eq_true_eq]
  rw [hvalue, word_eq_iff]
  constructor
  · rintro (hexact | ⟨-, -, hmax⟩)
    · exact .inl hexact
    · exact .inr hmax.symm
  · rintro (hexact | rfl)
    · exact .inl hexact
    · refine .inr ⟨?_, ?_, rfl⟩
      all_goals decide

end Words

end Double

/-! ## Integers in constant evaluation -/

/-! ### Numerals -/

namespace Text

theorem ofString_inj {s t : String} (h : ofString s = ofString t) : s = t := by
  have hlist : s.toUTF8.data.toList = t.toUTF8.data.toList := congrArg bytes h
  have hdata : s.toUTF8 = t.toUTF8 := ByteArray.ext (Array.toList_inj.mp hlist)
  exact String.toByteArray_inj.mp hdata

theorem ofString_append (s t : String) : ofString (s ++ t) = ofString s ++ ofString t := by
  have hbytes : (s ++ t).toUTF8.data.toList = s.toUTF8.data.toList ++ t.toUTF8.data.toList := by
    show (s ++ t).toByteArray.data.toList = _
    simp
  exact congrArg Text.mk hbytes

theorem repr_inj {m n : Nat} (h : Nat.repr m = Nat.repr n) : m = n := by
  have hdigits : Nat.toDigits 10 m = Nat.toDigits 10 n := by
    rw [← Nat.toList_repr, ← Nat.toList_repr, h]
  have hvalue := congrArg (fun ds => Nat.ofDigitChars 10 ds 0) hdigits
  simpa [Nat.ofDigitChars_toDigits] using hvalue

/-- The digits of a natural number begin with no minus sign. -/
theorem repr_ne_minus (m n : Nat) : Nat.repr m ≠ "-" ++ Nat.repr n := by
  intro h
  have hmem : '-' ∈ (Nat.repr m).toList := by
    rw [h]
    simp
  rw [Nat.toList_repr] at hmem
  have hdigit := Nat.isDigit_of_mem_toDigits (by decide) (by decide) hmem
  exact absurd hdigit (by decide)

theorem ofNat_inj {m n : Nat} (h : ofNat m = ofNat n) : m = n := repr_inj (ofString_inj h)

theorem ofNat_ne_minus (m n : Nat) : ofNat m ≠ "-" ++ ofNat n := by
  intro h
  rw [ofNat, ofNat, ← ofString_append] at h
  exact repr_ne_minus m n (ofString_inj h)

/-- Different integers are written differently. -/
theorem ofInt_inj {i j : Int} (h : ofInt i = ofInt j) : i = j := by
  cases i with
  | ofNat m =>
    cases j with
    | ofNat n => rw [ofNat_inj h]
    | negSucc n => exact absurd h (ofNat_ne_minus m (n + 1))
  | negSucc m =>
    cases j with
    | ofNat n => exact absurd h.symm (ofNat_ne_minus n (m + 1))
    | negSucc n =>
      have hbytes : (ofNat (m + 1)).bytes = (ofNat (n + 1)).bytes :=
        List.append_cancel_left (congrArg bytes h : ("-" : Text).bytes ++ _ = ("-" : Text).bytes ++ _)
      have hsucc : m + 1 = n + 1 := ofNat_inj (congrArg mk hbytes)
      rw [Nat.succ.inj hsucc]

end Text

namespace Value

/-! ### Vectors and texts of integers -/

theorem intText_inj {i j : Int64} (h : intText i = intText j) : i = j := Int64.toInt_inj.mp (Text.ofInt_inj h)

theorem construct_vector2i (i j : Int64) : construct .vector2i [.int i, .int j] =
    .ok (.vector2i (Double.ofInt64 i).saturate (Double.ofInt64 j).saturate) := rfl

theorem construct_vector3i (i j k : Int64) : construct .vector3i [.int i, .int j, .int k] =
    .ok (.vector3i (Double.ofInt64 i).saturate (Double.ofInt64 j).saturate (Double.ofInt64 k).saturate) := rfl

/-- The verb `%d`. -/
theorem format_decimal (i : Int64) : binary .modulo (.string "%d") (.int i) =
    .ok (.string (intText (Double.ofInt64 i).truncate)) := by
  have hbytes : ("%d" : Text).bytes = [37, 100] := by decide
  show format "%d" (.int i) = _
  unfold format
  rw [hbytes]
  simp [formatBytes, formatArgument, number?, bind, Except.bind, pure, Except.pure]

/-- **Integers survive constant evaluation if they are doubles.** The components of a vector of integers are the
given ones just when these have at most 53 significant bits or are the greatest integer, to which a float that is
too large is cut. The verb `%d` writes an integer just when it has at most 53 significant bits. -/
theorem integers_survive_iff (i j k : Int64) :
    (construct .vector2i [.int i, .int j] = .ok (.vector2i i j) ↔
      ∀ n ∈ [i, j], Double.IsExact n.toInt ∨ n = Int64.maxValue) ∧
    (construct .vector3i [.int i, .int j, .int k] = .ok (.vector3i i j k) ↔
      ∀ n ∈ [i, j, k], Double.IsExact n.toInt ∨ n = Int64.maxValue) ∧
    (binary .modulo (.string "%d") (.int i) = .ok (.string (intText i)) ↔ Double.IsExact i.toInt) := by
  refine ⟨?_, ?_, ?_⟩
  · rw [construct_vector2i]
    simp [Double.saturate_ofInt64_iff]
  · rw [construct_vector3i]
    simp [Double.saturate_ofInt64_iff]
  · rw [format_decimal, ← Double.truncate_ofInt64_iff]
    constructor
    · intro h
      exact intText_inj (by simpa using h)
    · intro h
      rw [h]

/-- The first integer that is no double becomes another one. -/
theorem construct_vector2i_rounds :
    construct .vector2i [.int 9007199254740993, .int 0] = .ok (.vector2i 9007199254740992 0) := by
  have hrounded : (Double.ofInt64 9007199254740993).saturate = 9007199254740992 := by decide
  have hzero : (Double.ofInt64 0).saturate = 0 := by decide +kernel
  rw [construct_vector2i, hrounded, hzero]

/-! ## Powers

A power with an exponent that is not negative is found by squaring the base again and again.

* `Value.Squares` — the rounds of the loop;
* `Value.round_pow` — what a round keeps;
* `Value.powers_wrap` — **the power is the product** modulo `2 ^ 64`, also where constants are folded.
-/

/-- Rounds of **repeated squaring** with a product `a`, a base `x` and an exponent: while the exponent is not zero,
the product takes in the base if the exponent is odd, the base is squared and the exponent is halved. -/
inductive Squares : Int64 → Int64 → Nat → Int64 → Prop
  | done {a x : Int64} : Squares a x 0 a
  | round {a x r : Int64} {n : Nat} : n ≠ 0 → Squares (if n % 2 = 1 then a * x else a) (x * x) (n / 2) r →
    Squares a x n r

section Powers

variable {a x r : Int64} {m n : Nat}

theorem pow_add (x : Int64) (m n : Nat) : x ^ (m + n) = x ^ m * x ^ n := by
  induction n with
  | zero => rw [Nat.add_zero, Int64.pow_zero, Int64.mul_one]
  | succ n ih => rw [← Nat.add_assoc, Int64.pow_succ, ih, Int64.mul_assoc, ← Int64.pow_succ]

theorem square_pow (x : Int64) (n : Nat) : (x * x) ^ n = x ^ (2 * n) := by
  induction n with
  | zero => rw [Nat.mul_zero, Int64.pow_zero, Int64.pow_zero]
  | succ n ih => rw [Int64.pow_succ, ih, Nat.mul_succ, Int64.pow_succ, Int64.pow_succ, Int64.mul_assoc]

/-- A round takes the last binary digit off the exponent. -/
theorem round_pow (a x : Int64) (m n : Nat) :
    (if n % 2 = 1 then a * x else a) * (x * x) ^ m = a * x ^ (n % 2 + 2 * m) := by
  have hlast : (if n % 2 = 1 then a * x else a) = a * x ^ (n % 2) := by
    rcases Nat.mod_two_eq_zero_or_one n with h | h
    · rw [h, if_neg (by decide), Int64.pow_zero, Int64.mul_one]
    · rw [h, if_pos rfl, Int64.pow_succ, Int64.pow_zero, Int64.one_mul]
  rw [hlast, square_pow, Int64.mul_assoc, ← pow_add]

/-- The product times the power that is still to be taken stays the same in all rounds. -/
theorem Squares.eq_pow (h : Squares a x n r) : r = a * x ^ n := by
  induction h with
  | done => rw [Int64.pow_zero, Int64.mul_one]
  | @round a x r n _ _ ih => rw [ih, round_pow, Nat.mod_add_div]

/-- There are only so many rounds, since the exponent becomes less. -/
theorem squares_pow (a x : Int64) (n : Nat) : Squares a x n (a * x ^ n) := by
  induction n using Nat.strongRecOn generalizing a x with
  | ind n ih =>
    by_cases hn : n = 0
    · rw [hn, Int64.pow_zero, Int64.mul_one]
      exact .done
    · have hrest := ih (n / 2) (by omega) (if n % 2 = 1 then a * x else a) (x * x)
      rw [round_pow, Nat.mod_add_div] at hrest
      exact .round hn hrest

theorem powerOf_eq (bits : Nat) (x : Int64) (n : Nat) : powerOf bits x n = x ^ (n % 2 ^ bits) := by
  induction bits generalizing x n with
  | zero => rw [Nat.pow_zero, Nat.mod_one, Int64.pow_zero, powerOf]
  | succ bits ih =>
    have hround := round_pow 1 x (n / 2 % 2 ^ bits) n
    rw [Int64.one_mul, Int64.one_mul] at hround
    rw [powerOf, ih, hround, Nat.pow_succ', Nat.mod_mul]

/-- Products of words are those of the integers, wrapped around. -/
theorem toInt_pow (x : Int64) (n : Nat) : (x ^ n).toInt = (x.toInt ^ n).bmod (2 ^ 64) := by
  induction n with
  | zero =>
    rw [Int64.pow_zero, Int.pow_zero]
    decide
  | succ n ih => rw [Int64.pow_succ, Int64.toInt_mul, ih, Int.bmod_mul_bmod, Int.pow_succ]

end Powers

/-- **Powers of integers are products that wrap around.** Repeated squaring comes to an end with the product of as
many factors as the exponent says, if it is not negative, which is the power of the integers modulo `2 ^ 64`. That
is what the operator gives, and what an expression of constants is folded to. -/
theorem powers_wrap (x y : Int64) (hy : 0 ≤ y) :
    (∀ r, Squares 1 x y.toInt.toNat r ↔ r = intPower x y) ∧
    intPower x y = x ^ y.toInt.toNat ∧
    (intPower x y).toInt = (x.toInt ^ y.toInt.toNat).bmod (2 ^ 64) ∧
    binary .power (int x) (int y) = .ok (int (x ^ y.toInt.toNat)) ∧
    ∀ (span : Span) (e f : Expr), e.value? = some (int x) → f.value? = some (int y) →
      Analysis.binaryInfo span .power e f = pure (Analysis.constant (int (x ^ y.toInt.toNat)) {}) := by
  have hlt : y.toInt.toNat < 2 ^ 63 := by
    have := y.toInt_lt
    omega
  have hpower : intPower x y = x ^ y.toInt.toNat := by
    rw [intPower, if_neg (Int64.not_lt.mpr hy), powerOf_eq, Nat.mod_eq_of_lt hlt]
  have hbinary : binary .power (int x) (int y) = .ok (int (x ^ y.toInt.toNat)) := by
    rw [← hpower]
    rfl
  refine ⟨fun r => ⟨fun h => ?_, ?_⟩, hpower, ?_, hbinary, fun span e f he hf => ?_⟩
  · rw [h.eq_pow, Int64.one_mul, hpower]
  · rintro rfl
    rw [hpower, ← Int64.one_mul (x ^ y.toInt.toNat)]
    exact squares_pow 1 x _
  · rw [hpower, toInt_pow]
  · have hoperator : BinaryOp.operator .power = .power := rfl
    unfold Analysis.binaryInfo
    rw [he, hf, hoperator]
    dsimp only
    rw [hbinary]
    rfl

/-- The greatest exponent takes 63 rounds. -/
theorem powers_wrap_greatest : (0 : Int64) ≤ Int64.maxValue ∧
    Squares 1 (-7) Int64.maxValue.toInt.toNat (-7905747460161236407) ∧
    binary .power (int (-7)) (int Int64.maxValue) = .ok (int (-7905747460161236407)) := by
  have hvalue : intPower (-7) Int64.maxValue = -7905747460161236407 := by decide +kernel
  obtain ⟨hrounds, hpower, -, hbinary, -⟩ := powers_wrap (-7) Int64.maxValue (by decide)
  rw [← hpower, hvalue] at hbinary
  exact ⟨by decide, (hrounds _).mpr hvalue.symm, hbinary⟩

end Value

end GameScript
