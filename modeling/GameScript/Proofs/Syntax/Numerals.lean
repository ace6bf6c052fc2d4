import GameScript.Proofs.Code.Layout
import GameScript.Proofs.Syntax.Rendering
import GameScript.Proofs.Value.Integers

/-!
# Numbers before points

A point behind a number is part of it unless another point or a name comes next. Whether a name comes next is told by
its first byte alone, taken for a character: the bytes that begin the letters of all scripts are themselves letters but
for `0xD7`, the multiplication sign, which begins the Hebrew letters.

* `Text.readRune_encodeRune` — a code point is read back from its bytes;
* `Double.isInf_ofRatio` — a ratio below `2 ^ 63` is not rounded to infinity;
* `Scan.isNameStart_first` — **the first byte of a letter** looks like the start of a name, except for a block;
* `Scan.decimal_int`, `Scan.decimal_float` — the two ways to read digits before a point;
* `Scan.scan_numeral` — **a number, points and a name or digits** in one text.
-/

namespace GameScript

/-! ### Code points in UTF-8 -/

namespace Text

/-- A number is a **code point** if it is not beyond the last one and no surrogate. -/
def IsCodePoint (c : Nat) : Prop := c ≤ 0x10FFFF ∧ ¬ (0xD800 ≤ c ∧ c ≤ 0xDFFF)

section CodePoints

variable {b lo hi : UInt8} {bs rest : List UInt8} {c n x y z : Nat}

theorem continuation?_of_bounds (hlo : lo.toNat ≤ b.toNat) (hhi : b.toNat ≤ hi.toNat) :
    continuation? lo hi b = some (b.toNat % 64) := by
  have hbounds : (lo ≤ b && b ≤ hi) = true := by
    simp [UInt8.le_iff_toNat_le, hlo, hhi]
  rw [continuation?, if_pos hbounds]

/-- The lowest six bits of a continuation byte. -/
theorem toNat_tail (n : Nat) : (0x80 + n % 64).toUInt8.toNat = 128 + n % 64 := by
  apply Varint.toNat_toUInt8_of_lt
  omega

theorem continuation?_tail (n : Nat) : continuation? 0x80 0xBF (0x80 + n % 64).toUInt8 = some (n % 64) := by
  have htail := toNat_tail n
  rw [continuation?_of_bounds]
  · rw [htail]
    congr 1
    omega
  · rw [htail]
    show 128 ≤ _
    omega
  · rw [htail]
    show _ ≤ 191
    omega

theorem multibyte?_two (hb : b.toNat = 0xC0 + c / 64) (h : 0x80 ≤ c ∧ c < 0x800) :
    multibyte? b ((0x80 + c % 64).toUInt8 :: rest) = some (c, 1) := by
  have hrange : secondByteRange b = (0x80, 0xBF) := by
    simp only [secondByteRange, ← UInt8.toNat_inj, hb]
    repeat rw [if_neg (by simp only [UInt8.reduceToNat]; omega)]
  have hfirst : (0xC2 ≤ b && b ≤ 0xDF) = true := by
    simp only [Bool.and_eq_true, decide_eq_true_eq, UInt8.le_iff_toNat_le, hb, UInt8.reduceToNat]
    omega
  unfold multibyte?
  simp only [hrange, hfirst, if_true, continuation?_tail, Option.map_some, hb]
  congr 2
  omega

theorem multibyte?_three (hb : b.toNat = 0xE0 + c / 4096) (h : 0x800 ≤ c ∧ c < 0x10000)
    (hsurrogate : ¬ (0xD800 ≤ c ∧ c ≤ 0xDFFF)) :
    multibyte? b ((0x80 + c / 64 % 64).toUInt8 :: (0x80 + c % 64).toUInt8 :: rest) = some (c, 2) := by
  have hsecond := toNat_tail (c / 64)
  have hcontinuation : continuation? (secondByteRange b).1 (secondByteRange b).2 (0x80 + c / 64 % 64).toUInt8 =
      some (c / 64 % 64) := by
    have hbounds : (secondByteRange b).1.toNat ≤ 128 + c / 64 % 64 ∧
        128 + c / 64 % 64 ≤ (secondByteRange b).2.toNat := by
      simp only [secondByteRange, ← UInt8.toNat_inj, hb, UInt8.reduceToNat]
      repeat' split
      all_goals
        simp only [UInt8.reduceToNat]
        omega
    rw [continuation?_of_bounds (by omega) (by omega), hsecond]
    congr 1
    omega
  have hfirst : (0xC2 ≤ b && b ≤ 0xDF) = false ∧ (0xE0 ≤ b && b ≤ 0xEF) = true := by
    simp only [Bool.and_eq_false_iff, Bool.and_eq_true, decide_eq_true_eq, decide_eq_false_iff_not,
      UInt8.le_iff_toNat_le, hb, UInt8.reduceToNat]
    omega
  unfold multibyte?
  simp only [hfirst, Bool.false_eq_true, if_false, if_true, hcontinuation, continuation?_tail, Option.bind_eq_bind,
    Option.bind_some, hb]
  show some (_, 2) = _
  congr 2
  omega

theorem multibyte?_four (hb : b.toNat = 0xF0 + c / 262144) (h : 0x10000 ≤ c ∧ c ≤ 0x10FFFF) :
    multibyte? b ((0x80 + c / 4096 % 64).toUInt8 :: (0x80 + c / 64 % 64).toUInt8 :: (0x80 + c % 64).toUInt8 :: rest) =
      some (c, 3) := by
  have hsecond := toNat_tail (c / 4096)
  have hcontinuation : continuation? (secondByteRange b).1 (secondByteRange b).2 (0x80 + c / 4096 % 64).toUInt8 =
      some (c / 4096 % 64) := by
    have hbounds : (secondByteRange b).1.toNat ≤ 128 + c / 4096 % 64 ∧
        128 + c / 4096 % 64 ≤ (secondByteRange b).2.toNat := by
      simp only [secondByteRange, ← UInt8.toNat_inj, hb, UInt8.reduceToNat]
      repeat' split
      all_goals
        simp only [UInt8.reduceToNat]
        omega
    rw [continuation?_of_bounds (by omega) (by omega), hsecond]
    congr 1
    omega
  have hfirst : (0xC2 ≤ b && b ≤ 0xDF) = false ∧ (0xE0 ≤ b && b ≤ 0xEF) = false ∧ (0xF0 ≤ b && b ≤ 0xF4) = true := by
    simp only [Bool.and_eq_false_iff, Bool.and_eq_true, decide_eq_true_eq, decide_eq_false_iff_not,
      UInt8.le_iff_toNat_le, hb, UInt8.reduceToNat]
    omega
  unfold multibyte?
  simp only [hfirst, Bool.false_eq_true, if_false, if_true, hcontinuation, continuation?_tail, Option.bind_eq_bind,
    Option.bind_some, hb]
  show some (_, 3) = _
  congr 2
  omega

/-- **A code point is read back** from its bytes. Its first byte is below 128 iff it is, and is `0xD7` for the code
points of one block only. -/
theorem readRune_encodeRune (h : IsCodePoint c) : ∃ b bs, encodeRune c = b :: bs ∧
    (∀ rest, readRune b (bs ++ rest) = (⟨c, true⟩, bs.length)) ∧ (c < 128 → b.toNat = c) ∧
    (128 ≤ c → 0xC2 ≤ b.toNat ∧ b.toNat ≤ 0xF4 ∧ (b.toNat = 0xD7 ↔ c / 64 = 23)) := by
  obtain ⟨hlast, hsurrogate⟩ := h
  have hmulti : ∀ {b : UInt8} {bs : List UInt8} {k : Nat}, 0xC2 ≤ b.toNat → multibyte? b bs = some (c, k) →
      readRune b bs = (⟨c, true⟩, k) := by
    intro b bs k hb hread
    have hascii : ¬ b < 0x80 := by
      rw [UInt8.lt_iff_toNat_lt]
      show ¬ _ < 128
      omega
    rw [readRune, if_neg hascii, hread]
  by_cases h1 : c < 0x80
  · have hb : c.toUInt8.toNat = c := Varint.toNat_toUInt8_of_lt (by omega)
    refine ⟨c.toUInt8, [], by rw [encodeRune, if_pos h1], fun rest => ?_, fun _ => hb, by omega⟩
    have hascii : c.toUInt8 < 0x80 := by rwa [UInt8.lt_iff_toNat_lt, hb]
    rw [readRune, if_pos hascii, hb]
    rfl
  by_cases h2 : c < 0x800
  · have hb : (0xC0 + c / 64).toUInt8.toNat = 0xC0 + c / 64 := Varint.toNat_toUInt8_of_lt (by omega)
    refine ⟨_, _, by rw [encodeRune, if_neg h1, if_pos h2], fun rest => ?_, by omega, by omega⟩
    exact hmulti (by omega) (multibyte?_two hb (by omega))
  have hvalid : ((0xD800 ≤ c && c ≤ 0xDFFF) || decide (0x10FFFF < c)) = false := by
    simp only [Bool.or_eq_false_iff, Bool.and_eq_false_iff, decide_eq_false_iff_not]
    omega
  by_cases h3 : c < 0x10000
  · have hb : (0xE0 + c / 4096).toUInt8.toNat = 0xE0 + c / 4096 := Varint.toNat_toUInt8_of_lt (by omega)
    have hbytes : encodeRune c = [(0xE0 + c / 4096).toUInt8, (0x80 + c / 64 % 64).toUInt8, (0x80 + c % 64).toUInt8] := by
      simp only [encodeRune, h1, h2, h3, hvalid, Bool.false_eq_true, if_false, if_true]
    refine ⟨_, _, hbytes, fun rest => ?_, by omega, by omega⟩
    exact hmulti (by omega) (multibyte?_three hb (by omega) hsurrogate)
  · have hb : (0xF0 + c / 262144).toUInt8.toNat = 0xF0 + c / 262144 := Varint.toNat_toUInt8_of_lt (by omega)
    have hbytes : encodeRune c = [(0xF0 + c / 262144).toUInt8, (0x80 + c / 4096 % 64).toUInt8,
        (0x80 + c / 64 % 64).toUInt8, (0x80 + c % 64).toUInt8] := by
      simp only [encodeRune, h1, h2, h3, hvalid, Bool.false_eq_true, if_false]
    refine ⟨_, _, hbytes, fun rest => ?_, by omega, by omega⟩
    exact hmulti (by omega) (multibyte?_four hb (by omega))

theorem encodeRune_ascii (hb : b < 128) : encodeRune b.toNat = [b] := by
  have hlt : b.toNat < 128 := UInt8.lt_iff_toNat_lt.mp hb
  simp [encodeRune, hlt]

set_option maxRecDepth 8000 in
/-- The letters are code points. -/
theorem isCodePoint_of_isLetter (h : isLetter c = true) : IsCodePoint c := by
  have hranges : letterRanges.all (fun r => r.2 ≤ 0x10FFFF && (r.2 < 0xD800 || 0xDFFF < r.1)) = true := by decide
  have hmem : ∀ rs : List (Nat × Nat), inRanges c rs = true → ∃ r ∈ rs, r.1 ≤ c ∧ c ≤ r.2 := by
    intro rs
    induction rs with
    | nil => exact nofun
    | cons r rs ih =>
      intro hin
      unfold inRanges at hin
      split at hin
      · cases hin
      · rename_i hlo
        rw [Bool.or_eq_true, decide_eq_true_eq] at hin
        rcases hin with hhi | hin
        · exact ⟨r, List.mem_cons_self, by omega, hhi⟩
        · obtain ⟨r', hr', hbounds⟩ := ih hin
          exact ⟨r', List.mem_cons_of_mem r hr', hbounds⟩
  unfold isLetter at h
  split at h
  · constructor <;> omega
  · obtain ⟨r, hr, hlo, hhi⟩ := hmem _ h
    have hr := List.all_eq_true.mp hranges r hr
    simp only [Bool.and_eq_true, Bool.or_eq_true, decide_eq_true_eq] at hr
    constructor <;> omega

end CodePoints

end Text

/-! ### Ratios as doubles -/

namespace Double

variable {n d m : Nat} {e : Int}

theorem isInf_of_exponent {x : Double} (h : x.bits.toNat < 2047 * 2 ^ 52) : x.isInf = false := by
  have hshift : x.exponentField = x.bits.toNat / 2 ^ 52 % 2048 := by
    unfold exponentField
    rw [UInt64.toNat_shiftRight, Nat.shiftRight_eq_div_pow]
    rfl
  have hfield : x.exponentField ≠ 2047 := by
    rw [hshift]
    omega
  simp [isInf, hfield]

/-- Neither the significand nor the exponent of what is packed is great. -/
theorem isInf_pack (hm : m < 2 ^ 55) (he : e ≤ 900) : (pack m e).isInf = false := by
  have htwoTo : twoTo 52 = 2 ^ 52 := rfl
  unfold pack
  rw [htwoTo]
  split
  · apply isInf_of_exponent
    show m.toUInt64.toNat < _
    rw [Nat.toUInt64, UInt64.toNat_ofNat_of_lt' (by show m < 2 ^ 64; omega)]
    omega
  · rw [if_neg (by omega)]
    apply isInf_of_exponent
    have hsize : (e + 1075).toNat * 2 ^ 52 + (m - 2 ^ 52) < 2047 * 2 ^ 52 := by omega
    show ((e + 1075).toNat * 2 ^ 52 + (m - 2 ^ 52)).toUInt64.toNat < _
    rw [Nat.toUInt64, UInt64.toNat_ofNat_of_lt' (by show _ < 2 ^ 64; omega)]
    exact hsize

/-- The quotient of two numbers that are scaled by powers of two: no more than the difference of their lengths. -/
theorem scaled_lt (hd : d ≠ 0) (he : (n.log2 : Int) - d.log2 - 53 ≤ e) :
    n * 2 ^ (-e).toNat / (d * 2 ^ e.toNat) < 2 ^ 54 := by
  have hd' := Nat.log2_self_le hd
  have hn' : n < 2 ^ (n.log2 + 1) := Nat.lt_log2_self
  rw [Nat.div_lt_iff_lt_mul (Nat.mul_pos (by omega) (Nat.two_pow_pos _))]
  calc n * 2 ^ (-e).toNat < 2 ^ (n.log2 + 1) * 2 ^ (-e).toNat := Nat.mul_lt_mul_of_pos_right hn' (Nat.two_pow_pos _)
    _ = 2 ^ (n.log2 + 1 + (-e).toNat) := (Nat.pow_add ..).symm
    _ ≤ 2 ^ (54 + (d.log2 + e.toNat)) := Nat.pow_le_pow_right (by decide) (by omega)
    _ = 2 ^ 54 * (2 ^ d.log2 * 2 ^ e.toNat) := by rw [Nat.pow_add, Nat.pow_add]
    _ ≤ 2 ^ 54 * (d * 2 ^ e.toNat) := Nat.mul_le_mul_left _ (Nat.mul_le_mul_right _ hd')

/-- **A ratio below `2 ^ 63`** is not rounded to infinity. -/
theorem isInf_ofRatio (h : n < 2 ^ 63 * d) : (ofRatio n d).isInf = false := by
  unfold ofRatio
  split
  · decide
  rename_i hzero
  simp only [Bool.or_eq_true, decide_eq_true_eq, not_or] at hzero
  obtain ⟨hn, hd⟩ := hzero
  have hlog : n.log2 ≤ d.log2 + 63 := by
    have hd' : d < 2 ^ (d.log2 + 1) := Nat.lt_log2_self
    have hlt : n < 2 ^ (d.log2 + 1 + 63) := by
      calc n < 2 ^ 63 * d := h
        _ ≤ 2 ^ 63 * 2 ^ (d.log2 + 1) := Nat.mul_le_mul_left _ hd'.le
        _ = 2 ^ (d.log2 + 1 + 63) := by rw [← Nat.pow_add, Nat.add_comm]
    have := (Nat.log2_lt hn).mpr hlt
    omega
  have htwoTo : ∀ k, twoTo k = 2 ^ k := fun _ => rfl
  dsimp only
  simp only [htwoTo]
  generalize hguess : (if n * 2 ^ (-((n.log2 : Int) - d.log2 - 52)).toNat / (d * 2 ^ ((n.log2 : Int) - d.log2 - 52).toNat) <
    2 ^ 52 then (n.log2 : Int) - d.log2 - 52 - 1 else (n.log2 : Int) - d.log2 - 52) = guess
  have hlow : (n.log2 : Int) - d.log2 - 53 ≤ guess ∧ guess ≤ 11 := by
    rw [← hguess]
    split <;> omega
  have hquotient := scaled_lt (n := n) hd (e := Max.max guess (-1074)) (by omega)
  have hup := (divideToEven_bounds (n * 2 ^ (-Max.max guess (-1074)).toNat) (d * 2 ^ (Max.max guess (-1074)).toNat)).2
  split
  · exact isInf_pack (by decide) (by omega)
  · exact isInf_pack (by omega) (by omega)

end Double

/-! ### Digits as floats -/

namespace Text

section Floats

variable {b : UInt8} {bs ds fs : List UInt8} {k n : Nat}

theorem isDigit_iff : isDigit b = true ↔ Scan.isDigit b.toNat = true := by
  simp [isDigit, Scan.isDigit, UInt8.le_iff_toNat_le]

theorem bounds_of_isDigit (h : isDigit b = true) : 48 ≤ b.toNat ∧ b.toNat ≤ 57 := by
  simpa [isDigit, UInt8.le_iff_toNat_le] using h

/-- One more digit. -/
theorem numberIn?_concat (h : numberIn? 10 ds = some n) (hb : isDigit b = true) :
    ∃ d < 10, numberIn? 10 (ds ++ [b]) = some (n * 10 + d) := by
  obtain ⟨hlo, hhi⟩ := bounds_of_isDigit hb
  have hdigit : hexDigit? b = some (b.toNat - 48) := if_pos hb
  refine ⟨b.toNat - 48, by omega, ?_⟩
  unfold numberIn? at h ⊢
  rw [List.foldlM_append, h]
  simp only [Option.bind_eq_bind, Option.bind_some, List.foldlM_cons, List.foldlM_nil, hdigit]
  rw [if_pos (by omega)]
  rfl

/-- More digits make a number greater, but not by more than their number tells. -/
theorem numberIn?_append (h : numberIn? 10 ds = some n) (hfs : ∀ b ∈ fs, isDigit b = true) :
    ∃ m, numberIn? 10 (ds ++ fs) = some m ∧ m < (n + 1) * 10 ^ fs.length := by
  induction fs generalizing ds n with
  | nil => exact ⟨n, by simpa using h, by simp⟩
  | cons b fs ih =>
    obtain ⟨d, hd, hmore⟩ := numberIn?_concat h (hfs b List.mem_cons_self)
    obtain ⟨m, hm, hlt⟩ := ih hmore fun x hx => hfs x (List.mem_cons_of_mem b hx)
    refine ⟨m, by simpa using hm, ?_⟩
    calc m < (n * 10 + d + 1) * 10 ^ fs.length := hlt
      _ ≤ ((n + 1) * 10) * 10 ^ fs.length := Nat.mul_le_mul_right _ (by omega)
      _ = (n + 1) * 10 ^ (b :: fs).length := by rw [List.length_cons, Nat.pow_succ, Nat.mul_assoc, Nat.mul_comm 10]

theorem readMantissa_digits (hfs : ∀ b ∈ fs, isDigit b = true) :
    readMantissa isDigit true fs = ⟨fs, fs.length, []⟩ := by
  induction fs with
  | nil => rfl
  | cons b fs ih =>
    have hb := hfs b List.mem_cons_self
    have hunderscore : b ≠ 95 := by
      rintro rfl
      exact absurd hb (by decide)
    rw [readMantissa, if_neg hunderscore, if_neg (by simp), if_pos hb, ih fun x hx => hfs x (List.mem_cons_of_mem b hx)]
    rfl

/-- Digits, a point and digits are read to their end. -/
theorem readMantissa_point (hds : ∀ b ∈ ds, isDigit b = true) (hfs : ∀ b ∈ fs, isDigit b = true) :
    readMantissa isDigit false (ds ++ 46 :: fs) = ⟨ds ++ fs, fs.length, []⟩ := by
  induction ds with
  | nil =>
    rw [List.nil_append, readMantissa, if_neg (by decide), if_pos (by decide), readMantissa_digits hfs]
    rfl
  | cons b ds ih =>
    have hb := hds b List.mem_cons_self
    have hother : b ≠ 95 ∧ b ≠ 46 := by
      constructor <;> rintro rfl <;> exact absurd hb (by decide)
    rw [List.cons_append, readMantissa, if_neg hother.1, if_neg (by simp [hother.2]), if_pos hb,
      ih fun x hx => hds x (List.mem_cons_of_mem b hx)]
    rfl

/-- A number with a fraction is a double if its integer part is a signed 64-bit integer. -/
theorem scaled?_isSome (h : n < 2 ^ 63 * 10 ^ k) : (scaled? 10 n (-(k : Int))).isSome = true := by
  unfold scaled?
  split
  · rfl
  rename_i hzero
  have hsmall : ¬ (decide (0 ≤ -(k : Int)) && decide (1100 < (n.log2 : Int) + -(k : Int))) = true := by
    rw [Bool.and_eq_true, decide_eq_true_eq, decide_eq_true_eq]
    rintro ⟨hk, hlog⟩
    obtain rfl : k = 0 := by omega
    have hlt : n < 2 ^ 63 := by simpa using h
    have := (Nat.log2_lt hzero).mpr hlt
    omega
  rw [if_neg hsmall]
  split
  · rfl
  have hexponent : (-(k : Int)).toNat = 0 ∧ (- -(k : Int)).toNat = k := by omega
  dsimp only
  rw [hexponent.1, hexponent.2]
  have hfinite : (Double.ofRatio (n * Nat.pow 10 0) (Nat.pow 10 k)).isInf = false := by
    apply Double.isInf_ofRatio
    show n * 1 < _
    rw [Nat.mul_one]
    exact h
  rw [if_neg (by rw [hfinite]; exact Bool.false_ne_true)]
  rfl

/-- **Digits, a point and digits are a float**, if the integer part is a signed 64-bit integer. -/
theorem float?_isSome (hb : isDigit b = true) (hds : ∀ b ∈ ds, isDigit b = true)
    (hn : numberIn? 10 (b :: ds) = some n) (hlt : n < 2 ^ 63) (hfs : ∀ b ∈ fs, isDigit b = true) :
    (float? ⟨b :: ds ++ 46 :: fs⟩).isSome = true := by
  have hbs : ∀ x ∈ b :: ds, isDigit x = true := fun x hx =>
    (List.mem_cons.mp hx).elim (fun hx => hx ▸ hb) (hds x)
  have hlow : ∀ x ∈ b :: ds ++ 46 :: fs, isDigit x = true ∨ x = 46 := by
    intro x hx
    rcases List.mem_append.mp hx with hx | hx
    · exact .inl (hbs x hx)
    · exact (List.mem_cons.mp hx).symm.imp (hfs x) id
  obtain ⟨hlo, hhi⟩ := bounds_of_isDigit hb
  have hne : ∀ m : UInt8, 57 < m.toNat ∨ m.toNat < 48 → b ≠ m := by
    rintro m hm rfl
    omega
  have hunsigned : unsigned (b :: ds ++ 46 :: fs) = (false, b :: ds ++ 46 :: fs) := by
    rw [List.cons_append]
    unfold unsigned
    split
    · rename_i heq
      exact absurd (List.cons.inj heq).1 (hne 43 (by decide))
    · rename_i heq
      exact absurd (List.cons.inj heq).1 (hne 45 (by decide))
    · rfl
  have hplain : (if 65 ≤ b && b ≤ 90 then b + 32 else b) = b := by
    rw [if_neg]
    simp only [Bool.and_eq_true, decide_eq_true_eq, UInt8.le_iff_toNat_le, UInt8.reduceToNat]
    omega
  have hspecial : specialNumber? (b :: ds ++ 46 :: fs) = none := by
    have hinf : ofString "inf" = ⟨[105, 110, 102]⟩ ∧ ofString "infinity" = ⟨[105, 110, 102, 105, 110, 105, 116, 121]⟩ := by
      decide
    unfold specialNumber?
    rw [List.cons_append, List.map_cons, hplain, if_neg]
    simp only [hinf, Bool.or_eq_true, decide_eq_true_eq, not_or]
    constructor <;> intro heq <;> exact hne 105 (by decide) (List.cons.inj (Text.mk.inj heq)).1
  have hnan : (b :: ds ++ 46 :: fs).map (fun b => if 65 ≤ b && b ≤ 90 then b + 32 else b) ≠ (ofString "nan").bytes := by
    have hbytes : (ofString "nan").bytes = [110, 97, 110] := by decide
    rw [hbytes, List.cons_append, List.map_cons, hplain]
    intro heq
    exact absurd (List.cons.inj heq).1 (hne 110 (by decide))
  have hunderscore : (b :: ds ++ 46 :: fs).contains 95 = false := by
    rw [List.contains_eq_mem, decide_eq_false_iff_not]
    intro hmem
    rcases hlow 95 hmem with h | h <;> exact absurd h (by decide)
  obtain ⟨m, hm, hmlt⟩ := numberIn?_append hn hfs
  have hdecimal : (magnitude?.decimal? (b :: ds ++ 46 :: fs)).isSome = true := by
    unfold magnitude?.decimal?
    rw [readMantissa_point hbs hfs]
    dsimp only
    rw [if_neg (by simp), hm]
    refine scaled?_isSome (Nat.lt_of_lt_of_le hmlt (Nat.mul_le_mul_right _ hlt))
  have hmagnitude : (magnitude? (b :: ds ++ 46 :: fs)).isSome = true := by
    generalize hall : b :: ds ++ 46 :: fs = all at hdecimal hlow
    unfold magnitude?
    split
    · rename_i x rest
      have hx : ¬ ((decide (x = 120) || decide (x = 88)) && decide (rest ≠ [])) = true := by
        have hx := hlow x (by simp)
        rw [Bool.and_eq_true, Bool.or_eq_true, decide_eq_true_eq, decide_eq_true_eq]
        rintro ⟨rfl | rfl, -⟩ <;> rcases hx with h | h <;> exact absurd h (by decide)
      rwa [if_neg hx]
    · exact hdecimal
  unfold float?
  rw [hunsigned]
  dsimp only
  rw [hspecial, if_neg hnan, hunderscore]
  simpa using hmagnitude

end Floats

end Text

/-! ### Numerals and names -/

/-- A **decimal numeral**: a digit, and digits and underscores behind it, that spell a signed 64-bit integer. -/
structure Numeral where
  first : UInt8
  rest : List UInt8
  isDigit : Scan.isDigit first.toNat = true
  areParts : ∀ b ∈ rest, Scan.isDigit b.toNat = true ∨ b = 95
  value : Nat
  spells : Text.numberIn? 10 (Text.withoutUnderscores (first :: rest)) = some value
  isWord : value < 2 ^ 63

namespace Numeral

def bytes (d : Numeral) : List UInt8 := d.first :: d.rest

def text (d : Numeral) : Text := ⟨d.bytes⟩

def word (d : Numeral) : Word := { kind := .int, raw := d.text, payload := .int (Int64.ofInt d.value) }

/-- The double that the numeral spells with a point and digits behind it. -/
def double? (d : Numeral) (fs : List UInt8) : Option Double :=
  Text.float? ⟨Text.withoutUnderscores (d.bytes ++ 46 :: fs)⟩

/-- The numeral with a point and digits behind it, as one word. -/
def pointed (d : Numeral) (fs : List UInt8) : Word :=
  { kind := .float, raw := ⟨d.bytes ++ 46 :: fs⟩, payload := .float ((d.double? fs).getD .zero) }

theorem double?_isSome (d : Numeral) {fs : List UInt8} (hfs : ∀ b ∈ fs, Scan.isDigit b.toNat = true) :
    (d.double? fs).isSome = true := by
  have hparts : ∀ b ∈ Text.withoutUnderscores d.rest, Text.isDigit b = true := by
    intro b hb
    obtain ⟨hb, hne⟩ := List.mem_filter.mp hb
    exact Text.isDigit_iff.mpr ((d.areParts b hb).resolve_right (of_decide_eq_true hne))
  have hfirst : ∀ bs, Text.withoutUnderscores (d.first :: bs) = d.first :: Text.withoutUnderscores bs :=
    fun bs => List.filter_cons_of_pos (decide_eq_true (Scan.digit_ascii d.isDigit).2.2)
  have hplain : Text.withoutUnderscores (d.bytes ++ 46 :: fs) = d.first :: Text.withoutUnderscores d.rest ++ 46 :: fs := by
    have hpoint : Text.withoutUnderscores (d.rest ++ 46 :: fs) =
        Text.withoutUnderscores d.rest ++ 46 :: Text.withoutUnderscores fs := by
      simp [Text.withoutUnderscores]
    have hfs' : Text.withoutUnderscores fs = fs :=
      List.filter_eq_self.mpr fun b hb => decide_eq_true (Scan.digit_ascii (hfs b hb)).2.2
    rw [bytes, List.cons_append, hfirst, hpoint, hfs', List.cons_append]
  have hspells := d.spells
  rw [hfirst] at hspells
  unfold double?
  rw [hplain]
  exact Text.float?_isSome (Text.isDigit_iff.mpr d.isDigit) hparts hspells d.isWord
    fun b hb => Text.isDigit_iff.mpr (hfs b hb)

end Numeral

/-- A name of letters of any script, digits and underscores that is not reserved. -/
structure AnyName where
  first : Nat
  rest : List Nat
  isStart : Scan.isNameStart first = true
  areParts : ∀ n ∈ rest, Scan.isNamePart n = true
  unreserved : TokenKind.keyword? (Text.ofCodes (first :: rest)) = none

namespace AnyName

def text (w : AnyName) : Text := .ofCodes (w.first :: w.rest)

def word (w : AnyName) : Word := { kind := .identifier, raw := w.text }

/-- Whether the name begins with one of the characters whose first byte is that of no letter. -/
def isMistaken (w : AnyName) : Bool := 0x5C0 ≤ w.first && w.first ≤ 0x5FF

end AnyName

namespace Scan

section Names

variable {c e : Cursor} {n : Nat} {cs : List Nat} {rest : List UInt8}

/-! ### Passing code points -/

theorem isCodePoint_of_isNamePart (h : isNamePart n = true) : Text.IsCodePoint n := by
  simp only [isNamePart, isDigit, isNameStart, Bool.or_eq_true, Bool.and_eq_true, decide_eq_true_eq] at h
  rcases h with h | ((h | h) | h) | h
  case inr.inr => exact Text.isCodePoint_of_isLetter h
  all_goals constructor <;> omega

/-- A code point is passed with its bytes. -/
theorem next_code (h : c.rest = Text.encodeRune n ++ rest) (hn : Text.IsCodePoint n) (hreturn : n ≠ 13) :
    c.rest ≠ [] ∧ c.peek = n ∧ c.Passes (Text.encodeRune n) c.next := by
  obtain ⟨b, bs, hbytes, hread, hascii, hmulti⟩ := Text.readRune_encodeRune hn
  rw [hbytes, List.cons_append] at h
  have hb : b ≠ 13 := by
    rintro rfl
    by_cases hlt : n < 128
    · exact hreturn (hascii hlt).symm
    · exact absurd (hmulti (by omega)).1 (by decide)
  refine ⟨by simp [h], by simp [Cursor.peek, h, hb, hread], ?_⟩
  rw [hbytes]
  constructor
  · simp [Cursor.next, h, hb, hread]
  · simp only [Cursor.next, h, hb, if_false, hread, List.length_cons]
    omega

/-- Code points for which `p` holds are passed up to the end of them. -/
theorem skip_codes {p : Nat → Bool} (h : c.rest = cs.flatMap Text.encodeRune ++ rest)
    (hcs : ∀ n ∈ cs, p n = true ∧ Text.IsCodePoint n ∧ n ≠ 13)
    (hstop : ∀ e : Cursor, e.rest = rest → rest = [] ∨ p e.peek = false) :
    c.Passes (cs.flatMap Text.encodeRune) (c.skip p) := by
  suffices hfrom : ∀ fuel (c : Cursor), c.rest = cs.flatMap Text.encodeRune ++ rest →
      (cs.flatMap Text.encodeRune).length ≤ fuel → c.Passes (cs.flatMap Text.encodeRune) (c.skipFrom p fuel) by
    exact hfrom _ c h (by simp [h])
  clear h
  induction cs with
  | nil =>
    intro fuel c h _
    cases fuel with
    | zero => exact .refl c
    | succ fuel =>
      rw [Cursor.skipFrom, if_neg]
      · exact .refl c
      · rcases hstop c h with hnil | hp
        · simp [h, hnil]
        · simp [hp]
  | cons n cs ih =>
    intro fuel c h hfuel
    rw [List.flatMap_cons, List.append_assoc] at h
    rw [List.flatMap_cons] at hfuel ⊢
    obtain ⟨hp, hcode, hreturn⟩ := hcs n List.mem_cons_self
    obtain ⟨hne, hpeek, hnext⟩ := next_code h hcode hreturn
    have hlength : 0 < (Text.encodeRune n).length := by
      obtain ⟨b, bs, hbytes, -⟩ := Text.readRune_encodeRune hcode
      simp [hbytes]
    rw [List.length_append] at hfuel
    cases fuel with
    | zero => omega
    | succ fuel =>
      rw [Cursor.skipFrom, if_pos (by simp [hne, hpeek, hp])]
      have hrest : c.next.rest = cs.flatMap Text.encodeRune ++ rest := List.append_cancel_left (hnext.rest.symm.trans h)
      exact hnext.trans (ih (fun m hm => hcs m (List.mem_cons_of_mem n hm)) fuel c.next hrest (by omega))

/-- ASCII bytes are code points of one byte. -/
theorem flatMap_encodeRune {bs : List UInt8} (h : ∀ b ∈ bs, b < 128) :
    (bs.map UInt8.toNat).flatMap Text.encodeRune = bs := by
  induction bs with
  | nil => rfl
  | cons b bs ih =>
    rw [List.map_cons, List.flatMap_cons, Text.encodeRune_ascii (h b List.mem_cons_self),
      ih fun x hx => h x (List.mem_cons_of_mem b hx)]
    rfl

/-- The digits and underscores of a number. -/
def isNumberPart (n : Nat) : Bool := isDigit n || n = 95

theorem skip_numberParts {bs : List UInt8} (h : c.rest = bs ++ rest) (hbs : ∀ b ∈ bs, isDigit b.toNat = true ∨ b = 95)
    (hstop : ∀ e : Cursor, e.rest = rest → rest = [] ∨ isNumberPart e.peek = false) :
    c.Passes bs (c.skip isNumberPart) := by
  have hpart : ∀ b ∈ bs, isNumberPart b.toNat = true ∧ b < 128 ∧ b.toNat ≠ 13 := by
    intro b hb
    rcases hbs b hb with hdigit | rfl
    · obtain ⟨hlt, hne, -⟩ := digit_ascii hdigit
      exact ⟨by simp [isNumberPart, hdigit], hlt, fun heq => hne (UInt8.toNat_inj.mp heq)⟩
    · decide
  have hcodes := flatMap_encodeRune fun b hb => (hpart b hb).2.1
  rw [← hcodes] at h ⊢
  refine skip_codes h (fun n hn => ?_) hstop
  obtain ⟨b, hb, rfl⟩ := List.mem_map.mp hn
  have hlt := UInt8.lt_iff_toNat_lt.mp (hpart b hb).2.1
  refine ⟨(hpart b hb).1, ?_, (hpart b hb).2.2⟩
  change b.toNat < 128 at hlt
  constructor <;> omega

/-- **The first byte of a letter** is no point, and looks like the start of a name but for one block. -/
theorem isNameStart_first (h : isNameStart n = true) : ∃ b bs, Text.encodeRune n = b :: bs ∧ b.toNat ≠ 46 ∧
    (isNameStart b.toNat = true ↔ n / 64 ≠ 23) := by
  have hfirst : ∀ m < 51, (isNameStart (0xC2 + m) = true ↔ 0xC2 + m ≠ 0xD7) := by decide
  obtain ⟨b, bs, hbytes, -, hascii, hmulti⟩ := Text.readRune_encodeRune (isCodePoint_of_isNamePart (n := n) (by simp [isNamePart, h]))
  refine ⟨b, bs, hbytes, ?_⟩
  by_cases hlt : n < 128
  · have hpoint : n ≠ 46 := by
      rintro rfl
      exact absurd h (by decide)
    rw [hascii hlt]
    refine ⟨hpoint, fun _ => by omega, fun _ => h⟩
  · obtain ⟨hlo, hhi, hblock⟩ := hmulti (by omega)
    refine ⟨by omega, ?_⟩
    have hbyte := hfirst (b.toNat - 0xC2) (by omega)
    rw [Nat.add_sub_cancel' hlo] at hbyte
    rw [hbyte, ne_eq, hblock]

end Names

/-! ### Words with nothing between them -/

/-- The state at a cursor in a line without open brackets. -/
def inLine (c : Cursor) : State := { cursor := c, lineStart := false }

/-- From a cursor on, these words are read with nothing between them and nothing behind them. -/
inductive Joined : Cursor → List Word → Prop
  | done {c : Cursor} (h : c.rest = []) : Joined c []
  | next {c e : Cursor} {t : Token} {ws : List Word} (hstarts : Starts c) (htoken : token (inLine c) = .ok (t, inLine e))
    (h : Joined e ws) : Joined c (t.word :: ws)

/-- A text is **read as words** if its tokens are these words and the end of the file. -/
def ReadsAs (source : Text) (ws : List Word) : Prop :=
  ∃ ts e, scan source = ⟨ts ++ [e], none⟩ ∧ ts.map Token.word = ws ∧ e.kind = .endOfFile

section Joined

variable {c e : Cursor} {ws : List Word} {bs fs rest : List UInt8} {k : TokenKind} {p : Payload} {n : Nat}

/-- A token right behind another one. -/
theorem next_joined {s : State} (fuel : Nat) (h : s.lineStart = false ∧ s.pending = 0) (hstarts : Starts s.cursor) :
    next (fuel + 1) s = token s := by
  obtain ⟨hline, hpending⟩ := h
  have hbeyond : beyond s.cursor = s.cursor := beyond_of_starts hstarts
  rw [next_succ, if_neg (by simp [hline])]
  show (if s.pending < 0 then _ else if 0 < s.pending then _ else _) = _
  rw [if_neg (by omega), if_neg (by omega), hbeyond]
  exact onward_of_starts _ _ _ hstarts

theorem Joined.length_le (h : Joined c ws) : ws.length ≤ c.rest.length := by
  induction h with
  | done => exact Nat.zero_le _
  | @next c e t ws hstarts htoken _ ih =>
    have hpeek : c.peek ≠ 0 := fun hzero => hstarts (by simp [hzero])
    have hlt := token_shorter (s := inLine c) hpeek _ htoken
    exact Nat.lt_of_le_of_lt ih hlt

theorem readAll_joined (h : Joined c ws) : ∀ fuel, ws.length < fuel → ∃ ts e, readAll fuel (inLine c) = ⟨ts ++ [e], none⟩ ∧
    ts.map Token.word = ws ∧ e.kind = .endOfFile := by
  induction h with
  | @done c h =>
    intro fuel hfuel
    cases fuel with
    | zero => omega
    | succ fuel =>
      have hnext : ∀ k, next (k + 1) (inLine c) = .ok (layout .endOfFile c c, inLine c) :=
        fun k => next_last k ⟨rfl, rfl, rfl⟩ h
      exact ⟨[], _, by rw [readAll, hnext]; rfl, rfl, rfl⟩
  | @next c e t ws hstarts htoken _ ih =>
    intro fuel hfuel
    cases fuel with
    | zero => omega
    | succ fuel =>
      obtain ⟨ts, last, hread, hwords, hend⟩ := ih fuel (Nat.lt_of_succ_lt_succ hfuel)
      have hkind : t.kind ≠ .endOfFile := (token_isWord _ _ htoken).2.1
      refine ⟨t :: ts, last, ?_, by rw [List.map_cons, hwords], hend⟩
      rw [readAll, next_joined _ ⟨rfl, rfl⟩ hstarts, htoken]
      dsimp only
      rw [if_neg hkind, hread]
      rfl

theorem readsAs_of_joined {source : Text} {w : Word} (h : Joined { rest := source.bytes } (w :: ws)) :
    ReadsAs source (w :: ws) := by
  have hlength : (w :: ws).length ≤ source.size := h.length_le
  cases h with
  | @next c e t ws hstarts htoken h =>
    obtain ⟨ts, last, hread, hwords, hend⟩ := readAll_joined h (3 * source.size + 9)
      (by rw [List.length_cons] at hlength; omega)
    have hkind : t.kind ≠ .endOfFile := (token_isWord _ _ htoken).2.1
    refine ⟨t :: ts, last, ?_, by rw [List.map_cons, hwords], hend⟩
    have hfirst : token { cursor := { rest := source.bytes }, lineStart := false } = .ok (t, inLine e) := htoken
    rw [scan, readAll, next_first _ ⟨rfl, rfl, rfl, rfl⟩ hstarts, hfirst]
    dsimp only
    rw [if_neg hkind, hread]
    rfl

/-- A number or points, and words right behind them. -/
theorem joined_of_number (hpeek : isDigit c.peek = true ∨ c.peek = 46) (hnumber : number c = .ok (k, p, e))
    (hpasses : c.Passes bs e) (h : Joined e ws) : Joined c (⟨k, ⟨bs⟩, p⟩ :: ws) := by
  have hstarts : Starts c := by
    unfold Starts
    intro hmem
    simp only [List.mem_cons, List.not_mem_nil, or_false] at hmem
    rcases hpeek with hdigit | hpoint
    · rcases hmem with hc | hc | hc | hc | hc | hc <;> rw [hc] at hdigit <;> cases hdigit
    · omega
  have htoken := token_number (s := inLine c) hpeek hnumber
  have hword : Token.word ⟨k, c.pos, c.until e, p, e.pos⟩ = ⟨k, ⟨bs⟩, p⟩ := by
    simp [Token.word, hpasses.until_eq]
  rw [← hword]
  exact .next hstarts htoken h

theorem isDigit_of_isNameStart (h : isNameStart n = true) : isDigit n = false ∧ n ≠ 46 := by
  have hall : ∀ m < 58, isDigit m = true ∨ m = 46 → isNameStart m = false := by decide
  have hnot : ¬ (isDigit n = true ∨ n = 46) := by
    intro hnumber
    have hlt : n < 58 := by
      simp only [isDigit, Bool.and_eq_true, decide_eq_true_eq] at hnumber
      omega
    simp [hall n hlt hnumber] at h
  simpa using hnot

/-- A name up to the end of the text. -/
theorem joined_name (w : AnyName) (h : c.rest = w.text.bytes) : c.peek = w.first ∧ Joined c [w.word] := by
  have hparts : ∀ n ∈ w.first :: w.rest, isNamePart n = true ∧ Text.IsCodePoint n ∧ n ≠ 13 := by
    intro n hn
    have hpart : isNamePart n = true := by
      rcases List.mem_cons.mp hn with rfl | hn
      · simp [isNamePart, w.isStart]
      · exact w.areParts n hn
    refine ⟨hpart, isCodePoint_of_isNamePart hpart, ?_⟩
    rintro rfl
    exact absurd hpart (by decide)
  have hrest : c.rest = (w.first :: w.rest).flatMap Text.encodeRune ++ [] := by rw [h, List.append_nil]; rfl
  have hpasses := skip_codes (p := isNamePart) hrest hparts fun _ _ => .inl rfl
  obtain ⟨-, hfirst, hreturn⟩ := hparts w.first List.mem_cons_self
  have hpeek : c.peek = w.first := by
    rw [List.flatMap_cons, List.append_assoc] at hrest
    exact (next_code hrest hfirst hreturn).2.1
  have hne := ne_of_isNameStart w.isStart
  have hstarts : Starts c := by
    unfold Starts
    rw [hpeek]
    simp only [List.mem_cons, List.not_mem_nil, or_false, not_or] at hne ⊢
    tauto
  simp only [List.mem_cons, List.not_mem_nil, or_false, not_or] at hne
  have huntil : c.until (c.skip isNamePart) = w.text := hpasses.until_eq
  have hkeyword : TokenKind.keyword? w.text = none := w.unreserved
  have htoken : token (inLine c) = .ok (⟨.identifier, c.pos, w.text, .none, (c.skip isNamePart).pos⟩,
      inLine (c.skip isNamePart)) := by
    have hcursor : (inLine c).cursor = c := rfl
    simp only [token, hcursor, hpeek, w.isStart, hne, decide_false, Bool.or_self, Bool.false_eq_true, if_false, if_true,
      huntil, hkeyword]
    rfl
  have hend : (c.skip isNamePart).rest = [] := by
    have hbytes := hpasses.rest
    rw [hrest] at hbytes
    exact (List.append_cancel_left hbytes).symm
  exact ⟨hpeek, .next hstarts htoken (.done hend)⟩

/-! ### Numerals before points -/

/-- A numeral is read from its first byte to the point behind it. -/
theorem number_numeral (d : Numeral) (h : c.rest = d.bytes ++ 46 :: rest) : isDigit c.peek = true ∧
    ∃ c', number c = decimal c false c' ∧ c.Passes d.bytes (c'.skip isNumberPart) := by
  have hfirst := digit_ascii d.isDigit
  have hrest : c.rest = d.first :: (d.rest ++ 46 :: rest) := h
  have hpeek : c.peek = d.first.toNat := Cursor.peek_ascii hrest ⟨hfirst.1, hfirst.2.1⟩
  have hstop : ∀ e : Cursor, e.rest = 46 :: rest → 46 :: rest = [] ∨ isNumberPart e.peek = false := by
    intro e he
    rw [Cursor.peek_ascii he (by decide)]
    exact .inr (by decide)
  have hpoint : c.peek ≠ 46 := by
    intro heq
    have hdigit := d.isDigit
    rw [← hpeek, heq] at hdigit
    cases hdigit
  refine ⟨hpeek ▸ d.isDigit, ?_⟩
  by_cases hzero : c.peek = 48
  · have hnext := Cursor.next_ascii hrest ⟨hfirst.1, hfirst.2.1⟩
    have hnext' : c.next.rest = d.rest ++ 46 :: rest := by simpa [hrest] using hnext.rest.symm
    have hpart : isNumberPart c.next.peek = true ∨ c.next.peek = 46 := by
      cases hd : d.rest with
      | nil =>
        rw [hd] at hnext'
        exact .inr (Cursor.peek_ascii hnext' (by decide))
      | cons b bs =>
        rw [hd] at hnext'
        have hb := d.areParts b (by simp [hd])
        rw [Cursor.peek_ascii hnext' (by rcases hb with hb | rfl; exact ⟨(digit_ascii hb).1, (digit_ascii hb).2.1⟩; decide)]
        refine .inl ?_
        rcases hb with hb | rfl
        · simp [isNumberPart, hb]
        · decide
    have hbase : ∀ m ∈ [120, 88, 98, 66], c.next.peek ≠ m := by
      intro m hm heq
      rw [heq] at hpart
      simp only [List.mem_cons, List.not_mem_nil, or_false] at hm
      rcases hm with rfl | rfl | rfl | rfl <;> revert hpart <;> decide
    refine ⟨c.next, ?_, hnext.trans (skip_numberParts hnext' d.areParts hstop)⟩
    unfold number
    rw [if_neg hpoint, if_pos hzero]
    simp only [hbase 120 (by decide), hbase 88 (by decide), hbase 98 (by decide), hbase 66 (by decide), decide_false,
      Bool.or_self, Bool.false_eq_true, if_false]
  · refine ⟨c, ?_, skip_numberParts h (fun b hb => ?_) hstop⟩
    · unfold number
      rw [if_neg hpoint, if_neg hzero]
    · rcases List.mem_cons.mp hb with rfl | hb
      · exact .inl d.isDigit
      · exact d.areParts b hb

/-- The point is left to the next token where another point or the start of a name seems to follow. -/
theorem decimal_int (d : Numeral) {start : Cursor} (he : c.skip isNumberPart = e) (hpasses : start.Passes d.bytes e)
    (hpeek : e.peek = 46) (hstop : e.byteAt 1 = 46 ∨ isNameStart (e.byteAt 1) = true) :
    decimal start false c = .ok (.int, d.word.payload, e) := by
  have hskip : c.skip (fun ch => isDigit ch || decide (ch = 95)) = e := he
  have hpoint : (!false && decide (e.peek = 46) && decide (e.byteAt 1 ≠ 46) && !isNameStart (e.byteAt 1)) = false := by
    rcases hstop with h | h <;> simp [h]
  have hinteger : integer start.pos 10 ⟨d.bytes⟩ = .ok d.word.payload := by
    have hspells : Text.numberIn? 10 (Text.withoutUnderscores d.bytes) = some d.value := d.spells
    have hlt : d.value < twoTo 63 := d.isWord
    simp only [integer, hspells, hlt, if_true]
    rfl
  unfold decimal
  dsimp only
  rw [hskip, hpoint]
  simp only [hpeek, hpasses.until_eq, hinteger, Nat.reduceEqDiff, decide_false, Bool.or_self, Bool.false_and,
    Bool.false_eq_true, if_false]
  rfl

/-- Otherwise the point is read with the digits behind it. -/
theorem decimal_float (d : Numeral) {start g : Cursor} (he : c.skip isNumberPart = e) (hpeek : e.peek = 46)
    (hstop : e.byteAt 1 ≠ 46 ∧ isNameStart (e.byteAt 1) = false) (hg : e.next.skip isNumberPart = g)
    (hpasses : start.Passes (d.bytes ++ 46 :: fs) g) (hexponent : g.peek ≠ 101 ∧ g.peek ≠ 69)
    (hfs : ∀ b ∈ fs, isDigit b.toNat = true) : decimal start false c = .ok (.float, (d.pointed fs).payload, g) := by
  have hskip : c.skip (fun ch => isDigit ch || decide (ch = 95)) = e := he
  have hskip' : e.next.skip (fun ch => isDigit ch || decide (ch = 95)) = g := hg
  have hpoint : (!false && decide (e.peek = 46) && decide (e.byteAt 1 ≠ 46) && !isNameStart (e.byteAt 1)) = true := by
    simp [hpeek, hstop]
  obtain ⟨x, hx⟩ := Option.isSome_iff_exists.mp (d.double?_isSome hfs)
  have hfloat : Text.float? ⟨Text.withoutUnderscores (d.bytes ++ 46 :: fs)⟩ = some x := hx
  have hpayload : (d.pointed fs).payload = .float x := by rw [Numeral.pointed, hx]; rfl
  rw [hpayload]
  unfold decimal
  dsimp only
  rw [hskip, hpoint]
  simp only [if_true, hskip', hexponent, hpasses.until_eq, hfloat, decide_false, Bool.or_self, Bool.false_and,
    Bool.false_eq_true, if_false, Bool.or_false, Bool.or_true]
  rfl

/-- A numeral in front of a point that is not part of it. -/
theorem joined_int (d : Numeral) (h : c.rest = d.bytes ++ 46 :: rest)
    (hstop : ∀ e : Cursor, e.rest = 46 :: rest → e.byteAt 1 = 46 ∨ isNameStart (e.byteAt 1) = true)
    (hjoined : ∀ e : Cursor, e.rest = 46 :: rest → Joined e ws) : Joined c (d.word :: ws) := by
  obtain ⟨hdigit, c', hnumber, hpasses⟩ := number_numeral d h
  have he : (c'.skip isNumberPart).rest = 46 :: rest := List.append_cancel_left (hpasses.rest.symm.trans h)
  have hpeek : (c'.skip isNumberPart).peek = 46 := Cursor.peek_ascii he (by decide)
  rw [decimal_int d rfl hpasses hpeek (hstop _ he)] at hnumber
  exact joined_of_number (.inl hdigit) hnumber hpasses (hjoined _ he)

/-- A numeral with the point and the digits behind it. -/
theorem joined_float (d : Numeral) (h : c.rest = d.bytes ++ 46 :: (fs ++ rest)) (hfs : ∀ b ∈ fs, isDigit b.toNat = true)
    (hstop : ∀ e : Cursor, e.rest = 46 :: (fs ++ rest) → e.byteAt 1 ≠ 46 ∧ isNameStart (e.byteAt 1) = false)
    (hend : ∀ e : Cursor, e.rest = rest → (rest = [] ∨ isNumberPart e.peek = false) ∧ e.peek ≠ 101 ∧ e.peek ≠ 69)
    (hjoined : ∀ e : Cursor, e.rest = rest → Joined e ws) : Joined c (d.pointed fs :: ws) := by
  obtain ⟨hdigit, c', hnumber, hpasses⟩ := number_numeral d h
  have he : (c'.skip isNumberPart).rest = 46 :: (fs ++ rest) := List.append_cancel_left (hpasses.rest.symm.trans h)
  have hpeek : (c'.skip isNumberPart).peek = 46 := Cursor.peek_ascii he (by decide)
  have hpoint : (c'.skip isNumberPart).Passes [46] (c'.skip isNumberPart).next := Cursor.next_ascii he (by decide)
  have hrest : (c'.skip isNumberPart).next.rest = fs ++ rest := by simpa [he] using hpoint.rest.symm
  have hdigits := skip_numberParts hrest (fun b hb => .inl (hfs b hb)) fun e he => (hend e he).1
  have hg : ((c'.skip isNumberPart).next.skip isNumberPart).rest = rest :=
    List.append_cancel_left (hdigits.rest.symm.trans hrest)
  have hall : c.Passes (d.bytes ++ 46 :: fs) ((c'.skip isNumberPart).next.skip isNumberPart) :=
    hpasses.trans (hpoint.trans hdigits)
  rw [decimal_float d rfl hpeek (hstop _ he) rfl hall (hend _ hg).2 hfs] at hnumber
  exact joined_of_number (.inl hdigit) hnumber hall (hjoined _ hg)

end Joined

/-- **A number, points and a name or digits.** Digits and underscores that spell a 64-bit integer, a point and a name are
read as these three words, unless the name begins in the block of characters whose first byte is `0xD7`: then the point
is read as part of a float. With two points the words are always the number, the points and the name; with digits behind
the point there is one float. -/
theorem scan_numeral (d : Numeral) (w : AnyName) (fs : List UInt8) (hfs : ∀ b ∈ fs, isDigit b.toNat = true) :
    ReadsAs (d.text ++ "." ++ w.text) (if w.isMistaken then [d.pointed [], w.word] else [d.word, .symbol .dot, w.word]) ∧
      ReadsAs (d.text ++ ".." ++ w.text) [d.word, .symbol .dotDot, w.word] ∧
      (d.double? fs).isSome = true ∧ ReadsAs (d.text ++ "." ++ ⟨fs⟩) [d.pointed fs] := by
  have hdot : ("." : Text).bytes = [46] ∧ (".." : Text).bytes = [46, 46] := by decide
  have hsymbols : Word.symbol .dot = ⟨.dot, ⟨[46]⟩, .none⟩ ∧ Word.symbol .dotDot = ⟨.dotDot, ⟨[46, 46]⟩, .none⟩ := by decide
  have hbytes : ∀ bs : List UInt8, (d.text ++ "." ++ ⟨bs⟩).bytes = d.bytes ++ 46 :: bs := by
    intro bs
    simp [Text.bytes_append, hdot, Numeral.text]
  obtain ⟨b, bs, hfirst, hpoint, hstart⟩ := isNameStart_first w.isStart
  have hname : w.text.bytes = b :: (bs ++ w.rest.flatMap Text.encodeRune) := by
    simp [AnyName.text, Text.ofCodes, hfirst]
  have hbehind : ∀ e : Cursor, e.rest = 46 :: w.text.bytes → e.byteAt 1 = b.toNat := by
    intro e he
    simp [Cursor.byteAt, he, hname]
  have hjoinedName : ∀ e : Cursor, e.rest = w.text.bytes → Joined e [w.word] := fun e he => (joined_name w he).2
  refine ⟨?_, ?_, d.double?_isSome hfs, ?_⟩
  · by_cases hmistaken : w.isMistaken = true
    · -- the first byte of the name is no letter
      rw [if_pos hmistaken]
      simp only [AnyName.isMistaken, Bool.and_eq_true, decide_eq_true_eq] at hmistaken
      have hnot : isNameStart b.toNat = false := by
        rw [← Bool.not_eq_true, hstart]
        omega
      apply readsAs_of_joined
      have hrest : ({ rest := (d.text ++ "." ++ w.text).bytes } : Cursor).rest = d.bytes ++ 46 :: ([] ++ w.text.bytes) :=
        hbytes w.text.bytes
      refine joined_float d hrest (by simp) (fun e he => ?_) (fun e he => ?_) hjoinedName
      · rw [hbehind e he]
        exact ⟨hpoint, hnot⟩
      · obtain ⟨hpeek, -⟩ := joined_name w he
        have hnumber := isDigit_of_isNameStart w.isStart
        rw [hpeek]
        refine ⟨.inr ?_, by omega, by omega⟩
        simp only [isNumberPart, hnumber.1, Bool.false_or, decide_eq_false_iff_not]
        omega
    · rw [if_neg hmistaken]
      have hletter : isNameStart b.toNat = true := by
        rw [hstart]
        simp only [AnyName.isMistaken, Bool.and_eq_true, decide_eq_true_eq] at hmistaken
        omega
      apply readsAs_of_joined
      refine joined_int d (hbytes w.text.bytes) (fun e he => ?_) fun e he => ?_
      · rw [hbehind e he]
        exact .inr hletter
      · have hpeek : e.peek = 46 := Cursor.peek_ascii he (by decide)
        have hpasses : e.Passes [46] e.next := Cursor.next_ascii he (by decide)
        have hnext : e.next.rest = w.text.bytes := by simpa [he] using hpasses.rest.symm
        obtain ⟨hpeek', hjoined⟩ := joined_name w hnext
        have hother := isDigit_of_isNameStart w.isStart
        have hnumber : number e = .ok (.dot, .none, e.next) := by
          simp only [number, hpeek, hpeek', hother, if_true, Bool.false_eq_true, if_false]
          rfl
        rw [hsymbols.1]
        exact joined_of_number (.inr hpeek) hnumber hpasses hjoined
  · apply readsAs_of_joined
    have htwo : (d.text ++ ".." ++ w.text).bytes = d.bytes ++ 46 :: 46 :: w.text.bytes := by
      simp [Text.bytes_append, hdot, Numeral.text]
    refine joined_int d htwo (fun e he => .inl (by simp [Cursor.byteAt, he])) fun e he => ?_
    have hpeek : e.peek = 46 := Cursor.peek_ascii he (by decide)
    have hpasses : e.Passes [46] e.next := Cursor.next_ascii he (by decide)
    have hnext : e.next.rest = 46 :: w.text.bytes := by simpa [he] using hpasses.rest.symm
    have hpeek' : e.next.peek = 46 := Cursor.peek_ascii hnext (by decide)
    have hpasses' : e.next.Passes [46] e.next.next := Cursor.next_ascii hnext (by decide)
    have hnumber : number e = .ok (.dotDot, .none, e.next.next) := by
      simp only [number, hpeek, hpeek', if_true]
      rfl
    rw [hsymbols.2]
    refine joined_of_number (.inr hpeek) hnumber (hpasses.trans hpasses') (hjoinedName _ ?_)
    simpa [hnext] using hpasses'.rest.symm
  · apply readsAs_of_joined
    have hrest : d.bytes ++ 46 :: fs = d.bytes ++ 46 :: (fs ++ []) := by simp
    refine joined_float d ((hbytes fs).trans hrest) hfs (fun e he => ?_) (fun e he => ?_) fun e he => .done he
    · cases fs with
      | nil => simp [Cursor.byteAt, he]; decide
      | cons f fs =>
        have hf := hfs f List.mem_cons_self
        have hbyte : e.byteAt 1 = f.toNat := by simp [Cursor.byteAt, he]
        rw [hbyte]
        have hother := number_first (.inl hf)
        refine ⟨?_, hother.2.1⟩
        intro heq
        rw [heq] at hf
        cases hf
    · have hpeek : e.peek = 0 := by simp [Cursor.peek, he]
      rw [hpeek]
      exact ⟨.inl rfl, by decide, by decide⟩

/-- The numeral 1. -/
def one : Numeral := ⟨49, [], rfl, nofun, 1, rfl, by decide⟩

/-- The Hebrew letter alef. -/
def alef : AnyName := ⟨0x5D0, [], by decide, nofun, rfl⟩

/-- A name of Hebrew letters behind the numeral, and the fraction of a half. -/
theorem scan_numeral_alef : (∀ b ∈ [(53 : UInt8)], isDigit b.toNat = true) ∧
    ReadsAs (one.text ++ ".." ++ alef.text) [one.word, .symbol .dotDot, alef.word] ∧
    ReadsAs (one.text ++ "." ++ ⟨[53]⟩) [one.pointed [53]] :=
  have h : ∀ b ∈ [(53 : UInt8)], isDigit b.toNat = true := by
    intro b hb
    obtain rfl := List.mem_singleton.mp hb
    rfl
  ⟨h, (scan_numeral one alef [53] h).2.1, (scan_numeral one alef [53] h).2.2.2⟩

/-- Behind a numeral and a point, the Hebrew letter is not read as the name of a member: the point belongs to a float. -/
theorem point_before_alef : ¬ ReadsAs (one.text ++ "." ++ alef.text) [one.word, .symbol .dot, alef.word] := by
  rintro ⟨ts, e, hscan, hwords, -⟩
  have hfloat : ((scan (one.text ++ "." ++ alef.text)).tokens.head?.map Token.kind) = some .float := by decide
  rw [hscan] at hfloat
  cases ts with
  | nil => cases hwords
  | cons t ts =>
    have hkind : t.kind = .int := congrArg Word.kind (List.cons.inj hwords).1
    simp [hkind] at hfloat

end Scan

end GameScript
