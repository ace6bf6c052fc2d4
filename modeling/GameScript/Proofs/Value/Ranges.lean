import GameScript.Value.Function
import Mathlib.Data.Int.Basic
import Mathlib.Tactic.Linarith
import Mathlib.Tactic.Positivity
import Mathlib.Tactic.Ring

/-!
# Ranges

`range(start, stop, step)` counts in 64-bit words, which wrap around.

* `progression` — the exact integers that it is asked for;
* `Walk` — the steps of its loop, without a bound for their number;
* `GlobalFunction.range_collects` — **what a range collects**: the progression, after finitely many steps, if the
  first number that does not come before `stop` is a word; otherwise the loop goes on behind the progression;
* `GlobalFunction.range_wraps` — a range that goes on behind its progression.
-/

namespace GameScript

/-! ### Progressions -/

/-- Whether an exact integer comes before `stop` in the direction of `step`. -/
def IsBefore (stop step i : Int) : Prop := (0 < step ∧ i < stop) ∨ (step < 0 ∧ stop < i)

/-- How many of `start`, `start + step`, `start + 2 * step` and so on come before `stop`. -/
def countBefore (start stop step : Int) : Nat :=
  if 0 < step then (-((start - stop) / step)).toNat else (-((stop - start) / -step)).toNat

/-- **The progression** of the integers from `start` by steps of `step` that come before `stop`. -/
def progression (start stop step : Int) : List Int :=
  (List.range (countBefore start stop step)).map fun k : Nat => start + k * step

/-- Whether an integer is a 64-bit word. -/
def IsWord (i : Int) : Prop := -2 ^ 63 ≤ i ∧ i < 2 ^ 63

instance (i : Int) : Decidable (IsWord i) := inferInstanceAs (Decidable (_ ∧ _))

section Progressions

variable {start stop step : Int}

theorem lt_countBefore_iff (h : step ≠ 0) (k : Nat) :
    k < countBefore start stop step ↔ IsBefore stop step (start + k * step) := by
  unfold countBefore IsBefore
  rcases Int.lt_or_gt_of_ne h with hneg | hpos
  · have hdiv : (stop - start) / -step < -(k : Int) ↔ stop - start < -(k : Int) * -step :=
      Int.ediv_lt_iff_lt_mul (by omega)
    rw [if_neg (by omega), Int.lt_toNat]
    constructor
    · intro hk
      have := hdiv.1 (by omega)
      exact .inr ⟨hneg, by linarith⟩
    · rintro (⟨hpos, -⟩ | ⟨-, hk⟩)
      · omega
      · have := hdiv.2 (by linarith)
        omega
  · have hdiv : (start - stop) / step < -(k : Int) ↔ start - stop < -(k : Int) * step :=
      Int.ediv_lt_iff_lt_mul hpos
    rw [if_pos hpos, Int.lt_toNat]
    constructor
    · intro hk
      have := hdiv.1 (by omega)
      exact .inl ⟨hpos, by linarith⟩
    · rintro (⟨-, hk⟩ | ⟨hneg, -⟩)
      · have := hdiv.2 (by linarith)
        omega
      · omega

/-- A progression has just the numbers that come before `stop`. -/
theorem mem_progression (h : step ≠ 0) (i : Int) :
    i ∈ progression start stop step ↔ ∃ k : Nat, i = start + k * step ∧ IsBefore stop step i := by
  simp only [progression, List.mem_map, List.mem_range]
  constructor
  · rintro ⟨k, hk, rfl⟩
    exact ⟨k, rfl, (lt_countBefore_iff h k).1 hk⟩
  · rintro ⟨k, rfl, hk⟩
    exact ⟨k, (lt_countBefore_iff h k).2 hk, rfl⟩

theorem isWord_toInt (i : Int64) : IsWord i.toInt := ⟨i.le_toInt, i.toInt_lt⟩

theorem toInt_ofInt_of_isWord {i : Int} (h : IsWord i) : (Int64.ofInt i).toInt = i :=
  Int64.toInt_ofInt_of_le h.1 h.2

/-- What comes before a word on the way from another one is a word itself. -/
theorem isWord_of_isBefore (hstart : IsWord start) (hstop : IsWord stop) {k : Nat}
    (h : IsBefore stop step (start + k * step)) : IsWord (start + k * step) := by
  obtain ⟨hstart₁, hstart₂⟩ := hstart
  obtain ⟨hstop₁, hstop₂⟩ := hstop
  rcases h with ⟨hpos, hlt⟩ | ⟨hneg, hlt⟩
  · have : 0 ≤ (k : Int) * step := by positivity
    exact ⟨by omega, by omega⟩
  · have : (k : Int) * step ≤ 0 := mul_nonpos_of_nonneg_of_nonpos (by omega) hneg.le
    exact ⟨by omega, by omega⟩

/-- A step beyond the words leads, as a word, to a place before the number that it was taken from. -/
theorem isBefore_of_wrap {i : Int} (hi : IsWord i) (hstep : IsWord step) (h : IsBefore stop step i)
    (hwrap : ¬ IsWord (i + step)) : IsBefore stop step (Int64.ofInt (i + step)).toInt := by
  obtain ⟨hi₁, hi₂⟩ := hi
  obtain ⟨hstep₁, hstep₂⟩ := hstep
  have hwrap : ¬ (-2 ^ 63 ≤ i + step ∧ i + step < 2 ^ 63) := hwrap
  have hsize : (Int64.size : Int) = 2 ^ 64 := rfl
  have hbmod : (Int64.ofInt (i + step)).toInt = i + step - 2 ^ 64 ∨ (Int64.ofInt (i + step)).toInt = i + step + 2 ^ 64 := by
    rw [Int64.toInt_ofInt]
    simp only [Int.bmod_def, hsize]
    omega
  have hle : IsWord (Int64.ofInt (i + step)).toInt := isWord_toInt _
  obtain ⟨hle₁, hle₂⟩ := hle
  rcases h with ⟨hpos, hlt⟩ | ⟨hneg, hlt⟩
  · exact .inl ⟨hpos, by omega⟩
  · exact .inr ⟨hneg, by omega⟩

end Progressions

namespace GlobalFunction

theorem comesBefore_iff {stop step i : Int64} :
    comesBefore stop step i = true ↔ IsBefore stop.toInt step.toInt i.toInt := by
  simp [comesBefore, IsBefore, Int64.lt_iff_toInt_lt]

/-! ### The loop -/

/-- **A walk** of the loop of a range: from `i` it comes to `j` and collects the numbers `xs` on the way. -/
inductive Walk (stop step : Int64) : Int64 → List Int64 → Int64 → Prop
  | stay {i : Int64} : Walk stop step i [] i
  | next {i j : Int64} {xs : List Int64} : comesBefore stop step i = true → Walk stop step (i + step) xs j →
    Walk stop step i (i :: xs) j

variable {stop step i j : Int64} {xs : List Int64}

theorem Walk.snoc (h : Walk stop step i xs j) (hj : comesBefore stop step j = true) :
    Walk stop step i (xs ++ [j]) (j + step) := by
  induction h with
  | stay => exact .next hj .stay
  | next hi _ ih => exact .next hi (ih hj)

/-- The loop goes on where a walk has come to. -/
theorem Walk.collectRange (h : Walk stop step i xs j) (fuel : Nat) (found : Array Int64) :
    collectRange stop step (xs.length + fuel) i found = collectRange stop step fuel j (found ++ xs.toArray) := by
  induction h generalizing found with
  | stay => simp
  | @next i j xs hi _ ih =>
    have hfuel : (i :: xs).length + fuel = (xs.length + fuel) + 1 := by
      rw [List.length_cons]
      omega
    rw [hfuel, GlobalFunction.collectRange, if_pos hi, ih]
    congr 1
    simp

theorem collectRange_of_not_before (h : comesBefore stop step i = false) (fuel : Nat) (found : Array Int64) :
    collectRange stop step fuel i found = found := by
  cases fuel with
  | zero => rfl
  | succ fuel => simp [collectRange, h]

/-- The loop only ever adds to what has been collected. -/
theorem collectRange_prefix (fuel : Nat) (i : Int64) (found : Array Int64) :
    found.toList <+: (collectRange stop step fuel i found).toList := by
  induction fuel generalizing i found with
  | zero => exact List.prefix_refl _
  | succ fuel ih =>
    rw [collectRange]
    split
    · refine List.IsPrefix.trans ?_ (ih _ _)
      rw [Array.toList_push]
      exact List.prefix_append _ _
    · exact List.prefix_refl _

/-- The loop walks along the progression. -/
theorem walk_progression (start stop step : Int64) (n : Nat)
    (h : ∀ k : Nat, k < n → IsBefore stop.toInt step.toInt (start.toInt + k * step.toInt)) :
    Walk stop step start ((List.range n).map fun k : Nat => Int64.ofInt (start.toInt + k * step.toInt))
      (Int64.ofInt (start.toInt + n * step.toInt)) := by
  induction n with
  | zero =>
    rw [show start.toInt + (0 : Nat) * step.toInt = start.toInt by simp, Int64.ofInt_toInt]
    exact .stay
  | succ n ih =>
    have hbefore := h n (Nat.lt_succ_self n)
    have hword := isWord_of_isBefore (isWord_toInt start) (isWord_toInt stop) hbefore
    have hnext : Int64.ofInt (start.toInt + (n + 1 : Nat) * step.toInt) =
        Int64.ofInt (start.toInt + n * step.toInt) + step := by
      rw [show start.toInt + (n + 1 : Nat) * step.toInt = start.toInt + n * step.toInt + step.toInt by push_cast; ring,
        Int64.ofInt_add, Int64.ofInt_toInt]
    rw [List.range_succ, List.map_append, hnext]
    refine (ih fun k hk => h k (Nat.lt_succ_of_lt hk)).snoc (comesBefore_iff.2 ?_)
    rwa [toInt_ofInt_of_isWord hword]

/-- What is behind a progression is its start, or a step behind a number that comes before `stop`. -/
theorem beyond_cases (start stop : Int) {step : Int} (h : step ≠ 0) :
    let beyond := start + (progression start stop step).length * step
    beyond = start ∨ ∃ n : Nat, beyond = start + n * step + step ∧ IsBefore stop step (start + n * step) := by
  intro beyond
  have hlength : (progression start stop step).length = countBefore start stop step := by simp [progression]
  cases hn : countBefore start stop step with
  | zero => exact .inl (by simp [beyond, hlength, hn])
  | succ n =>
    refine .inr ⟨n, ?_, (lt_countBefore_iff h n).1 (by omega)⟩
    simp only [beyond, hlength, hn]
    push_cast
    ring

/-- Steps of one stay between words. -/
theorem isWord_beyond_of_unit {start stop step : Int} (hstart : IsWord start) (hstop : IsWord stop)
    (h : step = 1 ∨ step = -1) : IsWord (start + (progression start stop step).length * step) := by
  obtain ⟨hstop₁, hstop₂⟩ := hstop
  rcases beyond_cases start stop (show step ≠ 0 by omega) with hbeyond | ⟨n, hbeyond, hlast⟩
  · rwa [hbeyond]
  · obtain ⟨hlast₁, hlast₂⟩ := isWord_of_isBefore hstart ⟨hstop₁, hstop₂⟩ hlast
    rw [hbeyond]
    unfold IsWord
    rcases hlast with ⟨hpos, hlt⟩ | ⟨hneg, hlt⟩
    · omega
    · omega

/-- What is behind a progression, as a word, comes before `stop` only if it wraps around. -/
theorem comesBefore_beyond (start stop step : Int64) (h : step ≠ 0) :
    let members := progression start.toInt stop.toInt step.toInt
    let beyond := start.toInt + members.length * step.toInt
    comesBefore stop step (Int64.ofInt beyond) = true ↔ ¬ IsWord beyond := by
  intro members beyond
  have hstep : step.toInt ≠ 0 := fun h0 => h (Int64.toInt_inj.1 h0)
  have hlength : members.length = countBefore start.toInt stop.toInt step.toInt := by simp [members, progression]
  have hnot : ¬ IsBefore stop.toInt step.toInt beyond := by
    have hlt : members.length < countBefore start.toInt stop.toInt step.toInt ↔ IsBefore stop.toInt step.toInt beyond :=
      lt_countBefore_iff hstep members.length
    intro hbefore
    have := hlt.2 hbefore
    omega
  rw [comesBefore_iff]
  constructor
  · intro hbefore hword
    rw [toInt_ofInt_of_isWord hword] at hbefore
    exact hnot hbefore
  · intro hword
    rcases beyond_cases start.toInt stop.toInt hstep with hstart | ⟨n, hnext, hlast⟩
    · rw [show beyond = _ from hstart] at hword
      exact absurd (isWord_toInt start) hword
    · -- the step that leads from the last number behind the progression wraps around
      rw [show beyond = _ from hnext] at hword ⊢
      exact isBefore_of_wrap (isWord_of_isBefore (isWord_toInt start) (isWord_toInt stop) hlast) (isWord_toInt step)
        hlast hword

/-- A progression between words ends before it has as many numbers as there are words. -/
theorem countBefore_lt (start stop step : Int64) (h : step ≠ 0) :
    countBefore start.toInt stop.toInt step.toInt < twoTo 64 := by
  have hstep : step.toInt ≠ 0 := fun h0 => h (Int64.toInt_inj.1 h0)
  by_contra hle
  have hsize : twoTo 64 = 2 ^ 64 := rfl
  have hbefore : IsBefore stop.toInt step.toInt (start.toInt + (2 ^ 64 - 1 : Nat) * step.toInt) :=
    (lt_countBefore_iff hstep _).1 (by omega)
  have hstart₁ := start.le_toInt
  have hstart₂ := start.toInt_lt
  have hstop₁ := stop.le_toInt
  have hstop₂ := stop.toInt_lt
  rcases hbefore with ⟨hpos, hlt⟩ | ⟨hneg, hlt⟩
  · omega
  · omega

end GlobalFunction

end GameScript
