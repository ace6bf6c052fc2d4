import GameScript.Text.Spelling
import Mathlib

/-!
# Edit distances and nearest names

The distance between two lists of bytes is the least number of edits that turn one into the other. The table of
distances is filled row by row, and given up as soon as a whole row exceeds the bound. The search for the nearest
name lowers the bound to the least distance so far.

* `Edits`, `distance` — so many edits, and the least number of them;
* `Aligned` — the same edits from left to right, to which each number of edits comes down (`Edits.aligned`);
* `distance_cons_cons` — the distance of two lists from those of their tails, and by `distance_reverse` from those
  without their ends;
* `Text.editDistance_bounded`, `Text.editDistance_exact` — **the edit distance is exact up to its bound**;
* `Text.IsNearest` — the least of the nearest candidates, if these are near enough;
* `Text.nearest_least` — **what is found is the nearest name**, in whatever order and how often the candidates come.
-/

namespace GameScript

/-! ### Edits -/

/-- One byte is inserted, deleted or replaced. -/
inductive Edit : List UInt8 → List UInt8 → Prop
  | insert (as bs : List UInt8) (b : UInt8) : Edit (as ++ bs) (as ++ b :: bs)
  | delete (as bs : List UInt8) (a : UInt8) : Edit (as ++ a :: bs) (as ++ bs)
  | replace (as bs : List UInt8) (a b : UInt8) : Edit (as ++ a :: bs) (as ++ b :: bs)

/-- So many edits turn one list into another. -/
inductive Edits : Nat → List UInt8 → List UInt8 → Prop
  | refl (xs : List UInt8) : Edits 0 xs xs
  | step {n : Nat} {xs ys zs : List UInt8} : Edit xs ys → Edits n ys zs → Edits (n + 1) xs zs

/-- The **distance** of two lists: the least number of edits that turn one into the other. -/
noncomputable def distance (xs ys : List UInt8) : Nat := sInf {n | Edits n xs ys}

variable {xs ys zs : List UInt8} {a b : UInt8} {m n : Nat}

theorem Edit.symm (h : Edit xs ys) : Edit ys xs := by
  cases h with
  | insert as bs b => exact .delete as bs b
  | delete as bs a => exact .insert as bs a
  | replace as bs a b => exact .replace as bs b a

theorem Edit.cons (a : UInt8) (h : Edit xs ys) : Edit (a :: xs) (a :: ys) := by
  cases h with
  | insert as bs b => exact .insert (a :: as) bs b
  | delete as bs b => exact .delete (a :: as) bs b
  | replace as bs b c => exact .replace (a :: as) bs b c

theorem Edit.reverse (h : Edit xs ys) : Edit xs.reverse ys.reverse := by
  cases h with
  | insert as bs b => simpa using Edit.insert bs.reverse as.reverse b
  | delete as bs a => simpa using Edit.delete bs.reverse as.reverse a
  | replace as bs a b => simpa using Edit.replace bs.reverse as.reverse a b

theorem Edits.of_edit (h : Edit xs ys) : Edits 1 xs ys := .step h (.refl ys)

theorem Edits.trans (h : Edits m xs ys) (h' : Edits n ys zs) : Edits (m + n) xs zs := by
  induction h with
  | refl xs => simpa using h'
  | @step m xs ys _ he _ ih =>
    have hsum : m + 1 + n = m + n + 1 := by omega
    rw [hsum]
    exact .step he (ih h')

theorem Edits.map {f : List UInt8 → List UInt8} (hf : ∀ {xs ys}, Edit xs ys → Edit (f xs) (f ys))
    (h : Edits n xs ys) : Edits n (f xs) (f ys) := by
  induction h with
  | refl xs => exact .refl _
  | step he _ ih => exact .step (hf he) ih

theorem Edits.symm (h : Edits n xs ys) : Edits n ys xs := by
  induction h with
  | refl xs => exact .refl xs
  | step he _ ih => exact ih.trans (.of_edit he.symm)

theorem Edits.cons (a : UInt8) (h : Edits n xs ys) : Edits n (a :: xs) (a :: ys) := h.map (.cons a)

theorem Edits.reverse (h : Edits n xs ys) : Edits n xs.reverse ys.reverse := h.map .reverse

/-- An edit changes the length by at most one. -/
theorem Edits.length_le (h : Edits n xs ys) : ys.length ≤ xs.length + n := by
  induction h with
  | refl xs => omega
  | step he _ ih =>
    cases he
    all_goals
      simp only [List.length_append, List.length_cons] at ih ⊢
      omega

theorem edits_append (as xs : List UInt8) : Edits as.length xs (as ++ xs) := by
  induction as with
  | nil => exact .refl xs
  | cons a as ih => exact ih.trans (.of_edit (.insert [] (as ++ xs) a))

/-! ### Alignments -/

/-- An **alignment** of two lists goes through them from the front. It keeps a byte or pays one for an insertion,
a deletion or a replacement. -/
inductive Aligned : Nat → List UInt8 → List UInt8 → Prop
  | nil : Aligned 0 [] []
  | insert {n : Nat} {xs ys : List UInt8} (b : UInt8) : Aligned n xs ys → Aligned (n + 1) xs (b :: ys)
  | delete {n : Nat} {xs ys : List UInt8} (a : UInt8) : Aligned n xs ys → Aligned (n + 1) (a :: xs) ys
  | keep {n : Nat} {xs ys : List UInt8} (a : UInt8) : Aligned n xs ys → Aligned n (a :: xs) (a :: ys)
  | replace {n : Nat} {xs ys : List UInt8} (a b : UInt8) : Aligned n xs ys → Aligned (n + 1) (a :: xs) (b :: ys)

theorem Aligned.refl (xs : List UInt8) : Aligned 0 xs xs := by
  induction xs with
  | nil => exact .nil
  | cons a xs ih => exact .keep a ih

/-- An alignment tells which edits to make, the last byte first. -/
theorem Aligned.edits (h : Aligned n xs ys) : Edits n xs ys := by
  induction h with
  | nil => exact .refl []
  | insert b _ ih => exact ih.trans (.of_edit (.insert [] _ b))
  | delete a _ ih => exact .step (.delete [] _ a) ih
  | keep a _ ih => exact ih.cons a
  | replace a b _ ih => exact (ih.cons a).trans (.of_edit (.replace [] _ a b))

/-- Without its first byte the left list needs at most one insertion more. -/
theorem Aligned.tail (h : Aligned n (b :: xs) zs) : ∃ k ≤ n + 1, Aligned k xs zs := by
  generalize hcons : b :: xs = us at h
  induction h with
  | nil => cases hcons
  | insert c _ ih =>
    obtain ⟨k, hk, h⟩ := ih hcons
    exact ⟨k + 1, by omega, .insert c h⟩
  | delete a h =>
    cases hcons
    exact ⟨_, by omega, h⟩
  | keep a h =>
    cases hcons
    exact ⟨_, by omega, .insert b h⟩
  | replace a c h =>
    cases hcons
    exact ⟨_, by omega, .insert c h⟩

/-- With another first byte the left list needs at most one replacement more. -/
theorem Aligned.head (a : UInt8) (h : Aligned n (b :: xs) zs) : ∃ k ≤ n + 1, Aligned k (a :: xs) zs := by
  generalize hcons : b :: xs = us at h
  induction h with
  | nil => cases hcons
  | insert c _ ih =>
    obtain ⟨k, hk, h⟩ := ih hcons
    exact ⟨k + 1, by omega, .insert c h⟩
  | delete _ h =>
    cases hcons
    exact ⟨_, by omega, .delete a h⟩
  | keep _ h =>
    cases hcons
    exact ⟨_, by omega, .replace a b h⟩
  | replace _ c h =>
    cases hcons
    exact ⟨_, by omega, .replace a c h⟩

/-- What a change of the left list costs, it costs after a common first byte. -/
theorem Aligned.change_cons (c : UInt8) (hchange : ∀ {n zs}, Aligned n ys zs → ∃ k ≤ n + 1, Aligned k xs zs)
    (h : Aligned n (c :: ys) zs) : ∃ k ≤ n + 1, Aligned k (c :: xs) zs := by
  generalize hcons : c :: ys = us at h
  induction h with
  | nil => cases hcons
  | insert d _ ih =>
    obtain ⟨k, hk, h⟩ := ih hcons
    exact ⟨k + 1, by omega, .insert d h⟩
  | delete _ h =>
    cases hcons
    obtain ⟨k, hk, h⟩ := hchange h
    exact ⟨k + 1, by omega, .delete c h⟩
  | keep _ h =>
    cases hcons
    obtain ⟨k, hk, h⟩ := hchange h
    exact ⟨k, hk, .keep c h⟩
  | replace _ d h =>
    cases hcons
    obtain ⟨k, hk, h⟩ := hchange h
    exact ⟨k + 1, by omega, .replace c d h⟩

theorem Aligned.change_append (as : List UInt8) (hchange : ∀ {n zs}, Aligned n ys zs → ∃ k ≤ n + 1, Aligned k xs zs)
    (h : Aligned n (as ++ ys) zs) : ∃ k ≤ n + 1, Aligned k (as ++ xs) zs := by
  induction as generalizing n zs with
  | nil => exact hchange h
  | cons c as ih => exact Aligned.change_cons c (fun h => ih h) h

/-- One more edit before it costs an alignment at most one more. -/
theorem Aligned.after (he : Edit xs ys) (h : Aligned n ys zs) : ∃ k ≤ n + 1, Aligned k xs zs := by
  cases he with
  | insert as bs b => exact Aligned.change_append as Aligned.tail h
  | delete as bs a => exact Aligned.change_append as (fun h => ⟨_, le_rfl, .delete a h⟩) h
  | replace as bs a b => exact Aligned.change_append as (Aligned.head a) h

theorem Edits.aligned (h : Edits n xs ys) : ∃ k ≤ n, Aligned k xs ys := by
  induction h with
  | refl xs => exact ⟨0, le_rfl, .refl xs⟩
  | step he _ ih =>
    obtain ⟨k, hk, halign⟩ := ih
    obtain ⟨j, hj, halign'⟩ := halign.after he
    exact ⟨j, by omega, halign'⟩

/-! ### Distances -/

theorem distance_le (h : Edits n xs ys) : distance xs ys ≤ n := Nat.sInf_le h

theorem edits_distance (xs ys : List UInt8) : Edits (distance xs ys) xs ys := by
  have hclear : Edits xs.length xs [] := by simpa using (edits_append xs []).symm
  have hfill : Edits ys.length [] ys := by simpa using edits_append ys []
  exact Nat.sInf_mem (s := {n | Edits n xs ys}) ⟨_, hclear.trans hfill⟩

theorem aligned_distance (xs ys : List UInt8) : Aligned (distance xs ys) xs ys := by
  obtain ⟨k, hk, h⟩ := (edits_distance xs ys).aligned
  have hle := distance_le h.edits
  have heq : distance xs ys = k := by omega
  exact heq ▸ h

theorem distance_comm (xs ys : List UInt8) : distance xs ys = distance ys xs :=
  le_antisymm (distance_le (edits_distance ys xs).symm) (distance_le (edits_distance xs ys).symm)

theorem distance_reverse (xs ys : List UInt8) : distance xs.reverse ys.reverse = distance xs ys := by
  apply le_antisymm
  · exact distance_le (edits_distance xs ys).reverse
  · simpa using distance_le (edits_distance xs.reverse ys.reverse).reverse

@[simp] theorem distance_nil_left (ys : List UInt8) : distance [] ys = ys.length := by
  apply le_antisymm
  · exact distance_le (by simpa using edits_append ys [])
  · simpa using (edits_distance [] ys).length_le

@[simp] theorem distance_nil_right (xs : List UInt8) : distance xs [] = xs.length := by
  rw [distance_comm, distance_nil_left]

theorem distance_eq_zero_iff : distance xs ys = 0 ↔ xs = ys := by
  constructor
  · intro h
    have hedits := edits_distance xs ys
    rw [h] at hedits
    cases hedits
    rfl
  · rintro rfl
    exact Nat.le_zero.mp (distance_le (.refl xs))

/-- The first byte is kept or replaced, or one of the two is inserted or deleted. -/
theorem distance_cons_cons (a b : UInt8) (xs ys : List UInt8) : distance (a :: xs) (b :: ys) =
    min (distance xs ys + if a = b then 0 else 1)
      (min (1 + distance (a :: xs) ys) (1 + distance xs (b :: ys))) := by
  apply le_antisymm
  · have hboth : distance (a :: xs) (b :: ys) ≤ distance xs ys + if a = b then 0 else 1 := by
      by_cases hab : a = b
      · subst hab
        simpa using distance_le ((edits_distance xs ys).cons a)
      · rw [if_neg hab]
        exact distance_le (((edits_distance xs ys).cons a).trans (.of_edit (.replace [] ys a b)))
    have hinsert : distance (a :: xs) (b :: ys) ≤ distance (a :: xs) ys + 1 :=
      distance_le ((edits_distance (a :: xs) ys).trans (.of_edit (.insert [] ys b)))
    have hdelete : distance (a :: xs) (b :: ys) ≤ distance xs (b :: ys) + 1 :=
      distance_le (.step (.delete [] xs a) (edits_distance xs (b :: ys)))
    omega
  · have halign := aligned_distance (a :: xs) (b :: ys)
    generalize distance (a :: xs) (b :: ys) = d at halign
    cases halign with
    | insert _ h =>
      have := distance_le h.edits
      omega
    | delete _ h =>
      have := distance_le h.edits
      omega
    | keep _ h =>
      have := distance_le h.edits
      simp only [if_true]
      omega
    | replace _ _ h =>
      have := distance_le h.edits
      split <;> omega

theorem distance_tail_le (a : UInt8) (xs ys : List UInt8) : distance xs ys ≤ distance (a :: xs) ys + 1 := by
  have h : Edits (distance (a :: xs) ys + 1) xs ys := .step (.insert [] xs a) (edits_distance (a :: xs) ys)
  exact distance_le h

/-- A common first byte does not matter. -/
theorem distance_cons_self (a : UInt8) (xs ys : List UInt8) : distance (a :: xs) (a :: ys) = distance xs ys := by
  have hleft := distance_tail_le a xs ys
  have hright : distance xs ys ≤ distance xs (a :: ys) + 1 := by
    rw [distance_comm xs ys, distance_comm xs (a :: ys)]
    exact distance_tail_le a ys xs
  rw [distance_cons_cons, if_pos rfl]
  omega

/-- Whatever follows in the left list, some part of the right list is as near to what comes before. -/
theorem exists_distance_le (us xs ys : List UInt8) : ∃ vs, vs <:+ ys ∧ distance xs vs ≤ distance (us ++ xs) ys := by
  induction us generalizing ys with
  | nil => exact ⟨ys, List.suffix_rfl, le_rfl⟩
  | cons a us ih =>
    induction ys with
    | nil =>
      refine ⟨[], List.suffix_rfl, ?_⟩
      simp
      omega
    | cons b ys ih' =>
      obtain ⟨v, hv, hle⟩ := ih ys
      obtain ⟨v', hv', hle'⟩ := ih (b :: ys)
      obtain ⟨v'', hv'', hle''⟩ := ih'
      have hrec := distance_cons_cons a b (us ++ xs) ys
      simp only [List.cons_append] at hle'' ⊢
      by_cases hboth : distance (us ++ xs) ys ≤ distance (a :: (us ++ xs)) (b :: ys)
      · exact ⟨v, hv.trans (List.suffix_cons b ys), hle.trans hboth⟩
      · by_cases hinsert : distance (a :: (us ++ xs)) ys ≤ distance (a :: (us ++ xs)) (b :: ys)
        · exact ⟨v'', hv''.trans (List.suffix_cons b ys), hle''.trans hinsert⟩
        · exact ⟨v', hv', by omega⟩

end GameScript

namespace GameScript.Text

/-! ### The table of distances -/

variable {u v xs ys : List UInt8} {a b : UInt8}

/-- The distances from `u` to the lists that grow out of `v` byte by byte at the front. -/
noncomputable def cells (u v : List UInt8) : List UInt8 → List Nat
  | [] => []
  | c :: cs => distance u (c :: v) :: cells u (c :: v) cs

/-- A row of the table: the distances from `u` to the reversed prefixes of `ys`. -/
noncomputable def rowOf (u ys : List UInt8) : List Nat := distance u [] :: cells u [] ys

theorem nextEntries_cells (b : UInt8) (u v ys : List UInt8) :
    nextEntries b (distance u v) (distance (b :: u) v) ys (cells u v ys) = cells (b :: u) v ys := by
  induction ys generalizing v with
  | nil => rfl
  | cons c ys ih =>
    simp only [cells, nextEntries]
    rw [← distance_cons_cons, ih]

theorem nextRow_rowOf (b : UInt8) (u ys : List UInt8) :
    nextRow b (u.length + 1) ys (rowOf u ys) = rowOf (b :: u) ys := by
  have hentries := nextEntries_cells b u [] ys
  rw [distance_nil_right (b :: u)] at hentries
  simp only [rowOf, distance_nil_right (b :: u), List.length_cons]
  rw [← hentries]
  rfl

theorem cells_nil (v ys : List UInt8) : cells [] v ys = List.range' (v.length + 1) ys.length := by
  induction ys generalizing v with
  | nil => rfl
  | cons c ys ih => simp [cells, ih, List.range'_succ]

theorem rowOf_nil (ys : List UInt8) : rowOf [] ys = List.range (ys.length + 1) := by
  simp [rowOf, cells_nil, List.range_eq_range', List.range'_succ]

theorem getLastD_cells (u v ys : List UInt8) (n : Nat) :
    (distance u v :: cells u v ys).getLastD n = distance u (ys.reverse ++ v) := by
  induction ys generalizing v with
  | nil => rfl
  | cons c ys ih => simpa [cells] using ih (c :: v)

theorem getLastD_rowOf (u ys : List UInt8) : (rowOf u ys).getLastD 0 = distance u ys.reverse := by
  simpa [rowOf] using getLastD_cells u [] ys 0

theorem mem_cells {v w ys : List UInt8} (u : List UInt8) (hw : w <:+ ys.reverse ++ v) (hv : v.length < w.length) :
    distance u w ∈ cells u v ys := by
  induction ys generalizing v with
  | nil =>
    have := hw.length_le
    simp at this
    omega
  | cons c ys ih =>
    have hw' : w <:+ ys.reverse ++ (c :: v) := by simpa using hw
    by_cases hlen : v.length + 1 < w.length
    · exact List.mem_cons_of_mem _ (ih hw' (by simpa using hlen))
    · have heq : w = c :: v := by
        have hsuffix : c :: v <:+ ys.reverse ++ (c :: v) := List.suffix_append _ _
        exact (List.suffix_of_suffix_length_le hw' hsuffix (by simp; omega)).eq_of_length (by simp; omega)
      simp [cells, heq]

/-- The row has the distances to all prefixes. -/
theorem mem_rowOf {w ys : List UInt8} (u : List UInt8) (hw : w <:+ ys.reverse) : distance u w ∈ rowOf u ys := by
  by_cases hlen : 0 < w.length
  · exact List.mem_cons_of_mem _ (mem_cells u (by simpa using hw) hlen)
  · have hnil : w = [] := List.length_eq_zero_iff.mp (by omega)
    simp [rowOf, hnil]

theorem leastOf_le (first : Nat) (row : List Nat) : ∀ n ∈ first :: row, leastOf first row ≤ n := by
  unfold leastOf
  induction row generalizing first with
  | nil => simp
  | cons m row ih =>
    have hrest := ih (min first m)
    intro n hn
    have hhead := hrest (min first m) (by simp)
    simp only [List.mem_cons] at hn
    rcases hn with rfl | rfl | hn
    · exact hhead.trans (by omega)
    · exact hhead.trans (by omega)
    · exact hrest n (by simp [hn])

/-- A row exceeds a bound throughout only if all that follows does. -/
theorem leastOf_le_distance (first : Nat) (us u ys : List UInt8) :
    leastOf first (rowOf u ys) ≤ distance (us ++ u) ys.reverse := by
  obtain ⟨w, hw, hle⟩ := exists_distance_le us u ys.reverse
  have hmem : distance u w ∈ first :: rowOf u ys := List.mem_cons_of_mem _ (mem_rowOf u hw)
  exact (leastOf_le _ _ _ hmem).trans hle

/-- What the bounded computation gives for a distance: it, or some other number if both exceed the bound. -/
def Bounded (bound d result : Nat) : Prop := result = d ∨ bound < result ∧ bound < d

theorem distanceFrom_bounded (bound : Nat) (ys bs u : List UInt8) :
    Bounded bound (distance (bs.reverse ++ u) ys.reverse) (distanceFrom bound ys u.length bs (rowOf u ys)) := by
  induction bs generalizing u with
  | nil =>
    left
    rw [distanceFrom, getLastD_rowOf]
    rfl
  | cons b bs ih =>
    simp only [distanceFrom]
    rw [nextRow_rowOf]
    split
    · rename_i hexceeded
      right
      have hle := leastOf_le_distance (u.length + 1) bs.reverse (b :: u) ys
      refine ⟨hexceeded, ?_⟩
      simp only [List.reverse_cons, List.append_assoc, List.singleton_append]
      omega
    · simpa using ih (b :: u)

theorem distance_dropCommon (xs ys : List UInt8) :
    distance (dropCommon xs ys).1 (dropCommon xs ys).2 = distance xs ys := by
  induction xs generalizing ys with
  | nil => cases ys <;> rfl
  | cons a xs ih =>
    cases ys with
    | nil => rfl
    | cons b ys =>
      rw [dropCommon]
      split
      · rename_i hab
        subst hab
        rw [ih, distance_cons_self]
      · rfl

/-- **The edit distance is exact up to its bound.** -/
theorem editDistance_bounded (bound : Nat) (s t : Text) :
    Bounded bound (distance s.bytes t.bytes) (editDistance bound s t) := by
  have hordered : ∀ x y : List UInt8, Bounded bound (distance x y)
      (let p := dropCommon x y
       if p.1.isEmpty then p.2.length else distanceFrom bound p.2 0 p.1 (List.range (p.2.length + 1))) := by
    intro x y
    rw [← distance_dropCommon x y]
    dsimp only
    split
    · rename_i hempty
      left
      rw [List.isEmpty_iff.mp hempty, distance_nil_left]
    · have h := distanceFrom_bounded bound (dropCommon x y).2 (dropCommon x y).1 []
      rwa [rowOf_nil, List.append_nil, distance_reverse] at h
  unfold editDistance
  split
  rename_i x y hxy
  have hdistance : distance s.bytes t.bytes = distance x y := by
    split at hxy
    · cases hxy
      exact distance_comm _ _
    · cases hxy
      rfl
  rw [hdistance]
  exact hordered x y

/-- **What the bounded computation gives**: the least number of edits if that is within the bound, and more than the
bound if it is not. -/
theorem editDistance_exact (bound : Nat) (s t : Text) :
    IsLeast {n | Edits n s.bytes t.bytes} (distance s.bytes t.bytes) ∧
    if distance s.bytes t.bytes ≤ bound then editDistance bound s t = distance s.bytes t.bytes
    else bound < editDistance bound s t := by
  refine ⟨⟨edits_distance s.bytes t.bytes, fun n hn => distance_le hn⟩, ?_⟩
  have hbounded := editDistance_bounded bound s t
  split
  · rename_i hwithin
    rcases hbounded with hexact | ⟨-, hbeyond⟩
    · exact hexact
    · omega
  · rename_i hbeyond
    rcases hbounded with hexact | ⟨hmore, -⟩
    · omega
    · exact hmore

/-! ### The nearest candidate -/

variable {name c d best : Text} {cs ds : List Text} {bound : Nat}

/-- How far a candidate is from a name, case and underscores aside. -/
noncomputable def gap (name c : Text) : Nat := distance (folded name).bytes (folded c).bytes

/-- From this distance on a candidate is too far from a name. -/
def reach (name : Text) : Nat := ((folded name).size + 1) / 2

/-- A candidate is **near enough** if it differs in case and underscores only, or if less than about half of the
bytes have to be edited. -/
def IsNear (name c : Text) : Prop := gap name c = 0 ∨ gap name c < reach name

/-- The **nearest** of some candidates: no other one that is not empty is nearer, or as near and less. -/
structure IsNearest (name : Text) (cs : List Text) (c : Text) : Prop where
  mem : c ∈ cs
  nonempty : c ≠ ""
  near : IsNear name c
  least : ∀ d ∈ cs, d ≠ "" → gap name c ≤ gap name d
  first : ∀ d ∈ cs, d ≠ "" → gap name d = gap name c → c.le d = true

theorem gap_eq_zero_iff : gap name c = 0 ↔ folded c = folded name := by
  unfold gap
  rw [distance_eq_zero_iff]
  cases folded name
  cases folded c
  simp [eq_comm]

/-- The empty text is too far from every name, unless the name is made of underscores. -/
theorem reach_le_gap_empty (name : Text) : reach name ≤ gap name "" := by
  have hempty : (folded "").bytes = [] := by decide
  unfold reach gap size
  rw [hempty, distance_nil_right]
  omega

theorem IsNearest.unique (h : IsNearest name cs c) (h' : IsNearest name ds d) (hsame : ∀ t, t ∈ cs ↔ t ∈ ds) :
    c = d := by
  have hd := (hsame d).mpr h'.mem
  have hc := (hsame c).mp h.mem
  have hgap : gap name c = gap name d :=
    Nat.le_antisymm (h.least d hd h'.nonempty) (h'.least c hc h.nonempty)
  exact le_antisymm (h.first d hd h'.nonempty hgap.symm) (h'.first c hc h.nonempty hgap)

/-- How the search ends: with the best candidate so far, if no other one is nearer than the bound, or with one that
is nearest among those that are left. -/
inductive Outcome (name best : Text) (bound : Nat) (cs : List Text) (c : Text) : Prop
  | none (hbest : c = best) (hfar : ∀ d ∈ cs, d ≠ "" → gap name d ≠ 0 ∧ bound ≤ gap name d)
  | some (hmem : c ∈ cs) (hnonempty : c ≠ "") (hnear : gap name c = 0 ∨ gap name c < bound)
    (hleast : ∀ d ∈ cs, d ≠ "" → gap name c ≤ gap name d)
    (hfirst : ∀ d ∈ cs, d ≠ "" → gap name d = gap name c → c.le d = true)

/-- A candidate that is no nearer than the bound changes nothing about how the search ends. -/
theorem Outcome.skip (h : Outcome name best bound cs d) (hzero : c ≠ "" → gap name c ≠ 0)
    (hfar : c ≠ "" → bound ≤ gap name c) : Outcome name best bound (c :: cs) d := by
  cases h with
  | none hbest hrest =>
    refine .none hbest fun e he hnonempty => ?_
    rcases List.mem_cons.mp he with rfl | he
    · exact ⟨hzero hnonempty, hfar hnonempty⟩
    · exact hrest e he hnonempty
  | some hmem hd hnear hleast hfirst =>
    refine .some (List.mem_cons_of_mem _ hmem) hd hnear (fun e he hnonempty => ?_) fun e he hnonempty hgap => ?_
    · rcases List.mem_cons.mp he with rfl | he
      · have := hfar hnonempty
        omega
      · exact hleast e he hnonempty
    · rcases List.mem_cons.mp he with rfl | he
      · have := hfar hnonempty
        have := hzero hnonempty
        omega
      · exact hfirst e he hnonempty hgap

/-- A candidate below the bound is the one that is found, unless a nearer one follows. -/
theorem Outcome.take (h : Outcome name c (gap name c) cs d) (hhead : ∀ e ∈ cs, c.le e = true) (hnonempty : c ≠ "")
    (hzero : gap name c ≠ 0) (hnear : gap name c < bound) : Outcome name best bound (c :: cs) d := by
  cases h with
  | none hbest hrest =>
    subst hbest
    refine .some (by simp) hnonempty (.inr hnear) (fun e he hnonempty => ?_) fun e he _ _ => ?_
    · rcases List.mem_cons.mp he with rfl | he
      · exact le_rfl
      · exact (hrest e he hnonempty).2
    · rcases List.mem_cons.mp he with rfl | he
      · exact le_refl _
      · exact hhead e he
  | some hmem hd hnearer hleast hfirst =>
    refine .some (List.mem_cons_of_mem _ hmem) hd (by omega) (fun e he hnonempty => ?_) fun e he hnonempty hgap => ?_
    · rcases List.mem_cons.mp he with rfl | he
      · omega
      · exact hleast e he hnonempty
    · rcases List.mem_cons.mp he with rfl | he
      · omega
      · exact hfirst e he hnonempty hgap

theorem nearestFrom_outcome (hsorted : cs.Pairwise fun s t => s.le t = true) (hbound : bound ≤ reach name) :
    Outcome name best bound cs (nearestFrom (folded name) best bound cs) := by
  induction cs generalizing best bound with
  | nil => exact .none rfl (by simp)
  | cons c cs ih =>
    obtain ⟨hhead, hrest⟩ := List.pairwise_cons.mp hsorted
    simp only [nearestFrom]
    split
    · -- nothing is nearer than a candidate at no distance, and those that follow are not less
      rename_i hsame
      simp only [Bool.and_eq_true, decide_eq_true_eq, Bool.not_eq_true', isEmpty_eq_false_iff] at hsame
      have hzero := gap_eq_zero_iff.mpr hsame.1
      refine .some (by simp) hsame.2 (.inl hzero) (fun d _ _ => by omega) fun d hd _ _ => ?_
      rcases List.mem_cons.mp hd with rfl | hd
      · exact le_refl d
      · exact hhead d hd
    · rename_i hother
      have hzero : c ≠ "" → gap name c ≠ 0 := by
        intro hnonempty hgap
        simp [gap_eq_zero_iff.mp hgap, isEmpty_eq_false_iff.mpr hnonempty] at hother
      have hexact : Bounded bound (gap name c) (editDistance bound (folded name) (folded c)) :=
        editDistance_bounded bound (folded name) (folded c)
      split
      · rename_i hnearer
        have hgap : editDistance bound (folded name) (folded c) = gap name c := by
          rcases hexact with hexact | hexact
          · exact hexact
          · omega
        rw [hgap] at hnearer ⊢
        have hnonempty : c ≠ "" := by
          rintro rfl
          have := reach_le_gap_empty name
          omega
        exact (ih hrest (by omega)).take hhead hnonempty (hzero hnonempty) hnearer
      · rename_i hfarther
        refine (ih hrest hbound).skip hzero fun _ => ?_
        rcases hexact with hexact | hexact <;> omega

theorem nearest_cases (name : Text) (cs : List Text) :
    nearest name cs = "" ∧ (∀ c ∈ cs, c ≠ "" → ¬ IsNear name c) ∨ IsNearest name cs (nearest name cs) := by
  have houtcome : Outcome name "" (reach name) (sort cs) (nearest name cs) :=
    nearestFrom_outcome (pairwise_sort cs) le_rfl
  cases houtcome with
  | none hbest hfar =>
    refine .inl ⟨hbest, fun c hc hnonempty hnear => ?_⟩
    obtain ⟨hzero, hle⟩ := hfar c (mem_sort.mpr hc) hnonempty
    rcases hnear with hnear | hnear <;> omega
  | some hmem hnonempty hnear hleast hfirst =>
    exact .inr ⟨mem_sort.mp hmem, hnonempty, hnear, fun d hd => hleast d (mem_sort.mpr hd),
      fun d hd => hfirst d (mem_sort.mpr hd)⟩

/-- **What is found is the nearest name.** It is the least of the nearest candidates that are not empty, and nothing
is found just when no such candidate is near enough. So neither the order of the candidates counts nor how often
they come. -/
theorem nearest_least (name : Text) (cs : List Text) :
    (∀ c : Text, c ≠ "" → (nearest name cs = c ↔ IsNearest name cs c)) ∧
    (nearest name cs = "" ↔ ∀ c ∈ cs, c ≠ "" → ¬ IsNear name c) ∧
    ∀ ds, (∀ c, c ∈ ds ↔ c ∈ cs) → nearest name ds = nearest name cs := by
  refine ⟨fun c hc => ⟨?_, fun h => ?_⟩, ⟨fun hnone => ?_, fun hfar => ?_⟩, fun ds hsame => ?_⟩
  · rintro rfl
    rcases nearest_cases name cs with ⟨hnone, -⟩ | h
    · exact absurd hnone hc
    · exact h
  · rcases nearest_cases name cs with ⟨-, hfar⟩ | h'
    · exact absurd h.near (hfar c h.mem hc)
    · exact h'.unique h fun _ => Iff.rfl
  · rcases nearest_cases name cs with ⟨-, hfar⟩ | h
    · exact hfar
    · exact absurd hnone h.nonempty
  · rcases nearest_cases name cs with ⟨hnone, -⟩ | h
    · exact hnone
    · exact absurd h.near (hfar _ h.mem h.nonempty)
  · rcases nearest_cases name cs with ⟨hnone, hfar⟩ | h
    · rcases nearest_cases name ds with ⟨hnone', -⟩ | h'
      · rw [hnone, hnone']
      · exact absurd h'.near (hfar _ ((hsame _).mp h'.mem) h'.nonempty)
    · rcases nearest_cases name ds with ⟨-, hfar⟩ | h'
      · exact absurd h.near (hfar _ ((hsame _).mpr h.mem) h.nonempty)
      · exact h'.unique h hsame

/-- Of two names at one distance the lesser one is found, also where it comes later and twice. -/
theorem nearest_least_helth :
    IsNearest "helth" ["wealth", "Health", "heal_th", "Health"] "Health" ∧
    nearest "helth" ["Health", "heal_th", "wealth"] = nearest "helth" ["wealth", "Health", "heal_th", "Health"] := by
  have h := nearest_least "helth" ["wealth", "Health", "heal_th", "Health"]
  exact ⟨(h.1 "Health" (by decide)).mp (by cbv), h.2.2 _ (by intro c; simp; tauto)⟩

/-- The empty text is passed over, though it differs from a name of underscores in nothing that counts and is less
than the other candidate. -/
theorem nearest_skips_empty :
    nearest "_" ["", "__"] = "__" ∧ gap "_" "" = 0 ∧ ("" : Text).le "__" = true := by
  exact ⟨by cbv, gap_eq_zero_iff.mpr (by decide), by decide⟩

end GameScript.Text
