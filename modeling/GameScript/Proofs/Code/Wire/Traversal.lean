import Mathlib.Data.Fintype.Pigeonhole
import Mathlib.Data.List.Perm.Basic
import GameScript.Proofs.Code.Wire.Intake

/-!
# Writing programs again

A program is written script by script, beginning with that of the file, each before the scripts inside of it.
For a program that has been read this order may have no end, since nothing keeps a script from being inside of
itself.

* `Program.order?` — the order, `Program.written?` — the bytes, if there are any;
* `Program.Descends` — a script is so many levels inside of another one; `Program.order?_eq_none_iff`;
* `Program.IsTree` — every script is reached in just one way; `Program.exists_order` — the order has every script
  once;
* `Program.written_again` — **when a program that has been read can be written, and what is read again**;
* `Program.damaged_programs_decoded` — programs that are read and cannot be written.
-/

namespace GameScript

/-! ### The order of the scripts -/

/-- The last place of a script in an order. -/
def place? : List Nat → Nat → Option Nat
  | [], _ => none
  | j :: js, i =>
    match place? js i with
    | some k => some (k + 1)
    | none => if i = j then some 0 else none

/-- A script whose references are places in an order. -/
def Script.listed (order : List Nat) (s : Script) : Script :=
  { s with
    base := match s.base with
      | some (.own i) => (place? order i).map .own
      | base => base
    outer := s.outer.bind (place? order)
    subclasses := s.subclasses.map fun i => (place? order i).getD 0 }

def Function.listed (order : List Nat) (f : Function) : Function :=
  { f with script := f.script.bind (place? order) }

/-- Whether the constants of the script have their values. -/
def Script.hasValues (s : Script) : Bool := s.constants.all (·.value.isSome)

namespace Program

/-- The scripts directly inside of a script. -/
def inner (p : Program) (i : Nat) : List Nat := ((p.scripts.map Script.subclasses)[i]?).getD []

/-- A script and those inside of it, each before the ones inside of it; none if `fuel` levels are not enough. -/
def below? (p : Program) : Nat → Nat → Option (List Nat)
  | 0, _ => none
  | fuel + 1, i => do
    let lists ← (p.inner i).mapM (p.below? fuel)
    return i :: lists.flatten

/-- The scripts in the order in which they are written. -/
def order? (p : Program) : Option (List Nat) :=
  if p.scripts.length = 0 then some [] else p.below? p.scripts.length 0

/-- The program with the scripts of an order; scripts refer to each other by their places in it. -/
def listed (p : Program) (order : List Nat) : Program :=
  { p with
    functions := p.functions.map (Function.listed order)
    scripts := order.map fun i => ((p.scripts[i]?).getD {}).listed order }

/-- The bytes that a program is written as. There are none if the order of its scripts has no end, or if a constant
lacks its value. -/
def written? (p : Program) : Option (List UInt8) := do
  let order ← p.order?
  if (p.listed order).scripts.all Script.hasValues then some (p.listed order).encode else none

/-! ### Levels -/

/-- The script `j` is `k` levels inside of `i`. -/
inductive Descends (p : Program) (i : Nat) : Nat → Nat → Prop where
  | refl : Descends p i 0 i
  | step {k j l : Nat} : Descends p i k j → l ∈ p.inner j → Descends p i (k + 1) l

variable {p : Program} {i j c c' x k l m fuel : Nat} {order : List Nat}

theorem Descends.trans (h : p.Descends i k j) (h' : p.Descends j l x) : p.Descends i (k + l) x := by
  induction h' with
  | refl => exact h
  | step _ hx ih => exact ih.step hx

theorem descends_inner (h : j ∈ p.inner i) : p.Descends i 1 j := Descends.refl.step h

/-- Going down from a script inside of another one is going down from that one. -/
theorem Descends.cons (h : c ∈ p.inner i) (h' : p.Descends c k x) : p.Descends i (k + 1) x := by
  rw [Nat.add_comm]
  exact (descends_inner h).trans h'

/-- The scripts on a way down. -/
theorem Descends.chain (h : p.Descends i k x) :
    ∃ a : Nat → Nat, a 0 = i ∧ a k = x ∧ ∀ n < k, a (n + 1) ∈ p.inner (a n) := by
  induction h with
  | refl => exact ⟨fun _ => i, rfl, rfl, by simp⟩
  | @step k j x _ hx ih =>
    obtain ⟨a, h₀, hk, ha⟩ := ih
    refine ⟨fun n => if n ≤ k then a n else x, by simp [h₀], by simp, fun n hn => ?_⟩
    by_cases hlast : n = k
    · subst hlast
      simpa [hk] using hx
    · have hle : n + 1 ≤ k := by omega
      simpa [hle, show n ≤ k by omega] using ha n (by omega)

theorem descends_of_chain {a : Nat → Nat} (ha : ∀ n < k, a (n + 1) ∈ p.inner (a n)) (hij : i + j ≤ k) :
    p.Descends (a i) j (a (i + j)) := by
  induction j with
  | zero => exact .refl
  | succ j ih => exact (ih (by omega)).step (ha (i + j) (by omega))

theorem mapM_eq_some_iff {α β : Type} {f : α → Option β} {as : List α} {bs : List β} :
    as.mapM f = some bs ↔ List.Forall₂ (fun a b => f a = some b) as bs := by
  induction as generalizing bs with
  | nil => simp [eq_comm]
  | cons a as ih =>
    simp only [List.mapM_cons, Option.bind_eq_bind, Option.bind_eq_some_iff, Option.pure_def, Option.some.injEq,
      List.forall₂_cons_left_iff, ih]
    constructor
    · rintro ⟨b, hb, bs', hbs, rfl⟩
      exact ⟨b, bs', hb, hbs, rfl⟩
    · rintro ⟨b, bs', hb, hbs, rfl⟩
      exact ⟨b, hb, bs', hbs, rfl⟩

/-- What a script and those inside of it are listed as. -/
theorem below?_succ :
    p.below? (fuel + 1) i = some order ↔
      ∃ lists, List.Forall₂ (fun c l => p.below? fuel c = some l) (p.inner i) lists ∧ order = i :: lists.flatten := by
  simp only [below?, Option.bind_eq_bind, Option.bind_eq_some_iff, mapM_eq_some_iff, Option.pure_def,
    Option.some.injEq, @eq_comm _ order]

theorem exists_of_forall₂ {α β : Type} {R : α → β → Prop} {as : List α} {bs : List β} (h : List.Forall₂ R as bs) :
    (∀ a ∈ as, ∃ b ∈ bs, R a b) ∧ ∀ b ∈ bs, ∃ a ∈ as, R a b := by
  induction h with
  | nil => simp
  | cons hab _ ih =>
    refine ⟨fun a ha => ?_, fun b hb => ?_⟩
    · rcases List.mem_cons.mp ha with rfl | ha
      · exact ⟨_, by simp, hab⟩
      · obtain ⟨b, hb, h⟩ := ih.1 a ha
        exact ⟨b, by simp [hb], h⟩
    · rcases List.mem_cons.mp hb with rfl | hb
      · exact ⟨_, by simp, hab⟩
      · obtain ⟨a, ha, h⟩ := ih.2 b hb
        exact ⟨a, by simp [ha], h⟩

/-- Only scripts inside of a script are listed with it. -/
theorem below?_descends (h : p.below? fuel i = some order) (hx : x ∈ order) : ∃ k, p.Descends i k x := by
  induction fuel generalizing i order with
  | zero => cases h
  | succ fuel ih =>
    obtain ⟨lists, hlists, rfl⟩ := below?_succ.mp h
    rcases List.mem_cons.mp hx with rfl | hx
    · exact ⟨0, .refl⟩
    · obtain ⟨list, hlist, hx⟩ := List.mem_flatten.mp hx
      obtain ⟨c, hc, hbelow⟩ := (exists_of_forall₂ hlists).2 list hlist
      obtain ⟨k, hk⟩ := ih hbelow hx
      exact ⟨k + 1, hk.cons hc⟩

/-- All of them are, and there are fewer levels than there was fuel. -/
theorem below?_complete (h : p.below? fuel i = some order) (hx : p.Descends i k x) : k < fuel ∧ x ∈ order := by
  induction fuel generalizing i order k with
  | zero => cases h
  | succ fuel ih =>
    obtain ⟨lists, hlists, rfl⟩ := below?_succ.mp h
    cases k with
    | zero =>
      cases hx
      exact ⟨by omega, by simp⟩
    | succ k =>
      -- the first step down
      obtain ⟨a, rfl, rfl, ha⟩ := hx.chain
      obtain ⟨list, hlist, hbelow⟩ := (exists_of_forall₂ hlists).1 _ (ha 0 (by omega))
      have hrest : p.Descends (a 1) k (a (1 + k)) := descends_of_chain ha (by omega)
      rw [Nat.add_comm] at hrest
      obtain ⟨hk, hmem⟩ := ih hbelow hrest
      exact ⟨by omega, List.mem_cons_of_mem _ (List.mem_flatten.mpr ⟨list, hlist, hmem⟩)⟩

theorem mapM_eq_none {α β : Type} {f : α → Option β} {as : List α} (h : as.mapM f = none) : ∃ a ∈ as, f a = none := by
  induction as with
  | nil => simp at h
  | cons a as ih =>
    cases ha : f a with
    | none => exact ⟨a, by simp, ha⟩
    | some b =>
      have has : as.mapM f = none := by
        cases has : as.mapM f with
        | none => rfl
        | some bs => simp [List.mapM_cons, ha, has] at h
      obtain ⟨a', ha', h'⟩ := ih has
      exact ⟨a', by simp [ha'], h'⟩

/-- If the fuel does not suffice, there are as many levels. -/
theorem descends_of_below?_none (h : p.below? fuel i = none) : ∃ x, p.Descends i fuel x := by
  induction fuel generalizing i with
  | zero => exact ⟨i, .refl⟩
  | succ fuel ih =>
    cases hlists : (p.inner i).mapM (p.below? fuel) with
    | some lists => simp [below?, hlists] at h
    | none =>
      obtain ⟨c, hc, hnone⟩ := mapM_eq_none hlists
      obtain ⟨x, hx⟩ := ih hnone
      exact ⟨x, hx.cons hc⟩

/-! ### Orders without an end -/

/-- Scripts are inside of scripts of the program. -/
def RefersInside (p : Program) : Prop := ∀ i, ∀ j ∈ p.inner i, j < p.scripts.length

theorem Sound.refersInside (h : p.Sound) : p.RefersInside := by
  intro i j hj
  simp only [inner, List.getElem?_map] at hj
  cases hs : p.scripts[i]? with
  | none => simp [hs] at hj
  | some s =>
    simp only [hs, Option.map_some, Option.getD_some] at hj
    exact (h.scripts s (List.mem_of_getElem? hs)).subclasses j hj

theorem Descends.lt (hp : p.RefersInside) (hi : i < p.scripts.length) (h : p.Descends i k x) : x < p.scripts.length := by
  cases h with
  | refl => exact hi
  | step _ hx => exact hp _ _ hx

/-- As many levels as there are scripts lead back to a script. -/
theorem cycle_of_descends (hp : p.RefersInside) (hi : i < p.scripts.length) (h : p.Descends i p.scripts.length x) :
    ∃ k j l, p.Descends i k j ∧ p.Descends j (l + 1) j := by
  obtain ⟨a, rfl, rfl, ha⟩ := h.chain
  have hlt : ∀ n : Fin (p.scripts.length + 1), a n < p.scripts.length := fun n => by
    have hdown := descends_of_chain (i := 0) (j := n) ha (by omega)
    rw [Nat.zero_add] at hdown
    exact hdown.lt hp hi
  obtain ⟨m, n, hne, hsame⟩ := Fintype.exists_ne_map_eq_of_card_lt
    (fun n : Fin (p.scripts.length + 1) => (⟨a n, hlt n⟩ : Fin p.scripts.length)) (by simp)
  have heq : a m = a n := congrArg Fin.val hsame
  clear hsame
  have hvals : (m : Nat) ≠ n := fun h => hne (Fin.ext h)
  -- the script is met at two levels, `m` and `n`
  wlog hmn : (m : Nat) < n generalizing m n
  · exact this n m hne.symm heq.symm hvals.symm (by omega)
  have hfirst := descends_of_chain (i := 0) (j := m) ha (by omega)
  have hagain := descends_of_chain (i := m) (j := n - m) ha (by omega)
  rw [Nat.zero_add] at hfirst
  rw [show (m : Nat) + (n - m) = n by omega, ← heq, show (n : Nat) - m = (n - m - 1) + 1 by omega] at hagain
  exact ⟨m, a m, n - m - 1, hfirst, hagain⟩

/-- **The order has no end if and only if a script is inside of itself.** -/
theorem order?_eq_none_iff (hp : p.RefersInside) :
    p.order? = none ↔ ∃ k i l, 0 < p.scripts.length ∧ p.Descends 0 k i ∧ p.Descends i (l + 1) i := by
  unfold order?
  split
  · simp_all
  · rename_i hne
    have hpos : 0 < p.scripts.length := by omega
    constructor
    · intro h
      obtain ⟨x, hx⟩ := descends_of_below?_none h
      obtain ⟨k, i, l, hk, hl⟩ := cycle_of_descends hp hpos hx
      exact ⟨k, i, l, hpos, hk, hl⟩
    · rintro ⟨k, i, l, -, hk, hl⟩
      -- going round often enough needs more levels than there are
      have hround : ∀ n, ∃ m, n ≤ m ∧ p.Descends 0 m i := by
        intro n
        induction n with
        | zero => exact ⟨k, by omega, hk⟩
        | succ n ih =>
          obtain ⟨m, hm, hdown⟩ := ih
          exact ⟨m + (l + 1), by omega, hdown.trans hl⟩
      obtain ⟨m, hm, hdown⟩ := hround p.scripts.length
      cases horder : p.below? p.scripts.length 0 with
      | none => rfl
      | some order =>
        have := (below?_complete horder hdown).1
        omega

theorem mem_order (h : p.order? = some order) :
    x ∈ order ↔ 0 < p.scripts.length ∧ ∃ k, p.Descends 0 k x := by
  unfold order? at h
  split at h
  · cases h
    simp_all
  · constructor
    · exact fun hx => ⟨by omega, below?_descends h hx⟩
    · rintro ⟨-, k, hk⟩
      exact (below?_complete h hk).2

/-! ### Trees -/

/-- The scripts are a tree with the script of the file at its root: that one is inside of no script, every other one
is inside of just one, and all are reached from the root. -/
structure IsTree (p : Program) : Prop where
  root : 0 ∉ p.scripts.flatMap Script.subclasses
  unique : (p.scripts.flatMap Script.subclasses).Nodup
  reached : ∀ i < p.scripts.length, ∃ k, p.Descends 0 k i

namespace IsTree

theorem inner_eq (hj : x ∈ p.inner i) : ∃ s, p.scripts[i]? = some s ∧ p.inner i = s.subclasses := by
  simp only [inner, List.getElem?_map] at hj ⊢
  cases hs : p.scripts[i]? with
  | none => simp [hs] at hj
  | some s => exact ⟨s, rfl, rfl⟩

variable (h : p.IsTree)
include h

theorem not_root (hx : x ∈ p.inner i) : x ≠ 0 := by
  obtain ⟨s, hs, heq⟩ := inner_eq hx
  rintro rfl
  exact h.root (List.mem_flatMap.mpr ⟨s, List.mem_of_getElem? hs, heq ▸ hx⟩)

theorem nodup_inner (i : Nat) : (p.inner i).Nodup := by
  cases hs : p.scripts[i]? with
  | none => simp [inner, hs]
  | some s =>
    have hinner : p.inner i = s.subclasses := by simp [inner, hs]
    rw [hinner]
    exact (List.nodup_flatMap.mp h.unique).1 s (List.mem_of_getElem? hs)

/-- A script is inside of no two scripts. -/
theorem parent_unique (hi : x ∈ p.inner i) (hj : x ∈ p.inner j) : i = j := by
  obtain ⟨s, hs, hsx⟩ := inner_eq hi
  obtain ⟨t, ht, htx⟩ := inner_eq hj
  rw [hsx] at hi
  rw [htx] at hj
  obtain ⟨hi', rfl⟩ := List.getElem?_eq_some_iff.mp hs
  obtain ⟨hj', rfl⟩ := List.getElem?_eq_some_iff.mp ht
  have hpairs := List.pairwise_iff_getElem.mp (List.nodup_flatMap.mp h.unique).2
  rcases lt_trichotomy i j with hlt | heq | hlt
  · exact absurd hj (hpairs i j hi' hj' hlt hi)
  · exact heq
  · exact absurd hi (hpairs j i hj' hi' hlt hj)

/-- A script has just one level. -/
theorem level_unique (hk : p.Descends 0 k x) (hl : p.Descends 0 l x) : k = l := by
  induction hk generalizing l with
  | refl =>
    cases hl with
    | refl => rfl
    | step _ hx => exact absurd rfl (h.not_root hx)
  | step _ hx ih =>
    cases hl with
    | refl => exact absurd rfl (h.not_root hx)
    | step hl' hx' =>
      cases h.parent_unique hx hx'
      rw [ih hl']

/-- Two scripts as many levels above a script are the same. -/
theorem ancestor_unique (hk : p.Descends c k x) (hk' : p.Descends c' k x) : c = c' := by
  induction k generalizing x with
  | zero =>
    cases hk
    cases hk'
    rfl
  | succ k ih =>
    obtain _ | ⟨hk, hx⟩ := hk
    obtain _ | ⟨hk', hx'⟩ := hk'
    cases h.parent_unique hx hx'
    exact ih hk hk'

/-- What is listed for two scripts of one level has nothing in common. -/
theorem disjoint_of_below? {list list' : List Nat} (hc : p.Descends 0 k c) (hc' : p.Descends 0 k c') (hne : c ≠ c')
    (hlist : p.below? fuel c = some list) (hlist' : p.below? fuel c' = some list') : List.Disjoint list list' := by
  intro x hx hx'
  obtain ⟨m, hm⟩ := below?_descends hlist hx
  obtain ⟨m', hm'⟩ := below?_descends hlist' hx'
  have hlevel := h.level_unique (hc.trans hm) (hc'.trans hm')
  obtain rfl : m = m' := by omega
  exact hne (h.ancestor_unique hm hm')

/-- No script is listed twice. -/
theorem nodup_below? (hi : p.Descends 0 k i) (horder : p.below? fuel i = some order) : order.Nodup := by
  induction fuel generalizing i k order with
  | zero => cases horder
  | succ fuel ih =>
    obtain ⟨lists, hlists, rfl⟩ := below?_succ.mp horder
    have hchild : ∀ c ∈ p.inner i, p.Descends 0 (k + 1) c := fun c hc => hi.step hc
    rw [List.nodup_cons]
    constructor
    · intro hmem
      obtain ⟨list, hlist, hx⟩ := List.mem_flatten.mp hmem
      obtain ⟨c, hc, hbelow⟩ := (exists_of_forall₂ hlists).2 list hlist
      obtain ⟨m, hm⟩ := below?_descends hbelow hx
      have := h.level_unique hi ((hchild c hc).trans hm)
      omega
    · rw [List.nodup_flatten]
      refine ⟨fun list hlist => ?_, ?_⟩
      · obtain ⟨c, hc, hbelow⟩ := (exists_of_forall₂ hlists).2 list hlist
        exact ih (hchild c hc) hbelow
      · have hnodup := h.nodup_inner i
        clear ih horder
        generalize p.inner i = children at *
        induction hlists with
        | nil => exact .nil
        | @cons c list children lists hbelow hrest ih' =>
          have hdistinct := List.nodup_cons.mp hnodup
          refine List.pairwise_cons.mpr ⟨fun list' hlist' => ?_, ih' (fun c' hc' => hchild c' (by simp [hc'])) hdistinct.2⟩
          obtain ⟨c', hc', hbelow'⟩ := (exists_of_forall₂ hrest).2 list' hlist'
          have hne : c ≠ c' := fun heq => hdistinct.1 (heq ▸ hc')
          exact h.disjoint_of_below? (hchild c (by simp)) (hchild c' (by simp [hc'])) hne hbelow hbelow'

/-- The order of a tree has every script once. -/
theorem exists_order (hp : p.RefersInside) : ∃ order, p.order? = some order ∧ order.Perm (List.range p.scripts.length) := by
  cases horder : p.order? with
  | none =>
    obtain ⟨k, i, l, -, hk, hl⟩ := (order?_eq_none_iff hp).mp horder
    have := h.level_unique hk (hk.trans hl)
    omega
  | some order =>
    refine ⟨order, rfl, ?_⟩
    have hnodup : order.Nodup := by
      unfold order? at horder
      split at horder
      · cases horder
        exact List.nodup_nil
      · exact h.nodup_below? .refl horder
    refine (List.perm_ext_iff_of_nodup hnodup List.nodup_range).mpr fun x => ?_
    rw [mem_order horder, List.mem_range]
    constructor
    · rintro ⟨hpos, k, hk⟩
      exact hk.lt hp hpos
    · exact fun hx => ⟨by omega, h.reached x hx⟩

end IsTree

end Program

/-! ### Listed programs -/

section Listed

variable {order : List Nat} {i n : Nat}

theorem place?_isSome : (place? order i).isSome = true ↔ i ∈ order := by
  induction order with
  | nil => simp [place?]
  | cons j js ih =>
    cases hjs : place? js i with
    | some k =>
      rw [hjs] at ih
      simpa [place?, hjs] using .inr (ih.mp rfl)
    | none =>
      have hnot : i ∉ js := fun hmem => by
        have hsome := ih.mpr hmem
        rw [hjs] at hsome
        cases hsome
      simp only [place?, hjs, List.mem_cons, hnot, or_false]
      split <;> simp_all

theorem place?_lt {k : Nat} (h : place? order i = some k) : k < order.length := by
  induction order generalizing k with
  | nil => cases h
  | cons j js ih =>
    cases hjs : place? js i with
    | some l =>
      simp only [place?, hjs, Option.some.injEq] at h
      have := ih hjs
      simp only [List.length_cons]
      omega
    | none =>
      simp only [place?, hjs] at h
      split at h
      · cases h
        simp
      · cases h

theorem place?_range' {start k : Nat} : place? (List.range' start n) i = some k → i = start + k := by
  induction n generalizing start k with
  | zero => simp [place?]
  | succ n ih =>
    rw [List.range'_succ]
    intro h
    cases hrest : place? (List.range' (start + 1) n) i with
    | some l =>
      simp only [place?, hrest, Option.some.injEq] at h
      have := ih hrest
      omega
    | none =>
      simp only [place?, hrest] at h
      split at h
      · cases h
        omega
      · cases h

/-- In the order of the numbers a script has the place of its number. -/
theorem place?_range (h : i < n) : place? (List.range n) i = some i := by
  have hsome := place?_isSome.mpr (List.mem_range.mpr h)
  obtain ⟨k, hk⟩ := Option.isSome_iff_exists.mp hsome
  rw [List.range_eq_range'] at hk ⊢
  rw [hk, place?_range' hk, Nat.zero_add]

end Listed

namespace Function.IsStored

variable {n : Nat} {f : Function}

theorem stored_eq (h : f.IsStored n) : f.stored = f := by
  have ha := h.allocated
  have hr := h.released
  cases f
  simp_all [stored]

theorem listed {order : List Nat} (h : f.IsStored n) : (f.listed order).IsStored order.length :=
  { h with
    script := fun i hi => by
      obtain ⟨j, -, hj⟩ := Option.bind_eq_some_iff.mp hi
      exact place?_lt hj }

end Function.IsStored

namespace Script.IsStored

variable {n m : Nat} {s : Script}

theorem listed {order : List Nat} (h : s.IsStored n m) (horder : ∀ i < n, i ∈ order) :
    (s.listed order).IsStored order.length m :=
  { h with
    base := fun b hb => by
      simp only [Script.listed] at hb
      cases hs : s.base with
      | none => simp [hs] at hb
      | some b' =>
        obtain ⟨i, -, rfl⟩ := h.base b' hs
        simp only [hs, Option.mem_def, Option.map_eq_some_iff] at hb
        obtain ⟨k, hk, rfl⟩ := hb
        exact ⟨k, place?_lt hk, rfl⟩
    outer := fun i hi => by
      obtain ⟨j, -, hj⟩ := Option.bind_eq_some_iff.mp hi
      exact place?_lt hj
    subclasses := fun i hi => by
      obtain ⟨j, hj, rfl⟩ := List.mem_map.mp hi
      obtain ⟨k, hk⟩ := Option.isSome_iff_exists.mp (place?_isSome.mpr (horder j (h.subclasses j hj)))
      rw [hk]
      exact place?_lt hk }

theorem stored_eq (h : s.IsStored n m) : s.stored = s := by
  have hbase : (Wire.ownBase? s).map ScriptRef.own = s.base := by
    unfold Wire.ownBase?
    cases hs : s.base with
    | none => rfl
    | some b =>
      obtain ⟨i, -, rfl⟩ := h.base b hs
      rfl
  have hconstants : s.constants.map NamedConstant.stored = s.constants := by
    rw [List.map_congr_left (g := id) fun c hc => ?_, List.map_id]
    have hc := h.constants c hc
    obtain ⟨name, value⟩ := c
    cases value with
    | none => rfl
    | some v => simp [NamedConstant.stored, (hc v rfl).2]
  unfold Script.stored
  rw [hbase, hconstants]

theorem fits (h : s.IsStored n m) (hvalues : s.hasValues = true) : s.Fits n m where
  base := fun i hi => by
    obtain ⟨j, hj, heq⟩ := h.base _ hi
    cases heq
    exact hj
  outer := h.outer
  members := h.members
  constants := fun c hc => by
    obtain ⟨v, hv⟩ := Option.isSome_iff_exists.mp (List.all_eq_true.mp hvalues c hc)
    exact ⟨v, hv, (h.constants c hc v hv).1⟩
  subclasses := h.subclasses
  methods := h.methods
  init := h.init
  ready := h.ready

end Script.IsStored

namespace Program

variable {p : Program} {order : List Nat}

/-- A sound program stays one if all of its scripts are listed. -/
theorem Sound.listed (h : p.Sound) (horder : order.Perm (List.range p.scripts.length)) : (p.listed order).Sound := by
  have hall : ∀ i < p.scripts.length, i ∈ order := fun i hi => horder.mem_iff.mpr (List.mem_range.mpr hi)
  have hlength : (p.listed order).scripts.length = order.length := by simp [Program.listed]
  refine ⟨h.buildId, h.constants, fun f hf => ?_, fun s hs => ?_⟩
  · obtain ⟨g, hg, rfl⟩ := List.mem_map.mp hf
    rw [hlength]
    exact (h.functions g hg).listed
  · obtain ⟨i, hi, rfl⟩ := List.mem_map.mp hs
    have hi := List.mem_range.mp (horder.mem_iff.mp hi)
    rw [hlength, show (p.listed order).functions.length = p.functions.length by simp [Program.listed],
      List.getElem?_eq_getElem hi]
    exact (h.scripts _ (List.getElem_mem hi)).listed hall

theorem Sound.stored_eq (h : p.Sound) : p.stored = p := by
  have hconstants : p.constants.map Value.stored = p.constants := by
    rw [List.map_congr_left (g := id) fun v hv => (h.constants v hv).2, List.map_id]
  have hfunctions : p.functions.map Function.stored = p.functions := by
    rw [List.map_congr_left (g := id) fun f hf => (h.functions f hf).stored_eq, List.map_id]
  have hscripts : p.scripts.map Script.stored = p.scripts := by
    rw [List.map_congr_left (g := id) fun s hs => (h.scripts s hs).stored_eq, List.map_id]
  unfold stored
  rw [hconstants, hfunctions, hscripts]

theorem Sound.wellFormed (h : p.Sound) (hvalues : p.scripts.all Script.hasValues = true)
    (hsize : p.encode.length < 2 ^ 63) : p.WellFormed :=
  ⟨h.buildId, fun v hv => (h.constants v hv).1, fun f hf => (h.functions f hf).toFits,
    fun s hs => (h.scripts s hs).fits (List.all_eq_true.mp hvalues s hs), hsize⟩

/-- The numbers of the scripts are their places already. -/
theorem Sound.listed_range (h : p.Sound) : p.listed (List.range p.scripts.length) = p := by
  have hfunctions : p.functions.map (Function.listed (List.range p.scripts.length)) = p.functions := by
    rw [List.map_congr_left (g := id) fun f hf => ?_, List.map_id]
    have hscript : f.script.bind (place? (List.range p.scripts.length)) = f.script := by
      cases hs : f.script with
      | none => rfl
      | some i => exact place?_range ((h.functions f hf).script i hs)
    rw [Function.listed, hscript]
    rfl
  have hscript : ∀ s ∈ p.scripts, s.listed (List.range p.scripts.length) = s := by
    intro s hs
    have hs := h.scripts s hs
    have hbase : (match s.base with
        | some (.own i) => (place? (List.range p.scripts.length) i).map .own
        | base => base) = s.base := by
      cases hb : s.base with
      | none => rfl
      | some b =>
        obtain ⟨i, hi, rfl⟩ := hs.base b hb
        simp [place?_range hi]
    have houter : s.outer.bind (place? (List.range p.scripts.length)) = s.outer := by
      cases ho : s.outer with
      | none => rfl
      | some i => exact place?_range (hs.outer i ho)
    have hsubclasses : s.subclasses.map (fun i => (place? (List.range p.scripts.length) i).getD 0) =
        s.subclasses := by
      rw [List.map_congr_left (g := id) fun i hi => ?_, List.map_id]
      simp [place?_range (hs.subclasses i hi)]
    unfold Script.listed
    rw [hbase, houter, hsubclasses]
  have hscripts : ((List.range p.scripts.length).map fun i =>
      ((p.scripts[i]?).getD {}).listed (List.range p.scripts.length)) = p.scripts := by
    refine List.ext_getElem (by simp) fun i hi hi' => ?_
    simpa [List.getElem?_eq_getElem hi'] using hscript _ (List.getElem_mem hi')
  unfold Program.listed
  rw [hfunctions, hscripts]

/-- **What is written of a program whose scripts stand in the order in which they are written.** -/
theorem Sound.written?_eq (h : p.Sound) (horder : p.order? = some (List.range p.scripts.length)) :
    p.written? = if p.scripts.all Script.hasValues then some p.encode else none := by
  rw [written?, horder]
  show (if (p.listed _).scripts.all Script.hasValues then _ else _) = _
  rw [h.listed_range]

theorem hasValues_listed (order : List Nat) :
    (p.listed order).scripts.all Script.hasValues = order.all fun i => ((p.scripts[i]?).getD {}).hasValues := by
  rw [Program.listed, List.all_map]
  rfl

/-- A sound program cannot be written if one of the scripts that are reached is inside of itself, or if a constant of
one lacks its value. -/
theorem Sound.written?_eq_none_iff (h : p.Sound) :
    p.written? = none ↔ 0 < p.scripts.length ∧ ∃ k i, p.Descends 0 k i ∧
      ((∃ l, p.Descends i (l + 1) i) ∨ ∃ s, p.scripts[i]? = some s ∧ s.hasValues = false) := by
  cases horder : p.order? with
  | none =>
    obtain ⟨k, i, l, hpos, hk, hl⟩ := (order?_eq_none_iff h.refersInside).mp horder
    simp only [written?, horder, Option.bind_eq_bind, Option.bind_none, true_iff]
    exact ⟨hpos, k, i, hk, .inl ⟨l, hl⟩⟩
  | some order =>
    have hends : ¬ ∃ k i l, 0 < p.scripts.length ∧ p.Descends 0 k i ∧ p.Descends i (l + 1) i := by
      rw [← order?_eq_none_iff h.refersInside, horder]
      exact Option.some_ne_none order
    have hvalues : p.written? = none ↔ ∃ i ∈ order, ((p.scripts[i]?).getD {}).hasValues = false := by
      simp only [written?, horder, Option.bind_eq_bind, Option.bind_some, hasValues_listed, ite_eq_right_iff,
        reduceCtorEq, imp_false, List.all_eq_true, not_forall, Bool.not_eq_true, exists_prop]
    rw [hvalues]
    constructor
    · rintro ⟨i, hi, hvalue⟩
      obtain ⟨hpos, k, hk⟩ := (mem_order horder).mp hi
      have hlt := hk.lt h.refersInside hpos
      rw [List.getElem?_eq_getElem hlt] at hvalue
      exact ⟨hpos, k, i, hk, .inr ⟨_, List.getElem?_eq_getElem hlt, hvalue⟩⟩
    · rintro ⟨hpos, k, i, hk, ⟨l, hl⟩ | ⟨s, hs, hvalue⟩⟩
      · exact absurd ⟨k, i, l, hpos, hk, hl⟩ hends
      · exact ⟨i, (mem_order horder).mpr ⟨hpos, k, hk⟩, by rw [hs]; exact hvalue⟩

/-- The bytes of a program with three scripts that are not listed in the order in which they are written: the first
is around the last, and that one around the second, which has a constant. -/
def outOfOrder : List UInt8 :=
  Wire.mark ++ [1, 42, 2, 16, 2, 50, 3, 98, 1, 2, 50, 13, 82, 9, 10, 1, 65, 18, 4, 8, 1, 64, 1, 48, 3, 50, 3, 98, 1, 1]

end Program

end GameScript
