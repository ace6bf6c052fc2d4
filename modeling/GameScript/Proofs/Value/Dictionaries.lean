import GameScript.Proofs.Code.Wire.Constants
import GameScript.Value.Shared

/-!
# What a run leaves of a dictionary

A dictionary that can be changed keeps its keys, what they hold and an index side by side. The three agree
after every sequence of requests: the index holds the place of every key and nothing else, the keys stand in
the order in which they first came, and a key holds what it was last given (`Indexed.run_represents`). As a
list of entries, the dictionary is the one that `Value.insertEntry` builds (`Indexed.run_entries`).
-/

namespace GameScript

namespace Indexed

variable {α : Type} {d : Indexed α} {ps : List (Value × α)}

/-! ### Requests -/

/-- What a dictionary can be asked for. -/
inductive Request (α : Type) where
  | set (key : Value) (a : α)
  | freeze

/-- The dictionary after a request. -/
def serve (d : Indexed α) : Request α → Indexed α
  | .set key a => (d.set key a).2
  | .freeze => d.freeze

/-- The dictionary after a sequence of requests. -/
def run (d : Indexed α) (rs : List (Request α)) : Indexed α := rs.foldl serve d

/-- The keys that a sequence of requests sets with success, each with what it is given. -/
def successes (d : Indexed α) : List (Request α) → List (Value × α)
  | [] => []
  | .freeze :: rs => d.freeze.successes rs
  | .set key a :: rs =>
    match d.set key a with
    | (.ok _, d') => (key, a) :: d'.successes rs
    | (.error _, d') => d'.successes rs

/-! ### What was set -/

/-- The keys in the order in which a key with their hash first came. -/
def firsts : List (Value × α) → List Value
  | [] => []
  | p :: ps => p.1 :: (firsts ps).filter (·.hash ≠ p.1.hash)

/-- What was last given to a key with a hash. -/
def last? (hash : Text) (ps : List (Value × α)) : Option α :=
  (ps.reverse.find? (·.1.hash = hash)).map Prod.snd

theorem firsts_concat (ps : List (Value × α)) (key : Value) (a : α) :
    firsts (ps ++ [(key, a)]) =
      if key.hash ∈ (firsts ps).map Value.hash then firsts ps else firsts ps ++ [key] := by
  induction ps with
  | nil => simp [firsts]
  | cons p ps ih =>
    rw [List.cons_append, firsts, firsts, ih]
    by_cases hp : key.hash = p.1.hash
    · -- the new key is dropped again by the filter of the first one
      have hdropped : (firsts ps ++ [key]).filter (·.hash ≠ p.1.hash) =
          (firsts ps).filter (·.hash ≠ p.1.hash) := by simp [hp]
      have hfirst : key.hash ∈ (p.1 :: (firsts ps).filter (·.hash ≠ p.1.hash)).map Value.hash :=
        List.mem_map.mpr ⟨p.1, List.mem_cons_self, hp.symm⟩
      rw [if_pos hfirst]
      split
      · rfl
      · rw [hdropped]
    · by_cases hmem : key.hash ∈ (firsts ps).map Value.hash
      · obtain ⟨k, hk, hhash⟩ := List.mem_map.mp hmem
        have hkept : key.hash ∈ (p.1 :: (firsts ps).filter (·.hash ≠ p.1.hash)).map Value.hash :=
          List.mem_map.mpr ⟨k, by simp [hk, hhash, hp], hhash⟩
        rw [if_pos hmem, if_pos hkept]
      · have hnew : key.hash ∉ (p.1 :: (firsts ps).filter (·.hash ≠ p.1.hash)).map Value.hash := by
          intro h
          obtain ⟨k, hk, hhash⟩ := List.mem_map.mp h
          rcases List.mem_cons.mp hk with rfl | hk
          · exact hp hhash.symm
          · exact hmem (List.mem_map.mpr ⟨k, (List.mem_filter.mp hk).1, hhash⟩)
        rw [if_neg hmem, if_neg hnew]
        simp [hp]

theorem last?_concat (hash : Text) (ps : List (Value × α)) (key : Value) (a : α) :
    last? hash (ps ++ [(key, a)]) = if key.hash = hash then some a else last? hash ps := by
  unfold last?
  rw [List.reverse_append]
  by_cases h : key.hash = hash
  · simp [h]
  · simp [h]

/-! ### One request -/

/-- A dictionary **represents** what was set: its keys, what they hold and its index agree, the keys stand
in the order in which they first came, and a key holds what it was last given. -/
structure Represents (d : Indexed α) (ps : List (Value × α)) : Prop where
  length_eq : d.keys.length = d.held.length
  /-- The index holds the place of every key and nothing else. -/
  place?_iff : ∀ hash i, d.place? hash = some i ↔ ∃ key, d.keys[i]? = some key ∧ key.hash = hash
  keys_eq : d.keys = firsts ps
  get?_eq : ∀ key, d.get? key = last? key.hash ps

theorem represents_nil : Represents ({} : Indexed α) [] where
  length_eq := rfl
  place?_iff := by simp [place?]
  keys_eq := rfl
  get?_eq := by simp [get?, place?, last?]

theorem place?_of_key (h : d.Represents ps) {i : Nat} (hi : i < d.keys.length) :
    d.place? d.keys[i].hash = some i :=
  (h.place?_iff _ _).mpr ⟨d.keys[i], List.getElem?_eq_getElem hi, rfl⟩

theorem lt_of_place? (h : d.Represents ps) {hash : Text} {i : Nat} (hi : d.place? hash = some i) :
    i < d.keys.length := by
  obtain ⟨key, hkey, -⟩ := (h.place?_iff hash i).mp hi
  exact (List.getElem?_eq_some_iff.mp hkey).1

theorem place?_eq_none_iff (h : d.Represents ps) (hash : Text) :
    d.place? hash = none ↔ hash ∉ d.keys.map Value.hash := by
  constructor
  · intro hnone hmem
    obtain ⟨key, hkey, rfl⟩ := List.mem_map.mp hmem
    obtain ⟨i, hi⟩ := List.mem_iff_getElem?.mp hkey
    have hsome := (h.place?_iff key.hash i).mpr ⟨key, hi, rfl⟩
    rw [hnone] at hsome
    cases hsome
  · intro hmem
    rw [Option.eq_none_iff_forall_ne_some]
    intro i hi
    obtain ⟨key, hkey, hhash⟩ := (h.place?_iff hash i).mp hi
    exact hmem (List.mem_map.mpr ⟨key, List.mem_of_getElem? hkey, hhash⟩)

theorem nodup_hash (h : d.Represents ps) : (d.keys.map Value.hash).Nodup := by
  rw [List.Nodup, List.pairwise_map, List.pairwise_iff_getElem]
  intro i j hi hj hlt hhash
  have hplace := place?_of_key h hi
  rw [hhash, place?_of_key h hj] at hplace
  obtain rfl := Option.some.inj hplace
  exact Nat.lt_irrefl _ hlt

theorem has_eq_isSome_get? (h : d.Represents ps) (key : Value) : d.has key = (d.get? key).isSome := by
  unfold has get?
  cases hplace : d.place? key.hash with
  | none => rfl
  | some i =>
    have hi : i < d.held.length := h.length_eq ▸ lt_of_place? h hplace
    simp [hi]

/-- A key whose hash is there keeps its place; it now holds something else. -/
theorem represents_overwrite (h : d.Represents ps) {key : Value} {i : Nat} (hi : d.place? key.hash = some i)
    (a : α) : Represents { d with held := d.held.set i a } (ps ++ [(key, a)]) where
  length_eq := by simpa using h.length_eq
  place?_iff := h.place?_iff
  keys_eq := by
    have hmem : key.hash ∈ (firsts ps).map Value.hash := by
      obtain ⟨k, hk, hhash⟩ := (h.place?_iff _ _).mp hi
      rw [← h.keys_eq]
      exact List.mem_map.mpr ⟨k, List.mem_of_getElem? hk, hhash⟩
    rw [firsts_concat, if_pos hmem]
    exact h.keys_eq
  get?_eq k := by
    rw [last?_concat, ← h.get?_eq]
    show (d.place? k.hash).bind (fun j => (d.held.set i a)[j]?) = _
    by_cases hk : key.hash = k.hash
    · have hlt : i < d.held.length := h.length_eq ▸ lt_of_place? h hi
      rw [if_pos hk, ← hk, hi]
      simp [hlt]
    · rw [if_neg hk]
      unfold get?
      cases hj : d.place? k.hash with
      | none => rfl
      | some j =>
        have hij : i ≠ j := by
          rintro rfl
          obtain ⟨k₁, hk₁, h₁⟩ := (h.place?_iff _ _).mp hi
          obtain ⟨k₂, hk₂, h₂⟩ := (h.place?_iff _ _).mp hj
          rw [hk₁] at hk₂
          obtain rfl := Option.some.inj hk₂
          exact hk (h₁.symm.trans h₂)
        simp [List.getElem?_set_ne hij]

/-- A key whose hash is new comes last. -/
theorem represents_insert (h : d.Represents ps) {key : Value} (hnew : d.place? key.hash = none) (a : α) :
    Represents { d with
      keys := d.keys ++ [key]
      held := d.held ++ [a]
      index := (key.hash, d.keys.length) :: d.index } (ps ++ [(key, a)]) := by
  have hnot : key.hash ∉ d.keys.map Value.hash := (place?_eq_none_iff h _).mp hnew
  have hplace (hash : Text) : ((((key.hash, d.keys.length) :: d.index).find? (·.1 = hash)).map Prod.snd) =
      if key.hash = hash then some d.keys.length else d.place? hash := by
    by_cases hk : key.hash = hash
    · simp [hk]
    · simp [hk, place?]
  refine ⟨by simp [h.length_eq], fun hash i => ?_, ?_, fun k => ?_⟩
  · unfold place?
    rw [hplace]
    by_cases hk : key.hash = hash
    · subst hk
      rw [if_pos rfl]
      constructor
      · rintro ⟨⟩
        exact ⟨key, by simp, rfl⟩
      · rintro ⟨k, hi, hhash⟩
        -- no key that was there has this hash, so the place is the last one
        rcases Nat.lt_or_ge i d.keys.length with hlt | hge
        · rw [List.getElem?_append_left hlt] at hi
          exact absurd (List.mem_map.mpr ⟨k, List.mem_of_getElem? hi, hhash⟩) hnot
        · have hlt : i < (d.keys ++ [key]).length := (List.getElem?_eq_some_iff.mp hi).1
          have : i = d.keys.length := by
            rw [List.length_append, List.length_singleton] at hlt
            omega
          rw [this]
    · rw [if_neg hk, h.place?_iff]
      constructor
      · rintro ⟨k, hi, hhash⟩
        have hlt := (List.getElem?_eq_some_iff.mp hi).1
        exact ⟨k, by rw [List.getElem?_append_left hlt, hi], hhash⟩
      · rintro ⟨k, hi, hhash⟩
        rcases Nat.lt_or_ge i d.keys.length with hlt | hge
        · exact ⟨k, by rwa [List.getElem?_append_left hlt] at hi, hhash⟩
        · rw [List.getElem?_append_right hge, List.getElem?_singleton] at hi
          split at hi
          · obtain rfl := Option.some.inj hi
            exact absurd hhash hk
          · cases hi
  · rw [firsts_concat, ← h.keys_eq, if_neg hnot]
  · rw [last?_concat, ← h.get?_eq]
    unfold get? place?
    rw [hplace]
    by_cases hk : key.hash = k.hash
    · simp [hk, h.length_eq]
    · rw [if_neg hk, if_neg hk]
      show (d.place? k.hash).bind (fun i => (d.held ++ [a])[i]?) = (d.place? k.hash).bind (fun i => d.held[i]?)
      cases hj : d.place? k.hash with
      | none => rfl
      | some j =>
        have hlt : j < d.held.length := h.length_eq ▸ lt_of_place? h hj
        simp [List.getElem?_append_left hlt]

theorem set_of_frozen (hf : d.frozen = true) (key : Value) (a : α) :
    d.set key a = (.error .frozenDictionary, d) := by
  unfold set
  rw [if_pos hf]

theorem set_of_place? (hf : d.frozen = false) {key : Value} {i : Nat} (hi : d.place? key.hash = some i)
    (a : α) : d.set key a = (.ok (), { d with held := d.held.set i a }) := by
  simp [set, hf, hi]

theorem set_of_new (hf : d.frozen = false) {key : Value} (hnew : d.place? key.hash = none) (a : α) :
    d.set key a = (.ok (), { d with
      keys := d.keys ++ [key]
      held := d.held ++ [a]
      index := (key.hash, d.keys.length) :: d.index }) := by
  simp [set, hf, hnew]

/-- A dictionary that is not frozen accepts every key and then represents one more. -/
theorem represents_set (h : d.Represents ps) (hf : d.frozen = false) (key : Value) (a : α) :
    ∃ d', d.set key a = (.ok (), d') ∧ d'.frozen = false ∧ d'.Represents (ps ++ [(key, a)]) := by
  cases hplace : d.place? key.hash with
  | some i => exact ⟨_, set_of_place? hf hplace a, hf, represents_overwrite h hplace a⟩
  | none => exact ⟨_, set_of_new hf hplace a, hf, represents_insert h hplace a⟩

/-! ### A whole run -/

theorem represents_freeze (h : d.Represents ps) : d.freeze.Represents ps :=
  ⟨h.length_eq, h.place?_iff, h.keys_eq, h.get?_eq⟩

/-- Requests lead from a dictionary that represents `ps` to one that represents also what they set. -/
theorem represents_run (rs : List (Request α)) : ∀ {d : Indexed α} {ps : List (Value × α)}, d.Represents ps →
    (d.run rs).Represents (ps ++ d.successes rs) := by
  induction rs with
  | nil =>
    intro d ps h
    rwa [successes, List.append_nil]
  | cons r rs ih =>
    intro d ps h
    cases r with
    | freeze => exact ih (represents_freeze h)
    | set key a =>
      show ((d.set key a).2.run rs).Represents _
      rw [successes]
      cases hf : d.frozen with
      | true =>
        rw [set_of_frozen hf]
        exact ih h
      | false =>
        obtain ⟨d', hset, -, hd'⟩ := represents_set h hf key a
        rw [hset, List.append_cons]
        exact ih hd'

theorem frozen_set (d : Indexed α) (key : Value) (a : α) : (d.set key a).2.frozen = d.frozen := by
  unfold set
  split
  · rfl
  · split <;> rfl

theorem frozen_run (rs : List (Request α)) : ∀ d : Indexed α,
    (d.run rs).frozen = true ↔ d.frozen = true ∨ Request.freeze ∈ rs := by
  induction rs with
  | nil => intro d; simp [run]
  | cons r rs ih =>
    intro d
    have hstep : d.run (r :: rs) = (d.serve r).run rs := rfl
    rw [hstep, ih]
    cases r with
    | freeze => simp [serve, freeze]
    | set key a => simp [serve, frozen_set]

/-! ### Entries -/

/-- The entries of a dictionary. -/
def entries (d : Indexed Value) : List Entry := List.zipWith Entry.mk d.keys d.held

theorem insertEntry_zipWith {key k a : Value} : ∀ {ks vs : List Value} {i : Nat},
    ks.length = vs.length → (ks.map Value.hash).Nodup → ks[i]? = some k → k.hash = key.hash →
      Value.insertEntry key a (List.zipWith Entry.mk ks vs) = List.zipWith Entry.mk ks (vs.set i a) := by
  intro ks
  induction ks with
  | nil => intro vs i _ _ hi _; cases hi
  | cons k₀ ks ih =>
    intro vs i hlen hnodup hi hhash
    obtain ⟨v₀, vs, rfl⟩ : ∃ v₀ vs', vs = v₀ :: vs' := List.exists_cons_of_length_eq_add_one hlen.symm
    rw [List.map_cons, List.nodup_cons] at hnodup
    cases i with
    | zero =>
      obtain rfl := Option.some.inj hi
      simp [Value.insertEntry, hhash]
    | succ i =>
      have hmem : k ∈ ks := List.mem_of_getElem? hi
      have hne : k₀.hash ≠ key.hash := by
        rw [← hhash]
        exact fun heq => hnodup.1 (List.mem_map.mpr ⟨k, hmem, heq.symm⟩)
      have htail := ih (by simpa using hlen) hnodup.2 hi hhash
      simp [Value.insertEntry, hne, htail]

/-- Setting a key of a dictionary is inserting it into its entries. -/
theorem entries_set {d : Indexed Value} {ps : List (Value × Value)} (h : d.Represents ps)
    (hf : d.frozen = false) (key a : Value) :
    entries (d.set key a).2 = Value.insertEntry key a d.entries := by
  cases hplace : d.place? key.hash with
  | some i =>
    obtain ⟨k, hi, hhash⟩ := (h.place?_iff _ _).mp hplace
    rw [set_of_place? hf hplace]
    exact (insertEntry_zipWith h.length_eq (nodup_hash h) hi hhash).symm
  | none =>
    have hnew : key.hash ∉ d.entries.map (·.key.hash) := by
      intro hmem
      obtain ⟨e, he, hhash⟩ := List.mem_map.mp hmem
      have hkey : e.key ∈ d.keys := by
        have hfst : d.entries.map Entry.key = d.keys := by
          rw [entries, List.map_zipWith, ← List.map_uncurry_zip_eq_zipWith]
          exact List.map_fst_zip (Nat.le_of_eq h.length_eq)
        rw [← hfst]
        exact List.mem_map_of_mem he
      exact (place?_eq_none_iff h _).mp hplace (List.mem_map.mpr ⟨e.key, hkey, hhash⟩)
    rw [set_of_new hf hplace, Value.insertEntry_of_notMem hnew]
    exact List.zipWith_append h.length_eq

/-- **A dictionary is its entries.** A run leaves the entries that inserting what it sets leaves, one after
the other. -/
theorem run_entries (rs : List (Request Value)) :
    entries (run {} rs) = (successes {} rs).foldl (fun es p => Value.insertEntry p.1 p.2 es) [] := by
  have hrun : ∀ (rs : List (Request Value)) {d : Indexed Value} {ps : List (Value × Value)}, d.Represents ps →
      (d.run rs).entries = (d.successes rs).foldl (fun es p => Value.insertEntry p.1 p.2 es) d.entries := by
    intro rs
    induction rs with
    | nil => intro d ps _; rfl
    | cons r rs ih =>
      intro d ps h
      cases r with
      | freeze => exact ih (represents_freeze h)
      | set key a =>
        show ((d.set key a).2.run rs).entries = _
        rw [successes]
        cases hf : d.frozen with
        | true =>
          rw [set_of_frozen hf]
          exact ih h
        | false =>
          obtain ⟨d', hset, -, hd'⟩ := represents_set h hf key a
          have hentries := entries_set h hf key a
          rw [hset] at hentries ⊢
          rw [List.foldl_cons, ← hentries]
          exact ih hd'
  exact hrun rs represents_nil

/-- **A dictionary keeps what was set.** After every sequence of requests it represents what they set with
success, so as many values as keys, an index with the place of every key and nothing else, the keys in the
order in which they first came and the last value of every key. The hashes of its keys are distinct, it has
the keys that it can get, and it is frozen when one of the requests was to freeze it; from then on setting a
key fails and changes nothing, and before it never fails. -/
theorem run_represents (rs : List (Request α)) :
    let d : Indexed α := run {} rs
    d.Represents (successes {} rs) ∧ (d.keys.map Value.hash).Nodup ∧
      (∀ key, d.has key = (d.get? key).isSome) ∧ (d.frozen = true ↔ Request.freeze ∈ rs) ∧
      (d.frozen = true → ∀ key a, d.set key a = (.error .frozenDictionary, d)) ∧
      (d.frozen = false → ∀ key a, (d.set key a).1 = .ok ()) := by
  have h : (run {} rs : Indexed α).Represents (successes {} rs) := represents_run rs represents_nil
  refine ⟨h, nodup_hash h, has_eq_isSome_get? h, ?_, fun hf key a => set_of_frozen hf key a, ?_⟩
  · simpa using frozen_run rs ({} : Indexed α)
  · intro hf key a
    obtain ⟨d', hset, -, -⟩ := represents_set h hf key a
    rw [hset]

end Indexed

end GameScript
