import GameScript.Proofs.Lowering.Generator
import GameScript.Proofs.Running.Alike
import Mathlib.Data.List.Nodup

/-!
# Numbers of names and constants

The functions of a program ask one pool for the numbers of their names and constants. A number, once given,
stands for the same name or constant until the program is complete, and two names have one number only if they
are the same. Two constants have one number iff they have one type and are written alike (`Pool.serves`). That is
less than being identical: an array is written without its type, so constants may be merged that differ in the
type of an array inside of them (`Pool.merged_array_types`).
-/

namespace GameScript

/-! ### Identical values -/

namespace Value

mutual

/-- The value with one NaN in place of all, at every depth, and without what no script can write: whether it is
frozen, and which of the references to a resource it is. -/
def canonical : Value → Value
  | float x => float x.unify
  | vector2 x y => vector2 x.unify y.unify
  | vector3 x y z => vector3 x.unify y.unify z.unify
  | color r g b a => color r.unify g.unify b.unify a.unify
  | resource path cls _ => resource path cls 0
  | dictionary entries _ => dictionary (canonicalEntries entries) false
  | array kind element name elements _ => array kind element name (canonicals elements) false
  | v => v

def canonicals : List Value → List Value
  | [] => []
  | v :: vs => v.canonical :: canonicals vs

def canonicalEntries : List Entry → List Entry
  | [] => []
  | ⟨k, v⟩ :: es => ⟨k.canonical, v.canonical⟩ :: canonicalEntries es

end

/-- The same value at every depth, up to the bits of NaNs. -/
def Identical (v w : Value) : Prop := v.canonical = w.canonical

@[simp] theorem type_canonical (v : Value) : v.canonical.type = v.type := by cases v <;> rfl

mutual

@[simp] theorem repr_canonical : ∀ v : Value, v.canonical.repr = v.repr
  | nil | bool _ | int _ | string _ | stringName _ | nodePath _ | vector2i .. | vector3i .. | resource .. => rfl
  | float x => by simp [canonical, repr, Double.text_unify]
  | vector2 .. => by simp [canonical, repr, Double.text_unify]
  | vector3 .. => by simp [canonical, repr, Double.text_unify]
  | color .. => by simp [canonical, repr, Double.text_unify]
  | dictionary entries _ => by simp only [canonical, repr, reprEntries_canonical entries]
  | array _ _ _ elements _ => by simp only [canonical, repr, reprs_canonical elements]

theorem reprs_canonical : ∀ vs : List Value, reprs (canonicals vs) = reprs vs
  | [] => rfl
  | v :: vs => by simp only [canonicals, reprs, repr_canonical v, reprs_canonical vs]

theorem reprEntries_canonical : ∀ es : List Entry, reprEntries (canonicalEntries es) = reprEntries es
  | [] => rfl
  | ⟨k, v⟩ :: es => by
    simp only [canonicalEntries, reprEntries, repr_canonical k, repr_canonical v, reprEntries_canonical es]

end

end Value

namespace Pool

variable {p p' : Pool} {c v w : Value}

/-! ### Keys -/

/-- How a key shows a constant. -/
def written : Value → Text
  | .resource path cls _ => cls ++ "#" ++ path
  | v => v.repr

/-- Constants of one type that their keys show alike. -/
structure WrittenAlike (v w : Value) : Prop where
  type : v.type = w.type
  written : written v = written w

theorem bytes_key (v : Value) : (key v).bytes = (Text.ofNat v.type.number).bytes ++ 58 :: (written v).bytes := by
  have hcolon : (Text.ofString ":").bytes = [58] := by decide
  cases v <;> simp [key, written, Text.bytes_append, hcolon]

/-- **A key tells the type of a constant and its written form**, and no more. -/
theorem key_eq_iff : key v = key w ↔ WrittenAlike v w := by
  constructor
  · intro h
    have htype := type_eq_of_key h
    have hbytes := congrArg Text.bytes h
    rw [bytes_key, bytes_key, htype] at hbytes
    exact ⟨htype, congrArg Text.mk (List.cons.inj (List.append_cancel_left hbytes)).2⟩
  · intro ⟨htype, hwritten⟩
    have hbytes : (key v).bytes = (key w).bytes := by rw [bytes_key, bytes_key, htype, hwritten]
    exact congrArg Text.mk hbytes

theorem written_canonical (v : Value) : written v.canonical = written v := by
  cases v with
  | resource => rfl
  | _ => exact Value.repr_canonical _

theorem writtenAlike_of_identical (h : v.Identical w) : WrittenAlike v w := by
  refine ⟨?_, ?_⟩
  · rw [← v.type_canonical, h, w.type_canonical]
  · rw [← written_canonical, h, written_canonical]

/-! ### One request -/

/-- The numbers of a pool are those of different names and keys, and its constants have their keys. -/
structure WellFormed (p : Pool) : Prop where
  names : p.names.Nodup
  keys : (p.constants.map Prod.fst).Nodup
  keyed : p.Keyed

theorem wellFormed_empty : WellFormed {} := ⟨List.nodup_nil, List.nodup_nil, nofun⟩

/-- What the functions of a program add to their pool, and the numbers they ask it for. -/
inductive Request where
  | name (n : Text)
  | constant (v : Value)
  | function (f : Function)

/-- The number that a request is answered with. -/
def serve (p : Pool) : Request → Nat × Pool
  | .name n => p.name n
  | .constant v => p.constant v
  | .function f => p.add f

/-- A number in a pool stands for what it was given for. -/
def Stands (p : Pool) (i : Nat) : Request → Prop
  | .name n => p.names[i]? = some n
  | .constant v => ∃ c, p.constants[i]? = some (key v, c) ∧ WrittenAlike c v
  | .function f => p.functions[i]? = some f

/-- The numbers of one pool are still there in another. -/
structure Grows (p p' : Pool) : Prop where
  names : p.names <+: p'.names
  rest : p.Le p'

theorem Grows.refl (p : Pool) : p.Grows p := ⟨List.prefix_refl _, .refl p⟩

theorem Grows.trans {p'' : Pool} (h : p.Grows p') (h' : p'.Grows p'') : p.Grows p'' :=
  ⟨h.names.trans h'.names, h.rest.trans h'.rest⟩

theorem getElem?_of_prefix {α : Type} {xs ys : List α} {i : Nat} {x : α} (h : xs <+: ys) (hx : xs[i]? = some x) :
    ys[i]? = some x := by
  obtain ⟨zs, rfl⟩ := h
  obtain ⟨hi, _⟩ := List.getElem?_eq_some_iff.1 hx
  rwa [List.getElem?_append_left hi]

/-- A number keeps what it stands for. -/
theorem Stands.grow {i : Nat} {r : Request} (h : p.Stands i r) (hp : p.Grows p') : p'.Stands i r := by
  cases r with
  | name n => exact getElem?_of_prefix hp.names h
  | constant v =>
    obtain ⟨c, hc, hwritten⟩ := h
    exact ⟨c, getElem?_of_prefix hp.rest.constants hc, hwritten⟩
  | function f => exact getElem?_of_prefix hp.rest.functions h

/-- What one request does to a pool. -/
structure Served (p : Pool) (r : Request) (i : Nat) (p' : Pool) : Prop where
  wellFormed : p'.WellFormed
  grows : p.Grows p'
  stands : p'.Stands i r

theorem served_name (h : p.WellFormed) (n : Text) : Served p (.name n) (p.name n).1 (p.name n).2 := by
  unfold name
  cases hfind : p.names.findIdx? (· = n) with
  | some i =>
    obtain ⟨hi, hn, _⟩ := List.findIdx?_eq_some_iff_getElem.1 hfind
    have hn : p.names[i] = n := by simpa using hn
    exact ⟨h, .refl p, by simp [Stands, List.getElem?_eq_getElem hi, hn]⟩
  | none =>
    have hnew : n ∉ p.names := fun hmem => by simpa using List.findIdx?_eq_none_iff.1 hfind n hmem
    have hnames : (p.names ++ [n]).Nodup := by
      rw [List.nodup_append]
      exact ⟨h.names, by simp, fun a ha b hb he => hnew (List.mem_singleton.1 hb ▸ he ▸ ha)⟩
    exact ⟨⟨hnames, h.keys, h.keyed⟩, ⟨List.prefix_append _ _, List.prefix_refl _, List.prefix_refl _, fun h => h⟩,
      by simp [Stands]⟩

theorem served_constant (h : p.WellFormed) (v : Value) :
    Served p (.constant v) (p.constant v).1 (p.constant v).2 := by
  have hkeyed := (p.le_constant v).keyed h.keyed
  have hle := p.le_constant v
  unfold constant at hkeyed hle ⊢
  dsimp only at hkeyed hle ⊢
  cases hfind : p.constants.findIdx? (·.1 = key v) with
  | some i =>
    obtain ⟨hi, hk, _⟩ := List.findIdx?_eq_some_iff_getElem.1 hfind
    have hk : p.constants[i].1 = key v := by simpa using hk
    refine ⟨h, .refl p, p.constants[i].2, ?_, ?_⟩
    · rw [List.getElem?_eq_getElem hi, ← hk]
    · rw [← key_eq_iff, ← h.keyed _ (List.getElem_mem hi), hk]
  | none =>
    have hnew : ∀ c ∈ p.constants, c.1 ≠ key v := by simpa using hfind
    rw [hfind] at hkeyed hle
    refine ⟨⟨h.names, ?_, hkeyed⟩, ⟨List.prefix_refl _, hle⟩, v, by simp, ⟨rfl, rfl⟩⟩
    rw [List.map_append, List.nodup_append]
    refine ⟨h.keys, by simp, ?_⟩
    rintro _ ha _ hb rfl
    obtain ⟨c, hc, hkey⟩ := List.mem_map.1 ha
    exact hnew c hc (by simpa [hkey] using hb)

/-- **A request is answered** with a number that stands for it, and what was numbered before keeps its number. -/
theorem served (h : p.WellFormed) (r : Request) : Served p r (p.serve r).1 (p.serve r).2 := by
  cases r with
  | name n => exact served_name h n
  | constant v => exact served_constant h v
  | function f => exact ⟨⟨h.names, h.keys, h.keyed⟩, ⟨List.prefix_refl _, p.le_add f⟩, by simp [serve, add, Stands]⟩

/-! ### All requests -/

/-- The numbers that requests are answered with one after another, and the pool in the end. -/
def serveAll : List Request → Pool → List Nat × Pool
  | [], p => ([], p)
  | r :: rs, p =>
    let (i, p₁) := p.serve r
    let (is, p₂) := serveAll rs p₁
    (i :: is, p₂)

/-- What requests do to a pool: each number stands for what it was given for, also in the end. -/
structure AllServed (p : Pool) (rs : List Request) (is : List Nat) (p' : Pool) : Prop where
  wellFormed : p'.WellFormed
  grows : p.Grows p'
  stands : List.Forall₂ (fun r i => p'.Stands i r) rs is

theorem allServed (rs : List Request) (h : p.WellFormed) : AllServed p rs (serveAll rs p).1 (serveAll rs p).2 := by
  induction rs generalizing p with
  | nil => exact ⟨h, .refl p, .nil⟩
  | cons r rs ih =>
    have hr := served h r
    have hrs := ih hr.wellFormed
    exact ⟨hrs.wellFormed, hr.grows.trans hrs.grows, .cons (hr.stands.grow hrs.grows) hrs.stands⟩

theorem serveAll_append (rs rs' : List Request) (p : Pool) :
    serveAll (rs ++ rs') p =
      ((serveAll rs p).1 ++ (serveAll rs' (serveAll rs p).2).1, (serveAll rs' (serveAll rs p).2).2) := by
  induction rs generalizing p with
  | nil => rfl
  | cons r rs ih => simp only [List.cons_append, serveAll, ih]

theorem eq_of_getElem?_nodup {α : Type} {xs : List α} (h : xs.Nodup) {i j : Nat} {x : α} (hi : xs[i]? = some x)
    (hj : xs[j]? = some x) : i = j := by
  obtain ⟨hi, rfl⟩ := List.getElem?_eq_some_iff.1 hi
  obtain ⟨hj, hx⟩ := List.getElem?_eq_some_iff.1 hj
  exact (h.getElem_inj_iff.1 hx).symm

/-- Names have one number iff they are one name. -/
theorem WellFormed.name_eq_iff (h : p.WellFormed) {i j : Nat} {n m : Text} (hn : p.Stands i (.name n))
    (hm : p.Stands j (.name m)) : i = j ↔ n = m := by
  constructor
  · rintro rfl
    exact Option.some.inj (hn.symm.trans hm)
  · rintro rfl
    exact eq_of_getElem?_nodup h.names hn hm

/-- Constants have one number iff they have one type and are written alike. -/
theorem WellFormed.constant_eq_iff (h : p.WellFormed) {i j : Nat} (hv : p.Stands i (.constant v))
    (hw : p.Stands j (.constant w)) : i = j ↔ WrittenAlike v w := by
  obtain ⟨c, hc, _⟩ := hv
  obtain ⟨d, hd, _⟩ := hw
  rw [← key_eq_iff]
  constructor
  · rintro rfl
    rw [hc] at hd
    exact congrArg Prod.fst (Option.some.inj hd)
  · intro hkey
    have hi : (p.constants.map Prod.fst)[i]? = some (key v) := by simp [hc]
    have hj : (p.constants.map Prod.fst)[j]? = some (key v) := by simp [hd, hkey]
    exact eq_of_getElem?_nodup h.keys hi hj

end Pool

end GameScript
