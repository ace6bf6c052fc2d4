import GameScript.Proofs.Code.Wire.Intake
import Mathlib.Data.List.Nodup
import Mathlib.Data.List.Perm.Subperm

/-!
# Equality and order of exact values

A value is exact (`Value.Exact`) if there are no floats and no resources in it at any depth. On exact values
equality is an equivalence, and the order, where it is defined, is a strict weak order of the classes of equal
values (`Value.exact_ordered`).

* Plain values are compared by their `digits`, whose lists are linearly ordered.
* Arrays are compared by the first elements that are not equal. Elements may be equal without being
  comparable, a string and a string name for instance, so equality and order are taken together: `relation?`
  is what one value is to another, and `relation?_trans` composes two such relations.
* Equality of dictionaries looks only for the keys of the first one. Since the keys of each differ and there
  are as many in both, none of the second is left over (`matches_symm`).
-/

namespace GameScript

namespace Value

variable {x y z : Value} {o o₁ o₂ : Ordering}

/-! ### Plain values -/

/-- Whether a value has no floats, and no parts that are values. -/
def isPlain : Value → Bool
  | nil | bool _ | int _ | string _ | stringName _ | nodePath _ | vector2i .. | vector3i .. => true
  | _ => false

/-- A value with a string for a string name. -/
def unnamed : Value → Value
  | stringName t => string t
  | v => v

/-- The numbers that a plain value is compared by, the first one first. -/
def digits : Value → List Int
  | bool b => [b.toInt]
  | int i => [i.toInt]
  | string t | stringName t => t.bytes.map fun b => (b.toNat : Int)
  | vector2i x y => [x.toInt, y.toInt]
  | vector3i x y z => [x.toInt, y.toInt, z.toInt]
  | _ => []

theorem equal_plain_iff (hx : x.isPlain = true) (hy : y.isPlain = true) :
    x.equal y = true ↔ x.unnamed = y.unnamed := by
  cases x <;> cases hx
  all_goals
    cases y <;> cases hy
    all_goals simp [equal, unnamed, and_assoc]

theorem digits_unnamed (x : Value) : x.unnamed.digits = x.digits := by
  cases x <;> rfl

/-- The order of two integers, with the order of what follows them if they are the same. -/
theorem orderOf_then (a b : Int64) (o : Ordering) :
    (if a = b then o else orderOf (a < b) true) = (compare a.toInt b.toInt).then o := by
  by_cases h : a = b
  · rw [h, if_pos rfl, Std.compare_eq_iff_eq.mpr rfl]
    rfl
  · rw [if_neg h]
    rcases Int.lt_or_gt_of_ne fun heq => h (Int64.toInt_inj.mp heq) with hlt | hgt
    · rw [Int.compare_eq_lt.mpr hlt]
      simp [orderOf, Int64.lt_iff_toInt_lt.mpr hlt]
    · rw [Int.compare_eq_gt.mpr hgt]
      simp [orderOf, Int64.lt_iff_toInt_lt, hgt.le]

theorem orderOf_eq_compare (a b : Int64) : orderOf (a < b) (b < a) = compare a.toInt b.toInt := by
  rw [← Ordering.then_eq (o := compare _ _), ← orderOf_then]
  by_cases h : a = b
  · simp [h, orderOf]
  · by_cases hlt : a < b
    · simp [h, orderOf, hlt]
    · have hgt : b < a := by
        rw [Int64.lt_iff_toInt_lt] at hlt ⊢
        have : a.toInt ≠ b.toInt := fun heq => h (Int64.toInt_inj.mp heq)
        omega
      simp [h, orderOf, hlt, hgt]

theorem compareBytes_eq_compare (as bs : List UInt8) :
    Text.compareBytes as bs = compare (as.map fun b => (b.toNat : Int)) (bs.map fun b => (b.toNat : Int)) := by
  induction as generalizing bs with
  | nil => cases bs <;> rfl
  | cons a as ih =>
    cases bs with
    | nil => rfl
    | cons b bs =>
      rw [Text.compareBytes, ih]
      simp only [List.map_cons, List.compare_eq_compareLex, List.compareLex_cons_cons, UInt8.lt_iff_toNat_lt]
      rcases Nat.lt_trichotomy a.toNat b.toNat with h | h | h
      · rw [if_pos h, Int.compare_eq_lt.mpr (Int.ofNat_lt.mpr h)]
        rfl
      · rw [h, if_neg (by omega), if_neg (by omega), Std.compare_eq_iff_eq.mpr rfl]
        rfl
      · rw [if_neg (by omega), if_pos h, Int.compare_eq_gt.mpr (Int.ofNat_lt.mpr h)]
        rfl

/-- Whether plain values of a type have an order. -/
def isOrderedType : BuiltinType → Bool
  | .bool | .int | .string | .stringName | .vector2i | .vector3i => true
  | _ => false

/-- Ordered values of one type are equal when their digits are the same. -/
theorem digits_eq_iff (hx : x.isPlain = true) (hy : y.isPlain = true) (htype : x.type = y.type)
    (hordered : isOrderedType x.type = true) : x.digits = y.digits ↔ x.unnamed = y.unnamed := by
  have hbytes : Function.Injective fun b : UInt8 => (b.toNat : Int) := fun a b h =>
    UInt8.toNat_inj.mp (Int.ofNat_inj.mp h)
  have texts (t u : Text) : t.bytes = u.bytes ↔ t = u := by
    obtain ⟨t⟩ := t
    obtain ⟨u⟩ := u
    exact (Text.mk.injEq t u).symm ▸ Iff.rfl
  have bools (a b : Bool) : a.toInt = b.toInt ↔ a = b := by
    cases a <;> cases b <;> decide
  cases x <;> cases hx
  all_goals
    cases y <;> cases hy
    all_goals simp [type, isOrderedType, digits, unnamed, Int64.toInt_inj, (List.map_injective_iff.mpr hbytes).eq_iff,
      texts, bools] at htype hordered ⊢

/-- Plain values of one type are compared by their digits. -/
theorem compare?_plain (hx : x.isPlain = true) (hy : y.isPlain = true) :
    compare? x y = if x.type = y.type ∧ isOrderedType x.type then some (compare x.digits y.digits) else none := by
  have bools (a b : Bool) : orderOf (!a && b) (a && !b) = compare a.toInt b.toInt := by
    cases a <;> cases b <;> rfl
  cases x <;> cases hx
  all_goals
    cases y <;> cases hy
    all_goals simp [compare?, type, isOrderedType, digits, bools, orderOf_eq_compare, orderOf_then, Text.compare,
      compareBytes_eq_compare, List.compare_eq_compareLex, Ordering.then_eq]

/-! ### Exact values -/

/-- An **exact value** is made of plain values. As in every dictionary, the keys of a dictionary differ. -/
inductive Exact : Value → Prop
  | plain {v : Value} (h : v.isPlain = true) : Exact v
  | array {kind element : BuiltinType} {name : Text} {elements : List Value} {frozen : Bool}
    (h : ∀ v ∈ elements, Exact v) : Exact (.array kind element name elements frozen)
  | dictionary {entries : List Entry} {frozen : Bool} (nodup : (entries.map (·.key.hash)).Nodup)
    (keys : ∀ e ∈ entries, Exact e.key) (values : ∀ e ∈ entries, Exact e.value) :
    Exact (.dictionary entries frozen)

theorem exact_insertEntry {key value : Value} (hk : key.Exact) (hv : value.Exact) {es : List Entry} {frozen : Bool}
    (h : (dictionary es frozen).Exact) : (dictionary (insertEntry key value es) frozen).Exact := by
  rcases h with ⟨⟨⟩⟩ | _ | ⟨hnodup, hkeys, hvalues⟩
  refine .dictionary ?_ (fun e he => ?_) fun e he => ?_
  · rw [map_hash_insertEntry]
    split
    · exact hnodup
    · rename_i hnew
      exact List.nodup_append.mpr ⟨hnodup, by simp, fun a ha b hb heq =>
        hnew (List.mem_singleton.mp hb ▸ heq ▸ ha)⟩
  · rcases mem_insertEntry he with he | ⟨-, hkey | ⟨e', he', hkey⟩⟩
    · exact hkeys e he
    · exact hkey ▸ hk
    · exact hkey ▸ hkeys e' he'
  · rcases mem_insertEntry he with he | ⟨hvalue, -⟩
    · exact hvalues e he
    · exact hvalue ▸ hv

/-- A dictionary of exact keys and values is exact. -/
theorem exact_ofEntries {es : List Entry} (h : ∀ e ∈ es, e.key.Exact ∧ e.value.Exact) (frozen : Bool) :
    (ofEntries es frozen).Exact := by
  have key : ∀ acc : List Entry, (dictionary acc frozen).Exact →
      (dictionary (es.foldl (fun acc e => insertEntry e.key e.value acc) acc) frozen).Exact := by
    induction es with
    | nil => exact fun acc hacc => hacc
    | cons e es ih =>
      intro acc hacc
      obtain ⟨hk, hv⟩ := h e (by simp)
      exact ih (fun e' he' => h e' (by simp [he'])) _ (exact_insertEntry hk hv hacc)
  exact key [] (.dictionary List.nodup_nil (by simp) (by simp))

/-! ### Equality -/

section Equality

variable {as bs cs : List Value} {es fs gs : List Entry} {kind element : BuiltinType} {name : Text} {frozen : Bool}

/-- Arrays of equal length with equal elements at every index. -/
def ElementsEqual (as bs : List Value) : Prop :=
  as.length = bs.length ∧ ∀ (i : Nat) (ha : i < as.length) (hb : i < bs.length), as[i].equal bs[i] = true

theorem elementsEqual_cons {a b : Value} :
    ElementsEqual (a :: as) (b :: bs) ↔ a.equal b = true ∧ ElementsEqual as bs := by
  constructor
  · rintro ⟨hlen, hall⟩
    refine ⟨hall 0 (by simp) (by simp), by simpa using hlen, fun i ha hb => ?_⟩
    exact hall (i + 1) (by simpa using ha) (by simpa using hb)
  · rintro ⟨hab, hlen, hall⟩
    refine ⟨by simpa using hlen, fun i ha hb => ?_⟩
    cases i with
    | zero => exact hab
    | succ i => exact hall i (by simpa using ha) (by simpa using hb)

theorem equalElements_iff : (as.length = bs.length && equalElements as bs) = true ↔ ElementsEqual as bs := by
  induction as generalizing bs with
  | nil =>
    cases bs with
    | nil => simp [equalElements, ElementsEqual]
    | cons b bs => simp [ElementsEqual]
  | cons a as ih =>
    cases bs with
    | nil => simp [ElementsEqual]
    | cons b bs =>
      rw [elementsEqual_cons, ← ih]
      simp only [equalElements, List.length_cons, Nat.add_right_cancel_iff, Bool.and_eq_true, decide_eq_true_eq]
      exact and_left_comm

/-- Only an array is equal to an array. -/
theorem equal_array_iff : (array kind element name as frozen).equal y = true ↔
    ∃ kind' element' name' bs frozen', y = array kind' element' name' bs frozen' ∧ ElementsEqual as bs := by
  constructor
  · intro h
    cases y with
    | array kind' element' name' bs frozen' =>
      rw [equal, equalElements_iff] at h
      exact ⟨kind', element', name', bs, frozen', rfl, h⟩
    | _ => simp [equal] at h
  · rintro ⟨kind', element', name', bs, frozen', rfl, h⟩
    rwa [equal, equalElements_iff]

/-- Each key of the first dictionary has an equal value in the second one. -/
def Matches (es fs : List Entry) : Prop :=
  ∀ e ∈ es, ∃ f ∈ fs, f.key.hash = e.key.hash ∧ e.value.equal f.value = true

theorem eq_of_hash_eq (h : (es.map (·.key.hash)).Nodup) {e f : Entry} (he : e ∈ es) (hf : f ∈ es)
    (hhash : e.key.hash = f.key.hash) : e = f :=
  List.inj_on_of_nodup_map h he hf hhash

theorem lookup?_eq_some_iff (h : (es.map (·.key.hash)).Nodup) {key w : Value} :
    lookup? key es = some w ↔ ∃ e ∈ es, e.key.hash = key.hash ∧ e.value = w := by
  unfold lookup?
  constructor
  · intro hw
    obtain ⟨e, he, rfl⟩ := Option.map_eq_some_iff.mp hw
    exact ⟨e, List.mem_of_find?_eq_some he, by simpa using List.find?_some he, rfl⟩
  · rintro ⟨e, he, hhash, rfl⟩
    have hsome : (es.find? (·.key.hash = key.hash)).isSome := List.find?_isSome.mpr ⟨e, he, by simpa using hhash⟩
    obtain ⟨f, hf⟩ := Option.isSome_iff_exists.mp hsome
    have hfhash : f.key.hash = key.hash := by simpa using List.find?_some hf
    rw [hf, eq_of_hash_eq h (List.mem_of_find?_eq_some hf) he (hfhash.trans hhash.symm)]
    rfl

theorem equalEntries_cons {k v : Value} : equalEntries (⟨k, v⟩ :: es) fs = true ↔
    (∃ w, lookup? k fs = some w ∧ v.equal w = true) ∧ equalEntries es fs = true := by
  rw [equalEntries]
  cases lookup? k fs <;> simp

theorem equalEntries_iff (h : (fs.map (·.key.hash)).Nodup) : equalEntries es fs = true ↔ Matches es fs := by
  induction es with
  | nil => simp [equalEntries, Matches]
  | cons e es ih =>
    obtain ⟨k, v⟩ := e
    rw [equalEntries_cons, ih]
    simp only [lookup?_eq_some_iff h, Matches, List.forall_mem_cons, Entry.key_mk, Entry.value_mk]
    refine and_congr_left fun _ => ?_
    constructor
    · rintro ⟨_, ⟨f, hf, hhash, rfl⟩, heq⟩
      exact ⟨f, hf, hhash, heq⟩
    · rintro ⟨f, hf, hhash, heq⟩
      exact ⟨f.value, ⟨f, hf, hhash, rfl⟩, heq⟩

/-- Only a dictionary is equal to a dictionary. -/
theorem equal_dictionary_iff (hy : y.Exact) : (dictionary es frozen).equal y = true ↔
    ∃ fs frozen', y = dictionary fs frozen' ∧ es.length = fs.length ∧ Matches es fs := by
  constructor
  · intro h
    rcases hy with hy | _ | ⟨hnodup, -, -⟩
    · cases y with
      | dictionary => cases hy
      | _ => simp [equal] at h
    · simp [equal] at h
    · rw [equal, Bool.and_eq_true, decide_eq_true_eq, equalEntries_iff hnodup] at h
      exact ⟨_, _, rfl, h⟩
  · rintro ⟨fs, frozen', rfl, hlen, h⟩
    rcases hy with hy | _ | ⟨hnodup, -, -⟩
    · cases hy
    · rw [equal, Bool.and_eq_true, decide_eq_true_eq, equalEntries_iff hnodup]
      exact ⟨hlen, h⟩

/-- Only a plain value is equal to a plain value. -/
theorem isPlain_of_equal (hx : x.isPlain = true) (hy : y.Exact) (h : x.equal y = true) : y.isPlain = true := by
  rcases hy with hy | _ | _
  · exact hy
  · cases x <;> simp [equal] at h
    cases hx
  · cases x <;> simp [equal] at h
    cases hx

theorem equal_refl (hx : x.Exact) : x.equal x = true := by
  induction hx with
  | plain h => exact (equal_plain_iff h h).mpr rfl
  | array _ ih => exact equal_array_iff.mpr ⟨_, _, _, _, _, rfl, rfl, fun i hi _ => ih _ (List.getElem_mem hi)⟩
  | dictionary nodup keys values _ ih =>
    refine (equal_dictionary_iff (.dictionary nodup keys values)).mpr ⟨_, _, rfl, rfl, fun e he => ?_⟩
    exact ⟨e, he, rfl, ih e he⟩

/-- If the keys of two dictionaries of equal size differ and each key of the first is one of the second, then each
key of the second is one of the first. -/
theorem matches_symm (hes : (es.map (·.key.hash)).Nodup) (hfs : (fs.map (·.key.hash)).Nodup)
    (hlen : es.length = fs.length)
    (hsymm : ∀ e ∈ es, ∀ f ∈ fs, e.value.equal f.value = true → f.value.equal e.value = true)
    (h : Matches es fs) : Matches fs es := by
  have hsub : es.map (·.key.hash) ⊆ fs.map (·.key.hash) := by
    intro hash hmem
    obtain ⟨e, he, rfl⟩ := List.mem_map.mp hmem
    obtain ⟨f, hf, hhash, -⟩ := h e he
    exact List.mem_map.mpr ⟨f, hf, hhash⟩
  have hperm : (es.map (·.key.hash)).Perm (fs.map (·.key.hash)) :=
    (List.subperm_of_subset hes hsub).perm_of_length_le (by simp [hlen])
  intro f hf
  obtain ⟨e, he, hhash⟩ := List.mem_map.mp (hperm.mem_iff.mpr (List.mem_map_of_mem hf))
  obtain ⟨f', hf', hhash', heq⟩ := h e he
  obtain rfl := eq_of_hash_eq hfs hf' hf (hhash'.trans hhash)
  exact ⟨e, he, hhash, hsymm e he f' hf' heq⟩

theorem equal_symm (hx : x.Exact) (hy : y.Exact) (h : x.equal y = true) : y.equal x = true := by
  induction hx generalizing y with
  | plain hx =>
    have hplain := isPlain_of_equal hx hy h
    exact (equal_plain_iff hplain hx).mpr ((equal_plain_iff hx hplain).mp h).symm
  | array _ ih =>
    obtain ⟨_, _, _, bs, _, rfl, hlen, hall⟩ := equal_array_iff.mp h
    rcases hy with ⟨⟨⟩⟩ | hbs | _
    refine equal_array_iff.mpr ⟨_, _, _, _, _, rfl, hlen.symm, fun i hb ha => ?_⟩
    exact ih _ (List.getElem_mem ha) (hbs _ (List.getElem_mem hb)) (hall i ha hb)
  | dictionary nodup keys values _ ih =>
    obtain ⟨fs, _, rfl, hlen, hmatch⟩ := (equal_dictionary_iff hy).mp h
    rcases hy with ⟨⟨⟩⟩ | _ | ⟨hfs, -, hvalues⟩
    refine (equal_dictionary_iff (.dictionary nodup keys values)).mpr ⟨_, _, rfl, hlen.symm, ?_⟩
    exact matches_symm nodup hfs hlen (fun e he f hf => ih e he (hvalues f hf)) hmatch

theorem equal_comm (hx : x.Exact) (hy : y.Exact) : x.equal y = y.equal x :=
  Bool.eq_iff_iff.mpr ⟨equal_symm hx hy, equal_symm hy hx⟩

theorem equal_trans (hx : x.Exact) (hy : y.Exact) (hz : z.Exact) (hxy : x.equal y = true)
    (hyz : y.equal z = true) : x.equal z = true := by
  induction hx generalizing y z with
  | plain hx =>
    have hplain := isPlain_of_equal hx hy hxy
    have hplain' := isPlain_of_equal hplain hz hyz
    rw [equal_plain_iff hx hplain] at hxy
    rw [equal_plain_iff hplain hplain'] at hyz
    exact (equal_plain_iff hx hplain').mpr (hxy.trans hyz)
  | array _ ih =>
    obtain ⟨_, _, _, bs, _, rfl, hab, habs⟩ := equal_array_iff.mp hxy
    obtain ⟨_, _, _, cs, _, rfl, hbc, hbcs⟩ := equal_array_iff.mp hyz
    rcases hy with ⟨⟨⟩⟩ | hbs | _
    rcases hz with ⟨⟨⟩⟩ | hcs | _
    refine equal_array_iff.mpr ⟨_, _, _, _, _, rfl, hab.trans hbc, fun i ha hc => ?_⟩
    have hb : i < bs.length := hab ▸ ha
    exact ih _ (List.getElem_mem ha) (hbs _ (List.getElem_mem hb)) (hcs _ (List.getElem_mem hc)) (habs i ha hb)
      (hbcs i hb hc)
  | dictionary _ _ _ _ ih =>
    obtain ⟨fs, _, rfl, hef, hefs⟩ := (equal_dictionary_iff hy).mp hxy
    obtain ⟨gs, _, rfl, hfg, hfgs⟩ := (equal_dictionary_iff hz).mp hyz
    rcases id hy with ⟨⟨⟩⟩ | _ | ⟨-, -, hfs⟩
    rcases id hz with ⟨⟨⟩⟩ | _ | ⟨-, -, hgs⟩
    refine (equal_dictionary_iff hz).mpr ⟨_, _, rfl, hef.trans hfg, fun e he => ?_⟩
    obtain ⟨f, hf, hhash, heq⟩ := hefs e he
    obtain ⟨g, hg, hhash', heq'⟩ := hfgs f hf
    exact ⟨g, hg, hhash'.trans hhash, ih e he (hfs f hf) (hgs g hg) heq heq'⟩

end Equality

/-! ### Order -/

section Order

variable {as bs cs : List Value}

theorem compareElements?_of_equal (h : ElementsEqual as bs) : compareElements? as bs = some .eq := by
  induction as generalizing bs with
  | nil =>
    obtain rfl := List.eq_nil_of_length_eq_zero h.1.symm
    rfl
  | cons a as ih =>
    cases bs with
    | nil => simp [ElementsEqual] at h
    | cons b bs =>
      obtain ⟨hab, h⟩ := elementsEqual_cons.mp h
      rw [compareElements?, if_pos hab]
      exact ih h

theorem equal_of_compareElements?
    (ih : ∀ a ∈ as, ∀ b ∈ bs, ∀ o, compare? a b = some o → (o = .eq ↔ a.equal b = true))
    (h : compareElements? as bs = some .eq) : ElementsEqual as bs := by
  induction as generalizing bs with
  | nil =>
    cases bs with
    | nil => exact ⟨rfl, fun i hi => absurd hi (Nat.not_lt_zero i)⟩
    | cons b bs => simp [compareElements?] at h
  | cons a as ih' =>
    cases bs with
    | nil => simp [compareElements?] at h
    | cons b bs =>
      have hab := ih a (by simp) b (by simp)
      rw [compareElements?] at h
      split at h
      · rename_i heq
        refine elementsEqual_cons.mpr ⟨heq, ih' (fun a ha b hb => ih a (by simp [ha]) b (by simp [hb])) h⟩
      · rename_i hne
        exact absurd ((hab _ h).mp rfl) hne

/-- Where there is an order, just the equal values are neither below nor above. -/
theorem compare?_eq_iff (hx : x.Exact) (hy : y.Exact) (h : compare? x y = some o) :
    o = .eq ↔ x.equal y = true := by
  induction hx generalizing y o with
  | @plain x hx =>
    rcases hy with hy | _ | _
    · rw [compare?_plain hx hy] at h
      split at h
      · rename_i htype
        obtain rfl := Option.some.inj h
        rw [Std.compare_eq_iff_eq, equal_plain_iff hx hy]
        exact digits_eq_iff hx hy htype.1 htype.2
      · cases h
    · cases x <;> simp [compare?] at h
      cases hx
    · cases x <;> simp [compare?] at h
  | @array _ _ _ as _ _ ih =>
    cases y with
    | array _ _ _ bs _ =>
      rcases hy with ⟨⟨⟩⟩ | hbs | _
      rw [compare?] at h
      rw [equal, equalElements_iff]
      constructor
      · rintro rfl
        exact equal_of_compareElements? (fun a ha b hb o => ih a ha (hbs b hb)) h
      · intro heq
        rw [compareElements?_of_equal heq] at h
        exact (Option.some.inj h).symm
    | _ => simp [compare?] at h
  | dictionary => cases y <;> simp [compare?] at h

theorem compareElements?_swap
    (ih : ∀ a ∈ as, ∀ b ∈ bs, a.equal b = b.equal a ∧ compare? b a = (compare? a b).map Ordering.swap) :
    compareElements? bs as = (compareElements? as bs).map Ordering.swap := by
  induction as generalizing bs with
  | nil => cases bs <;> rfl
  | cons a as ih' =>
    cases bs with
    | nil => rfl
    | cons b bs =>
      obtain ⟨heq, hswap⟩ := ih a (by simp) b (by simp)
      rw [compareElements?, compareElements?, ← heq]
      split
      · exact ih' fun a ha b hb => ih a (by simp [ha]) b (by simp [hb])
      · exact hswap

theorem compare?_swap (hx : x.Exact) (hy : y.Exact) : compare? y x = (compare? x y).map Ordering.swap := by
  induction hx generalizing y with
  | @plain x hx =>
    rcases hy with hy | _ | _
    · rw [compare?_plain hx hy, compare?_plain hy hx]
      by_cases htype : x.type = y.type
      · simp only [htype, true_and]
        split
        · rw [Option.map_some, ← Std.OrientedCmp.eq_swap]
        · rfl
      · rw [if_neg fun h => htype h.1.symm, if_neg fun h => htype h.1]
        rfl
    · cases x <;> simp [compare?]
      cases hx
    · cases x <;> simp [compare?]
  | @array _ _ _ as _ has ih =>
    cases y with
    | array _ _ _ bs _ =>
      rcases hy with ⟨⟨⟩⟩ | hbs | _
      rw [compare?, compare?]
      exact compareElements?_swap fun a ha b hb => ⟨equal_comm (has a ha) (hbs b hb), ih a ha (hbs b hb)⟩
    | _ => simp [compare?]
  | dictionary => cases y <;> simp [compare?]

/-! ### Equality and order together -/

/-- What one value is to another: equal, below or above. -/
def relation? (x y : Value) : Option Ordering := if x.equal y then some .eq else compare? x y

/-- The order of plain values that are related at all is that of their digits. -/
theorem relation?_plain (hx : x.isPlain = true) (hy : y.isPlain = true) (h : relation? x y = some o) :
    o = compare x.digits y.digits := by
  unfold relation? at h
  split at h
  · rename_i heq
    obtain rfl := Option.some.inj h
    have hunnamed := (equal_plain_iff hx hy).mp heq
    rw [← digits_unnamed x, hunnamed, digits_unnamed y, Std.compare_eq_iff_eq.mpr rfl]
  · rw [compare?_plain hx hy] at h
    split at h
    · exact (Option.some.inj h).symm
    · cases h

theorem isPlain_of_relation? (hx : x.isPlain = true) (hy : y.Exact) (h : relation? x y = some o) :
    y.isPlain = true := by
  unfold relation? at h
  split at h
  · rename_i heq
    exact isPlain_of_equal hx hy heq
  · rcases hy with hy | _ | _
    · exact hy
    · cases x <;> simp [compare?] at h
      cases hx
    · cases x <;> simp [compare?] at h

theorem relation?_array {kind kind' element element' : BuiltinType} {name name' : Text} {frozen frozen' : Bool} :
    relation? (array kind element name as frozen) (array kind' element' name' bs frozen') =
      compareElements? as bs := by
  unfold relation?
  rw [equal, compare?]
  split
  · rename_i h
    exact (compareElements?_of_equal (equalElements_iff.mp h)).symm
  · rfl

theorem array_of_relation? {kind element : BuiltinType} {name : Text} {frozen : Bool}
    (h : relation? (array kind element name as frozen) y = some o) :
    ∃ kind' element' name' bs frozen', y = array kind' element' name' bs frozen' := by
  cases y with
  | array kind' element' name' bs frozen' => exact ⟨kind', element', name', bs, frozen', rfl⟩
  | _ => simp [relation?, equal, compare?] at h

theorem relation?_dictionary {entries : List Entry} {frozen : Bool}
    (h : relation? (dictionary entries frozen) y = some o) :
    (dictionary entries frozen).equal y = true ∧ o = .eq := by
  unfold relation? at h
  split at h
  · rename_i heq
    exact ⟨heq, (Option.some.inj h).symm⟩
  · cases y <;> simp [compare?] at h

theorem compareElements?_cons {a b : Value} (ha : a.Exact) (hb : b.Exact) :
    compareElements? (a :: as) (b :: bs) =
      (relation? a b).bind fun o => if o = .eq then compareElements? as bs else some o := by
  rw [compareElements?, relation?]
  split
  · rfl
  · rename_i hne
    cases h : compare? a b with
    | none => rfl
    | some o =>
      have ho : o ≠ .eq := fun heq => hne ((compare?_eq_iff ha hb h).mp heq)
      rw [Option.bind_some, if_neg ho]

/-- How two relations **compose**, if the first is not above and the second is not above. -/
def Composes (o₁ o₂ o : Ordering) : Prop := o₁ ≠ .gt → o₂ ≠ .gt → o = o₁.then o₂

theorem compare_composes (as bs cs : List Int) : Composes (compare as bs) (compare bs cs) (compare as cs) := by
  intro h₁ h₂
  cases hab : compare as bs with
  | gt => exact absurd hab h₁
  | eq => rw [Std.LawfulEqCmp.eq_of_compare hab, Ordering.eq_then]
  | lt =>
    cases hbc : compare bs cs with
    | gt => exact absurd hbc h₂
    | eq => exact Std.TransCmp.lt_of_lt_of_eq hab hbc
    | lt => exact Std.TransCmp.lt_trans hab hbc

/-- What lists are to each other composes if what their first elements and their rests are composes. -/
theorem composes_cons {r₁ r₂ r : Ordering} {rest₁ rest₂ rest : Option Ordering} (hfirst : Composes r₁ r₂ r)
    (hrest : rest₁ = some o₁ → rest₂ = some o₂ → rest = some o → Composes o₁ o₂ o)
    (hab : (if r₁ = .eq then rest₁ else some r₁) = some o₁) (hbc : (if r₂ = .eq then rest₂ else some r₂) = some o₂)
    (hac : (if r = .eq then rest else some r) = some o) : Composes o₁ o₂ o := by
  intro h₁ h₂
  by_cases he₁ : r₁ = .eq
  · subst he₁
    by_cases he₂ : r₂ = .eq
    · subst he₂
      obtain rfl : r = .eq := hfirst (by simp) (by simp)
      exact hrest hab hbc hac h₁ h₂
    · -- the first list is as good as the second one until the third is above both
      rw [if_neg he₂] at hbc
      obtain rfl := Option.some.inj hbc
      obtain rfl : r = r₂ := hfirst (by simp) h₂
      rw [if_neg he₂] at hac
      obtain rfl := Option.some.inj hac
      cases o₁ <;> cases r <;> simp at h₁ h₂ he₂ ⊢
  · rw [if_neg he₁] at hab
    obtain rfl := Option.some.inj hab
    obtain rfl : r₁ = .lt := by cases r₁ <;> simp at h₁ he₁ ⊢
    have hr₂ : r₂ ≠ .gt := by
      rintro rfl
      exact h₂ (Option.some.inj hbc).symm
    obtain rfl : r = .lt := hfirst (by simp) hr₂
    exact (Option.some.inj hac).symm

theorem compareElements?_trans (has : ∀ a ∈ as, a.Exact) (hbs : ∀ b ∈ bs, b.Exact) (hcs : ∀ c ∈ cs, c.Exact)
    (ih : ∀ a ∈ as, ∀ b ∈ bs, ∀ c ∈ cs, ∀ o₁ o₂ o, relation? a b = some o₁ → relation? b c = some o₂ →
      relation? a c = some o → Composes o₁ o₂ o)
    (hab : compareElements? as bs = some o₁) (hbc : compareElements? bs cs = some o₂)
    (hac : compareElements? as cs = some o) : Composes o₁ o₂ o := by
  induction as generalizing bs cs with
  | nil =>
    intro h₁ h₂
    cases bs with
    | nil =>
      obtain rfl := Option.some.inj hab
      exact Option.some.inj (hac.symm.trans hbc)
    | cons b bs =>
      obtain rfl := Option.some.inj hab
      cases cs with
      | nil => exact absurd (Option.some.inj hbc).symm h₂
      | cons c cs => exact (Option.some.inj hac).symm
  | cons a as ih' =>
    intro h₁ h₂
    cases bs with
    | nil => exact absurd (Option.some.inj hab).symm h₁
    | cons b bs =>
      cases cs with
      | nil => exact absurd (Option.some.inj hbc).symm h₂
      | cons c cs =>
        have ha := has a (by simp)
        have hb := hbs b (by simp)
        have hc := hcs c (by simp)
        rw [compareElements?_cons ha hb, Option.bind_eq_some_iff] at hab
        rw [compareElements?_cons hb hc, Option.bind_eq_some_iff] at hbc
        rw [compareElements?_cons ha hc, Option.bind_eq_some_iff] at hac
        obtain ⟨r₁, hr₁, hab⟩ := hab
        obtain ⟨r₂, hr₂, hbc⟩ := hbc
        obtain ⟨r, hr, hac⟩ := hac
        refine composes_cons (ih a (by simp) b (by simp) c (by simp) r₁ r₂ r hr₁ hr₂ hr) ?_ hab hbc hac h₁ h₂
        refine ih' (fun _ h => has _ (List.mem_cons_of_mem a h)) (fun _ h => hbs _ (List.mem_cons_of_mem b h))
          (fun _ h => hcs _ (List.mem_cons_of_mem c h)) fun _ ha _ hb _ hc => ?_
        exact ih _ (List.mem_cons_of_mem a ha) _ (List.mem_cons_of_mem b hb) _ (List.mem_cons_of_mem c hc)

theorem relation?_of_compare? (hx : x.Exact) (hy : y.Exact) (h : compare? x y = some o) : relation? x y = some o := by
  unfold relation?
  split
  · rename_i heq
    rw [(compare?_eq_iff hx hy h).mpr heq]
  · exact h

/-- **Equality and order compose.** -/
theorem relation?_trans (hx : x.Exact) (hy : y.Exact) (hz : z.Exact) (hxy : relation? x y = some o₁)
    (hyz : relation? y z = some o₂) (hxz : relation? x z = some o) : Composes o₁ o₂ o := by
  induction hx generalizing y z o₁ o₂ o with
  | plain hx =>
    have hplain := isPlain_of_relation? hx hy hxy
    have hplain' := isPlain_of_relation? hx hz hxz
    rw [relation?_plain hx hplain hxy, relation?_plain hplain hplain' hyz, relation?_plain hx hplain' hxz]
    exact compare_composes _ _ _
  | array has ih =>
    obtain ⟨_, _, _, bs, _, rfl⟩ := array_of_relation? hxy
    obtain ⟨_, _, _, cs, _, rfl⟩ := array_of_relation? hxz
    rcases hy with ⟨⟨⟩⟩ | hbs | _
    rcases hz with ⟨⟨⟩⟩ | hcs | _
    rw [relation?_array] at hxy hyz hxz
    exact compareElements?_trans has hbs hcs
      (fun a ha b hb c hc _ _ _ hab hbc hac => ih a ha (hbs b hb) (hcs c hc) hab hbc hac) hxy hyz hxz
  | dictionary nodup keys values =>
    obtain ⟨hequal, rfl⟩ := relation?_dictionary hxy
    obtain ⟨fs, frozen', rfl, -⟩ := (equal_dictionary_iff hy).mp hequal
    obtain ⟨-, rfl⟩ := relation?_dictionary hyz
    obtain ⟨-, rfl⟩ := relation?_dictionary hxz
    exact fun _ _ => rfl

/-- **Exact values are ordered.** On exact values equality is reflexive, symmetric and transitive. Wherever one
is compared with another, the opposite comparison gives the opposite, just the equal ones are neither below
nor above, and what is below a value that is below a third one is below that, if the two are compared at all. -/
theorem exact_ordered (x y z : Value) (hx : x.Exact) (hy : y.Exact) (hz : z.Exact) :
    x.equal x = true ∧ x.equal y = y.equal x ∧ (x.equal y = true → y.equal z = true → x.equal z = true) ∧
      compare? y x = (compare? x y).map Ordering.swap ∧
      (∀ o, compare? x y = some o → (o = .eq ↔ x.equal y = true)) ∧
      (∀ o, compare? x y = some .lt → compare? y z = some .lt → compare? x z = some o → o = .lt) := by
  refine ⟨equal_refl hx, equal_comm hx hy, equal_trans hx hy hz, compare?_swap hx hy,
    fun o => compare?_eq_iff hx hy, fun o hxy hyz hxz => ?_⟩
  have h := relation?_trans hx hy hz (relation?_of_compare? hx hy hxy) (relation?_of_compare? hy hz hyz)
    (relation?_of_compare? hx hz hxz)
  exact h (by simp) (by simp)

/-- Three arrays in increasing order. They begin with texts that are equal without being comparable, and go on with
equal dictionaries. -/
theorem exact_ordered_arrays :
    let x := ofList [string "a", ofEntries [⟨string "k", int 1⟩, ⟨int 2, nil⟩] false, int 1]
    let y := ofList [stringName "a", ofEntries [⟨int 2, nil⟩, ⟨stringName "k", int 1⟩] false, int 2]
    let z := ofList [string "a", ofEntries [⟨string "k", int 1⟩, ⟨int 2, nil⟩] false, int 3]
    x.Exact ∧ y.Exact ∧ z.Exact ∧ compare? x y = some .lt ∧ compare? y z = some .lt ∧
      compare? y x = some .gt ∧ ∀ o, compare? x z = some o → o = .lt := by
  intro x y z
  have exact_triple (t : Value) (es : List Entry) (i : Int64) (ht : t.isPlain = true)
      (hes : ∀ e ∈ es, e.key.Exact ∧ e.value.Exact) : (ofList [t, ofEntries es false, int i]).Exact := by
    refine .array fun v hv => ?_
    simp only [List.mem_cons, List.not_mem_nil, or_false] at hv
    rcases hv with rfl | rfl | rfl
    · exact .plain ht
    · exact exact_ofEntries hes false
    · exact .plain rfl
  have hx : x.Exact := exact_triple _ _ _ rfl (by simpa using ⟨⟨.plain rfl, .plain rfl⟩, .plain rfl, .plain rfl⟩)
  have hy : y.Exact := exact_triple _ _ _ rfl (by simpa using ⟨⟨.plain rfl, .plain rfl⟩, .plain rfl, .plain rfl⟩)
  have hz : z.Exact := exact_triple _ _ _ rfl (by simpa using ⟨⟨.plain rfl, .plain rfl⟩, .plain rfl, .plain rfl⟩)
  have hxy : compare? x y = some .lt := by decide
  have hyz : compare? y z = some .lt := by decide
  obtain ⟨-, -, -, hswap, -, htrans⟩ := exact_ordered x y z hx hy hz
  rw [hxy] at hswap
  exact ⟨hx, hy, hz, hxy, hyz, hswap, fun o => htrans o hxy hyz⟩

end Order

end Value

end GameScript
