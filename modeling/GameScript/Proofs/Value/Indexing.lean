import GameScript.Proofs.Value.Conversions

/-!
# Parts of constants and the types of parts

A part of a constant is looked up in the value, a part of anything else is typed from the types of the base and of
the key.

* `Value.component?_rel`, `Value.getNamed_iff` — the named parts of a value are the properties of its type;
* `Value.getIndexed_typed` — **a part that is found has the type that indexing gives it**;
* `Value.getIndexed_fails_iff` — **a key of an admitted type is only missed if it is out of range or absent**
  (`Value.Lacks`), but for the pairs of `BuiltinType.lacksKey`, where no key is ever found.
-/

namespace GameScript

namespace BuiltinType

/-- The pairs of a base and a key that the typing of an index admits although no such value has a part at such a
key: strings and arrays at floats, vectors and colors at integers, and objects at anything but a name. -/
def lacksKey (base key : BuiltinType) : Bool :=
  (key = float && (base = string || base = array || base.isPacked)) ||
    (key = int && (base.isVector || base = color)) || (base = object && !key.isStringLike)

variable {base key : BuiltinType}

theorem int_of_sequence (hs : base = string ∨ base = array ∨ base.isPacked = true)
    (h : (base.indexType? key).isSome = true) (hfound : base.lacksKey key = false) : key = int := by
  have hall : ∀ s ∈ all, ∀ t ∈ all, (s = string ∨ s = array ∨ s.isPacked = true) → (s.indexType? t).isSome = true →
      s.lacksKey t = false → t = int := by decide
  exact hall base (mem_all base) key (mem_all key) hs h hfound

/-- Whether the parts of values have names. -/
def hasNames (t : BuiltinType) : Bool := t.isVector || t = color || t = object

theorem name_of_named (hs : base.hasNames = true) (h : (base.indexType? key).isSome = true)
    (hfound : base.lacksKey key = false) : key.isStringLike = true := by
  have hall : ∀ s ∈ all, ∀ t ∈ all, s.hasNames = true → (s.indexType? t).isSome = true → s.lacksKey t = false →
      t.isStringLike = true := by decide
  exact hall base (mem_all base) key (mem_all key) hs h hfound

/-- Names are not among the keys that are never found. -/
theorem not_name_of_lacksKey (h : base.lacksKey key = true) : key.isStringLike = false := by
  have hall : ∀ s ∈ all, ∀ t ∈ all, s.lacksKey t = true → t.isStringLike = false := by decide
  exact hall base (mem_all base) key (mem_all key) h

theorem indexType?_of_lacksKey (h : base.lacksKey key = true) : (base.indexType? key).isSome = true := by
  have hall : ∀ s ∈ all, ∀ t ∈ all, s.lacksKey t = true → (s.indexType? t).isSome = true := by decide
  exact hall base (mem_all base) key (mem_all key) h

/-- The analysis admits the keys that are found. -/
theorem validIndex_of_found (h : (base.indexType? key).isSome = true) (hfound : base.lacksKey key = false) :
    Analysis.validIndex base key = true := by
  have hall : ∀ s ∈ all, ∀ t ∈ all, (s.indexType? t).isSome = true → s.lacksKey t = false →
      Analysis.validIndex s t = true := by decide
  exact hall base (mem_all base) key (mem_all key) h hfound

/-- The analysis types a part as the table does. -/
theorem insideOf_of_indexType? {d : DeclaredType} (h : base.indexType? key = some d) :
    Analysis.insideOf base ≠ .nothing ∧ ∀ t, Analysis.insideOf base = .of t → d = .builtin t := by
  cases base <;> simp_all [indexType?, Analysis.insideOf, isPacked, packedElement, DeclaredType.of]

theorem indexType?_of_packed (h : base.isPacked = true) :
    base.indexType? int = some (.builtin base.packedElement) := by
  cases base <;> first | rfl | cases h

/-- A name indexes what it is a property of. -/
theorem indexType?_of_property {name : Text} {p : Property} (h : base.property? name = some p)
    (hkey : key.isStringLike = true) : base.indexType? key = some p.type := by
  have htypes : ∀ q ∈ base.properties, base.indexType? key = some q.type := by
    cases base <;> simp [properties, Property.arg, indexType?, hkey]
  exact htypes p (List.mem_of_find?_eq_some h)

end BuiltinType

namespace Value

variable {v w k : Value} {name : Text}

/-! ### Named parts -/

/-- The parts of a vector or a color. -/
def parts : Value → List (Text × Value)
  | vector2 x y => [("x", float x), ("y", float y)]
  | vector2i x y => [("x", int x), ("y", int y)]
  | vector3 x y z => [("x", float x), ("y", float y), ("z", float z)]
  | vector3i x y z => [("x", int x), ("y", int y), ("z", int z)]
  | color r g b a => [("r", float r), ("g", float g), ("b", float b), ("a", float a)]
  | _ => []

/-- A property that has the name and the type of a part. -/
def Describes (part : Text × Value) (p : Property) : Prop := part.1 = p.name ∧ p.type = .builtin part.2.type

theorem describes_properties (hv : v.IsKinded) : List.Forall₂ Describes v.parts v.type.properties := by
  cases v with
  | array kind =>
    have hnone : kind.properties = [] := by
      rcases hv with rfl | hkind
      · rfl
      · cases kind <;> first | rfl | cases hkind
    show List.Forall₂ Describes [] kind.properties
    rw [hnone]
    exact .nil
  | vector2 | vector2i => exact .cons ⟨rfl, rfl⟩ (.cons ⟨rfl, rfl⟩ .nil)
  | vector3 | vector3i => exact .cons ⟨rfl, rfl⟩ (.cons ⟨rfl, rfl⟩ (.cons ⟨rfl, rfl⟩ .nil))
  | color => exact .cons ⟨rfl, rfl⟩ (.cons ⟨rfl, rfl⟩ (.cons ⟨rfl, rfl⟩ (.cons ⟨rfl, rfl⟩ .nil)))
  | _ => exact .nil

/-- The first of some parts with a name is described by the first of the properties with that name. -/
theorem find?_rel {ps : List (Text × Value)} {qs : List Property} (h : List.Forall₂ Describes ps qs) (name : Text) :
    Option.Rel (fun x q => q.type = .builtin x.type) ((ps.find? (·.1 = name)).map Prod.snd)
      (qs.find? (·.name = name)) := by
  induction h with
  | nil => exact .none
  | @cons p q ps qs hpq _ ih =>
    by_cases hname : p.1 = name
    · rw [List.find?_cons_of_pos (by simpa using hname), List.find?_cons_of_pos (by simpa [← hpq.1] using hname)]
      exact .some hpq.2
    · rw [List.find?_cons_of_neg (by simpa using hname), List.find?_cons_of_neg (by simpa [← hpq.1] using hname)]
      exact ih

/-- The named parts of a value that is no dictionary are the properties of its type. -/
theorem component?_rel (hv : v.IsKinded) (hd : v.type ≠ .dictionary) (name : Text) :
    Option.Rel (fun x q => q.type = .builtin x.type) (v.component? name) (v.type.property? name) := by
  have hparts : v.component? name = (v.parts.find? (·.1 = name)).map Prod.snd := by
    cases v with
    | dictionary => exact absurd rfl hd
    | _ => rfl
  rw [hparts]
  exact find?_rel (describes_properties hv) name

theorem getNamed_iff (hv : v.IsKinded) (hd : v.type ≠ .dictionary) (name : Text) :
    (∀ w, v.getNamed name = .ok w → ∃ p, v.type.property? name = some p ∧ p.type = .builtin w.type) ∧
      ∀ p, v.type.property? name = some p → ∃ w, v.getNamed name = .ok w ∧ p.type = .builtin w.type := by
  have hrel := component?_rel hv hd name
  unfold getNamed
  generalize v.component? name = x at *
  generalize v.type.property? name = q at *
  cases hrel with
  | none => simp
  | some h => simp [h]

/-! ### Elements -/

section Elements

variable {vs : List Value} {i : Int64}

theorem elementAt_mem (h : elementAt vs i = .ok w) : w ∈ vs := by
  unfold elementAt at h
  dsimp only at h
  generalize (if i < 0 then i.toInt + (vs.length : Int) else i.toInt) = j at h
  split at h
  · cases h
  · split at h
    · rename_i hget
      cases h
      exact List.mem_of_getElem? hget
    · cases h

/-- An index is out of range just if it is not below the length, counted from either end. -/
theorem elementAt_fails_iff :
    (∃ e, elementAt vs i = .error e) ↔ i.toInt < -vs.length ∨ (vs.length : Int) ≤ i.toInt := by
  have hsign : i < 0 ↔ i.toInt < 0 := Int64.lt_iff_toInt_lt
  unfold elementAt
  dsimp only
  have hplace : (if i < 0 then i.toInt + (vs.length : Int) else i.toInt) < 0 ∨
      (vs.length : Int) ≤ (if i < 0 then i.toInt + (vs.length : Int) else i.toInt) ↔
        i.toInt < -vs.length ∨ (vs.length : Int) ≤ i.toInt := by
    split
    · rename_i hneg
      have := hsign.mp hneg
      omega
    · rename_i hneg
      have := mt hsign.mpr hneg
      omega
  refine Iff.trans ?_ hplace
  generalize (if i < 0 then i.toInt + (vs.length : Int) else i.toInt) = j
  by_cases hneg : j < 0
  · simp [hneg]
  · by_cases hlong : (vs.length : Int) ≤ j
    · have hget : vs[j.toNat]? = none := List.getElem?_eq_none (by omega)
      simp [hneg, hlong, hget]
    · obtain ⟨v, hget⟩ : ∃ v, vs[j.toNat]? = some v := ⟨_, List.getElem?_eq_getElem (by omega)⟩
      simp [hneg, hlong, hget]

end Elements

/-! ### Indices -/

/-- The key is of a type that the value has, but is out of range or absent. -/
def Lacks : Value → Value → Prop
  | array _ _ _ vs _, int i => i.toInt < -vs.length ∨ (vs.length : Int) ≤ i.toInt
  | string s, int i => i.toInt < -s.codes.length ∨ (s.codes.length : Int) ≤ i.toInt
  | dictionary es _, k => ∀ e ∈ es, e.key.hash ≠ k.hash
  | v, string s | v, stringName s => v.type.property? s = none
  | _, _ => False

theorem exists_int (hk : k.IsKinded) (h : k.type = .int) : ∃ i, k = int i := by
  cases k with
  | int i => exact ⟨i, rfl⟩
  | array kind =>
    obtain rfl : kind = .int := h
    rcases hk with hk | hk <;> cases hk
  | _ => cases h

theorem exists_name (hk : k.IsKinded) (h : k.type.isStringLike = true) : ∃ s, k = string s ∨ k = stringName s := by
  cases k with
  | string s => exact ⟨s, .inl rfl⟩
  | stringName s => exact ⟨s, .inr rfl⟩
  | array kind =>
    rcases hk with rfl | hk
    · cases h
    · cases kind <;> first | (cases h; done) | cases hk
  | _ => cases h

theorem getNamed_fails_iff (hv : v.IsKinded) (hd : v.type ≠ .dictionary) :
    (∃ e, v.getNamed name = .error e) ↔ v.type.property? name = none := by
  obtain ⟨hfound, hlisted⟩ := getNamed_iff hv hd name
  cases hname : v.type.property? name with
  | none =>
    cases hget : v.getNamed name with
    | error e => simp
    | ok w =>
      obtain ⟨p, hp, -⟩ := hfound w hget
      simp [hname] at hp
  | some p =>
    obtain ⟨w, hw, -⟩ := hlisted p hname
    simp [hw]

theorem getIndexed_dictionary_eq (es : List Entry) (frozen : Bool) (k : Value) :
    (dictionary es frozen).getIndexed k = match lookup? k es with
      | some w => .ok w
      | none => .error (.invalidKey k.repr) := rfl

theorem getIndexed_name (hv : v.IsKinded) (h : v.type.hasNames = true) (s : Text) :
    v.getIndexed (string s) = v.getNamed s ∧ v.getIndexed (stringName s) = v.getNamed s := by
  cases v with
  | vector2 | vector2i | vector3 | vector3i | color | resource => exact ⟨rfl, rfl⟩
  | array kind =>
    rcases hv with rfl | hkind
    · cases h
    · cases kind <;> first | (cases hkind; done) | cases h
  | _ => cases h

/-- A key of an admitted type is only missed if it is out of range or absent. -/
theorem getIndexed_fails_iff (hv : v.IsKinded) (hk : k.IsKinded) (h : (v.type.indexType? k.type).isSome = true)
    (hfound : v.type.lacksKey k.type = false) : (∃ e, v.getIndexed k = .error e) ↔ v.Lacks k := by
  have named (hd : v.type ≠ .dictionary) (hn : v.type.hasNames = true)
      (hlacks : ∀ s, (v.Lacks (string s) ↔ v.type.property? s = none) ∧
        (v.Lacks (stringName s) ↔ v.type.property? s = none)) : (∃ e, v.getIndexed k = .error e) ↔ v.Lacks k := by
    obtain ⟨s, rfl | rfl⟩ := exists_name hk (BuiltinType.name_of_named hn h hfound)
    · rw [(getIndexed_name hv hn s).1, getNamed_fails_iff hv hd, (hlacks s).1]
    · rw [(getIndexed_name hv hn s).2, getNamed_fails_iff hv hd, (hlacks s).2]
  cases v with
  | array kind element name vs frozen =>
    obtain ⟨i, rfl⟩ := exists_int hk (BuiltinType.int_of_sequence (.inr hv) h hfound)
    rw [getIndexed, elementAt_fails_iff, Lacks]
  | string s =>
    obtain ⟨i, rfl⟩ := exists_int hk (BuiltinType.int_of_sequence (.inl rfl) h hfound)
    rw [getIndexed, elementAt_fails_iff, List.length_map, Lacks]
  | dictionary es frozen =>
    have hlookup : lookup? k es = none ↔ ∀ e ∈ es, e.key.hash ≠ k.hash := by
      simp [lookup?, List.find?_eq_none]
    refine Iff.trans ?_ hlookup
    rw [getIndexed_dictionary_eq]
    cases lookup? k es <;> simp
  | vector2 | vector2i | vector3 | vector3i | color | resource =>
    exact named BuiltinType.noConfusion rfl fun s => ⟨Iff.rfl, Iff.rfl⟩
  | _ => cases h

theorem type_ne_dictionary (hv : v.IsKinded) (h : ∀ es frozen, v ≠ dictionary es frozen) : v.type ≠ .dictionary := by
  cases v with
  | dictionary es frozen => exact absurd rfl (h es frozen)
  | array kind =>
    rintro rfl
    rcases hv with hv | hv <;> cases hv
  | _ => exact BuiltinType.noConfusion

/-- A part that is found has the type that its base gives it at such a key. -/
theorem getIndexed_typed (hv : v.WellTyped) (h : v.getIndexed k = .ok w) :
    ∃ d, v.type.indexType? k.type = some d ∧ (d = .any ∨ d = .builtin w.type) := by
  have named (s : Text) (hd : v.type ≠ .dictionary) {key : BuiltinType} (hkey : key.isStringLike = true)
      (h : v.getNamed s = .ok w) : ∃ d, v.type.indexType? key = some d ∧ (d = .any ∨ d = .builtin w.type) := by
    obtain ⟨p, hp, htype⟩ := (getNamed_iff hv.kinded hd s).1 w h
    exact ⟨p.type, BuiltinType.indexType?_of_property hp hkey, .inr htype⟩
  unfold getIndexed at h
  split at h
  case h_1 kind _ _ _ _ _ =>
    have hmem := elementAt_mem h
    rcases hv.kinded with rfl | hkind
    · exact ⟨.any, rfl, .inl rfl⟩
    · have htype : w.type = kind.packedElement := hv.typed hkind w hmem
      exact ⟨_, BuiltinType.indexType?_of_packed hkind, .inr (by rw [htype]; rfl)⟩
  case h_3 =>
    obtain ⟨c, -, rfl⟩ := List.mem_map.mp (elementAt_mem h)
    exact ⟨_, rfl, .inr rfl⟩
  case h_5 => exact ⟨.any, rfl, .inl rfl⟩
  case h_6 hd => exact named _ (type_ne_dictionary hv.kinded hd) rfl h
  case h_7 hd => exact named _ (type_ne_dictionary hv.kinded hd) rfl h
  all_goals cases h

/-- At a key of a type that no such value has, nothing is found. -/
theorem getIndexed_refused (hv : v.IsKinded) (hk : k.IsKinded) (h : v.type.lacksKey k.type = true) :
    v.getIndexed k = .error (.invalidIndexType k.type v.type) ∨ v.getIndexed k = .error (.cannotIndex v.type) := by
  unfold getIndexed
  split
  case h_1 kind _ _ _ _ _ =>
    exfalso
    rcases hv with rfl | hkind
    · cases h
    · cases kind <;> first | (cases hkind; done) | cases h
  case h_2 => exact .inl rfl
  case h_3 => cases h
  case h_4 => exact .inl rfl
  case h_5 => simp [type, BuiltinType.lacksKey, BuiltinType.isPacked, BuiltinType.isVector] at h
  case h_6 | h_7 =>
    have hadmitted := BuiltinType.not_name_of_lacksKey h
    cases hadmitted
  case h_8 => exact .inr rfl

/-! ### Folding and typing -/

/-- **Folding an index agrees with typing it.** A part that is found has the type that the base gives it at such a
key, which may be any, and the analysis admits the key and types the part so too. Where the typing admits a type of
keys, a key is missed exactly if it is out of range or absent, unless the pair of types is one of those for which
no key is ever found. The named parts of a value that is no dictionary are the properties of its type. -/
theorem indexing_agrees (hv : v.WellTyped) (hk : k.IsKinded) :
    (∀ w, v.getIndexed k = .ok w →
      (∃ d, v.type.indexType? k.type = some d ∧ (d = .any ∨ d = .builtin w.type)) ∧
      Analysis.validIndex v.type k.type = true ∧ Analysis.insideOf v.type ≠ .nothing ∧
      ∀ t, Analysis.insideOf v.type = .of t → w.type = t) ∧
    ((v.type.indexType? k.type).isSome = true → v.type.lacksKey k.type = false →
      ((∃ e, v.getIndexed k = .error e) ↔ v.Lacks k)) ∧
    (v.type.lacksKey k.type = true → (v.type.indexType? k.type).isSome = true ∧
      (v.getIndexed k = .error (.invalidIndexType k.type v.type) ∨ v.getIndexed k = .error (.cannotIndex v.type))) ∧
    (v.type ≠ .dictionary → ∀ name,
      (∀ w, v.getNamed name = .ok w → ∃ p, v.type.property? name = some p ∧ p.type = .builtin w.type) ∧
      ∀ p, v.type.property? name = some p → ∃ w, v.getNamed name = .ok w ∧ p.type = .builtin w.type) := by
  refine ⟨fun w hw => ?_, getIndexed_fails_iff hv.kinded hk, fun hlacks => ?_, getNamed_iff hv.kinded⟩
  · obtain ⟨d, hd, htype⟩ := getIndexed_typed hv hw
    have hfound : v.type.lacksKey k.type = false := by
      by_contra hlacks
      rcases getIndexed_refused hv.kinded hk (by simpa using hlacks) with herror | herror
      · simp [hw] at herror
      · simp [hw] at herror
    have hinside := BuiltinType.insideOf_of_indexType? hd
    refine ⟨⟨d, hd, htype⟩, BuiltinType.validIndex_of_found (by rw [hd]; rfl) hfound, hinside.1, fun t ht => ?_⟩
    rw [hinside.2 t ht] at htype
    rcases htype with htype | htype
    · cases htype
    · exact (DeclaredType.builtin.inj htype).symm
  · exact ⟨BuiltinType.indexType?_of_lacksKey hlacks, getIndexed_refused hv.kinded hk hlacks⟩

/-- Negative indices count from the end, and an index that is too large is out of range. -/
theorem indexing_agrees_list :
    (ofList [int 1, string "a"]).WellTyped ∧ (int (-1)).IsKinded ∧
      (∃ e, (ofList [int 1, string "a"]).getIndexed (int 2) = .error e) ∧
      ¬ ∃ e, (ofList [int 1, string "a"]).getIndexed (int (-1)) = .error e := by
  have hv : (ofList [int 1, string "a"]).WellTyped := by
    refine .mk (.inl rfl) nofun fun e he => ?_
    simp only [ofList, elements, List.mem_cons, List.not_mem_nil, or_false] at he
    rcases he with rfl | rfl
    · exact wellTyped_of_not_array rfl
    · exact wellTyped_of_not_array rfl
  have hlast := (indexing_agrees hv (k := int (-1)) trivial).2.1 rfl rfl
  have hbehind := (indexing_agrees hv (k := int 2) trivial).2.1 rfl rfl
  refine ⟨hv, trivial, hbehind.mpr (.inr ?_), ?_⟩
  · decide
  · rw [hlast]
    rintro (h | h)
    · exact absurd h (by decide)
    · exact absurd h (by decide)

/-- The typing admits floats as indices of an array and integers as indices of a vector, and says that any key is
one of an object; such a key is refused by its type. -/
theorem indexing_misses_types :
    BuiltinType.array.indexType? .float = some .any ∧
      (ofList [int 1]).getIndexed (float .zero) = .error (.invalidIndexType .float .array) ∧
      BuiltinType.vector2.indexType? .int = some (.builtin .float) ∧
      (vector2 .one .zero).getIndexed (int 0) = .error (.cannotIndex .vector2) ∧
      BuiltinType.object.indexType? .int = some .any ∧
      (resource "res://a.png" "Image" 0).getIndexed (int 0) = .error (.cannotIndex .object) :=
  ⟨rfl, rfl, rfl, rfl, rfl, rfl⟩

end Value

end GameScript
