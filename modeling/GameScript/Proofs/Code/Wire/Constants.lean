import GameScript.Proofs.Code.Wire.Parts

/-!
# Reading constants back

A constant is read back with its containers frozen and its resources apart from all others
(`Value.stored`). A dictionary is rebuilt key by key, which gives the same entries since its keys differ
(`Value.Storable`) and a stored key has the hash of the key.
-/

namespace GameScript

@[simp] theorem Entry.key_mk (k v : Value) : (Entry.mk k v).key = k := rfl

@[simp] theorem Entry.value_mk (k v : Value) : (Entry.mk k v).value = v := rfl

namespace Value

mutual

/-- A value as it is read from a program. -/
def stored : Value → Value
  | .array kind element elementName elements _ =>
    .array kind element elementName (storedAll elements) true
  | .dictionary entries _ => .dictionary (storedEntries entries) true
  | .resource path cls _ => .resource path cls 0
  | v => v

def storedAll : List Value → List Value
  | [] => []
  | v :: vs => v.stored :: storedAll vs

def storedEntries : List Entry → List Entry
  | [] => []
  | ⟨k, v⟩ :: es => ⟨k.stored, v.stored⟩ :: storedEntries es

end

mutual

/-- A value that operators and conversions can make: sequences are arrays of some kind, and the keys of
a dictionary differ. -/
def Storable : Value → Prop
  | .array kind _ _ elements _ => (kind = .array ∨ kind.isPacked) ∧ AllStorable elements
  | .dictionary entries _ => (entries.map (·.key.hash)).Nodup ∧ EntriesStorable entries
  | _ => True

def AllStorable : List Value → Prop
  | [] => True
  | v :: vs => v.Storable ∧ AllStorable vs

def EntriesStorable : List Entry → Prop
  | [] => True
  | ⟨k, v⟩ :: es => k.Storable ∧ v.Storable ∧ EntriesStorable es

end

/-! ### Hashes of stored keys -/

@[simp] theorem type_stored (v : Value) : v.stored.type = v.type := by
  cases v <;> simp only [stored, type]

mutual

theorem repr_stored (v : Value) : v.stored.repr = v.repr := by
  cases v with
  | array kind element elementName elements frozen =>
    simp only [stored, repr, reprs_storedAll elements]
  | dictionary entries frozen => simp only [stored, repr, reprEntries_storedEntries entries]
  | _ => simp only [stored, repr]

theorem reprs_storedAll (vs : List Value) : reprs (storedAll vs) = reprs vs := by
  match vs with
  | [] => rfl
  | v :: vs => simp only [storedAll, reprs, repr_stored v, reprs_storedAll vs]

theorem reprEntries_storedEntries (es : List Entry) : reprEntries (storedEntries es) = reprEntries es := by
  match es with
  | [] => rfl
  | ⟨k, v⟩ :: es =>
    simp only [storedEntries, reprEntries, repr_stored k, repr_stored v, reprEntries_storedEntries es]

end

theorem hash_stored (v : Value) : v.stored.hash = v.hash := by
  cases v with
  | array kind element elementName elements frozen =>
    have := repr_stored (.array kind element elementName elements frozen)
    simp only [stored] at this
    simp only [stored, hash, type, this]
  | dictionary entries frozen =>
    have := repr_stored (.dictionary entries frozen)
    simp only [stored] at this
    simp only [stored, hash, type, this]
  | resource path cls identity => simp only [stored, hash, type, repr]
  | _ => simp only [stored]

theorem map_hash_storedEntries (es : List Entry) :
    (storedEntries es).map (·.key.hash) = es.map (·.key.hash) := by
  induction es with
  | nil => rfl
  | cons e es ih =>
    obtain ⟨k, v⟩ := e
    simp only [storedEntries, List.map_cons, Entry.key_mk, hash_stored, ih]

/-- A new key goes to the end. -/
theorem insertEntry_of_notMem {key value : Value} {es : List Entry}
    (h : key.hash ∉ es.map (·.key.hash)) : insertEntry key value es = es ++ [⟨key, value⟩] := by
  induction es with
  | nil => rfl
  | cons e es ih =>
    simp only [List.map_cons, List.mem_cons, not_or] at h
    rw [insertEntry, if_neg (Ne.symm h.1), ih h.2]
    rfl

/-- Entries whose keys differ make a dictionary with just these entries. -/
theorem ofEntries_of_nodup {es : List Entry} (h : (es.map (·.key.hash)).Nodup) (frozen : Bool) :
    ofEntries es frozen = .dictionary es frozen := by
  have key : ∀ acc, ((acc ++ es).map (·.key.hash)).Nodup →
      es.foldl (fun acc e => insertEntry e.key e.value acc) acc = acc ++ es := by
    clear h
    induction es with
    | nil => simp
    | cons e es ih =>
      intro acc hn
      have hnew : e.key.hash ∉ acc.map (·.key.hash) := by
        intro hmem
        rw [List.map_append, List.nodup_append] at hn
        exact hn.2.2 _ hmem _ (by simp) rfl
      obtain ⟨k, v⟩ := e
      rw [List.foldl_cons, insertEntry_of_notMem hnew]
      have := ih (acc ++ [⟨k, v⟩]) (by simpa using hn)
      rwa [List.append_assoc, List.singleton_append] at this
  rw [ofEntries, key [] (by simpa using h), List.nil_append]

end Value

namespace Wire

open Reading

/-! ### Components -/

variable {part : List UInt8 → Except DecodeFault Value}

theorem consumes_floatField (x : Double) (c : ConstantFields) :
    Consumes (constantStep part) (floatField x) c { c with floats := c.floats ++ [x] } :=
  consumes_field (by decide) (by decide) ((gives_fixed64 x.bits.toNat_lt).then (gives_of_eq (by simp)))

theorem consumes_intField (i : Int64) (c : ConstantFields) :
    Consumes (constantStep part) (intField i) c { c with ints := c.ints ++ [i] } :=
  consumes_field (by decide) (by decide) ((gives_number (Varint.fold_lt i.le_toInt i.toInt_lt)).then
    (gives_of_eq (by simp [Varint.unfold_fold])))

theorem consumes_constantText {t : Text} (ht : t.bytes.length < 2 ^ 64) (c : ConstantFields) :
    Consumes (constantStep part) (bytesField 2 t.bytes) c { c with text := t } :=
  consumes_bytesField (by decide) ((gives_text ht).then (gives_pure _))

theorem consumes_constantClass {t : Text} (ht : t.bytes.length < 2 ^ 64) {c : ConstantFields}
    (hc : c.cls = "") : Consumes (constantStep part) (textField 7 t) c { c with cls := t } :=
  consumes_text (by decide) ht rfl (by rw [← hc]) rfl

theorem number_lt (t : BuiltinType) : t.number < 256 := by cases t <;> decide

theorem consumes_constantElement (t : BuiltinType) {c : ConstantFields} (hc : c.element = 0) :
    Consumes (constantStep part) (numberField 6 t.number) c { c with element := t.number } := by
  have ht := number_lt t
  refine consumes_numberField (by decide) ((gives_number (by omega)).then ?_) fun h => ?_
  · exact gives_of_eq (by rw [Nat.mod_eq_of_lt ht])
  · rw [h, ← hc]

/-- Every constant begins with its type. -/
theorem consumes_constantType (t : BuiltinType) :
    Consumes (constantStep part) (tag 1 varintType ++ Varint.encode t.number) {} { type := t.number } := by
  have ht := number_lt t
  refine consumes_field (by decide) (by decide) ((gives_number (by omega)).then ?_)
  exact gives_of_eq (by rw [Nat.mod_eq_of_lt ht])

/-- A constant reads as the value that its fields describe. -/
theorem readConstant_of_fields {fuel : Nat} {v w : Value} {c : ConstantFields}
    (h : Consumes (constantStep (readConstant fuel)) (constantFields v) { type := v.type.number } c)
    (hw : c.value = .ok w) : readConstant (fuel + 1) (constant v) = .ok w := by
  have hall := (consumes_constantType v.type).append h
  show (readMessage (constantStep (readConstant fuel)) {} (constant v) >>= fun c => c.value) = _
  unfold constant
  rw [readMessage_of_consumes hall]
  exact hw

/-! ### Constants -/

theorem pairUp_storedEntries (es : List Entry) :
    pairUp (es.flatMap fun e => [e.key.stored, e.value.stored]) = Value.storedEntries es := by
  induction es with
  | nil => rfl
  | cons e es ih =>
    obtain ⟨k, v⟩ := e
    simp only [List.flatMap_cons, List.cons_append, List.nil_append, pairUp, Value.storedEntries, ih,
      Entry.key_mk, Entry.value_mk]

theorem length_flatMap_pair (es : List Entry) :
    (es.flatMap fun e => [e.key.stored, e.value.stored]).length % 2 = 0 := by
  induction es with
  | nil => rfl
  | cons e es ih =>
    simp only [List.flatMap_cons, List.length_append, List.length_cons, List.length_nil]
    omega

theorem value_array {kind element : BuiltinType} {cls : Text} {elements : List Value}
    (h : kind = .array ∨ kind.isPacked) :
    ConstantFields.value { type := kind.number, elements, element := element.number, cls } =
      .ok (.array kind element cls elements true) := by
  unfold ConstantFields.value
  simp only [BuiltinType.ofNumber?_number]
  rcases h with rfl | h
  · rfl
  · cases kind <;> first | rfl | simp [BuiltinType.isPacked] at h

mutual

/-- **A constant is read back** as it is stored. -/
theorem readConstant_constant (v : Value) (hv : v.Storable) (fuel : Nat)
    (hf : (constant v).length < fuel) (hl : (constant v).length < 2 ^ 64) :
    readConstant fuel (constant v) = .ok v.stored := by
  obtain ⟨fuel, rfl⟩ : ∃ n, fuel = n + 1 := ⟨fuel - 1, by omega⟩
  simp only [constant, List.length_append] at hf hl
  cases v with
  | nil => exact readConstant_of_fields (consumes_nil _) rfl
  | bool b => exact readConstant_of_fields (consumes_flag (by decide) rfl rfl rfl) rfl
  | int i => exact readConstant_of_fields (consumes_intField i _) rfl
  | float x => exact readConstant_of_fields (consumes_floatField x _) rfl
  | string t =>
    have := length_le_bytesField 2 t.bytes
    exact readConstant_of_fields (consumes_constantText (by simp only [constantFields] at hl; omega) _) rfl
  | stringName t =>
    have := length_le_bytesField 2 t.bytes
    exact readConstant_of_fields (consumes_constantText (by simp only [constantFields] at hl; omega) _) rfl
  | nodePath t =>
    have := length_le_bytesField 2 t.bytes
    exact readConstant_of_fields (consumes_constantText (by simp only [constantFields] at hl; omega) _) rfl
  | vector2 x y =>
    exact readConstant_of_fields ((consumes_floatField x _).append (consumes_floatField y _)) rfl
  | vector2i x y =>
    exact readConstant_of_fields ((consumes_intField x _).append (consumes_intField y _)) rfl
  | vector3 x y z =>
    exact readConstant_of_fields (((consumes_floatField x _).append (consumes_floatField y _)).append
      (consumes_floatField z _)) rfl
  | vector3i x y z =>
    exact readConstant_of_fields (((consumes_intField x _).append (consumes_intField y _)).append
      (consumes_intField z _)) rfl
  | color r g b a =>
    exact readConstant_of_fields ((((consumes_floatField r _).append (consumes_floatField g _)).append
      (consumes_floatField b _)).append (consumes_floatField a _)) rfl
  | resource path cls identity =>
    have hpath := length_le_bytesField 2 path.bytes
    have hcls := length_le_textField 7 cls
    simp only [constantFields, List.length_append] at hl
    exact readConstant_of_fields ((consumes_constantText (by omega) _).append
      (consumes_constantClass (by omega) rfl)) rfl
  | array kind element elementName elements frozen =>
    have hname := length_le_textField 7 elementName
    simp only [constantFields, List.length_append] at hf hl
    have h := consumes_elementFields elements hv.2 fuel (by omega) (by omega)
      { type := kind.number, element := element.number, cls := elementName }
    exact readConstant_of_fields (((consumes_constantElement element rfl).append
      (consumes_constantClass (by omega) rfl)).append h) (value_array hv.1)
  | dictionary entries frozen =>
    simp only [constantFields] at hf hl
    have h := consumes_entryFields entries hv.2 fuel (by omega) (by omega)
      { type := BuiltinType.dictionary.number }
    refine readConstant_of_fields h ?_
    have hnodup : ((Value.storedEntries entries).map (·.key.hash)).Nodup := by
      rw [Value.map_hash_storedEntries]
      exact hv.1
    show (if (_ : List Value).length % 2 = 0 then Except.ok (Value.ofEntries (pairUp _) true) else _) = _
    rw [List.nil_append, if_pos (length_flatMap_pair entries), pairUp_storedEntries,
      Value.ofEntries_of_nodup hnodup]
    rfl

theorem consumes_elementFields (vs : List Value) (hvs : Value.AllStorable vs) (fuel : Nat)
    (hf : (elementFields vs).length ≤ fuel) (hl : (elementFields vs).length < 2 ^ 64)
    (c : ConstantFields) : Consumes (constantStep (readConstant fuel)) (elementFields vs) c
      { c with elements := c.elements ++ Value.storedAll vs } := by
  match vs with
  | [] =>
    rw [Value.storedAll, List.append_nil]
    exact consumes_nil c
  | v :: vs =>
    have hsize := length_le_bytesField 5 (constant v)
    have hsplit : elementFields (v :: vs) = bytesField 5 (constant v) ++ elementFields vs := by
      rw [elementFields, constant]
    rw [hsplit] at hf hl ⊢
    simp only [List.length_append] at hf hl
    have hv := readConstant_constant v hvs.1 fuel (by omega) (by omega)
    have hrest := consumes_elementFields vs hvs.2 fuel (by omega) (by omega)
      { c with elements := c.elements ++ [v.stored] }
    rw [List.append_assoc, List.singleton_append] at hrest
    exact Consumes.append (consumes_part (by decide) (by omega) hv rfl rfl) hrest

theorem consumes_entryFields (es : List Entry) (hes : Value.EntriesStorable es) (fuel : Nat)
    (hf : (entryFields es).length ≤ fuel) (hl : (entryFields es).length < 2 ^ 64)
    (c : ConstantFields) : Consumes (constantStep (readConstant fuel)) (entryFields es) c
      { c with elements := c.elements ++ es.flatMap fun e => [e.key.stored, e.value.stored] } := by
  match es with
  | [] =>
    rw [List.flatMap_nil, List.append_nil]
    exact consumes_nil c
  | ⟨k, v⟩ :: es =>
    have hk := length_le_bytesField 5 (constant k)
    have hv := length_le_bytesField 5 (constant v)
    have hsplit : entryFields (⟨k, v⟩ :: es) =
        bytesField 5 (constant k) ++ bytesField 5 (constant v) ++ entryFields es := by
      rw [entryFields, constant, constant]
    rw [hsplit] at hf hl ⊢
    simp only [List.length_append] at hf hl
    have hrk := readConstant_constant k hes.1 fuel (by omega) (by omega)
    have hrv := readConstant_constant v hes.2.1 fuel (by omega) (by omega)
    have hrest := consumes_entryFields es hes.2.2 fuel (by omega) (by omega)
      { c with elements := c.elements ++ [k.stored] ++ [v.stored] }
    simp only [List.append_assoc] at hrest
    exact ((consumes_part (by decide) (by omega) hrk rfl rfl).append
      (consumes_part (by decide) (by omega) hrv rfl (by rw [List.append_assoc]))).append hrest

end

end Wire

end GameScript
