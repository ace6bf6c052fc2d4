import GameScript.Proofs.Syntax.Spelling
import GameScript.Proofs.Value.Integers
import GameScript.Proofs.Value.Order

/-!
# Equal keys

A dictionary finds a key by its hash. On keys that are made of plain values (`Value.IsKey`) equal values have
equal hashes, so an equal key is found (`Value.equal_keys_found`), and scalars with equal hashes are equal
(`Value.unnamed_eq_of_hash_eq`). The hash tells an integer from a float of the same value, which are equal.
-/

namespace GameScript

namespace Value

variable {x y : Value} {es : List Entry}

/-! ### Equal values -/

/-- A **uniform value** is made of plain values but for string names, and of arrays that are not packed. -/
inductive Uniform : Value → Prop
  | plain {v : Value} (h : v.isPlain = true) (hname : v.type ≠ .stringName) : Uniform v
  | array {element : BuiltinType} {name : Text} {elements : List Value} {frozen : Bool}
    (h : ∀ v ∈ elements, Uniform v) : Uniform (.array .array element name elements frozen)

/-- A string name or a uniform value. -/
def IsKey (v : Value) : Prop := (∃ t, v = stringName t) ∨ v.Uniform

theorem Uniform.exact (h : x.Uniform) : x.Exact := by
  induction h with
  | plain h _ => exact .plain h
  | array _ ih => exact .array ih

theorem unnamed_of_ne (h : x.type ≠ .stringName) : x.unnamed = x := by
  cases x <;> first | rfl | exact absurd rfl h

theorem reprs_eq {as bs : List Value} (hlen : as.length = bs.length)
    (h : ∀ (i : Nat) (ha : i < as.length) (hb : i < bs.length), as[i].repr = bs[i].repr) : reprs as = reprs bs := by
  induction as generalizing bs with
  | nil => rw [List.eq_nil_of_length_eq_zero hlen.symm]
  | cons a as ih =>
    obtain ⟨b, bs, rfl⟩ := List.exists_cons_of_length_eq_add_one hlen.symm
    have hfirst : a.repr = b.repr := h 0 (by simp) (by simp)
    have hrest : reprs as = reprs bs := by
      refine ih (by simpa using hlen) fun i ha hb => ?_
      exact h (i + 1) (by simpa using ha) (by simpa using hb)
    rw [reprs, reprs, hfirst, hrest]

/-- Equal uniform values are of one type and are written alike. -/
theorem repr_eq_of_equal (hx : x.Uniform) (hy : y.Uniform) (h : x.equal y = true) :
    x.type = y.type ∧ x.repr = y.repr := by
  induction hx generalizing y with
  | @plain x hx hname =>
    have hplain := isPlain_of_equal hx hy.exact h
    rcases hy with ⟨-, hname'⟩ | _
    · rw [equal_plain_iff hx hplain, unnamed_of_ne hname, unnamed_of_ne hname'] at h
      rw [h]
      exact ⟨rfl, rfl⟩
    · cases hplain
  | @array element name as frozen has ih =>
    obtain ⟨_, _, _, bs, _, rfl, hlen, hall⟩ := equal_array_iff.mp h
    rcases hy with ⟨⟨⟩, -⟩ | hbs
    have helements : reprs as = reprs bs := reprs_eq hlen fun i ha hb =>
      (ih _ (List.getElem_mem ha) (hbs _ (List.getElem_mem hb)) (hall i ha hb)).2
    exact ⟨rfl, by rw [repr, repr, helements]⟩

theorem hash_unnamed (x : Value) : x.unnamed.hash = x.hash := by
  cases x <;> rfl

theorem hash_array {element : BuiltinType} {name : Text} {as : List Value} {frozen : Bool} :
    (array .array element name as frozen).hash = "Array:" ++ (array .array element name as frozen).repr := rfl

theorem equal_stringName_iff (t : Text) (y : Value) :
    (stringName t).equal y = true ↔ y = string t ∨ y = stringName t := by
  cases y <;> simp [equal, eq_comm]

theorem hash_eq_of_equal_stringName (t : Text) (h : (stringName t).equal y = true) : (stringName t).hash = y.hash := by
  rcases (equal_stringName_iff t y).mp h with rfl | rfl <;> rfl

theorem IsKey.exact (h : x.IsKey) : x.Exact := by
  rcases h with ⟨t, rfl⟩ | h
  · exact .plain rfl
  · exact h.exact

/-- **Equal keys have equal hashes.** -/
theorem hash_eq_of_equal (hx : x.IsKey) (hy : y.IsKey) (h : x.equal y = true) : x.hash = y.hash := by
  have hsymm := equal_symm hx.exact hy.exact h
  rcases hx with ⟨t, rfl⟩ | hx
  · exact hash_eq_of_equal_stringName t h
  rcases hy with ⟨t, rfl⟩ | hy
  · exact (hash_eq_of_equal_stringName t hsymm).symm
  have hrepr := (repr_eq_of_equal hx hy h).2
  rcases hx with ⟨hplain, hname⟩ | has
  · rcases hy with ⟨hplain', hname'⟩ | hbs
    · rw [equal_plain_iff hplain hplain', unnamed_of_ne hname, unnamed_of_ne hname'] at h
      rw [h]
    · cases isPlain_of_equal hplain (Exact.array fun v hv => (hbs v hv).exact) h
  · rcases hy with ⟨hplain', -⟩ | hbs
    · cases isPlain_of_equal hplain' (Exact.array fun v hv => (has v hv).exact) hsymm
    · rw [hash_array, hash_array, hrepr]

/-- **Equal keys are found.** If a key of a dictionary is equal to `x`, it has the hash of `x`, `x` is in the
dictionary, and where the keys differ, it is that key's value which is found. -/
theorem equal_keys_found (x : Value) (es : List Entry) (frozen : Bool) (hx : x.IsKey) (hes : ∀ e ∈ es, e.key.IsKey)
    (e : Entry) (he : e ∈ es) (h : e.key.equal x = true) :
    e.key.hash = x.hash ∧ binary .within x (dictionary es frozen) = .ok (bool true) ∧
      ((es.map (·.key.hash)).Nodup → lookup? x es = some e.value) := by
  have hhash := hash_eq_of_equal (hes e he) hx h
  refine ⟨hhash, ?_, fun hnodup => (lookup?_eq_some_iff hnodup).mpr ⟨e, he, hhash, rfl⟩⟩
  have hfound : (lookup? x es).isSome = true := by
    unfold lookup?
    rw [Option.isSome_map, List.find?_isSome]
    exact ⟨e, he, by simpa using hhash⟩
  simp [binary, isWithin?, hfound]

/-- An array that begins with a string, and the string name of a key. -/
theorem equal_keys_found_least :
    let list := ofList [string "a", int 1]
    let es := [⟨list, nil⟩, ⟨string "k", int 2⟩]
    (∃ e ∈ es, e.key.equal (stringName "k") = true) ∧ lookup? (stringName "k") es = some (int 2) := by
  intro list es
  have hlist : list.IsKey := .inr (.array fun v hv => by
    simp only [List.mem_cons, List.not_mem_nil, or_false] at hv
    rcases hv with rfl | rfl
    · exact .plain rfl (by decide)
    · exact .plain rfl (by decide))
  have hstring : (string "k").IsKey := .inr (.plain rfl (by decide))
  have hes : ∀ e ∈ es, e.key.IsKey := by simpa [es] using ⟨hlist, hstring⟩
  have hequal : (string "k").equal (stringName "k") = true := by simp [equal]
  have hnodup : (es.map (·.key.hash)).Nodup := by decide
  exact ⟨⟨⟨string "k", int 2⟩, by simp [es], hequal⟩,
    (equal_keys_found (stringName "k") es false (.inl ⟨_, rfl⟩) hes ⟨string "k", int 2⟩ (by simp [es]) hequal).2.2 hnodup⟩

/-- An integer and a float of the same value are equal but have different hashes, and so have the two zeros, arrays
of a string and a string name, an array and a packed one, and dictionaries with the same entries in another order. A
dictionary does not find the one by the other. -/
theorem equal_keys_missed :
    (∀ p ∈ [(int 1, float .one), (float .zero, float ⟨0x8000000000000000⟩),
        (ofList [string "a"], ofList [stringName "a"]), (ofList [], array .packedByteArray .nil "" [] false),
        (dictionary [⟨int 1, nil⟩, ⟨int 2, nil⟩] false, dictionary [⟨int 2, nil⟩, ⟨int 1, nil⟩] false)],
      p.1.equal p.2 = true ∧ p.1.hash ≠ p.2.hash) ∧
    binary .within (float .one) (dictionary [⟨int 1, int 2⟩] false) = .ok (bool false) := by
  have hhash : (int 1).hash ≠ (float .one).hash := by decide
  refine ⟨by decide, ?_⟩
  simp [binary, isWithin?, lookup?, hhash]

/-! ### Equal hashes -/

/-- Whether a value is null, a boolean, an integer, a string or string name, or a vector of integers. -/
def isScalar : Value → Bool
  | nil | bool _ | int _ | string _ | stringName _ | vector2i .. | vector3i .. => true
  | _ => false

theorem comma_notMem_ofNat (n : Nat) : 44 ∉ (Text.ofNat n).bytes := by
  intro h
  have hdigit := (Scan.ofNat_spells n).2.1 44 h
  exact absurd hdigit (by decide)

theorem comma_notMem_intText (i : Int64) : 44 ∉ (intText i).bytes := by
  unfold intText
  cases i.toInt with
  | ofNat n => exact comma_notMem_ofNat n
  | negSucc n =>
    have hminus : ("-" : Text).bytes = [45] := by decide
    show 44 ∉ ("-" ++ Text.ofNat (n + 1)).bytes
    rw [Text.bytes_append, hminus, List.mem_append, not_or]
    exact ⟨by decide, comma_notMem_ofNat (n + 1)⟩

theorem append_comma_inj {as bs cs ds : List UInt8} (ha : 44 ∉ as) (hb : 44 ∉ bs)
    (h : as ++ 44 :: cs = bs ++ 44 :: ds) : as = bs ∧ cs = ds := by
  induction as generalizing bs with
  | nil =>
    cases bs with
    | nil => exact ⟨rfl, (List.cons.inj h).2⟩
    | cons b bs =>
      obtain ⟨rfl, -⟩ := List.cons.inj h
      simp at hb
  | cons a as ih =>
    cases bs with
    | nil =>
      obtain ⟨rfl, -⟩ := List.cons.inj h
      simp at ha
    | cons b bs =>
      obtain ⟨rfl, hrest⟩ := List.cons.inj h
      obtain ⟨rfl, rfl⟩ := ih (fun hmem => ha (List.mem_cons_of_mem a hmem))
        (fun hmem => hb (List.mem_cons_of_mem a hmem)) hrest
      exact ⟨rfl, rfl⟩

theorem intText_bytes_inj {i j : Int64} (h : (intText i).bytes = (intText j).bytes) : i = j :=
  intText_inj (congrArg Text.mk h)

theorem boolText_inj {a b : Bool} (h : boolText a = boolText b) : a = b := by
  cases a <;> cases b
  case false.false | true.true => rfl
  all_goals exact absurd h (by decide)

/-- **Scalars with equal hashes** are the same, up to a string for a string name. -/
theorem unnamed_eq_of_hash_eq (hx : x.isScalar = true) (hy : y.isScalar = true) (h : x.hash = y.hash) :
    x.unnamed = y.unnamed := by
  have hs : ("s" : Text).bytes = [115] := by decide
  have hi : ("i" : Text).bytes = [105] := by decide
  have hcolon : (":" : Text).bytes = [58] := by decide
  have hopen : ("(" : Text).bytes = [40] := by decide
  have hclose : (")" : Text).bytes = [41] := by decide
  have hcomma : (", " : Text).bytes = [44, 32] := by decide
  have hnil : BuiltinType.nil.name.bytes = [78, 105, 108] := by decide
  have hbool : BuiltinType.bool.name.bytes = [98, 111, 111, 108] := by decide
  have hvector2i : BuiltinType.vector2i.name.bytes = [86, 101, 99, 116, 111, 114, 50, 105] := by decide
  have hvector3i : BuiltinType.vector3i.name.bytes = [86, 101, 99, 116, 111, 114, 51, 105] := by decide
  have hbytes := congrArg Text.bytes h
  cases x <;> cases hx
  all_goals
    cases y <;> cases hy
    all_goals simp [hash, type, repr, tuple, Text.join, Text.bytes_append, hs, hi, hcolon, hopen, hclose, hcomma, hnil, hbool,
      hvector2i, hvector3i] at hbytes
  case nil.refl.nil.refl => rfl
  case bool.refl.bool.refl a b => rw [boolText_inj (congrArg Text.mk hbytes)]
  case int.refl.int.refl i j => rw [intText_bytes_inj hbytes]
  case vector2i.refl.vector2i.refl a b c d =>
    obtain ⟨hfirst, hrest⟩ := append_comma_inj (comma_notMem_intText _) (comma_notMem_intText _) hbytes
    have hsecond := List.append_cancel_right (List.cons.inj hrest).2
    rw [intText_bytes_inj hfirst, intText_bytes_inj hsecond]
  case vector3i.refl.vector3i.refl a b c d e f =>
    obtain ⟨hfirst, hrest⟩ := append_comma_inj (comma_notMem_intText _) (comma_notMem_intText _) hbytes
    obtain ⟨hsecond, hrest⟩ := append_comma_inj (comma_notMem_intText _) (comma_notMem_intText _) (List.cons.inj hrest).2
    have hthird := List.append_cancel_right (List.cons.inj hrest).2
    rw [intText_bytes_inj hfirst, intText_bytes_inj hsecond, intText_bytes_inj hthird]
  -- strings and string names
  all_goals exact congrArg string (congrArg Text.mk hbytes)
end Value

end GameScript
