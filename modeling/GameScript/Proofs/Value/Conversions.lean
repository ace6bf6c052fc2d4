import GameScript.Proofs.Analysis.Constants
import GameScript.Proofs.Execution.Patterns
import GameScript.Proofs.Value.Operators
import GameScript.Proofs.Value.Types
import Mathlib.Data.List.Nodup

/-!
# Conversions that are listed and conversions that are made

Which types convert to which is a table (`BuiltinType.converts`), and values are converted case by case
(`Value.convert`).

* `Value.WellTyped` — arrays are of type `Array` or packed, and packed ones have elements of their element type;
* `Value.convertScalar_iff` — conversions of single values: all that the table lists, but for three pairs of
  types (`BuiltinType.lacksConversion`);
* `Value.convert_wellTyped`, `Value.convert_iff` — the results are well-typed, and **what the table lists is converted
  just if it is none of the three and the elements of a packed array can be converted**;
* `Value.conversions_succeed` — the same for constructor calls, declared constants and implicit conversions;
* `GlobalFunction.type_numbers_wrap` — **which numbers stand for types** where a function of the language is given one.
-/

namespace GameScript

namespace BuiltinType

/-- The pairs of types that the table of casts lists although no value is so converted. Colors are made of
strings by the constructor only. -/
def lacksConversion (source target : BuiltinType) : Bool :=
  (source = nil && target = object) || (target = color && (source = string || source = int))

variable {s t : BuiltinType}

/-- Of the implicit conversions only that of `null` to an object is not made. -/
theorem lacksConversion_of_strict (h : s.convertsStrictly t = true) (ht : t ≠ object) :
    s.lacksConversion t = false := by
  cases t <;> cases s <;> first | rfl | exact absurd rfl ht | cases h

theorem packedElement_cases (h : t.isPacked = true) :
    t.packedElement = int ∨ t.packedElement = float ∨ t.packedElement = string := by
  cases t <;> first | exact absurd h (by decide) | decide

/-- No conversion to an element type is missing. -/
theorem lacksConversion_packedElement (h : t.isPacked = true) : s.lacksConversion t.packedElement = false := by
  rcases packedElement_cases h with hp | hp | hp
  all_goals simp [lacksConversion, hp]

theorem converts_self (t : BuiltinType) : t.converts t = true := by
  simp [converts, convertsStrictly]

theorem converts_string (s : BuiltinType) : s.converts string = true := by
  simp [converts]

theorem lacksConversion_self (t : BuiltinType) : t.lacksConversion t = false := by
  cases t <;> rfl

/-- Arrays are cast to strings and to arrays only. -/
theorem target_of_array (hs : s = array ∨ s.isPacked) (h : s.converts t = true) :
    t = s ∨ t = string ∨ t = array ∨ t.isPacked = true := by
  have key : ∀ s ∈ all, ∀ t ∈ all, (s = array ∨ s.isPacked) → s.converts t = true →
      t = s ∨ t = string ∨ t = array ∨ t.isPacked = true := by decide
  exact key s (mem_all s) t (mem_all t) hs h

theorem lacksConversion_packed (h : t.isPacked = true) : s.lacksConversion t = false := by
  cases t with
  | object | color => cases h
  | _ => simp [lacksConversion]

/-- Other values are not converted to arrays. -/
theorem target_of_not_array (harray : s ≠ array) (hs : s.isPacked = false) (h : s.converts t = true) (hne : s ≠ t) :
    t ≠ array ∧ t.isPacked = false := by
  have key : ∀ s ∈ all, ∀ t ∈ all, s ≠ array → s.isPacked = false → s.converts t = true → s ≠ t →
      t ≠ array ∧ t.isPacked = false := by decide
  exact key s (mem_all s) t (mem_all t) harray hs h hne

/-! ### Numbers and names of types -/

theorem ofNumber?_eq_some_iff {n : Nat} : ofNumber? n = some t ↔ n = t.number := by
  constructor
  · intro h
    obtain ⟨hn, rfl⟩ := List.getElem?_eq_some_iff.mp h
    exact (List.Nodup.idxOf_getElem (by decide) n hn).symm
  · rintro rfl
    exact ofNumber?_number t

theorem name_inj {t u : BuiltinType} (h : t.name = u.name) : t = u := by
  have hnodup : (all.map name).Nodup := by decide
  exact List.inj_on_of_nodup_map hnodup t.mem_all u.mem_all h

theorem name_ne_invalid (t : BuiltinType) : t.name ≠ "<invalid type>" := by
  have hall : ∀ t ∈ all, t.name ≠ "<invalid type>" := by decide
  exact hall t t.mem_all

end BuiltinType

namespace Value

variable {v w : Value} {t : BuiltinType}

/-! ### Well-typed values -/

/-- A **well-typed value** has arrays of type `Array` and packed arrays with elements of their element type, at any
depth of arrays. -/
inductive WellTyped : Value → Prop
  | mk {v : Value} (kinded : v.IsKinded)
    (typed : v.type.isPacked = true → ∀ e ∈ v.elements, e.type = v.type.packedElement)
    (inner : ∀ e ∈ v.elements, WellTyped e) : WellTyped v

theorem WellTyped.kinded (h : v.WellTyped) : v.IsKinded := by
  cases h
  assumption

theorem WellTyped.typed (h : v.WellTyped) : v.type.isPacked = true → ∀ e ∈ v.elements, e.type = v.type.packedElement := by
  cases h
  assumption

theorem WellTyped.inner (h : v.WellTyped) : ∀ e ∈ v.elements, e.WellTyped := by
  cases h
  assumption

theorem wellTyped_of_not_array (h : v.isArray = false) : v.WellTyped := by
  have hnone : v.elements = [] := by
    cases v with
    | array => cases h
    | _ => rfl
  refine .mk ?_ ?_ ?_
  · cases v with
    | array => cases h
    | _ => trivial
  · simp [hnone]
  · simp [hnone]

/-! ### Single values -/

theorem type_ne_of_not_array (h : v.isArray = false) : v.type ≠ .array ∧ v.type.isPacked = false := by
  cases v with
  | array => cases h
  | _ => exact ⟨BuiltinType.noConfusion, rfl⟩

theorem convertScalar_self (h : v.type = t) : v.convertScalar t = .ok v := by
  unfold convertScalar
  rw [if_pos h]

/-- A value is converted to a type that is none of arrays just if the conversion is not one of those missing. -/
theorem convertScalar_iff (hv : v.IsKinded) (h : v.type.converts t = true) (hother : v.type ≠ t)
    (harray : t ≠ .array) (hpacked : t.isPacked = false) :
    (∃ w, v.convertScalar t = .ok w) ↔ v.type.lacksConversion t = false := by
  unfold convertScalar
  rw [if_neg hother]
  split
  any_goals exact iff_of_true ⟨_, rfl⟩ rfl
  any_goals exact iff_of_true ⟨_, rfl⟩ (by simp [BuiltinType.lacksConversion])
  refine iff_of_false nofun fun hmade => ?_
  cases v with
  | array kind =>
    rcases BuiltinType.target_of_array hv h with hsame | rfl | hrest
    · exact hother hsame.symm
    · simp_all
    · simp_all
  | _ =>
    cases t
    all_goals first
      | (cases h; done)
      | (cases hmade; done)
      | exact absurd rfl hother
      | simp_all

/-- A result of the conversion of a single value is the value itself or no array. -/
theorem convertScalar_wellTyped (hv : v.WellTyped) (h : v.convertScalar t = .ok w) : w.WellTyped := by
  unfold convertScalar at h
  split at h
  · cases h
    exact hv
  · apply wellTyped_of_not_array
    split at h
    all_goals cases h
    all_goals rfl

/-- To the element types of packed arrays single values are converted as the table says. -/
theorem convertScalar_element_iff (hv : v.IsKinded) (ht : t.isPacked = true) :
    (∃ w, v.convertScalar t.packedElement = .ok w) ↔ v.type.converts t.packedElement = true := by
  constructor
  · rintro ⟨w, h⟩
    unfold convertScalar at h
    split at h
    · rename_i hsame
      rw [hsame]
      exact BuiltinType.converts_self _
    · rcases BuiltinType.packedElement_cases ht with hp | hp | hp
      all_goals
        rw [hp] at h ⊢
        split at h
        all_goals first
          | contradiction
          | rfl
          | (cases h; done)
          | exact BuiltinType.converts_string _
  · intro h
    by_cases hsame : v.type = t.packedElement
    · exact ⟨v, convertScalar_self hsame⟩
    · have hparts : t.packedElement ≠ .array ∧ t.packedElement.isPacked = false := by
        rcases BuiltinType.packedElement_cases ht with hp | hp | hp
        all_goals simp [hp, BuiltinType.isPacked]
      exact (convertScalar_iff hv h hsame hparts.1 hparts.2).mpr (BuiltinType.lacksConversion_packedElement ht)

/-! ### Lists of values -/

section Lists

variable {α β ε : Type} {f : α → Except ε β} {xs : List α}

theorem mapM_ok_iff : (∃ ys, xs.mapM f = .ok ys) ↔ ∀ x ∈ xs, ∃ y, f x = .ok y := by
  induction xs with
  | nil => simp [pure, Except.pure]
  | cons x xs ih =>
    rw [List.mapM_cons, List.forall_mem_cons, ← ih]
    cases f x with
    | error e => simp [bind, Except.bind]
    | ok y =>
      cases xs.mapM f with
      | error e => simp [bind, Except.bind]
      | ok ys => simp [bind, Except.bind, pure, Except.pure]

theorem of_mem_mapM {ys : List β} (h : xs.mapM f = .ok ys) {y : β} (hy : y ∈ ys) : ∃ x ∈ xs, f x = .ok y := by
  induction xs generalizing ys with
  | nil =>
    cases h
    cases hy
  | cons x xs ih =>
    rw [List.mapM_cons] at h
    cases hx : f x with
    | error e =>
      rw [hx] at h
      cases h
    | ok z =>
      cases hxs : xs.mapM f with
      | error e =>
        rw [hx, hxs] at h
        cases h
      | ok zs =>
        rw [hx, hxs] at h
        cases h
        rcases List.mem_cons.mp hy with rfl | hy
        · exact ⟨x, List.mem_cons_self, hx⟩
        · obtain ⟨x', hx', hfx⟩ := ih hxs hy
          exact ⟨x', List.mem_cons_of_mem x hx', hfx⟩

/-- An element that is not converted is why a list is not. -/
theorem exists_of_mapM_error {e : ε} (h : xs.mapM f = .error e) :
    ∃ x ∈ xs, f x = .error e := by
  induction xs with
  | nil => cases h
  | cons x xs ih =>
    rw [List.mapM_cons] at h
    cases hx : f x with
    | error e' =>
      rw [hx] at h
      cases h
      exact ⟨x, List.mem_cons_self, hx⟩
    | ok y =>
      cases hxs : xs.mapM f with
      | error e' =>
        rw [hx, hxs] at h
        cases h
        obtain ⟨x', hx', hfx⟩ := ih hxs
        exact ⟨x', List.mem_cons_of_mem x hx', hfx⟩
      | ok ys =>
        rw [hx, hxs] at h
        cases h

end Lists

/-! ### Conversions -/

theorem convert_of_not_array (h : v.isArray = false) : v.convert t = v.convertScalar t := by
  cases v with
  | array => cases h
  | _ => rfl

theorem convert_self (h : v.type = t) : v.convert t = .ok v := by
  cases v with
  | array => exact if_pos h
  | _ => exact convertScalar_self h

section Arrays

variable {kind element : BuiltinType} {name : Text} {vs : List Value} {frozen : Bool}

theorem exists_of_isArray (h : v.isArray = true) :
    ∃ kind element name vs frozen, v = array kind element name vs frozen := by
  cases v with
  | array kind element name vs frozen => exact ⟨kind, element, name, vs, frozen, rfl⟩
  | _ => cases h

theorem convert_array_plain (h : kind ≠ .array) :
    (array kind element name vs frozen).convert .array = .ok (ofList vs) := by
  simp [convert, h]

theorem convert_array_string (h : kind ≠ .string) :
    (array kind element name vs frozen).convert .string = .ok (string (array kind element name vs frozen).text) := by
  simp [convert, convertScalar, type, BuiltinType.isPacked, h]

/-- An array is converted to a packed one just if its elements are. -/
theorem convert_array_packed_iff (h : kind ≠ t) (ht : t.isPacked = true) :
    (∃ w, (array kind element name vs frozen).convert t = .ok w) ↔
      ∀ v ∈ vs, ∃ w, v.convertScalar t.packedElement = .ok w := by
  have harray : t ≠ .array := by
    rintro rfl
    cases ht
  rw [← mapM_ok_iff]
  simp only [convert, if_neg h, if_neg harray, if_pos ht]
  cases vs.mapM (convertScalar · t.packedElement) with
  | error e => simp [bind, Except.bind]
  | ok ws => simp [bind, Except.bind, pure, Except.pure]

end Arrays

/-- Conversions of well-typed values are well-typed. -/
theorem convert_wellTyped (hv : v.WellTyped) (h : v.convert t = .ok w) : w.WellTyped := by
  unfold convert at h
  split at h
  · rename_i elements frozen
    split at h
    · cases h
      exact hv
    · split at h
      · cases h
        exact .mk (.inl rfl) (fun hp => by cases hp) hv.inner
      · split at h
        · rename_i hp
          cases hmap : elements.mapM (convertScalar · t.packedElement) with
          | error e =>
            rw [hmap] at h
            cases h
          | ok ws =>
            rw [hmap] at h
            cases h
            refine .mk (.inr hp) (fun _ e he => ?_) fun e he => ?_
            · obtain ⟨x, -, hx⟩ := of_mem_mapM hmap he
              exact convertScalar_type hx
            · obtain ⟨x, hmem, hx⟩ := of_mem_mapM hmap he
              exact convertScalar_wellTyped (hv.inner x hmem) hx
        · exact convertScalar_wellTyped hv h
  · exact convertScalar_wellTyped hv h

/-- **A conversion that the table lists is made** just if it is none of those missing and, for a packed array,
all elements can be converted. -/
theorem convert_iff (hv : v.WellTyped) (h : v.type.converts t = true) :
    (∃ w, v.convert t = .ok w) ↔ v.type.lacksConversion t = false ∧
      (t.isPacked = true → ∀ e ∈ v.elements, e.type.converts t.packedElement = true) := by
  by_cases hsame : v.type = t
  · refine iff_of_true ⟨v, convert_self hsame⟩ ⟨?_, fun hp e he => ?_⟩
    · rw [hsame]
      exact BuiltinType.lacksConversion_self t
    · have htype : e.type = t.packedElement := hsame ▸ hv.typed (hsame ▸ hp) e he
      rw [htype]
      exact BuiltinType.converts_self _
  · cases harray : v.isArray with
    | false =>
      have htype := type_ne_of_not_array harray
      have ht := BuiltinType.target_of_not_array htype.1 htype.2 h hsame
      rw [convert_of_not_array harray, convertScalar_iff hv.kinded h hsame ht.1 ht.2]
      simp [ht.2]
    | true =>
      obtain ⟨kind, element, name, vs, frozen, rfl⟩ := exists_of_isArray harray
      rcases BuiltinType.target_of_array hv.kinded h with heq | rfl | rfl | hp
      · exact absurd heq.symm hsame
      · refine iff_of_true ⟨_, convert_array_string hsame⟩ ⟨?_, nofun⟩
        simp [BuiltinType.lacksConversion]
      · refine iff_of_true ⟨_, convert_array_plain hsame⟩ ⟨?_, nofun⟩
        simp [BuiltinType.lacksConversion]
      · have hmade : kind.lacksConversion t = false := BuiltinType.lacksConversion_packed hp
        have hall : (∀ e ∈ vs, ∃ w, e.convertScalar t.packedElement = .ok w) ↔
            ∀ e ∈ vs, e.type.converts t.packedElement = true :=
          forall₂_congr fun e he => convertScalar_element_iff (hv.inner e he).kinded hp
        refine (convert_array_packed_iff hsame hp).trans (hall.trans ?_)
        exact ⟨fun helements => ⟨hmade, fun _ => helements⟩, fun hr => hr.2 hp⟩

/-! ### Constructors, constants and the function of the language -/

theorem convert_string (hv : v.WellTyped) : ∃ w, v.convert .string = .ok w := by
  apply (convert_iff hv (BuiltinType.converts_string _)).mpr
  exact ⟨by simp [BuiltinType.lacksConversion], nofun⟩

/-- A constructor call with one argument converts it, and reads colors. -/
theorem constructFrom_iff (hv : v.WellTyped) (h : v.type.converts t = true) :
    (∃ w, constructFrom t v = .ok w) ↔ (∃ w, v.convert t = .ok w) ∨
      ∃ code c, t = .color ∧ v = string code ∧ parseColor code = .ok c := by
  by_cases hsame : v.type = t
  · refine iff_of_true ?_ (.inl ⟨v, convert_self hsame⟩)
    unfold constructFrom
    rw [if_pos hsame]
    exact ⟨_, rfl⟩
  · unfold constructFrom
    rw [if_neg hsame]
    split
    · simp [convert, convertScalar, type]
    · exact iff_of_true ⟨_, rfl⟩ (.inl (convert_string hv))
    · rename_i hcode
      rw [if_pos h]
      refine ⟨.inl, ?_⟩
      rintro (hw | ⟨code, c, rfl, rfl, -⟩)
      · exact hw
      · exact (hcode code rfl rfl).elim

/-- The function `convert` of the language converts what the table lists. -/
theorem convertTo_iff (hv : v.WellTyped) (h : v.type.converts t = true) :
    (∃ w, GlobalFunction.convertTo v (int (.ofNat t.number)) = .ok w) ↔ ∃ w, v.convert t = .ok w := by
  have hnumber : ¬ Int64.ofNat t.number < 0 ∧
      BuiltinType.ofNumber? ((Int64.ofNat t.number).toInt.toNat % 256) = some t := by
    cases t <;> decide
  simp only [GlobalFunction.convertTo, if_neg hnumber.1, hnumber.2, h]
  rw [if_neg (by decide)]
  split
  · rename_i hstring
    subst hstring
    exact iff_of_true ⟨_, rfl⟩ (convert_string hv)
  · rfl

/-! ### What is listed and what is made -/

/-- **Conversions keep to the types.** The result of a conversion is of the type asked for, elements of a packed
array are of its element type, and whatever the table lists is converted, as long as the elements can be, but for
the three pairs of types that lack a conversion. The same holds for constructor calls of one argument, which read
colors besides, for the function `convert` and for declared constants; none of the three is an implicit conversion
to a type other than that of objects. -/
theorem conversions_succeed (hv : v.WellTyped) (t : BuiltinType) :
    (∀ w, v.convert t = .ok w → w.type = t ∧ (t.isPacked = true → ∀ e ∈ w.elements, e.type = t.packedElement)) ∧
    (v.type.converts t = true → (t.isPacked = true → ∀ e ∈ v.elements, e.type.converts t.packedElement = true) →
      ((∃ w, v.convert t = .ok w) ↔ v.type.lacksConversion t = false) ∧
      ((∃ w, construct t [v] = .ok w) ↔ v.type.lacksConversion t = false ∨
        ∃ code c, t = .color ∧ v = string code ∧ parseColor code = .ok c) ∧
      ((∃ w, GlobalFunction.convertTo v (int (.ofNat t.number)) = .ok w) ↔ v.type.lacksConversion t = false) ∧
      (v.type.lacksConversion t = false → ∀ T : StaticType, T.shape = .builtin t → T.isMeta = false →
        (Analysis.declaredValue T v).type = t)) ∧
    (v.type.convertsStrictly t = true → t ≠ .object → v.type.lacksConversion t = false) := by
  refine ⟨fun w hw => ?_, fun h helements => ?_, BuiltinType.lacksConversion_of_strict⟩
  · have htype : w.type = t := convert_type hw
    exact ⟨htype, htype ▸ (convert_wellTyped hv hw).typed⟩
  · have hconvert : (∃ w, v.convert t = .ok w) ↔ v.type.lacksConversion t = false := by
      rw [convert_iff hv h]
      exact ⟨And.left, fun hmade => ⟨hmade, helements⟩⟩
    refine ⟨hconvert, ?_, ?_, fun hmade T hshape hmeta => ?_⟩
    · rw [← hconvert]
      exact constructFrom_iff hv h
    · rw [← hconvert]
      exact convertTo_iff hv h
    · exact Analysis.declaredValue_type hshape hmeta (.inr (hconvert.mpr hmade))

/-- Both sides occur: strings are packed as floats, and a list of lists is not. -/
theorem conversions_succeed_packedFloat64Array :
    (ofList [string "1", int 2]).WellTyped ∧ BuiltinType.array.converts .packedFloat64Array = true ∧
      (∃ w, (ofList [string "1", int 2]).convert .packedFloat64Array = .ok w ∧ w.type = .packedFloat64Array ∧
        ∀ e ∈ w.elements, e.type = .float) ∧
      ∃ w, construct .packedFloat64Array [ofList [string "1", int 2]] = .ok w := by
  have hv : (ofList [string "1", int 2]).WellTyped := by
    refine .mk (.inl rfl) nofun fun e he => ?_
    simp only [ofList, elements, List.mem_cons, List.not_mem_nil, or_false] at he
    rcases he with rfl | rfl
    · exact wellTyped_of_not_array rfl
    · exact wellTyped_of_not_array rfl
  have helements : ∀ e ∈ (ofList [string "1", int 2]).elements,
      e.type.converts BuiltinType.packedFloat64Array.packedElement = true := by
    intro e he
    simp only [ofList, elements, List.mem_cons, List.not_mem_nil, or_false] at he
    rcases he with rfl | rfl
    · rfl
    · rfl
  obtain ⟨hresult, hmade, -⟩ := conversions_succeed hv .packedFloat64Array
  obtain ⟨hconvert, hconstruct, -⟩ := hmade rfl fun _ => helements
  obtain ⟨w, hw⟩ := hconvert.mpr rfl
  exact ⟨hv, rfl, ⟨w, hw, (hresult w hw).1, (hresult w hw).2 rfl⟩, hconstruct.mpr (.inl rfl)⟩

/-- The table lists a conversion of strings and integers to colors, and none is made; the constructor reads the
color that a string names. -/
theorem convert_misses_colors :
    (string "red").WellTyped ∧ (int 255).WellTyped ∧ BuiltinType.string.converts .color = true ∧
      BuiltinType.int.converts .color = true ∧
      (string "red").convert .color = .error (.cannotConvert .string .color) ∧
      (int 255).convert .color = .error (.cannotConvert .int .color) ∧
      GlobalFunction.convertTo (string "red") (int 9) = .error (.cannotConvert .string .color) ∧
      construct .color [string "red"] = .ok (color .one .zero .zero .one) := by
  refine ⟨wellTyped_of_not_array rfl, wellTyped_of_not_array rfl, rfl, rfl, rfl, rfl, ?_, ?_⟩
  · have hnumber : BuiltinType.ofNumber? ((9 : Int64).toInt.toNat % 256) = some .color := by decide
    simp only [GlobalFunction.convertTo, hnumber]
    rfl
  · have hfound : namedColors.find? (·.1 = ("red" : Text).lower) =
        some (("red" : Text), color .one .zero .zero .one) := by rfl
    show parseColor "red" = _
    unfold parseColor
    rw [hfound]

/-! ### Errors -/

section Errors

variable {e : ValueError}

theorem convertScalar_error (h : v.convertScalar t = .error e) : e = .cannotConvert v.type t := by
  unfold convertScalar at h
  split at h
  · cases h
  · split at h
    all_goals first
      | (cases h; done)
      | (cases h; rfl)

theorem convert_error (h : v.convert t = .error e) : ∃ s u, e = .cannotConvert s u := by
  unfold convert at h
  split at h
  · split at h
    · cases h
    split at h
    · cases h
    split at h
    · rename_i elements _ _ _ _
      cases hmap : elements.mapM (convertScalar · t.packedElement) with
      | error e' =>
        rw [hmap] at h
        cases h
        obtain ⟨x, -, hx⟩ := exists_of_mapM_error hmap
        exact ⟨_, _, convertScalar_error hx⟩
      | ok ws =>
        rw [hmap] at h
        cases h
    · exact ⟨_, _, convertScalar_error h⟩
  · exact ⟨_, _, convertScalar_error h⟩

end Errors

end Value

namespace GlobalFunction

open Value

/-! ### Numbers of types -/

/-- What a function with a rule makes of arguments. -/
def evaluate? (f : Option GlobalFunction) (vs : List Value) : Option (Except ValueError Value) :=
  (f.bind eval).map (· vs)

theorem evaluate_typeString (v : Value) :
    evaluate? (utility? "type_string") [v] = some (.ok (.string (typeString v))) := rfl

theorem evaluate_convert (v t : Value) : evaluate? (language? "convert") [v, t] = some (convertTo v t) := rfl

/-- The type that a number stands for: the one that has the lowest byte of the number, if that is not negative. -/
def typeOfNumber? (i : Int64) : Option BuiltinType :=
  if i < 0 then none else BuiltinType.ofNumber? (i.toInt.toNat % 256)

theorem typeOfNumber?_eq_some_iff {i : Int64} {t : BuiltinType} :
    typeOfNumber? i = some t ↔ 0 ≤ i ∧ i.toInt % 256 = t.number := by
  have hneg : i < 0 ↔ i.toInt < 0 := Int64.lt_iff_toInt_lt
  have hnonneg : 0 ≤ i ↔ 0 ≤ i.toInt := Int64.le_iff_toInt_le
  unfold typeOfNumber?
  rw [hnonneg]
  split
  · rename_i hsign
    rw [hneg] at hsign
    refine iff_of_false nofun ?_
    omega
  · rename_i hsign
    rw [hneg] at hsign
    rw [BuiltinType.ofNumber?_eq_some_iff]
    omega

theorem typeOfNumber?_eq_none_iff {i : Int64} :
    typeOfNumber? i = none ↔ i < 0 ∨ BuiltinType.count ≤ i.toInt % 256 := by
  have hneg : i < 0 ↔ i.toInt < 0 := Int64.lt_iff_toInt_lt
  unfold typeOfNumber? BuiltinType.ofNumber? BuiltinType.count
  split
  · rename_i hsign
    exact iff_of_true rfl (.inl hsign)
  · rename_i hsign
    rw [hneg] at hsign ⊢
    rw [List.getElem?_eq_none_iff]
    omega

theorem typeString_int (i : Int64) :
    typeString (.int i) = ((typeOfNumber? i).map BuiltinType.name).getD "<invalid type>" := by
  unfold typeString typeOfNumber?
  dsimp only
  split
  · rfl
  · cases BuiltinType.ofNumber? (i.toInt.toNat % 256) <;> rfl

theorem convertTo_int (v : Value) (i : Int64) : convertTo v (.int i) =
    match typeOfNumber? i with
    | none => .error .invalidTypeNumber
    | some t =>
      if !v.type.converts t then .error (.cannotConvertTo v.type t)
      else if t = .string then .ok (.string v.text)
      else v.convert t := by
  unfold convertTo typeOfNumber?
  dsimp only
  split
  · rfl
  · rfl

/-- A number that stands for a type is no reason to refuse a conversion. -/
theorem convertTo_invalid_iff (v : Value) (i : Int64) :
    convertTo v (.int i) = .error .invalidTypeNumber ↔ typeOfNumber? i = none := by
  rw [convertTo_int]
  cases typeOfNumber? i with
  | none => exact iff_of_true rfl rfl
  | some t =>
    refine iff_of_false ?_ nofun
    dsimp only
    split
    · nofun
    split
    · nofun
    · intro h
      obtain ⟨s, u, h⟩ := convert_error h
      cases h

/-- **Numbers of types wrap around.** A number that is not negative stands for the type that has its lowest byte, for
the names of types as for conversions; a negative one and one with another lowest byte stand for no type. So a
number below 256 stands for a type just if it is the number of one, and the number of the type of a value stands for
that type. -/
theorem type_numbers_wrap (i : Int64) (x : Value) :
    (∀ t : BuiltinType, evaluate? (utility? "type_string") [.int i] = some (.ok (.string t.name)) ↔
      0 ≤ i ∧ i.toInt % 256 = t.number) ∧
    (evaluate? (utility? "type_string") [.int i] = some (.ok (.string "<invalid type>")) ↔
      i < 0 ∨ BuiltinType.count ≤ i.toInt % 256) ∧
    (evaluate? (language? "convert") [x, .int i] = some (.error .invalidTypeNumber) ↔
      i < 0 ∨ BuiltinType.count ≤ i.toInt % 256) ∧
    ∃ n, evaluate? (utility? "typeof") [x] = some (.ok (.int n)) ∧
      evaluate? (utility? "type_string") [.int n] = some (.ok (.string x.type.name)) := by
  have hname : ∀ i : Int64, ∀ t : BuiltinType, typeString (.int i) = t.name ↔ typeOfNumber? i = some t := by
    intro i t
    rw [typeString_int]
    cases typeOfNumber? i with
    | none => exact iff_of_false (BuiltinType.name_ne_invalid t).symm nofun
    | some u =>
      exact ⟨fun h => congrArg some (BuiltinType.name_inj h), fun h => congrArg BuiltinType.name (Option.some.inj h)⟩
  have hnone : typeString (.int i) = "<invalid type>" ↔ typeOfNumber? i = none := by
    rw [typeString_int]
    cases typeOfNumber? i with
    | none => exact iff_of_true rfl rfl
    | some u => exact iff_of_false (BuiltinType.name_ne_invalid u) nofun
  have htext : ∀ s t : Text, some (.ok (.string s) : Except ValueError Value) = some (.ok (.string t)) ↔ s = t := by
    intro s t
    simp
  refine ⟨fun t => ?_, ?_, ?_, .ofNat x.type.number, rfl, ?_⟩
  · rw [evaluate_typeString, htext, hname, typeOfNumber?_eq_some_iff]
  · rw [evaluate_typeString, htext, hnone, typeOfNumber?_eq_none_iff]
  · rw [evaluate_convert, Option.some_inj, convertTo_invalid_iff, typeOfNumber?_eq_none_iff]
  · rw [evaluate_typeString, htext, hname, typeOfNumber?_eq_some_iff]
    cases x.type <;> decide

/-- The first number that is no byte stands for the first type. -/
theorem type_string_aliases : (BuiltinType.count : Int) ≤ (256 : Int64).toInt ∧
    evaluate? (utility? "type_string") [.int 256] = some (.ok (.string "Nil")) ∧
    evaluate? (language? "convert") [.int 7, .int 260] = some (.ok (.string "7")) := by
  refine ⟨by decide, ?_, ?_⟩
  · decide
  · rfl

end GlobalFunction

end GameScript
