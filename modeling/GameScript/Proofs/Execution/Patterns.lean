import GameScript.Lowering.Body
import GameScript.Proofs.Execution.Host
import GameScript.Value.Function
import GameScript.Value.Member
import Mathlib.Algebra.Ring.Nat

/-!
# What a pattern means

Which values a pattern matches, and what its names stand for, read off the pattern.

* `Pattern.Matches`, `Pattern.bindings` — the meaning of a pattern;
* `Value.host` — a host whose values are those that are known without running a program, and whose world
  is a record of what operations have looked at (`Probe`);
* `Pattern.Observed` — the records of patterns that are tested one after another, each up to the first
  test that fails.
-/

namespace GameScript

/-! ### Matching values -/

/-- Whether a value equals a constant and has a type that may be compared with it. -/
def Value.Fits (v c : Value) : Prop := v.type.mayEqual c.type = true ∧ v.equal c = true

mutual

/-- Whether a value matches a pattern. -/
def Pattern.Matches (v : Value) : Pattern → Prop
  | .literal l => v.Fits l.value
  | .expr x => ∃ c, x.value? = some c ∧ v.Fits c
  | .bind .. | .wildcard _ | .rest _ => True
  | .array _ ps _ => ∃ element name vs frozen, v = .array .array element name vs frozen ∧
    (if Lower.endsOpen ps then ps.length - 1 ≤ vs.length else vs.length = ps.length) ∧
    Pattern.ElementsMatch vs ps
  | .dict _ es isOpen _ => ∃ entries frozen, v = .dictionary entries frozen ∧
    (if isOpen then es.length ≤ entries.length else entries.length = es.length) ∧
    Pattern.EntriesMatch entries es

/-- Whether the first elements match patterns; one for all further elements matches any. -/
def Pattern.ElementsMatch (vs : List Value) : List Pattern → Prop
  | [] | [.rest _] => True
  | p :: ps => ∃ v, vs.head? = some v ∧ p.Matches v ∧ Pattern.ElementsMatch vs.tail ps

/-- Whether each key is there and its value matches, if there is a pattern for it. -/
def Pattern.EntriesMatch (entries : List Entry) : List PatternEntry → Prop
  | [] => True
  | ⟨k, p⟩ :: es => (∃ c v, k.value? = some c ∧ Value.lookup? c entries = some v ∧
      match p with
      | some p => p.Matches v
      | none => True) ∧ Pattern.EntriesMatch entries es

end

/-- The elements of an array. -/
def Value.elements : Value → List Value
  | .array _ _ _ vs _ => vs
  | _ => []

/-- The entries of a dictionary. -/
def Value.entries : Value → List Entry
  | .dictionary es _ => es
  | _ => []

mutual

/-- The names of a pattern, by their places, with the parts of a value that they stand for. -/
def Pattern.bindings (v : Value) : Pattern → List (Pos × Value)
  | .bind _ id => [(id.pos, v)]
  | .array _ ps _ => Pattern.elementBindings v.elements ps
  | .dict _ es _ _ => Pattern.entryBindings v.entries es
  | .literal _ | .expr _ | .wildcard _ | .rest _ => []

def Pattern.elementBindings (vs : List Value) : List Pattern → List (Pos × Value)
  | [] | [.rest _] => []
  | p :: ps => p.bindings (vs.headD .nil) ++ Pattern.elementBindings vs.tail ps

def Pattern.entryBindings (entries : List Entry) : List PatternEntry → List (Pos × Value)
  | [] => []
  | ⟨k, p⟩ :: es => (match p with
      | some p => p.bindings ((k.value?.bind (Value.lookup? · entries)).getD .nil)
      | none => []) ++ Pattern.entryBindings entries es

end

mutual

/-- The places of the names of a pattern. -/
def Pattern.binders : Pattern → List Pos
  | .bind _ id => [id.pos]
  | .array _ ps _ => Pattern.elementBinders ps
  | .dict _ es _ _ => Pattern.entryBinders es
  | .literal _ | .expr _ | .wildcard _ | .rest _ => []

def Pattern.elementBinders : List Pattern → List Pos
  | [] => []
  | p :: ps => p.binders ++ Pattern.elementBinders ps

def Pattern.entryBinders : List PatternEntry → List Pos
  | [] => []
  | ⟨_, p⟩ :: es => (match p with
      | some p => p.binders
      | none => []) ++ Pattern.entryBinders es

end

/-! ### Formed values -/

mutual

/-- Arrays are of type `Array` or packed, and the numbers of elements and entries are integers of the
machine, also inside of a value. -/
def Value.Formed : Value → Prop
  | .array kind _ _ vs _ => (kind = .array ∨ kind.isPacked = true) ∧ vs.length < 2 ^ 63 ∧ Value.AllFormed vs
  | .dictionary es _ => es.length < 2 ^ 63 ∧ Value.EntriesFormed es
  | _ => True

def Value.AllFormed : List Value → Prop
  | [] => True
  | v :: vs => v.Formed ∧ Value.AllFormed vs

def Value.EntriesFormed : List Entry → Prop
  | [] => True
  | ⟨_, v⟩ :: es => v.Formed ∧ Value.EntriesFormed es

end

namespace Value

variable {v k : Value} {vs : List Value} {es : List Entry}

theorem AllFormed.of_mem (h : AllFormed vs) (hv : v ∈ vs) : v.Formed := by
  induction vs with
  | nil => cases hv
  | cons u us ih =>
    rw [AllFormed] at h
    rcases List.mem_cons.mp hv with rfl | hv
    · exact h.1
    · exact ih h.2 hv

theorem EntriesFormed.lookup? (h : EntriesFormed es) (hv : lookup? k es = some v) : v.Formed := by
  obtain ⟨e, he, rfl⟩ := Option.map_eq_some_iff.mp hv
  have hmem := List.mem_of_find?_eq_some he
  clear he hv
  induction es with
  | nil => cases hmem
  | cons e' es ih =>
    obtain ⟨_, u⟩ := e'
    rw [EntriesFormed] at h
    rcases List.mem_cons.mp hmem with rfl | hmem
    · exact h.1
    · exact ih h.2 hmem

/-- A value of type `Array` is an array of the general kind. -/
theorem array_of_type (h : v.type = .array) : ∃ element name vs frozen, v = array .array element name vs frozen := by
  cases v with
  | array kind element name vs frozen =>
    obtain rfl : kind = .array := h
    exact ⟨element, name, vs, frozen, rfl⟩
  | _ => cases h

theorem dictionary_of_type (hf : v.Formed) (h : v.type = .dictionary) : ∃ es frozen, v = dictionary es frozen := by
  cases v with
  | array kind element name vs frozen =>
    obtain rfl : kind = .dictionary := h
    rw [Formed] at hf
    rcases hf.1 with h | h <;> cases h
  | dictionary es frozen => exact ⟨es, frozen, rfl⟩
  | _ => cases h

end Value

/-! ### Values as a host -/

/-- The values among some operands. -/
def Operand.values {V : Type} (os : List (Operand V)) : List V :=
  os.filterMap fun
    | .value v => some v
    | _ => none

/-- Keys and values that alternate, as entries. -/
def Value.pairUp : List Value → List Entry
  | k :: v :: vs => ⟨k, v⟩ :: pairUp vs
  | _ => []

/-- The result of an operation on values. What is looked up when a program runs is known to `lookup`. -/
def Value.operate (lookup : Opcode → List (Operand Value) → Option Value) (op : Opcode)
    (os : List (Operand Value)) : Option Value :=
  match op, os with
  | .matchType, [.value v, .number t] => some (.bool ((BuiltinType.ofNumber? t).any v.type.mayEqual))
  | .typeTestBuiltin, [.value v, .number t] => some (.bool (v.type.number = t))
  | .operator, [.number op, .value x, .value y] => do
    (Value.binary (← Operator.ofNumber? op) x y).toOption
  | .callLanguageUtility, .name n :: os => do
    ((← (← GlobalFunction.language? n).eval) (Operand.values os)).toOption
  | .getIndexed, [.value v, .value k] => (v.getIndexed k).toOption
  | .constructArray, os => some (.ofList (Operand.values os))
  | .constructDictionary, os => some (.ofEntries (Value.pairUp (Operand.values os)) false)
  | op, os => lookup op os

namespace Value

variable {lookup : Opcode → List (Operand Value) → Option Value} {v u : Value}

theorem operate_matchType (v : Value) (t : BuiltinType) :
    operate lookup .matchType [.value v, .number t.number] = some (.bool (v.type.mayEqual t)) := by
  show some (bool ((BuiltinType.ofNumber? t.number).any v.type.mayEqual)) = _
  rw [BuiltinType.ofNumber?_number]
  rfl

theorem operate_typeTest (v : Value) (t : BuiltinType) :
    operate lookup .typeTestBuiltin [.value v, .number t.number] = some (.bool (v.type = t)) := by
  have hnumber : v.type.number = t.number ↔ v.type = t :=
    ⟨fun h => Option.some.inj (by rw [← BuiltinType.ofNumber?_number, h, BuiltinType.ofNumber?_number]), congrArg _⟩
  exact congrArg (some ∘ bool) (decide_eq_decide.2 hnumber)

theorem operate_operator {op : Operator} {r : Value} (h : binary op v u = .ok r) :
    operate lookup .operator [.number op.number, .value v, .value u] = some r := by
  have hop : Operator.ofNumber? op.number = some op := by cases op <;> rfl
  show (Operator.ofNumber? op.number).bind (fun op => (binary op v u).toOption) = _
  rw [hop, Option.bind_some, h]
  rfl

/-- Values of types that may be equal can be compared. -/
theorem binary_equal (h : v.type.mayEqual u.type = true) : binary .equal v u = .ok (bool (v.equal u)) := by
  have hcomparable : (v.type = u.type || v.type = .nil || u.type = .nil ||
      (v.type.isNumeric && u.type.isNumeric) || (v.type.isStringLike && u.type.isStringLike)) = true := by
    simp only [BuiltinType.mayEqual, Bool.or_eq_true] at h ⊢
    rcases h with (h | h) | h <;> simp [h]
  have hresult : (Operator.equal.resultType? v.type u.type).isSome = true := by
    show (if _ then some BuiltinType.bool else none).isSome = true
    rw [if_pos hcomparable]
    rfl
  exact if_pos hresult

theorem binary_within (k : Value) (es : List Entry) (frozen : Bool) :
    binary .within k (dictionary es frozen) = .ok (bool (lookup? k es).isSome) := rfl

/-- Numbers that are not negative are compared as they are. -/
theorem binary_length (atLeast : Bool) {n k : Nat} (hn : n < 2 ^ 63) (hk : k < 2 ^ 63) :
    binary (if atLeast then .greaterEqual else .equal) (int (Int64.ofNat n)) (int (Int64.ofNat k)) =
      .ok (bool (if atLeast then k ≤ n else n = k)) := by
  have hn' : (Int64.ofNat n).toInt = n := Int64.toInt_ofNat_of_lt hn
  have hk' : (Int64.ofNat k).toInt = k := Int64.toInt_ofNat_of_lt hk
  cases atLeast with
  | true =>
    have hle : Int64.ofNat k ≤ Int64.ofNat n ↔ k ≤ n := by
      rw [Int64.le_iff_toInt_le, hn', hk']
      omega
    exact congrArg (fun b => Except.ok (bool b)) (decide_eq_decide.2 hle)
  | false =>
    have heq : Int64.ofNat n = Int64.ofNat k ↔ n = k := by
      rw [← Int64.toInt_inj, hn', hk']
      omega
    exact congrArg (fun b => Except.ok (bool b)) (decide_eq_decide.2 heq)

theorem operate_len {r : Value} (h : GlobalFunction.length v = .ok r) :
    operate lookup .callLanguageUtility [.name "len", .number 1, .value v] = some r := by
  have hlen : ((GlobalFunction.language? "len").bind fun f => f.eval) = some (GlobalFunction.one GlobalFunction.length) := rfl
  obtain ⟨f, hf, heval⟩ := Option.bind_eq_some_iff.mp hlen
  show (GlobalFunction.language? "len").bind (fun f => f.eval.bind fun eval => (eval [v]).toOption) = _
  simp [hf, heval, GlobalFunction.one, h, Except.toOption]

theorem elementAt_ofNat {vs : List Value} {i : Nat} (hi : i < 2 ^ 63) (h : vs[i]? = some v) :
    elementAt vs (Int64.ofNat i) = .ok v := by
  have hint : (Int64.ofNat i).toInt = i := Int64.toInt_ofNat_of_lt hi
  have hneg : ¬ Int64.ofNat i < 0 := by
    rw [Int64.lt_iff_toInt_lt, hint]
    simp
  unfold elementAt
  simp [hneg, hint, h]

end Value

/-- An operation that has been done, with what it was given and its result. -/
structure Probe where
  op : Opcode
  operands : List (Operand Value)
  result : Value

/-- Operations that the code of a pattern tests a value by. -/
def Probe.IsTest (t : Probe) : Prop := t.op = .matchType ∨ t.op = .typeTestBuiltin ∨ t.op = .operator

/-- The program that runs, as far as constants depend on it. -/
structure Scene where
  self : Value
  cls : Value
  /-- The results of operations that look something up. -/
  lookup : Opcode → List (Operand Value) → Option Value

/-- Values in a world that records the operations on them. -/
def Value.host (E : Scene) : Host Value (List Probe) where
  constant := id
  nil := .nil
  self := E.self
  cls := E.cls
  truth := Value.truth
  isShared v := v.type.isShared
  slot _ _ := none
  setSlot _ _ _ := none
  act op os done := (Value.operate E.lookup op os).map fun v => (v, done ++ [⟨op, os, v⟩])

/-! ### Records -/

namespace Pattern

/-- All tests of a record have passed. -/
def Passed (l : List Probe) : Prop := ∀ t ∈ l, t.IsTest → t.result.truth = true

/-- A record ends with the first test that fails. -/
def Stopped (l : List Probe) : Prop :=
  ∃ l' t, l = l' ++ [t] ∧ Passed l' ∧ t.IsTest ∧ t.result.truth = false

/-- The record of patterns that are tested on a value one after another, with the one that is found: all
tests of the first one that matches have passed, and nothing is looked at behind it; each pattern before
stops with a test. -/
inductive Observed (v : Value) : List Pattern → List Probe → Option Pattern → Prop
  | nil : Observed v [] [] none
  | here {p ps l} : p.Matches v → Passed l → Observed v (p :: ps) l (some p)
  | next {p ps l l' r} : ¬ p.Matches v → Stopped l → Observed v ps l' r → Observed v (p :: ps) (l ++ l') r

/-- A pattern is found if one matches. -/
theorem Observed.isSome_iff {v : Value} {ps : List Pattern} {l : List Probe} {r : Option Pattern}
    (h : Observed v ps l r) : r.isSome = true ↔ ∃ p ∈ ps, p.Matches v := by
  induction h with
  | nil => simp
  | here hp _ => simp [hp]
  | next hp _ _ ih => simp [hp, ih]

theorem passed_nil : Passed [] := fun _ h => by cases h

theorem Passed.append {l l' : List Probe} (h : Passed l) (h' : Passed l') : Passed (l ++ l') :=
  fun t ht => (List.mem_append.mp ht).elim (h t) (h' t)

theorem Passed.stopped {l l' : List Probe} (h : Passed l) (h' : Stopped l') : Stopped (l ++ l') := by
  obtain ⟨l₁, t, rfl, hl₁, ht⟩ := h'
  exact ⟨l ++ l₁, t, by simp, h.append hl₁, ht⟩

theorem passed_singleton {t : Probe} (h : t.IsTest → t.result.truth = true) : Passed [t] := by
  intro u hu
  rw [List.mem_singleton] at hu
  exact hu ▸ h

theorem stopped_singleton {t : Probe} (ht : t.IsTest) (h : t.result.truth = false) : Stopped [t] :=
  ⟨[], t, rfl, passed_nil, ht, h⟩

end Pattern

end GameScript
