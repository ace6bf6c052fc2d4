import GameScript.Value.Function

/-!
# Types of computed values

Conversions, constructors and functions give values of the types that they are declared with.
-/

namespace GameScript

/-! ### Conversions and constructors -/

namespace Value

variable {v w : Value} {t : BuiltinType}

theorem convertScalar_type (h : v.convertScalar t = .ok w) : w.type = t := by
  unfold convertScalar at h
  split at h
  · rename_i htype
    cases h
    exact htype
  · split at h
    all_goals cases h
    all_goals rfl

theorem convert_type (h : v.convert t = .ok w) : w.type = t := by
  unfold convert at h
  split at h
  · rename_i kind element name elements frozen
    split at h
    · rename_i hkind
      cases h
      exact hkind
    · split at h
      · rename_i harray
        cases h
        exact harray.symm
      · split at h
        · cases hmap : elements.mapM (convertScalar · t.packedElement) with
          | error e =>
            rw [hmap] at h
            cases h
          | ok ws =>
            rw [hmap] at h
            cases h
            rfl
        · exact convertScalar_type h
  · exact convertScalar_type h

theorem parseColor_type {code : Text} (h : parseColor code = .ok v) : v.type = .color := by
  have hnamed : ∀ c ∈ namedColors, c.2.type = .color := by
    intro c hc
    simp only [namedColors, List.mem_cons, List.not_mem_nil, or_false] at hc
    rcases hc with rfl | rfl | rfl | rfl | rfl | rfl | rfl | rfl <;> rfl
  unfold parseColor at h
  split at h
  · rename_i c hfind
    cases h
    exact hnamed _ (List.mem_of_find?_eq_some hfind)
  · dsimp only at h
    split at h
    · cases h
    · split at h
      all_goals cases h
      rfl

theorem constructFrom_type (h : constructFrom t v = .ok w) : w.type = t := by
  unfold constructFrom at h
  split at h
  · rename_i htype
    cases h
    split <;> exact htype
  · split at h
    · exact parseColor_type h
    · cases h
      rfl
    · split at h
      · exact convert_type h
      · cases h

theorem zero_type (t : BuiltinType) :
    (zero t).type = t ∨ (zero t).type = .nil ∧ (t = .object ∨ t = .callable ∨ t = .signal) := by
  cases t <;> simp [zero, type, ofList, emptyDictionary]

/-- Only the default values of objects, callables and signals are not of their types. -/
theorem construct_type {vs : List Value} (h : construct t vs = .ok w) :
    w.type = t ∨ w.type = .nil ∧ (t = .object ∨ t = .callable ∨ t = .signal) := by
  unfold construct at h
  dsimp only at h
  split at h
  · cases h
    exact zero_type t
  · exact .inl (constructFrom_type h)
  · left
    split at h
    · cases hnumbers : numberArguments t 1 _ with
      | error e =>
        rw [hnumbers] at h
        cases h
      | ok xs =>
        rw [hnumbers] at h
        dsimp only [bind, Except.bind] at h
        split at h
        all_goals cases h
        all_goals rfl
    · split at h
      · rename_i hcolor
        subst hcolor
        split at h
        · split at h
          all_goals cases h
          rfl
        · split at h
          · cases hnumbers : numberArguments .color 1 _ with
            | error e =>
              rw [hnumbers] at h
              cases h
            | ok xs =>
              rw [hnumbers] at h
              dsimp only [bind, Except.bind] at h
              split at h
              all_goals cases h
              all_goals rfl
          · cases h
      · cases h

end Value

/-! ### Functions -/

namespace GlobalFunction

/-- All values that a rule gives are of a type. -/
def Yields (t : BuiltinType) (r : Rule) : Prop := ∀ vs v, r vs = .ok v → v.type = t

/-- The rule of a function gives values of the type that it is declared to return, unless that is any. -/
def Typed (f : GlobalFunction) : Prop :=
  ∀ rule vs v, f.eval = some rule → rule vs = .ok v →
    f.signature.returns = .any ∨ f.signature.returns = .builtin v.type

section Rules

variable {r : Rule} {t : BuiltinType}

theorem onFloat_yields (f : Double → Double) : Yields .float (onFloat f) := by
  intro vs v h
  unfold onFloat at h
  repeat' split at h
  all_goals cases h
  rfl

theorem onFloats_yields (f : Double → Double → Double) : Yields .float (onFloats f) := by
  intro vs v h
  unfold onFloats at h
  repeat' split at h
  all_goals cases h
  rfl

theorem onFloatToInt_yields (f : Double → Double) : Yields .int (onFloatToInt f) := by
  intro vs v h
  unfold onFloatToInt at h
  repeat' split at h
  all_goals cases h
  rfl

/-- A rule that computes something of its arguments first. -/
theorem yields_bind {α : Type} {x : List Value → Except ValueError α} {f : α → Except ValueError Value}
    (hf : ∀ a v, f a = .ok v → v.type = t) : Yields t fun vs => x vs >>= f := by
  intro vs v h
  dsimp only at h
  cases hx : x vs with
  | error e =>
    rw [hx] at h
    cases h
  | ok a =>
    rw [hx] at h
    exact hf a v h

theorem onThreeFloats_yields (f : Double → Double → Double → Double) : Yields .float (onThreeFloats f) := by
  refine yields_bind fun xs v h => ?_
  split at h
  all_goals cases h
  rfl

theorem onInt_yields (f : Int64 → Int64) : Yields .int (onInt f) := by
  refine yields_bind fun xs v h => ?_
  split at h
  all_goals cases h
  rfl

theorem onInts_yields (f : Int64 → Int64 → Except ValueError Int64) : Yields .int (onInts f) := by
  refine yields_bind fun xs v h => ?_
  split at h
  · rename_i x y _
    cases hf : f x y with
    | error e =>
      rw [hf] at h
      cases h
    | ok i =>
      rw [hf] at h
      cases h
      rfl
  · cases h

theorem one_yields {f : Value → Except ValueError Value} (hf : ∀ v w, f v = .ok w → w.type = t) :
    Yields t (one f) := by
  intro vs v h
  unfold one at h
  split at h
  · exact hf _ _ h
  · cases h

theorem length_type {v w : Value} (h : length v = .ok w) : w.type = .int := by
  unfold length at h
  dsimp only at h
  split at h
  all_goals cases h
  all_goals rfl

theorem character_type {v w : Value} (h : character v = .ok w) : w.type = .string := by
  unfold character at h
  split at h
  all_goals cases h
  rfl

theorem colorOfBytes_yields : Yields .color colorOfBytes :=
  yields_bind fun _ _ h => by
    cases h
    rfl

theorem range_yields : Yields .array range := by
  refine yields_bind fun xs v h => ?_
  dsimp only at h
  split at h
  all_goals repeat' split at h
  all_goals cases h
  all_goals rfl

end Rules

/-! ### Declarations -/

section Declarations

variable {name : Text} {params : List Property} {r : Rule} {t : BuiltinType}

theorem function_typed (h : Yields t r) (ht : t ≠ .nil) : (function name (.of t) params r).Typed := by
  intro rule vs v hrule hv
  cases hrule
  right
  show DeclaredType.of t = .builtin v.type
  rw [h vs v hv, DeclaredType.of, if_neg ht]

theorem function_any_typed : (function name .any params r).Typed := fun _ _ _ _ _ => .inl rfl

theorem effect_typed {returns : DeclaredType} : (effect name returns params).Typed := fun _ _ _ h => by cases h

theorem variadic_typed {f : GlobalFunction} : (variadic f).Typed ↔ f.Typed := .rfl

end Declarations

theorem utilities_typed : ∀ f ∈ utilities, f.Typed := by
  unfold utilities
  simp only [List.forall_mem_cons, List.not_mem_nil, false_implies, implies_true, and_true,
    variadic_typed]
  repeat' apply And.intro
  all_goals first
    | exact function_typed (onFloat_yields _) (by decide)
    | exact function_typed (onFloats_yields _) (by decide)
    | exact function_typed (onThreeFloats_yields _) (by decide)
    | exact function_typed (onFloatToInt_yields _) (by decide)
    | exact function_typed (onInt_yields _) (by decide)
    | exact function_typed (onInts_yields _) (by decide)
    | exact function_any_typed
    | exact effect_typed
    | exact function_typed (one_yields fun _ _ h => by cases h; rfl) (by decide)
    | skip
  -- the rules that are written out
  · refine function_typed (yields_bind fun xs v h => ?_) (by decide)
    split at h
    all_goals cases h
    rfl
  · refine function_typed (t := .string) (fun vs v h => ?_) (by decide)
    cases h
    rfl

theorem languageFunctions_typed : ∀ f ∈ languageFunctions, f.Typed := by
  unfold languageFunctions
  simp only [List.forall_mem_cons, List.not_mem_nil, false_implies, implies_true, and_true,
    variadic_typed]
  refine ⟨?_, effect_typed, effect_typed, effect_typed, effect_typed, effect_typed, ?_, ?_, effect_typed,
    effect_typed, effect_typed, ?_, function_any_typed⟩
  · intro rule vs v hrule hv
    cases hrule
    right
    rw [colorOfBytes_yields vs v hv]
    rfl
  · exact function_typed (one_yields fun _ _ => length_type) (by decide)
  · exact function_typed range_yields (by decide)
  · exact function_typed (one_yields fun _ _ => character_type) (by decide)

/-- The functions that a name can stand for give values of the types that they are declared with. -/
theorem typed {name : Text} {f : GlobalFunction} (h : ((language? name).orElse fun _ => utility? name) = some f) :
    f.Typed := by
  cases hlanguage : language? name with
  | some g =>
    rw [hlanguage] at h
    cases h
    exact languageFunctions_typed f (List.mem_of_find?_eq_some hlanguage)
  | none =>
    have hutility : utility? name = some f := by
      rw [hlanguage] at h
      exact h
    exact utilities_typed f (List.mem_of_find?_eq_some hutility)

end GlobalFunction

end GameScript
