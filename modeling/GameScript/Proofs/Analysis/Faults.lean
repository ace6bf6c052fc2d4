import GameScript.Analysis.Call
import GameScript.Proofs.Analysis.Logic
import GameScript.Value.Function

/-!
# Where evaluation breaks off

The rules of global functions look at their arguments without counting them first. That is left to the check
of the arguments of a call, which counts against the declared parameters.

* `GlobalFunction.Completes` — a rule that has an answer for all lists of at least so many arguments;
* `GlobalFunction.Overruns` — the calls whose evaluation breaks off even though the check admits them;
* `GlobalFunction.Bounded` — a function whose evaluation breaks off just there, as that of all functions of
  the engine and of the language does;
* `Analysis.reduceGlobalCall_brokenOff_iff` — the analysis of a call breaks off just there.
-/

namespace GameScript

variable {α β : Type}

/-! ### Answers -/

/-- A computation that breaks off: it neither gives a value nor reports an error. -/
def BreaksOff (x : Except ValueError α) : Prop := ∃ e, x = .error e ∧ e.isFault = true

/-- A computation with an answer, be it a value or an error. -/
def Responds (x : Except ValueError α) : Prop := ¬ BreaksOff x

theorem responds_ok (a : α) : Responds (.ok a : Except ValueError α) := by
  rintro ⟨e, h, -⟩
  cases h

theorem responds_error {e : ValueError} (h : e.isFault = false) : Responds (.error e : Except ValueError α) := by
  rintro ⟨e', he, hfault⟩
  cases he
  rw [h] at hfault
  cases hfault

/-- One computation after another. -/
theorem Responds.bind {x : Except ValueError α} {f : α → Except ValueError β} (hx : Responds x)
    (hf : ∀ a, x = .ok a → Responds (f a)) : Responds (x >>= f) := by
  cases h : x with
  | error e =>
    rintro ⟨e', he, hfault⟩
    cases he
    exact hx ⟨e, h, hfault⟩
  | ok a => exact hf a h

theorem responds_mapM {f : α → Except ValueError β} (hf : ∀ a, Responds (f a)) (xs : List α) :
    Responds (xs.mapM f) := by
  induction xs with
  | nil => exact responds_ok _
  | cons x xs ih =>
    rw [List.mapM_cons]
    exact (hf x).bind fun _ _ => ih.bind fun _ _ => responds_ok _

/-! ### Conversions -/

theorem Value.convertScalar_responds (v : Value) (t : BuiltinType) : Responds (v.convertScalar t) := by
  unfold convertScalar
  split
  · exact responds_ok _
  · split
    all_goals first
      | exact responds_ok _
      | exact responds_error rfl

theorem Value.convert_responds (v : Value) (t : BuiltinType) : Responds (v.convert t) := by
  unfold convert
  split
  · split
    · exact responds_ok _
    · split
      · exact responds_ok _
      · split
        · exact (responds_mapM (fun v => v.convertScalar_responds _) _).bind fun _ _ => responds_ok _
        · exact convertScalar_responds _ _
  · exact convertScalar_responds _ _

namespace GlobalFunction

/-! ### Rules -/

/-- A rule that **completes** on `n` arguments or more: it has an answer for them. -/
def Completes (n : Nat) (r : Rule) : Prop := ∀ vs : List Value, n ≤ vs.length → Responds (r vs)

section Rules

theorem exists_two {xs : List α} (h : 2 ≤ xs.length) : ∃ x y ys, xs = x :: y :: ys := by
  have hpos : 0 < xs.length := by omega
  obtain ⟨x, xs, rfl⟩ := List.exists_cons_of_length_pos hpos
  obtain ⟨y, ys, rfl⟩ := List.exists_cons_of_length_pos (Nat.le_of_succ_le_succ h)
  exact ⟨x, y, ys, rfl⟩

theorem exists_three {xs : List α} (h : 3 ≤ xs.length) : ∃ x y z ys, xs = x :: y :: z :: ys := by
  have hpos : 0 < xs.length := by omega
  obtain ⟨x, xs, rfl⟩ := List.exists_cons_of_length_pos hpos
  obtain ⟨y, z, ys, rfl⟩ := exists_two (Nat.le_of_succ_le_succ h)
  exact ⟨x, y, z, ys, rfl⟩

theorem floats_responds (vs : List Value) : ∀ i, Responds (floats i vs) := by
  induction vs with
  | nil => exact fun i => responds_ok _
  | cons v vs ih =>
    intro i
    unfold floats
    split
    · exact (ih _).bind fun _ _ => responds_ok _
    · exact responds_error rfl

/-- As many floats as there are arguments. -/
theorem length_floats {vs : List Value} : ∀ {i : Nat} {xs : List Double}, floats i vs = .ok xs →
    xs.length = vs.length := by
  induction vs with
  | nil =>
    intro i xs h
    cases h
    rfl
  | cons v vs ih =>
    intro i xs h
    unfold floats at h
    split at h
    · cases hrest : floats (i + 1) vs with
      | error e =>
        rw [hrest] at h
        cases h
      | ok ys =>
        rw [hrest] at h
        cases h
        rw [List.length_cons, List.length_cons, ih hrest]
    · cases h

theorem ints_responds (vs : List Value) : ∀ i, Responds (ints i vs) := by
  induction vs with
  | nil => exact fun i => responds_ok _
  | cons v vs ih =>
    intro i
    unfold ints
    split
    · exact (ih _).bind fun _ _ => responds_ok _
    · exact responds_error rfl

/-- As many integers as there are arguments. -/
theorem length_ints {vs : List Value} : ∀ {i : Nat} {xs : List Int64}, ints i vs = .ok xs →
    xs.length = vs.length := by
  induction vs with
  | nil =>
    intro i xs h
    cases h
    rfl
  | cons v vs ih =>
    intro i xs h
    unfold ints at h
    split at h
    · cases hrest : ints (i + 1) vs with
      | error e =>
        rw [hrest] at h
        cases h
      | ok ys =>
        rw [hrest] at h
        cases h
        rw [List.length_cons, List.length_cons, ih hrest]
    · cases h

theorem onFloat_completes (f : Double → Double) : Completes 1 (onFloat f) := by
  intro vs h
  obtain ⟨v, vs, rfl⟩ := List.exists_cons_of_length_pos h
  dsimp only [onFloat]
  split
  · exact responds_ok _
  · exact responds_error rfl

theorem onFloats_completes (f : Double → Double → Double) : Completes 2 (onFloats f) := by
  intro vs h
  obtain ⟨v, w, vs, rfl⟩ := exists_two h
  dsimp only [onFloats]
  split
  · exact responds_ok _
  · exact responds_error rfl

theorem onFloatToInt_completes (f : Double → Double) : Completes 1 (onFloatToInt f) := by
  intro vs h
  obtain ⟨v, vs, rfl⟩ := List.exists_cons_of_length_pos h
  dsimp only [onFloatToInt]
  split
  · exact responds_ok _
  · exact responds_error rfl

theorem onThreeFloats_completes (f : Double → Double → Double → Double) : Completes 3 (onThreeFloats f) := by
  intro vs h
  refine (floats_responds vs 1).bind fun xs hxs => ?_
  rw [← length_floats hxs] at h
  obtain ⟨x, y, z, xs, rfl⟩ := exists_three h
  exact responds_ok _

theorem onInt_completes (f : Int64 → Int64) : Completes 1 (onInt f) := by
  intro vs h
  refine (ints_responds vs 1).bind fun xs hxs => ?_
  rw [← length_ints hxs] at h
  obtain ⟨x, xs, rfl⟩ := List.exists_cons_of_length_pos h
  exact responds_ok _

theorem onInts_completes {f : Int64 → Int64 → Except ValueError Int64} (hf : ∀ x y, Responds (f x y)) :
    Completes 2 (onInts f) := by
  intro vs h
  refine (ints_responds vs 1).bind fun xs hxs => ?_
  rw [← length_ints hxs] at h
  obtain ⟨x, y, xs, rfl⟩ := exists_two h
  exact (hf x y).bind fun _ _ => responds_ok _

theorem onNumber_completes (name : Text) (f : Int64 → Int64) (g : Double → Double) :
    Completes 1 (onNumber name f g) := by
  intro vs h
  obtain ⟨v, vs, rfl⟩ := List.exists_cons_of_length_pos h
  unfold onNumber
  split
  · exact responds_ok _
  · exact responds_ok _
  · exact responds_error rfl
  · rename_i hnil
    cases hnil

theorem one_completes {f : Value → Except ValueError Value} (hf : ∀ v, Responds (f v)) : Completes 1 (one f) := by
  intro vs h
  obtain ⟨v, vs, rfl⟩ := List.exists_cons_of_length_pos h
  exact hf v

theorem extreme_responds (name : Text) (o : Ordering) (vs : List Value) :
    ∀ best, Responds (extreme name o best vs) := by
  induction vs with
  | nil => exact fun best => responds_ok best
  | cons v vs ih =>
    intro best
    unfold extreme
    split
    · exact responds_error rfl
    · exact ih _

theorem positiveIntModulo_responds (x y : Int64) : Responds (positiveIntModulo x y) := by
  unfold positiveIntModulo
  split
  · exact responds_error rfl
  · exact responds_ok _

theorem length_responds (v : Value) : Responds (length v) := by
  unfold length
  dsimp only
  split
  all_goals first
    | exact responds_ok _
    | exact responds_error rfl

theorem character_responds (v : Value) : Responds (character v) := by
  unfold character
  split
  · exact responds_ok _
  · exact responds_error rfl

theorem convertTo_responds (v t : Value) : Responds (convertTo v t) := by
  unfold convertTo
  split
  · split
    · exact responds_error rfl
    · split
      · exact responds_error rfl
      · split
        · exact responds_error rfl
        · split
          · exact responds_ok _
          · exact v.convert_responds _
  · exact responds_error rfl

/-- The fourth of the components is the last for which there is room. -/
theorem colorBytes_responds (vs : List Value) : ∀ i, i + vs.length ≤ 5 → Responds (colorBytes i vs) := by
  induction vs with
  | nil => exact fun i _ => responds_ok _
  | cons v vs ih =>
    intro i hi
    rw [List.length_cons] at hi
    unfold colorBytes
    split
    · rw [if_neg (by omega)]
      exact (ih (i + 1) (by omega)).bind fun _ _ => responds_ok _
    · exact responds_error rfl

theorem colorOfBytes_responds {vs : List Value} (h : vs.length ≤ 4) : Responds (colorOfBytes vs) :=
  (colorBytes_responds vs 1 (by omega)).bind fun _ _ => responds_ok _

/-- The bounds of a range break off at the first number past the third that has only numbers before it. -/
theorem rangeInts_breaksOff_iff (vs : List Value) : ∀ {i : Nat}, i ≤ 4 →
    (BreaksOff (rangeInts i vs) ↔ 5 - i ≤ vs.length ∧ ∀ v ∈ vs.take (5 - i), (bound? v).isSome) := by
  induction vs with
  | nil =>
    intro i hi
    constructor
    · intro h
      exact absurd h (responds_ok _)
    · rintro ⟨h, -⟩
      simp only [List.length_nil] at h
      omega
  | cons v vs ih =>
    intro i hi
    have hsplit : 5 - i = (4 - i) + 1 := by omega
    rw [hsplit, List.take_succ_cons, List.length_cons]
    unfold rangeInts
    cases hv : bound? v with
    | none =>
      constructor
      · intro h
        exact absurd h (responds_error rfl)
      · rintro ⟨-, h⟩
        have := h v List.mem_cons_self
        rw [hv] at this
        cases this
    | some x =>
      dsimp only
      by_cases hroom : 3 < i
      · obtain rfl : i = 4 := by omega
        rw [if_pos hroom]
        constructor
        · intro _
          refine ⟨by omega, ?_⟩
          simp [hv]
        · intro _
          exact ⟨_, rfl, rfl⟩
      · have hrest := ih (i := i + 1) (by omega)
        rw [if_neg hroom, show 4 - i = 5 - (i + 1) by omega]
        have hstep : BreaksOff (do return x :: (← rangeInts (i + 1) vs)) ↔ BreaksOff (rangeInts (i + 1) vs) := by
          cases rangeInts (i + 1) vs with
          | ok xs => exact ⟨fun h => absurd h (responds_ok _), fun h => absurd h (responds_ok _)⟩
          | error e =>
            constructor
            · rintro ⟨e', he, hfault⟩
              cases he
              exact ⟨e, rfl, hfault⟩
            · rintro ⟨e', he, hfault⟩
              cases he
              exact ⟨e, rfl, hfault⟩
        rw [hstep, hrest]
        simp [hv]

end Rules

/-! ### Calls -/

/-- A function can be given `n` arguments. -/
def Admits (s : Signature) (n : Nat) : Prop := s.minArgs ≤ n ∧ (s.vararg = true ∨ n ≤ s.params.length)

/-- The calls that **overrun** their arguments or the room for them: the least or the greatest of no values
at all, and a range that begins with four numbers. -/
def Overruns (name : Text) (vs : List Value) : Prop :=
  (name = "min" ∨ name = "max") ∧ vs = [] ∨
    name = "range" ∧ 4 ≤ vs.length ∧ ∀ v ∈ vs.take 4, (bound? v).isSome

/-- A function whose evaluation breaks off just where a call overruns. -/
def Bounded (f : GlobalFunction) : Prop :=
  ∀ r vs, f.eval = some r → Admits f.signature vs.length → (BreaksOff (r vs) ↔ Overruns f.name vs)

section Declarations

variable {name : Text} {params : List Property} {returns : DeclaredType} {r : Rule}

/-- The functions whose calls can overrun. -/
def overrunning : List Text := ["min", "max", "range"]

/-- The functions for which the arguments that they declare are enough. -/
theorem bounded_of_responds {f : GlobalFunction} (hname : f.name ∉ overrunning)
    (h : ∀ r vs, f.eval = some r → Admits f.signature vs.length → Responds (r vs)) : f.Bounded := by
  intro r vs hr hvs
  simp only [overrunning, List.mem_cons, List.not_mem_nil, or_false, not_or] at hname
  constructor
  · intro hbreaks
    exact absurd hbreaks (h r vs hr hvs)
  · rintro (⟨hmin | hmax, -⟩ | ⟨hrange, -⟩)
    · exact absurd hmin hname.1
    · exact absurd hmax hname.2.1
    · exact absurd hrange hname.2.2

theorem function_bounded (hname : name ∉ overrunning) (h : Completes params.length r) :
    (function name returns params r).Bounded := by
  refine bounded_of_responds hname fun r' vs hr hvs => ?_
  cases hr
  exact h vs hvs.1

theorem effect_bounded : (effect name returns params).Bounded := fun _ _ h => by cases h

theorem variadic_effect_bounded : (variadic (effect name returns params)).Bounded := fun _ _ h => by cases h

theorem extremeOf_bounded {o : Ordering} (hname : name = "min" ∨ name = "max") :
    (variadic (function name returns [] (extremeOf name o))).Bounded := by
  intro r vs hr _
  cases hr
  have hrange : name ≠ "range" := by
    rcases hname with rfl | rfl
    all_goals decide
  cases vs with
  | nil =>
    constructor
    · intro _
      exact .inl ⟨hname, rfl⟩
    · intro _
      exact ⟨_, rfl, rfl⟩
  | cons v vs =>
    constructor
    · intro h
      exact absurd h (extreme_responds name o vs v)
    · rintro (⟨-, hnil⟩ | ⟨hr, -⟩)
      · cases hnil
      · exact absurd hr hrange

theorem range_bounded : (variadic (function "range" returns [] range)).Bounded := by
  intro r vs hr _
  cases hr
  have hints := rangeInts_breaksOff_iff vs (i := 1) (by omega)
  have hrest : BreaksOff (range vs) ↔ BreaksOff (rangeInts 1 vs) := by
    unfold range
    cases rangeInts 1 vs with
    | error e =>
      constructor
      · rintro ⟨e', he, hfault⟩
        cases he
        exact ⟨e, rfl, hfault⟩
      · rintro ⟨e', he, hfault⟩
        cases he
        exact ⟨e, rfl, hfault⟩
    | ok xs =>
      refine ⟨fun h => absurd h ?_, fun h => absurd h (responds_ok _)⟩
      dsimp only [bind, Except.bind]
      repeat' split
      all_goals first
        | exact responds_ok _
        | exact responds_error rfl
  have hname : ("range" : Text) ≠ "min" ∧ ("range" : Text) ≠ "max" := by decide
  rw [hrest, hints]
  constructor
  · rintro ⟨hlength, hall⟩
    exact .inr ⟨rfl, hlength, hall⟩
  · rintro (⟨h | h, -⟩ | ⟨-, hlength, hall⟩)
    · exact absurd h hname.1
    · exact absurd h hname.2
    · exact ⟨hlength, hall⟩

end Declarations

theorem utilities_bounded : ∀ f ∈ utilities, f.Bounded := by
  unfold utilities
  simp only [List.forall_mem_cons, List.not_mem_nil, false_implies, implies_true, and_true]
  repeat' apply And.intro
  all_goals first
    | exact effect_bounded
    | exact variadic_effect_bounded
    | exact function_bounded (by decide) (onFloat_completes _)
    | exact function_bounded (by decide) (onFloats_completes _)
    | exact function_bounded (by decide) (onFloatToInt_completes _)
    | exact function_bounded (by decide) (onThreeFloats_completes _)
    | exact function_bounded (by decide) (onInt_completes _)
    | exact function_bounded (by decide) (onInts_completes fun _ _ => responds_ok _)
    | exact function_bounded (by decide) (onInts_completes positiveIntModulo_responds)
    | exact function_bounded (by decide) (onNumber_completes _ _ _)
    | exact function_bounded (by decide) (one_completes fun _ => responds_ok _)
    | exact extremeOf_bounded (.inl rfl)
    | exact extremeOf_bounded (.inr rfl)
    | skip
  -- the rules that are written out
  · refine function_bounded (by decide) fun vs h => (ints_responds vs 1).bind fun xs hxs => ?_
    rw [← length_ints hxs] at h
    obtain ⟨x, lo, hi, xs, rfl⟩ := exists_three h
    exact responds_ok _
  · refine function_bounded (by decide) fun vs h => ?_
    obtain ⟨v, lo, hi, vs, rfl⟩ := exists_three h
    exact responds_ok _
  · exact bounded_of_responds (by decide) fun r vs hr _ => by
      cases hr
      exact responds_ok _

theorem languageFunctions_bounded : ∀ f ∈ languageFunctions, f.Bounded := by
  unfold languageFunctions
  simp only [List.forall_mem_cons, List.not_mem_nil, false_implies, implies_true, and_true]
  refine ⟨?_, variadic_effect_bounded, effect_bounded, effect_bounded, effect_bounded, effect_bounded,
    function_bounded (by decide) (one_completes length_responds), range_bounded, effect_bounded,
    effect_bounded, effect_bounded, function_bounded (by decide) (one_completes character_responds), ?_⟩
  · refine bounded_of_responds (by decide) fun r vs hr hvs => ?_
    cases hr
    exact colorOfBytes_responds (hvs.2.resolve_left Bool.false_ne_true)
  · refine function_bounded (by decide) fun vs h => ?_
    obtain ⟨v, t, vs, rfl⟩ := exists_two h
    exact convertTo_responds v t

end GlobalFunction

/-! ### Calls in the analysis -/

namespace Analysis

open GlobalFunction

/-- No analysis has broken off so far. -/
def Unbroken (s : Session) : Prop := s.brokenOff = false

section Unbroken

/-- A file whose analysis broke off. -/
def isBroken (r : FileRecord) : Bool := r.errors.any (·.complaint.isFault)

theorem brokenOff_eq (s : Session) : s.brokenOff = (s.files.map isBroken).any id := by
  rw [List.any_map]
  rfl

theorem brokenOff_modify {f : FileRecord → FileRecord} (hf : ∀ r, isBroken (f r) = isBroken r) (s : Session)
    (unit : Nat) : ({ s with files := s.files.modify unit f } : Session).brokenOff = s.brokenOff := by
  rw [brokenOff_eq, brokenOff_eq]
  dsimp only
  rw [Session.map_modify_of_view hf]

theorem modifyFile_unbroken {f : FileRecord → FileRecord} (hf : ∀ r, isBroken (f r) = isBroken r) :
    Keeps Unbroken (modifyFile f) := by
  intro unit s hs _
  rw [after_modifyFile]
  refine ⟨?_, (List.length_modify _ _ _).ge⟩
  unfold Unbroken
  rw [brokenOff_modify hf]
  exact hs

theorem mark_unbroken (span : Span) : Keeps Unbroken (mark span) := modifyFile_unbroken fun _ => rfl

/-- A complaint that no evaluation broke off for. -/
theorem complain_unbroken (span : Span) {c : Complaint} (hc : c.isFault = false) :
    Keeps Unbroken (complain span c) := by
  refine (modifyFile_unbroken fun r => ?_).bind fun _ => mark_unbroken span
  simp [isBroken, hc]

/-- A complaint that an evaluation broke off for. -/
theorem complain_breaks (span : Span) {c : Complaint} (hc : c.isFault = true) {unit : Nat} {s : Session}
    (hunit : unit < s.files.length) : After (complain span c) unit s fun _ s' => s'.brokenOff = true := by
  have hmark : ∀ s₁ : Session, After (mark span) unit s₁ fun _ s' => s'.brokenOff = s₁.brokenOff := by
    intro s₁
    unfold mark
    rw [after_modifyFile]
    refine brokenOff_modify (fun r => ?_) s₁ unit
    rfl
  have hcomplained :
      ({ s with files := s.files.modify unit fun r => { r with errors := ⟨span.start, c⟩ :: r.errors } } :
        Session).brokenOff = true := by
    unfold Session.brokenOff
    rw [List.any_eq_true]
    refine ⟨_, List.getElem_mem (by simpa using hunit), ?_⟩
    simp [hc]
  unfold complain
  rw [after_bind, after_modifyFile]
  exact (hmark _).mono fun _ s' h => h.trans hcomplained

theorem warn_unbroken (span : Span) (c : Caution) : Keeps Unbroken (warn span c) := by
  have herror : Keeps Unbroken (modifyFile fun r => { r with errors := ⟨span.start, .caution c⟩ :: r.errors }) :=
    modifyFile_unbroken fun _ => rfl
  have hwarning : Keeps Unbroken (modifyFile fun r => { r with warnings := ⟨span.start, c⟩ :: r.warnings }) :=
    modifyFile_unbroken fun _ => rfl
  unfold warn
  repeat' first | split | with_reducible refine Keeps.bind ?_ fun _ => ?_ | dsimp only
  all_goals simp [mark_unbroken, herror, hwarning]

theorem accepts_unbroken (t u : StaticType) (x : Option Expr) : Keeps Unbroken (accepts t u x) := by
  unfold accepts
  repeat' first | split | with_reducible refine Keeps.bind ?_ fun _ => ?_ | dsimp only
  all_goals simp [warn_unbroken]

theorem checkArgument_unbroken (c : CallNode) (name : Text) (i : Nat) (p : StaticType) (a : Expr) :
    Keeps Unbroken (checkArgument c name i p a) := by
  have hcomplain (t u : Text) : Keeps Unbroken (complain a.span (.argumentType name i t u)) :=
    complain_unbroken _ rfl
  unfold checkArgument
  repeat' first | split | with_reducible refine Keeps.bind ?_ fun _ => ?_ | dsimp only
  all_goals simp [hcomplain, warn_unbroken, mark_unbroken, accepts_unbroken]

theorem checkArgumentsFrom_unbroken (c : CallNode) (name : Text) (ps : List StaticType) :
    ∀ i as, Keeps Unbroken (checkArgumentsFrom c name i ps as) := by
  induction ps with
  | nil => exact fun i as => pure_keeps _
  | cons p ps ih =>
    intro i as
    cases as with
    | nil => exact pure_keeps _
    | cons a as =>
      unfold checkArgumentsFrom
      exact (checkArgument_unbroken c name i p a).bind fun _ => (ih _ _).bind fun _ => pure_keeps _

theorem checkArguments_unbroken (c : CallNode) (name : Text) (f : FunctionType) :
    Keeps Unbroken (checkArguments c name f) := by
  have hfew (least given : Nat) : Keeps Unbroken (complain c.span (.tooFewArguments name least given)) :=
    complain_unbroken _ rfl
  have hmany (a : Expr) (most given : Nat) :
      Keeps Unbroken (complain a.span (.tooManyArguments name most given)) := complain_unbroken _ rfl
  have hfitting := checkArgumentsFrom_unbroken c name f.params 1 c.args
  unfold checkArguments
  repeat' first | split | with_reducible refine Keeps.bind ?_ fun _ => ?_ | dsimp only
  all_goals simp [hfew, hmany, hfitting]

/-- The check of the arguments of a call counts them. -/
theorem checkArguments_admits (db : Catalog) (c : CallNode) (name : Text) (g : Signature) :
    Gives (fun ok => ok = true → Admits g c.args.length) (checkArguments c name (.ofSignature db g)) := by
  have hparams : (FunctionType.ofSignature db g).params.length = g.params.length := List.length_map _
  -- whichever complaints are made, this is what is returned
  have hcounts (fitting : Bool) :
      (decide ((FunctionType.ofSignature db g).params.length - g.defaults.length ≤ c.args.length) &&
        (if g.vararg = true then none else c.args[(FunctionType.ofSignature db g).params.length]?).isNone &&
        fitting) = true → Admits g c.args.length := by
    intro h
    rw [hparams] at h
    simp only [Bool.and_eq_true, decide_eq_true_eq, Option.isNone_iff_eq_none] at h
    refine ⟨h.1.1, ?_⟩
    by_cases hvararg : g.vararg = true
    · exact .inl hvararg
    · rw [if_neg hvararg, List.getElem?_eq_none_iff] at h
      exact .inr h.1.2
  unfold checkArguments
  dsimp only
  split
  · refine gives_bind fun _ => ?_
    split
    all_goals repeat' refine gives_bind fun _ => ?_
    all_goals exact gives_pure (hcounts _)
  · split
    all_goals repeat' refine gives_bind fun _ => ?_
    all_goals exact gives_pure (hcounts _)

/-- A function that takes whatever it is given. -/
theorem checkArguments_variadic (c : CallNode) (name : Text) {f : FunctionType} (hparams : f.params = [])
    (hvararg : f.vararg = true) : Gives (· = true) (checkArguments c name f) := by
  unfold checkArguments
  simp only [hparams, hvararg, checkArgumentsFrom]
  intro unit s
  simp

end Unbroken

/-- The functions that overrun their arguments take whatever they are given. -/
theorem variadic_of_overruns {f : GlobalFunction} (hf : f ∈ utilities ∨ f ∈ languageFunctions) {vs : List Value}
    (h : Overruns f.name vs) :
    f.signature.params = [] ∧ f.signature.vararg = true ∧ f.signature.isConst = true ∧ f.eval.isSome = true := by
  have hname : f.name ∈ overrunning := by
    rcases h with ⟨hname | hname, -⟩ | ⟨hname, -⟩
    all_goals
      rw [hname]
      decide
  have htables : ∀ g ∈ utilities ++ languageFunctions, g.name ∈ overrunning → g.signature.params.isEmpty = true ∧
      g.signature.vararg = true ∧ g.signature.isConst = true ∧ g.eval.isSome = true := by decide
  obtain ⟨hparams, hrest⟩ := htables f (List.mem_append.mpr hf) hname
  exact ⟨List.isEmpty_iff.mp hparams, hrest⟩

theorem length_constantValues {xs : List Expr} : ∀ {vs : List Value}, constantValues? xs = some vs →
    vs.length = xs.length := by
  induction xs with
  | nil =>
    intro vs h
    cases h
    rfl
  | cons x xs ih =>
    intro vs h
    unfold constantValues? at h
    rw [List.mapM_cons] at h
    obtain ⟨v, -, h⟩ := Option.bind_eq_some_iff.mp h
    obtain ⟨ws, hws, h⟩ := Option.bind_eq_some_iff.mp h
    cases h
    rw [List.length_cons, List.length_cons, ih hws]

variable {unit : Nat} {s : Session}

/-- A call that overruns its arguments is not turned down by the check of its arguments. -/
theorem checkArguments_overruns {f : GlobalFunction} (hf : f ∈ utilities ∨ f ∈ languageFunctions) (db : Catalog)
    (c : CallNode) (name : Text) : Gives (fun ok => (∃ vs, Overruns f.name vs) → ok = true)
      (checkArguments c name (.ofSignature db f.signature)) := by
  by_cases hover : ∃ vs, Overruns f.name vs
  · obtain ⟨vs, hover⟩ := hover
    obtain ⟨hparams, hvararg, -, -⟩ := variadic_of_overruns hf hover
    have hnone : (FunctionType.ofSignature db f.signature).params = [] := by
      simp [FunctionType.ofSignature, hparams]
    exact (checkArguments_variadic c name hnone hvararg).mono fun _ hok _ => hok
  · exact fun _ _ hsome => absurd hsome hover

end Analysis

end GameScript
