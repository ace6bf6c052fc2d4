import GameScript.Proofs.Execution.Probing
import GameScript.Proofs.Running.Programs

/-!
# Code of patterns

The code of a pattern computes whether a value matches it, gives the names of the pattern their values, and
looks at nothing behind a test that has failed.
-/

namespace GameScript

/-! ### Patterns -/

mutual

/-- A pattern as the analysis leaves it: its constants are known, and the numbers of its parts are integers of
the machine. -/
def Pattern.Known (cs : List Value) (found : Expr → Prop) : Pattern → Prop
  | .literal l => l.info.reduced = true ∧ l.info.type.isScriptValue = false ∧ l.info.value = some l.value ∧
    Pool.Told cs l.value
  | .expr x => x.Known cs found ∧ x.value?.isSome = true
  | .array _ ps _ => ps.length < 2 ^ 63 ∧ Pattern.AllKnown cs found ps
  | .dict _ es _ _ => es.length < 2 ^ 63 ∧ Pattern.EntriesKnown cs found es
  | .bind .. | .wildcard _ | .rest _ => True

def Pattern.AllKnown (cs : List Value) (found : Expr → Prop) : List Pattern → Prop
  | [] => True
  | p :: ps => p.Known cs found ∧ Pattern.AllKnown cs found ps

def Pattern.EntriesKnown (cs : List Value) (found : Expr → Prop) : List PatternEntry → Prop
  | [] => True
  | ⟨k, p⟩ :: es => k.Known cs found ∧ k.value?.isSome = true ∧ (match p with
      | some p => p.Known cs found
      | none => True) ∧ Pattern.EntriesKnown cs found es

end

namespace Pattern

variable {p : Pattern} {ps : List Pattern}

/-- How many elements an array has at least if it matches. -/
def required (ps : List Pattern) : Nat := if Lower.endsOpen ps then ps.length - 1 else ps.length

theorem required_cons (h : ∀ pos, p = .rest pos → ps = [] → False) : required (p :: ps) = required ps + 1 := by
  have hopen : Lower.endsOpen (p :: ps) = Lower.endsOpen ps := by
    rw [Lower.endsOpen]
    exact h
  unfold required
  rw [hopen]
  cases ps with
  | nil => rfl
  | cons q qs => split <;> simp

theorem required_le (ps : List Pattern) : required ps ≤ ps.length := by
  unfold required
  split <;> omega

mutual

/-- The bindings of a pattern are of its names. -/
theorem bindings_binders (p : Pattern) (v : Value) : ∀ e ∈ p.bindings v, e.1 ∈ p.binders := by
  cases p with
  | bind _ id => simp [bindings, binders]
  | array _ ps _ =>
    rw [bindings, binders]
    exact elementBindings_binders ps v.elements
  | dict _ es _ _ =>
    rw [bindings, binders]
    exact entryBindings_binders es v.entries
  | _ => simp [bindings]

theorem elementBindings_binders (ps : List Pattern) (vs : List Value) :
    ∀ e ∈ elementBindings vs ps, e.1 ∈ elementBinders ps := by
  cases ps with
  | nil => simp [elementBindings]
  | cons p ps =>
    intro e he
    rw [elementBinders, List.mem_append]
    by_cases hrest : ∃ pos, p = .rest pos ∧ ps = []
    · obtain ⟨pos, rfl, rfl⟩ := hrest
      simp [elementBindings] at he
    · rw [elementBindings, List.mem_append] at he
      · exact he.imp (bindings_binders p _ e) (elementBindings_binders ps _ e)
      · exact fun pos hp hps => hrest ⟨pos, hp, hps⟩

theorem entryBindings_binders (es : List PatternEntry) (entries : List Entry) :
    ∀ e ∈ entryBindings entries es, e.1 ∈ entryBinders es := by
  cases es with
  | nil => simp [entryBindings]
  | cons e es =>
    obtain ⟨k, _ | p⟩ := e <;> intro e he <;>
      rw [entryBindings, List.mem_append] at he <;> rw [entryBinders, List.mem_append]
    · exact he.imp nofun (entryBindings_binders es _ e)
    · exact he.imp (bindings_binders p _ e) (entryBindings_binders es _ e)

end

end Pattern

/-! ### Code of a pattern -/

namespace Lower

variable {cs : List Value} {E : Scene} {S : Setup cs (Value.host E)} {ctx : LowerContext} {found : Expr → Prop}
  {i : Nat} {t : StaticType} {v : Value}

theorem literal_supplies {l : Literal} (h : (Pattern.literal l).Known cs found) :
    Supplies S ctx (literal l) l.value := by
  rw [Pattern.Known] at h
  obtain ⟨hr, ht, hv, htold⟩ := h
  intro s hs
  unfold literal
  refine (direct?_supplies (S := S) (x := .literal l) rfl hr ht hv htold hs).bind fun r s₁ ⟨a, hra, hsupplied⟩ => ?_
  subst hra
  exact hsupplied

theorem length_elements (hv : v.Formed) : v.elements.length < 2 ^ 63 := by
  cases v with
  | array =>
    rw [Value.Formed] at hv
    exact hv.2.1
  | _ => simp [Value.elements]

theorem length_entries (hv : v.Formed) : v.entries.length < 2 ^ 63 := by
  cases v with
  | dictionary =>
    rw [Value.Formed] at hv
    exact hv.1
  | _ => simp [Value.entries]

theorem matches_array (v : Value) (ps : List Pattern) {pos close : Pos} : (Pattern.array pos ps close).Matches v ↔
    v.type = .array ∧ (if endsOpen ps then Pattern.required ps ≤ v.elements.length
      else v.elements.length = Pattern.required ps) ∧ Pattern.ElementsMatch v.elements ps := by
  rw [Pattern.Matches]
  unfold Pattern.required
  constructor
  · rintro ⟨element, name, vs, frozen, rfl, hlen, h⟩
    refine ⟨rfl, ?_, h⟩
    split <;> simpa [Value.elements, *] using hlen
  · rintro ⟨hty, hlen, h⟩
    obtain ⟨element, name, vs, frozen, rfl⟩ := Value.array_of_type hty
    refine ⟨element, name, vs, frozen, rfl, ?_, h⟩
    split <;> simpa [Value.elements, *] using hlen

theorem matches_dict (hv : v.Formed) (es : List PatternEntry) (isOpen : Bool) {pos close : Pos} :
    (Pattern.dict pos es isOpen close).Matches v ↔ v.type = .dictionary ∧
      (if isOpen then es.length ≤ v.entries.length else v.entries.length = es.length) ∧
      Pattern.EntriesMatch v.entries es := by
  rw [Pattern.Matches]
  constructor
  · rintro ⟨entries, frozen, rfl, hlen, h⟩
    exact ⟨rfl, hlen, h⟩
  · rintro ⟨hty, hlen, h⟩
    obtain ⟨entries, frozen, rfl⟩ := Value.dictionary_of_type hv hty
    exact ⟨entries, frozen, rfl, hlen, h⟩

theorem formed_element (hv : v.Formed) (n : Nat) : ((v.elements.drop n).headD .nil).Formed := by
  rw [List.headD_eq_head?_getD, List.head?_drop]
  cases hget : v.elements[n]? with
  | none => trivial
  | some u =>
    cases v with
    | array =>
      rw [Value.Formed] at hv
      exact hv.2.2.of_mem (List.mem_of_getElem? hget)
    | _ => cases hget

theorem formed_entry (hv : v.Formed) (c : Value) : ((Value.lookup? c v.entries).getD .nil).Formed := by
  cases hget : Value.lookup? c v.entries with
  | none => trivial
  | some u =>
    cases v with
    | dictionary =>
      rw [Value.Formed] at hv
      exact hv.2.lookup? hget
    | _ => cases hget

mutual

/-- The code of a pattern finds out whether a value matches it. -/
theorem pattern_determines (hf : FindsConstants S ctx found) (p : Pattern) (h : p.Known cs found) (hd : p.binders.Nodup)
    {i : Nat} {t : StaticType} {v : Value} (hv : v.Formed) :
    Determines S ctx i t v (pattern ⟨.temporary, i, t⟩ p) p.binders (p.Matches v) (p.bindings v) := by
  cases p with
  | literal l =>
    rw [pattern, Pattern.binders, Pattern.Matches, Pattern.bindings]
    have hvalue : (Expr.literal l).value? = some l.value := by
      rw [Pattern.Known] at h
      exact h.2.2.1
    exact equalPattern_determines (literal_supplies h) hvalue
  | expr x =>
    rw [Pattern.Known] at h
    obtain ⟨c, hc⟩ := Option.isSome_iff_exists.mp h.2
    rw [pattern, Pattern.binders, Pattern.Matches, Pattern.bindings]
    exact (equalPattern_determines (expr_supplies hf x h.1 hc) hc).congr (by simp [hc])
  | bind _ id =>
    rw [pattern, Pattern.binders, Pattern.Matches, Pattern.bindings]
    exact bindPattern_determines id
  | wildcard _ | rest _ =>
    rw [pattern, Pattern.binders, Pattern.Matches, Pattern.bindings]
    exact wildcard_determines
  | array _ ps _ =>
    rw [Pattern.Known] at h
    rw [Pattern.binders] at hd ⊢
    rw [pattern, Pattern.bindings]
    have hparts := elementPatterns_test hf ps h.2 hd (i := i) (t := t) hv 0 (by omega)
    have hrequired := Pattern.required_le ps
    refine (containerPattern_determines (n := Pattern.required ps) (k := v.elements.length) (by omega)
      (length_elements hv) ?_ (hparts.weaken ?_ fun _ => .rfl)).congr (matches_array v ps).symm
    · intro hty
      obtain ⟨element, name, vs, frozen, rfl⟩ := Value.array_of_type hty
      rfl
    · rintro ⟨hty, hlen⟩
      exact ⟨hty, by split at hlen <;> omega⟩
  | dict _ es isOpen _ =>
    rw [Pattern.Known] at h
    rw [Pattern.binders] at hd ⊢
    rw [pattern, Pattern.bindings]
    have hparts := entryPatterns_test hf es h.2 hd (i := i) (t := t) hv
    refine (containerPattern_determines (k := v.entries.length) h.1 (length_entries hv) ?_
      (hparts.weaken ?_ fun _ => .rfl)).congr (matches_dict hv es isOpen).symm
    · intro hty
      obtain ⟨entries, frozen, rfl⟩ := Value.dictionary_of_type hv hty
      rfl
    · rintro ⟨hty, -⟩
      obtain ⟨entries, frozen, rfl⟩ := Value.dictionary_of_type hv hty
      exact ⟨frozen, rfl⟩

/-- The code of the patterns of elements from an index on tests these elements. -/
theorem elementPatterns_test (hf : FindsConstants S ctx found) (ps : List Pattern) (h : Pattern.AllKnown cs found ps)
    (hd : (Pattern.elementBinders ps).Nodup) {i : Nat} {t : StaticType} {v : Value} (hv : v.Formed) (n : Nat)
    (hn : n + ps.length < 2 ^ 63) :
    TestsParts S ctx i t v (v.type = .array ∧ n + Pattern.required ps ≤ v.elements.length)
      (fun _ => elementPatterns ⟨.temporary, i, t⟩ n ps) (Pattern.elementBinders ps)
      (Pattern.ElementsMatch (v.elements.drop n) ps) (Pattern.elementBindings (v.elements.drop n) ps) := by
  cases ps with
  | nil =>
    simp only [elementPatterns, Pattern.elementBinders, Pattern.elementBindings]
    exact tests_nothing fun _ => by rw [Pattern.ElementsMatch]; trivial
  | cons p ps =>
    rw [Pattern.AllKnown] at h
    rw [Pattern.elementBinders] at hd ⊢
    by_cases hrest : ∃ pos, p = .rest pos ∧ ps = []
    · obtain ⟨pos, rfl, rfl⟩ := hrest
      simp only [elementPatterns, Pattern.binders, Pattern.elementBinders, Pattern.elementBindings]
      exact tests_nothing fun _ => by rw [Pattern.ElementsMatch]; trivial
    · have hrest : ∀ pos, p = .rest pos → ps = [] → False := fun pos hp hps => hrest ⟨pos, hp, hps⟩
      have hnodup := List.nodup_append.mp hd
      have hpart := elementPattern_tests (i := i) (t := t) (v := v) (n := n) (pattern · p)
        (by simp at hn; omega) fun j u => pattern_determines hf p h.1 hnodup.1 (i := j) (t := u) (formed_element hv n)
      have hparts := elementPatterns_test hf ps h.2 hnodup.2.1 (i := i) (t := t) hv (n + 1) (by simp at hn; omega)
      have hrequired := Pattern.required_cons hrest
      have hboth := (hpart.weaken
        (fun (hp : v.type = .array ∧ n + Pattern.required (p :: ps) ≤ v.elements.length) => ⟨hp.1, by omega⟩)
        fun _ => .rfl).trans (hparts.weaken (fun hp => ⟨hp.1, by omega⟩) fun _ => .rfl)
        (Pattern.bindings_binders p _) fun q hq hq' => hnodup.2.2 q hq q hq' rfl
      rw [elementPatterns, Pattern.elementBindings, List.tail_drop]
      · refine hboth.weaken id fun hp => ?_
        rw [Pattern.ElementsMatch, List.tail_drop]
        · obtain ⟨u, hu⟩ : ∃ u, (v.elements.drop n).head? = some u := by
            rw [List.head?_drop]
            exact ⟨_, List.getElem?_eq_getElem (by omega)⟩
          rw [List.headD_eq_head?_getD, hu]
          simp
        · exact hrest
      · exact hrest
      · exact hrest

/-- The code of the patterns of entries tests them. -/
theorem entryPatterns_test (hf : FindsConstants S ctx found) (es : List PatternEntry) (h : Pattern.EntriesKnown cs found es)
    (hd : (Pattern.entryBinders es).Nodup) {i : Nat} {t : StaticType} {v : Value} (hv : v.Formed) :
    TestsParts S ctx i t v (∃ frozen, v = .dictionary v.entries frozen)
      (fun test => entryPatterns test ⟨.temporary, i, t⟩ es) (Pattern.entryBinders es)
      (Pattern.EntriesMatch v.entries es) (Pattern.entryBindings v.entries es) := by
  cases es with
  | nil =>
    simp only [entryPatterns, Pattern.entryBinders, Pattern.entryBindings]
    exact tests_nothing fun _ => by rw [Pattern.EntriesMatch]; trivial
  | cons e es =>
    obtain ⟨k, _ | p⟩ := e <;> rw [Pattern.EntriesKnown] at h <;> obtain ⟨hk, hsome, hp, hes⟩ := h <;>
      obtain ⟨c, hc⟩ := Option.isSome_iff_exists.mp hsome
    · have hkey := entryPattern_checks (i := i) (t := t) (v := v) v.entries none
        (D := []) (P := True) (B := []) (expr_supplies hf k hk hc) ⟨rfl, trivial, rfl⟩
      have hall := hkey.trans (entryPatterns_test hf es hes hd (t := t) hv) nofun nofun
      simp only [entryPatterns, Pattern.entryBinders, Pattern.entryBindings]
      refine hall.weaken id fun _ => ?_
      rw [Pattern.EntriesMatch]
      simp [hc, Option.isSome_iff_exists]
    · have hnodup := List.nodup_append.mp hd
      have hkey := entryPattern_checks (i := i) (t := t) (v := v) v.entries (some (pattern · p))
        (expr_supplies hf k hk hc) fun j u => pattern_determines hf p hp hnodup.1 (t := u) (formed_entry hv c)
      have hall := hkey.trans (entryPatterns_test hf es hes hnodup.2.1 (t := t) hv) (Pattern.bindings_binders p _)
        fun q hq hq' => hnodup.2.2 q hq q hq' rfl
      simp only [entryPatterns, Pattern.entryBinders, Pattern.entryBindings, hc, Option.bind_some]
      refine hall.weaken id fun _ => ?_
      rw [Pattern.EntriesMatch]
      cases hget : Value.lookup? c v.entries <;> simp [hc, hget]

end

/-! ### One of several patterns -/

/-- What becomes of cells by the tests of patterns one after another: those of `ps` on the value `v`. -/
structure Choice (S : Setup cs (Value.host E)) (d : Nat) (v : Value) (ps : List Pattern) (m m' : Cells Value)
    (l : List Probe) (r : Option Pattern) : Prop where
  observed : Pattern.Observed v ps l r
  agree : Cells.Agree d m m'
  full : S.Full m'
  bound : ∀ p ∈ r, ∀ e ∈ p.bindings v, S.value m' e.1 = some e.2
  frame : ∀ q, q ∉ Pattern.elementBinders ps → S.value m' q = S.value m q

/-- The code between `s` and `s'` tests patterns on the value at the temporary `i` until one matches; it goes
on at `skip` then. -/
structure Sought (S : Setup cs (Value.host E)) (i : Nat) (t : StaticType) (ps : List Pattern) (s s' : Lowering)
    (skip : Nat) : Prop where
  grows : Grows (Pattern.elementBinders ps) s s'
  ready : s'.Ready
  nesting : s'.nesting = s.nesting
  runs : S.Covers s' → ∀ m w v, v.Formed → S.Full m → S.Steady m ⟨.temporary, i, t⟩ v → ∃ r m' l,
    S.hosted.Reaches (S.atEnd s m w)
      (if r.isSome then S.atLabel skip m' (w ++ l) else S.atEnd s' m' (w ++ l)) ∧
    Choice S s.gen.temps.length v ps m m' l r

variable {s s₁ s₂ : Lowering} {ps : List Pattern} {p : Pattern}

theorem Choice.of_verdict {d : Nat} {m m' : Cells Value} {l : List Probe} {b : Bool}
    (h : Verdict S p.binders d m m' l b (p.Matches v) (p.bindings v)) (hb : b = true) :
    Choice S d v (p :: ps) m m' l (some p) where
  observed := .here (h.correct.mp hb) (h.passed hb)
  agree := h.agree
  full := h.full
  bound q hq := by
    obtain rfl := Option.mem_some.mp hq
    exact h.bound hb
  frame q hq := h.frame q fun hq' => hq (by rw [Pattern.elementBinders]; exact List.mem_append_left _ hq')

theorem Choice.after {d : Nat} {m m₁ m₂ : Cells Value} {l₁ l₂ : List Probe} {r : Option Pattern}
    (h₁ : Verdict S p.binders d m m₁ l₁ false (p.Matches v) (p.bindings v)) (h₂ : Choice S d v ps m₁ m₂ l₂ r) :
    Choice S d v (p :: ps) m m₂ (l₁ ++ l₂) r where
  observed := .next (fun h => by simpa using h₁.correct.mpr h) (h₁.stopped rfl) h₂.observed
  agree := h₁.agree.trans h₂.agree
  full := h₂.full
  bound := h₂.bound
  frame q hq := by
    rw [Pattern.elementBinders, List.mem_append, not_or] at hq
    exact (h₂.frame q hq.2).trans (h₁.frame q hq.1)

/-- Patterns are tested in order until one matches. -/
theorem seek_all {code : Pattern → Lower Address} {fr : Frame} {fs : List Frame} (ps : List Pattern)
    (h : ∀ p ∈ ps, ∀ v : Value, v.Formed →
      Determines S ctx i t v (code p) p.binders (p.Matches v) (p.bindings v))
    (hd : (Pattern.elementBinders ps).Nodup) (hs : s.Ready) (hl : s.Lacks (Pattern.elementBinders ps))
    (hlt : i < s.gen.temps.length) (hf : s.gen.frames = fr :: fs) :
    Ends ((ps.map code).forM fun p => operand Gen.orOperand p) ctx s fun _ s' => Sought S i t ps s s' fr.skip := by
  induction ps generalizing s with
  | nil =>
    rw [Pattern.elementBinders] at *
    refine ⟨.refl s, hs, rfl, fun hi m w v hv hm hp => ⟨none, m, [], ?_, .nil, .refl _ m, hm, nofun, fun _ _ => rfl⟩⟩
    rw [List.append_nil]
    exact .refl _
  | cons p ps ih =>
    rw [Pattern.elementBinders] at hd hl
    rw [List.nodup_append] at hd
    show Ends ((code p >>= fun a => Gen.orOperand a >>= fun _ => Gen.release a) >>= fun _ =>
      (ps.map code).forM fun p => operand Gen.orOperand p) ctx s _
    simp only [bind_assoc]
    have hp := ends_forall fun v : { v : Value // v.Formed } => h p List.mem_cons_self v v.2 s hs
      (fun q hq => hl q (List.mem_append_left _ hq)) hlt
    refine hp.bind fun a s₁ hp => ?_
    have h₁ := hp ⟨.nil, trivial⟩
    have hf₁ : s₁.gen.frames = fr :: fs := (congrArg Nesting.frames h₁.nesting).trans hf
    refine (decide_adds false s₁ _ h₁.ready hf₁).bind fun _ s₂ h₂ => ?_
    refine (release_held h₁.holds h₁.nesting h₂).bind fun _ s₃ h₃ => ?_
    have hg₃ : Grows p.binders s s₃ := h₁.grows.then h₃.grows
    have hl₃ : s₃.Lacks (Pattern.elementBinders ps) :=
      hg₃.lacks (fun q hq => hl q (List.mem_append_right _ hq)) fun q hq hq' => hd.2.2 q hq' q hq rfl
    have htemps₃ : s₃.gen.temps = s.gen.temps := h₃.temps
    refine (ih (fun q hq => h q (List.mem_cons_of_mem _ hq)) hd.2.1 h₃.ready hl₃ (htemps₃ ▸ hlt)
      (h₃.frames.trans hf)).post fun _ s₄ h₄ => ?_
    refine ⟨?_, h₄.ready, h₄.nesting.trans h₃.nesting, fun hi m w v hv hm hval => ?_⟩
    · rw [Pattern.elementBinders]
      exact hg₃.trans h₄.grows
    obtain ⟨b, m₁, l₁, hreach₁, ho, ha⟩ := (hp ⟨v, hv⟩).runs (hi.of_grows (h₃.grows.trans h₄.grows)) m w hm hval
    have hjump := Setup.reaches_branch .jumpIf rfl h₃ (hi.of_grows h₄.grows) (ha.reads (w ++ l₁))
    have hreach := hreach₁.trans hjump
    cases b with
    | true => exact ⟨some p, m₁, l₁, hreach, .of_verdict ho rfl⟩
    | false =>
      obtain ⟨r, m₂, l₂, hreach₂, hc⟩ := h₄.runs hi m₁ (w ++ l₁) v hv ho.full (steady_below hval ho.agree hlt)
      rw [List.append_assoc] at hreach₂
      refine ⟨r, m₂, l₁ ++ l₂, hreach.trans hreach₂, .after ho ?_⟩
      rwa [htemps₃] at hc

theorem known_of_mem (h : Pattern.AllKnown cs found ps) (hp : p ∈ ps) : p.Known cs found := by
  induction ps with
  | nil => cases hp
  | cons q ps ih =>
    rw [Pattern.AllKnown] at h
    rcases List.mem_cons.mp hp with rfl | hp
    · exact h.1
    · exact ih h.2 hp

theorem nodup_of_mem (h : (Pattern.elementBinders ps).Nodup) (hp : p ∈ ps) : p.binders.Nodup := by
  induction ps with
  | nil => cases hp
  | cons q ps ih =>
    rw [Pattern.elementBinders] at h
    rcases List.mem_cons.mp hp with rfl | hp
    · exact (List.nodup_append.mp h).1
    · exact ih (List.nodup_append.mp h).2.1 hp

theorem choice_nil {m : Cells Value} (hm : S.Full m) (d : Nat) (v : Value) : Choice S d v [] m m [] none :=
  ⟨.nil, .refl d m, hm, nofun, fun _ _ => rfl⟩

/-- The code of a condition that chooses one of several patterns. -/
theorem anyPattern_chooses (code : Pattern → Lower Address) (ps : List Pattern)
    (h : ∀ p ∈ ps, ∀ v : Value, v.Formed →
      Determines S ctx i t v (code p) p.binders (p.Matches v) (p.bindings v))
    (hd : (Pattern.elementBinders ps).Nodup) (hs : s.Ready) (hl : s.Lacks (Pattern.elementBinders ps))
    (hlt : i < s.gen.temps.length) :
    Ends (anyPattern (ps.map code)) ctx s fun a s' => S.Covers s' → ∀ m w v, v.Formed → S.Full m →
      S.Steady m ⟨.temporary, i, t⟩ v → ∃ r m' l, S.hosted.Reaches (S.atEnd s m w) (S.atEnd s' m' (w ++ l)) ∧
        S.Steady m' a (.bool r.isSome) ∧ Choice S s.gen.temps.length v ps m m' l r := by
  have hmany : Ends (do
      let dst ← Gen.addTemporary boolType
      Gen.beginOr
      (ps.map code).forM fun p => operand Gen.orOperand p
      Gen.endOr dst
      return dst) ctx s fun a s' => S.Covers s' → ∀ m w v, v.Formed → S.Full m →
        S.Steady m ⟨.temporary, i, t⟩ v → ∃ r m' l, S.hosted.Reaches (S.atEnd s m w) (S.atEnd s' m' (w ++ l)) ∧
          S.Steady m' a (.bool r.isSome) ∧ Choice S s.gen.temps.length v ps m m' l r := by
    refine (addTemporary_adds hs _).bind fun dst s₁ ⟨h₁, hdst⟩ => ?_
    subst hdst
    refine (pushFrame_adds h₁.ready .or).bind fun _ s₂ ⟨skip, done, _, h₂, hskip, hdone⟩ => ?_
    have htemps₂ : s₂.gen.temps = boolType :: s.gen.temps := h₂.temps.trans h₁.temps
    have hlt₂ : i < s₂.gen.temps.length := by
      rw [htemps₂]
      exact hlt.trans (Nat.lt_succ_self _)
    have hl₂ := (h₁.grows.then h₂.grows).lacks hl (by simp)
    refine (seek_all ps h hd h₂.ready hl₂ hlt₂ h₂.frames).bind fun _ s₃ h₃ => ?_
    have hf₃ := (congrArg Nesting.frames h₃.nesting).trans h₂.frames
    refine (endLogical_concludes S h₃.ready hf₃ (hskip.trans_le h₃.grows.labels) (hdone.trans_le h₃.grows.labels)
      s.gen.temps.length boolType false).bind fun _ s₄ h₄ => ?_
    refine fun hi m w v hv hm hval => ?_
    have hi₃ := hi.of_grows h₄.grows
    rw [← Setup.atEnd_of_adds h₁ m, ← Setup.atEnd_of_adds h₂ m]
    obtain ⟨r, m', l, hreach, hc⟩ := h₃.runs hi₃ m w v hv hm hval
    have hroom := hc.full.room (hi₃.of_grows h₃.grows) h₂.ready (i := s.gen.temps.length) (by simp [htemps₂])
    have hsame := Cells.same_setTemp m' (d := s.gen.temps.length) le_rfl (.bool r.isSome)
    refine ⟨r, m'.setTemp s.gen.temps.length (.bool r.isSome), l, ?_, Setup.steady_setTemp hroom _, hc.observed, ?_,
      hc.full.same hsame, fun p hp e he => ?_, fun q hq => ?_⟩
    · have hend := h₄.runs hi m' (w ++ l) r.isSome hc.full hroom
      cases r <;> exact hreach.trans hend
    · exact (hc.agree.mono (by simp [htemps₂])).trans hsame.toAgree
    · rw [Setup.value_same hsame]
      exact hc.bound p hp e he
    · rw [Setup.value_same hsame]
      exact hc.frame q hq
  match ps, h, hd, hl, hmany with
  | [p], h, hd, hl, _ =>
    rw [Pattern.elementBinders, Pattern.elementBinders, List.append_nil] at hd hl
    have hp := ends_forall fun v : { v : Value // v.Formed } => h p List.mem_cons_self v v.2 s hs hl hlt
    refine hp.post fun a s' hp hi m w v hv hm hval => ?_
    obtain ⟨b, m', l, hreach, ho, ha⟩ := (hp ⟨v, hv⟩).runs hi m w hm hval
    cases b with
    | true => exact ⟨some p, m', l, hreach, ha, .of_verdict ho rfl⟩
    | false =>
      have hc := Choice.after ho (choice_nil ho.full _ v)
      rw [List.append_nil] at hc
      exact ⟨none, m', l, hreach, ha, hc⟩
  | [], _, _, _, hmany => exact hmany
  | _ :: _ :: _, _, _, _, hmany => exact hmany

/-- The code of the patterns of a branch finds the first one that matches a value. It stores whether there is
one, gives the names of that pattern the parts of the value that they stand for, leaves the other variables
as they are, and looks at nothing behind a test that has failed. -/
theorem anyPattern_finds {s s' : Lowering} {a : Address} (hs : s.Ready) (hlt : i < s.gen.temps.length)
    {ps : List Pattern} (hknown : Pattern.AllKnown cs found ps) (hd : (Pattern.elementBinders ps).Nodup)
    (hl : s.Lacks (Pattern.elementBinders ps))
    (hrun : anyPattern (patterns ⟨.temporary, i, t⟩ ps) ctx s = (.ok a, s')) {S : Setup cs (Value.host E)}
    (hf : FindsConstants S ctx found) (hi : S.Covers s') {m : Cells Value} {w : List Probe} (hv : v.Formed)
    (hm : S.Full m) (hval : S.Reads m w ⟨.temporary, i, t⟩ v) :
    ∃ r m' l, S.hosted.Reaches (S.atEnd s m w) (S.atEnd s' m' (w ++ l)) ∧
      S.Reads m' (w ++ l) a (.bool r.isSome) ∧ (r.isSome = true ↔ ∃ p ∈ ps, p.Matches v) ∧
      Pattern.Observed v ps l r ∧ (∀ p ∈ r, ∀ e ∈ p.bindings v, S.value m' e.1 = some e.2) ∧
      ∀ q, q ∉ Pattern.elementBinders ps → S.value m' q = S.value m q := by
  have h := @anyPattern_chooses cs E S ctx i t s (pattern ⟨.temporary, i, t⟩) ps
    (fun p hp v hv => pattern_determines hf p (known_of_mem hknown hp) (nodup_of_mem hd hp) hv) hd hs hl hlt
  rw [patterns_eq_map] at hrun
  unfold Ends After at h
  rw [hrun] at h
  obtain ⟨r, m', l, hreach, ha, hc⟩ := h hi m w v hv hm hval.steady
  exact ⟨r, m', l, hreach, ha.reads _, hc.observed.isSome_iff, hc.observed, hc.bound, hc.frame⟩

/-! ### A function with a pattern -/

/-- The context of a function of an empty file. -/
def emptyContext : LowerContext where
  session := { env := { catalog := {}, load := fun _ => .error default, extent := 0 } }
  unit := 0
  cls := default
  script := default
  scriptIndex := 0

/-- A function with a value in a temporary. -/
def holdingValue : Lowering := { gen := { temps := [.variant], maxTemps := 1 } }

/-- The pattern `[1, var x, ..]`. -/
def secondPattern : Pattern :=
  .array ⟨1, 1⟩
    [.literal { pos := ⟨1, 2⟩, raw := "1", value := .int 1, info := ⟨true, .ofBuiltin .int, some (.int 1)⟩ },
      .bind ⟨1, 5⟩ { pos := ⟨1, 9⟩, name := "x" }, .rest ⟨1, 12⟩] ⟨1, 14⟩

/-- The function that tests its value against `[1, var x, ..]`. -/
def secondTested : Lowering :=
  (anyPattern (patterns ⟨.temporary, 0, .variant⟩ [secondPattern]) emptyContext holdingValue).2

theorem secondTested_vars {p : Pos} {a : Address} (h : secondTested.vars.get? p = some a) :
    p = ⟨1, 9⟩ ∧ a.mode = .localVar ∧ a.index = 0 := by
  have hentries : ∀ e ∈ secondTested.vars.entries, e.1 = ⟨1, 9⟩ ∧ e.2.mode = .localVar ∧ e.2.index = 0 := by
    decide +kernel
  obtain ⟨e, he, rfl⟩ := Option.map_eq_some_iff.mp h
  have hp := List.find?_some he
  have hmem := hentries e (List.mem_of_find?_eq_some he)
  simp only [decide_eq_true_eq] at hp
  exact ⟨hp ▸ hmem.1, hmem.2⟩

theorem secondTested_ready : secondTested.Ready := by
  have hkeyed : ∀ c ∈ secondTested.gen.pool.constants, c.1 = Pool.key c.2 := by decide +kernel
  have hlocals : secondTested.locals.length = 1 := by decide +kernel
  refine ⟨by decide +kernel, hkeyed, ⟨fun p a h => ?_, fun p q a b hp hq _ _ => ?_⟩⟩
  · obtain ⟨-, hmode, hindex⟩ := secondTested_vars h
    exact .inr ⟨hmode, by omega⟩
  · rw [(secondTested_vars hp).1, (secondTested_vars hq).1]

theorem secondTested_addressable : secondTested.complete.Addressable secondTested.constants :=
  ⟨by decide +kernel, by decide +kernel, by decide +kernel, by decide +kernel, by decide +kernel⟩

/-- The function in a program that looks up nothing. -/
def secondSetup : Setup secondTested.constants (Value.host ⟨.nil, .nil, fun _ _ => none⟩) :=
  secondTested.setup _ secondTested_ready secondTested_addressable (by decide +kernel)

theorem exists_of_isOk {ε α σ : Type} {r : Except ε α × σ} (h : r.1.isOk = true) : ∃ a, r = (.ok a, r.2) := by
  obtain ⟨_ | a, s⟩ := r
  · cases h
  · exact ⟨a, rfl⟩

theorem secondPattern_known (cs : List Value) : Pattern.AllKnown cs (fun _ => False) [secondPattern] := by
  simp only [Pattern.AllKnown, secondPattern, Pattern.Known, and_true]
  exact ⟨by simp, trivial, rfl, trivial, Pool.told_int _ (n := 1) (by decide)⟩

/-- The second element of `[1, 5]` gets the name. -/
theorem anyPattern_finds_second : ∃ a m' l,
    secondSetup.hosted.Reaches
      (secondSetup.atEnd holdingValue ⟨[], [.nil], .ofList [.int 1, .int 5] :: List.replicate 5 .nil⟩ [])
      (secondSetup.atEnd secondTested m' l) ∧
    secondSetup.Reads m' l a (.bool true) ∧ secondSetup.value m' ⟨1, 9⟩ = some (.int 5) := by
  have hready : holdingValue.Ready := ⟨by decide, nofun, ⟨nofun, nofun⟩⟩
  have hnodup : (Pattern.elementBinders [secondPattern]).Nodup := by
    simp [secondPattern, Pattern.elementBinders, Pattern.binders]
  have hok : (anyPattern (patterns ⟨.temporary, 0, .variant⟩ [secondPattern]) emptyContext holdingValue).1.isOk =
      true := by decide +kernel
  obtain ⟨a, hrun⟩ := exists_of_isOk hok
  rw [← secondTested] at hrun
  have hfull : secondSetup.Full ⟨[], [.nil], .ofList [.int 1, .int 5] :: List.replicate 5 .nil⟩ := by
    refine Lowering.full_setup (by decide +kernel) fun p b hb => ?_
    obtain ⟨-, hmode, hindex⟩ := secondTested_vars hb
    simp [Cells.stored?, hmode, hindex]
  have hval : secondSetup.Reads ⟨[], [.nil], .ofList [.int 1, .int 5] :: List.replicate 5 .nil⟩ []
      ⟨.temporary, 0, .variant⟩ (.ofList [.int 1, .int 5]) := by
    refine ⟨Address.encode_lt (by decide), ?_⟩
    rw [Setup.load_encode]
    rfl
  obtain ⟨r, m', l, hreach, ha, hr, hobserved, hbound, -⟩ := anyPattern_finds hready Nat.one_pos
    (secondPattern_known _) hnodup (fun _ _ => rfl) hrun (S := secondSetup) (fun _ _ h => h.elim)
    (Lowering.covers_setup _ _ _) (v := .ofList [.int 1, .int 5])
    (by simp [Value.ofList, Value.Formed, Value.AllFormed]) hfull hval
  have hmatches : secondPattern.Matches (.ofList [.int 1, .int 5]) := by
    simp [secondPattern, Pattern.Matches, Value.ofList, Pattern.ElementsMatch, Value.Fits, endsOpen, Value.equal,
      BuiltinType.mayEqual]
  have hsome := hr.mpr ⟨_, List.mem_singleton_self _, hmatches⟩
  obtain rfl : r = some secondPattern := by
    cases hobserved with
    | here => rfl
    | next h => exact absurd hmatches h
  have hname : ((⟨1, 9⟩, .int 5) : Pos × Value) ∈ secondPattern.bindings (.ofList [.int 1, .int 5]) := by
    simp [secondPattern, Pattern.bindings, Value.ofList, Value.elements, Pattern.elementBindings]
  have hvalue := hbound secondPattern rfl _ hname
  rw [List.nil_append] at hreach ha
  exact ⟨a, m', l, hreach, ha, hvalue⟩

end Lower

/-! ### Constants that are written alike -/

namespace Pattern

/-- The constant that a pattern compares with. -/
def constant? : Pattern → Option Value
  | literal l => some l.value
  | expr x => x.value?
  | _ => none

theorem matches_of_constant {p : Pattern} {v c : Value} (hp : p.constant? = some c) (h : v.Fits c) : p.Matches v := by
  cases p with
  | literal l =>
    obtain rfl := Option.some.inj hp
    exact h
  | expr x => exact ⟨c, hp, h⟩
  | _ => cases hp

end Pattern

instance (v c : Value) : Decidable (v.Fits c) := inferInstanceAs (Decidable (_ ∧ _))

/-- The patterns of the matches in the body of a function. -/
def Func.patterns (f : Func) : List Pattern :=
  f.body.stmts.flatMap fun
    | .match _ _ bs => bs.flatMap Branch.patterns
    | _ => []

namespace Compiler

/-- A file with a match that compares a value with two constants that are written alike. -/
def alikeProject : Compiler :=
  ofSource "res://test.gd" ("const A = {PackedInt32Array([1]): 2}\nconst B = {[1]: 2}\n" ++
    "func f(x):\n\tmatch x:\n\t\tA:\n\t\t\treturn 1\n\t\tB:\n\t\t\treturn 2\n")

/-- The dictionary with the value 2 at the array of 1. -/
def alikeValue : Value := .ofEntries [⟨.ofList [.int 1], .int 2⟩] false

/-- No branch is run although a pattern matches: the program has one constant for both. -/
theorem matching_pattern_missed :
    ∃ p ∈ (alikeProject.compile 0).2.library,
    ∃ e ∈ ((alikeProject.compile 0).2.session.annotated 0).cls.functions, ∃ fn ∈ p.functions,
      fn.name = e.2 ∧ fn.place = .ofPos e.1.pos ∧ fn.Addressable p.constants ∧
      (∃ q ∈ e.1.patterns, q.Matches alikeValue) ∧
      (fn.run p.constants [alikeValue] 40).bind Except.toOption = some .nil := by
  have hrun : ∃ p ∈ (alikeProject.compile 0).2.library,
      ∃ e ∈ ((alikeProject.compile 0).2.session.annotated 0).cls.functions, ∃ fn ∈ p.functions,
        fn.name = e.2 ∧ fn.place = .ofPos e.1.pos ∧ fn.Addressable p.constants ∧
        (∃ q ∈ e.1.patterns, ∃ c ∈ q.constant?.toList, alikeValue.Fits c) ∧
        (fn.run p.constants [alikeValue] 40).bind Except.toOption = some .nil := by
    decide +kernel
  obtain ⟨p, hp, e, he, fn, hfn, hname, hplace, hsmall, ⟨q, hq, c, hc, hfits⟩, hresult⟩ := hrun
  exact ⟨p, hp, e, he, fn, hfn, hname, hplace, hsmall,
    ⟨q, hq, Pattern.matches_of_constant (Option.mem_toList.mp hc) hfits⟩, hresult⟩

end Compiler

end GameScript
