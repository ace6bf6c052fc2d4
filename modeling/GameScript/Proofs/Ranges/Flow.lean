import GameScript.Proofs.Ranges.Parts

/-!
# Operands of assignments, statements and patterns

Assignments to parts of a value load the values on the way into temporaries; statements and patterns put
the code of their parts together with jumps. Where a statement is bound to emit something, as a condition
or a match is, this is said as well: the body of a function that returns is not empty.
-/

namespace GameScript

namespace Lower

variable {α : Type} {size : Nat → Option Nat} {L : Progress}

/-! ### Assignments -/

theorem storedValue_locates {v : StoredValue} (hv : ∀ L, Locates size L v.rhs) {present : Lower Address}
    (hp : ∀ L', L ≤ L' → Locates size L' present) : Locates size L (storedValue v present) := by
  unfold storedValue
  split
  · exact hv L
  · refine (addTemporary_locates _).bind fun dst L₁ h₁ hd => ?_
    refine (hp L₁ h₁).bind fun x L₂ h₂ hx => ?_
    refine (hv L₂).bind fun y L₃ h₃ hy => ?_
    refine (emit_runs (by simp; grind)).bind fun _ L₄ h₄ _ => ?_
    refine (release_runs y).bind fun _ L₅ h₅ _ => ?_
    refine (release_runs x).bind fun _ L₆ h₆ _ => ?_
    exact pure_ranged (by grind)

theorem assignName_runs (id : Ident) {v : StoredValue} (hv : ∀ L, Locates size L v.rhs) :
    Runs size L (assignName id v) := by
  have hstored : ∀ L, Locates size L (storedValue v (name id)) := fun L =>
    storedValue_locates hv fun _ _ => name_locates id
  have hlocal : Runs size L (do
      let dst ← localVar id
      let src ← storedValue v (name id)
      assign dst src v.converts
      Gen.release src) := by
    refine (localVar_locates id).bind fun dst L₁ h₁ hd => ?_
    refine (hstored L₁).bind fun src L₂ h₂ hs => ?_
    exact (assign_emits (hd.le h₂) hs _).bind fun _ L₃ h₃ _ => release_runs src
  unfold assignName
  split
  · exact hlocal
  · exact hlocal
  · exact hlocal
  · exact hlocal
  · refine (member_ranged _ _).bind fun m L₁ h₁ hm => ?_
    refine (hstored L₁).bind fun src L₂ h₂ hs => ?_
    refine (inAccessor_runs m).bind fun b L₃ h₃ _ => ?_
    split
    · refine (name_gen_ranged _).bind fun i L₄ h₄ hi => ?_
      exact (emitList_runs (by simp; grind)).bind fun _ L₅ h₅ _ => release_runs src
    · refine (assign_emits ((within_member hm _).le (le_trans h₂ h₃)) (hs.le h₃) _).bind
        fun _ L₄ h₄ _ => release_runs src
  · refine (hstored L).bind fun src L₁ h₁ hs => ?_
    refine (name_gen_ranged _).bind fun i L₂ h₂ hi => ?_
    exact (emit_runs (by simp; grind)).bind fun _ L₃ h₃ _ => release_runs src
  · exact (placeText_runs _).bind fun _ _ _ _ => contradiction_ranged

/-- A key is in range. -/
def PartKey.Within (e : Scope) : PartKey → Prop
  | .named n => n < e.names
  | .keyed k => k.Within e

/-- The addresses and keys of a route are in range. -/
structure RouteWithin (e : Scope) (r : Route) : Prop where
  base : r.base.Within e
  parts : ∀ p ∈ r.parts, PartKey.Within e p.key ∧ p.value.Within e

theorem PartKey.Within.le {L L' : Progress} {k : PartKey} (h : PartKey.Within L.toScope k)
    (hL : L ≤ L') : PartKey.Within L'.toScope k := by
  cases k with
  | named n => exact lt_of_lt_of_le h hL.scope.names
  | keyed k => exact Address.Within.le h hL

theorem RouteWithin.le {L L' : Progress} {r : Route} (h : RouteWithin L.toScope r) (hL : L ≤ L') :
    RouteWithin L'.toScope r :=
  ⟨h.base.le hL, fun p hp => ⟨(h.parts p hp).1.le hL, (h.parts p hp).2.le hL⟩⟩

theorem getPart_runs {dst base : Address} {key : PartKey} (hd : dst.Within L.toScope)
    (hb : base.Within L.toScope) (hk : PartKey.Within L.toScope key) :
    Runs size L (getPart dst base key) := by
  cases key with
  | named n => exact emit_runs (by simpa using ⟨hd, hb, hk⟩)
  | keyed k => exact emit_runs (by simpa using ⟨hd, hb, hk⟩)

theorem setPart_runs {base value : Address} {key : PartKey} (hb : base.Within L.toScope)
    (hk : PartKey.Within L.toScope key) (hv : value.Within L.toScope) :
    Runs size L (setPart base key value) := by
  cases key with
  | named n => exact emit_runs (by simpa using ⟨hb, hk, hv⟩)
  | keyed k => exact emit_runs (by simpa using ⟨hb, hk, hv⟩)

theorem releaseKey_runs (key : PartKey) : Runs size L (releaseKey key) := by
  cases key with
  | named n => exact pure_runs _
  | keyed k => exact release_runs k

theorem lastValue_within {e : Scope} {base : Address} {ps : List LoadedPart} (hb : base.Within e)
    (hp : ∀ p ∈ ps, PartKey.Within e p.key ∧ p.value.Within e) : (lastValue base ps).Within e := by
  cases ps with
  | nil => exact hb
  | cons p ps => exact (hp p (by simp)).2

theorem loadPart_ranged {r : Route} (hr : RouteWithin L.toScope r) (key : PartKey)
    (hk : PartKey.Within L.toScope key) (t : StaticType) :
    Ranged size L (loadPart r key t) fun L' r' => RouteWithin L'.toScope r' := by
  unfold loadPart
  refine (addTemporary_locates t).bind fun value L₁ h₁ hv => ?_
  have hr₁ := hr.le h₁
  refine (getPart_runs hv (lastValue_within hr₁.base hr₁.parts) (hk.le h₁)).bind fun _ L₂ h₂ _ => ?_
  refine pure_ranged fun L' h => ⟨(hr₁.le (le_trans h₂ h)).base, fun p hp => ?_⟩
  rcases List.mem_cons.mp hp with rfl | hp
  · exact ⟨hk.le (le_trans h₁ (le_trans h₂ h)), hv.le (le_trans h₂ h)⟩
  · exact (hr₁.le (le_trans h₂ h)).parts p hp

theorem writeBack_runs {base : Address} {ps : List LoadedPart} (hb : base.Within L.toScope)
    (hp : ∀ p ∈ ps, PartKey.Within L.toScope p.key ∧ p.value.Within L.toScope) :
    Runs size L (writeBack base ps) := by
  induction ps generalizing L with
  | nil => exact pure_runs _
  | cons p ps ih =>
    obtain ⟨hkey, hvalue⟩ := hp p (by simp)
    have hrest : ∀ q ∈ ps, PartKey.Within L.toScope q.key ∧ q.value.Within L.toScope :=
      fun q hq => hp q (by simp [hq])
    have hnext : ∀ L', L ≤ L' → Runs size L' (writeBack base ps) := fun L' h =>
      ih (hb.le h) fun q hq => ⟨(hrest q hq).1.le h, (hrest q hq).2.le h⟩
    have hstore : ∀ L', L ≤ L' → Runs size L' (setPart (lastValue base ps) p.key p.value) :=
      fun L' h => setPart_runs ((lastValue_within hb hrest).le h) (hkey.le h) (hvalue.le h)
    unfold writeBack
    dsimp only
    split
    · exact hnext L le_rfl
    · exact (hstore L le_rfl).bind fun _ L₁ h₁ _ => hnext L₁ h₁
    · refine newLabel_ranged.bind fun skip L₁ h₁ _ => ?_
      refine (emit_runs (by simpa using hvalue.le h₁)).bind fun _ L₂ h₂ _ => ?_
      refine (hstore L₂ (le_trans h₁ h₂)).bind fun _ L₃ h₃ _ => ?_
      refine (bind_runs skip).bind fun _ L₄ h₄ _ => ?_
      exact hnext L₄ (le_trans h₁ (le_trans h₂ (le_trans h₃ h₄)))

theorem storeRoot_runs (id : Ident) {value : Address} (hv : value.Within L.toScope) :
    Runs size L (storeRoot id value) := by
  unfold storeRoot
  split
  · exact pure_runs _
  · split
    · refine read_runs.bind fun ctx L₁ h₁ _ => ?_
      split
      · refine (inAccessor_runs _).bind fun b L₂ h₂ _ => ?_
        refine Ranged.ite ((name_gen_ranged _).bind fun i L₃ h₃ hi => ?_) (pure_runs _)
        exact emitList_runs (by simp; grind)
      · exact pure_runs _
    · exact (name_gen_ranged _).bind fun i L₁ h₁ hi => emit_runs (by simp; grind)
    · exact pure_runs _

theorem releaseParts_runs (ps : List LoadedPart) : Runs size L (releaseParts ps) := by
  induction ps generalizing L with
  | nil => exact pure_runs _
  | cons p ps ih =>
    unfold releaseParts
    refine (release_runs _).bind fun _ L₁ _ _ => ?_
    exact (releaseKey_runs _).bind fun _ L₂ _ _ => ih

theorem assignPart_runs {r : Route} {v : StoredValue} (hr : RouteWithin L.toScope r) (key : PartKey)
    (hk : PartKey.Within L.toScope key) (hv : ∀ L, Locates size L v.rhs) :
    Runs size L (assignPart r key v) := by
  have htarget := lastValue_within hr.base hr.parts
  have hpresent : ∀ L', L ≤ L' → Locates size L' (do
      let dst ← Gen.addTemporary v.type
      getPart dst (lastValue r.base r.parts) key
      return dst) := by
    intro L' h
    refine (addTemporary_locates _).bind fun dst L₁ h₁ hd => ?_
    refine (getPart_runs hd (htarget.le (le_trans h h₁)) (hk.le (le_trans h h₁))).bind
      fun _ L₂ h₂ _ => ?_
    exact pure_ranged (by grind)
  unfold assignPart
  refine (storedValue_locates hv hpresent).bind fun src L₁ h₁ hs => ?_
  refine (setPart_runs (htarget.le h₁) (hk.le h₁) hs).bind fun _ L₂ h₂ _ => ?_
  refine (release_runs src).bind fun _ L₃ h₃ _ => ?_
  have hr₃ := hr.le (le_trans h₁ (le_trans h₂ h₃))
  refine (writeBack_runs hr₃.base hr₃.parts).bind fun _ L₄ h₄ _ => ?_
  have hroot : Runs size L₄ (r.root.forM (storeRoot · r.base)) := by
    cases r.root with
    | none => exact pure_runs _
    | some id => exact storeRoot_runs id (hr₃.base.le h₄)
  refine hroot.bind fun _ L₅ h₅ _ => ?_
  refine (releaseKey_runs key).bind fun _ L₆ h₆ _ => ?_
  exact (releaseParts_runs r.parts).bind fun _ L₇ h₇ _ => release_runs r.base

/-! ### Choices and loops -/

theorem choose_emits {cond : Lower Address} {yes : Lower Unit} {no : Option (Lower Unit)}
    (hc : ∀ L, Locates size L cond) (hy : ∀ L, Runs size L yes) (hn : ∀ x ∈ no, ∀ L, Runs size L x) :
    Emits size L (choose cond yes no) := by
  unfold choose
  refine (hc L).bind fun c L₁ h₁ hc => ?_
  refine newLabel_ranged.bind fun l L₂ h₂ _ => ?_
  refine (jumpIfNot_emits (hc.le h₂) l).bind fun _ L₃ h₃ hlt => ?_
  -- what follows the jump only has to run
  refine Ranged.imp (R := fun _ _ => True) ?_ fun L' _ h _ =>
    lt_of_lt_of_le (lt_of_le_of_lt (le_trans h₁ h₂).code hlt) h.code
  refine (release_runs c).bind fun _ L₄ h₄ _ => ?_
  refine (hy L₄).bind fun _ L₅ h₅ _ => ?_
  cases no with
  | none => exact bind_runs l
  | some no =>
    refine newLabel_ranged.bind fun done L₆ h₆ _ => ?_
    refine (jumpTo_emits done).bind fun _ L₇ h₇ _ => ?_
    refine (bind_runs l).bind fun _ L₈ h₈ _ => ?_
    exact (hn no rfl L₈).bind fun _ L₉ h₉ _ => bind_runs done

theorem inLoop_runs (l : LoopLabels) {body : Lower Unit} (hb : ∀ L, Runs size L body) :
    Runs size L (inLoop l body) := by
  unfold inLoop
  refine Ranged.bind (update_runs fun _ => ⟨rfl, rfl, rfl, rfl⟩) fun _ L₁ _ _ => ?_
  exact (hb L₁).bind fun _ L₂ _ _ => update_runs fun s => ⟨rfl, rfl, rfl, rfl⟩

theorem repeatWhile_runs {cond : Lower Address} {body : Lower Unit} (hc : ∀ L, Locates size L cond)
    (hb : ∀ L, Runs size L body) : Runs size L (repeatWhile cond body) := by
  unfold repeatWhile
  refine newLabel_ranged.bind fun head L₁ h₁ _ => ?_
  refine newLabel_ranged.bind fun done L₂ h₂ _ => ?_
  refine (bind_runs head).bind fun _ L₃ h₃ _ => ?_
  refine (hc L₃).bind fun c L₄ h₄ hc => ?_
  refine (jumpIfNot_emits hc done).bind fun _ L₅ h₅ _ => ?_
  refine (release_runs c).bind fun _ L₆ h₆ _ => ?_
  refine (inLoop_runs _ hb).bind fun _ L₇ h₇ _ => ?_
  exact (jumpTo_emits head).bind fun _ L₈ h₈ _ => bind_runs done

theorem forEach_runs (id : Ident) (t : StaticType) {x : Lower Address} {body : Lower Unit}
    (hx : ∀ L, Locates size L x) (hb : ∀ L, Runs size L body) : Runs size L (forEach id t x body) := by
  unfold forEach
  refine (addTemporary_locates _).bind fun counter L₁ h₁ hcounter => ?_
  refine (addTemporary_locates t).bind fun container L₂ h₂ hcont => ?_
  refine (hx L₂).bind fun x L₃ h₃ hx => ?_
  refine (emit_runs (by simp; grind)).bind fun _ L₄ h₄ _ => ?_
  refine (release_runs x).bind fun _ L₅ h₅ _ => ?_
  refine (note_runs _).bind fun n L₆ h₆ _ => ?_
  refine (addLocal_locates id _).bind fun v L₇ h₇ hv => ?_
  refine newLabel_ranged.bind fun again L₈ h₈ _ => ?_
  refine newLabel_ranged.bind fun next L₉ h₉ _ => ?_
  refine newLabel_ranged.bind fun done L₁₀ h₁₀ _ => ?_
  have h₂₇ := le_trans h₃ (le_trans h₄ (le_trans h₅ (le_trans h₆ h₇)))
  have h₇₁₀ := le_trans h₈ (le_trans h₉ h₁₀)
  have hstep : ∀ op ∈ [Opcode.iterateBegin, .iterate], ∀ L', L₁₀ ≤ L' →
      Runs size L' (Gen.emit op [counter.encode, container.encode, v.encode, done] : Lower Unit) := by
    intro op hop L' h
    have hv' := hv.le (le_trans h₇₁₀ h)
    have hcont' := hcont.le (le_trans h₂₇ (le_trans h₇₁₀ h))
    have hcounter' := hcounter.le (le_trans h₂ (le_trans h₂₇ (le_trans h₇₁₀ h)))
    simp only [List.mem_cons, List.not_mem_nil, or_false] at hop
    rcases hop with rfl | rfl
    · exact emit_runs (by simpa using ⟨hcounter', hcont', hv'⟩)
    · exact emit_runs (by simpa using ⟨hcounter', hcont', hv'⟩)
  refine (hstep _ (by simp) L₁₀ le_rfl).bind fun _ L₁₁ h₁₁ _ => ?_
  refine (bind_runs again).bind fun _ L₁₂ h₁₂ _ => ?_
  refine (inLoop_runs _ hb).bind fun _ L₁₃ h₁₃ _ => ?_
  refine (bind_runs next).bind fun _ L₁₄ h₁₄ _ => ?_
  have h₁₀₁₄ := le_trans h₁₁ (le_trans h₁₂ (le_trans h₁₃ h₁₄))
  refine (hstep _ (by simp) L₁₄ h₁₀₁₄).bind fun _ L₁₅ h₁₅ _ => ?_
  refine (jumpTo_emits again).bind fun _ L₁₆ h₁₆ _ => ?_
  refine (bind_runs done).bind fun _ L₁₇ h₁₇ _ => ?_
  exact (release_runs container).bind fun _ L₁₈ h₁₈ _ => release_runs counter

theorem jump_runs (pos : Pos) (j : Jump) : Runs size L (jump pos j) := by
  have hout : ∀ {L : Progress} {f : Text → InternalFault},
      Runs size L (do contradiction (f (← placeText pos)) : Lower Unit) :=
    (placeText_runs _).bind fun _ _ _ _ => contradiction_ranged
  unfold jump
  refine current_runs.bind fun s L₁ _ _ => ?_
  split
  · exact pure_runs _
  · exact emit_runs (by simp)
  · split
    · exact (jumpTo_emits _).runs
    · exact hout
  · split
    · exact (jumpTo_emits _).runs
    · exact hout
  · split
    · exact (jumpTo_emits _).runs
    · exact hout

/-! ### Simple statements -/

theorem returnNil_emits : Emits size L returnNil := emit_emits (by simp)

theorem returnValue_emits {x : Lower Address} (hx : ∀ L, Locates size L x) :
    Emits size L (returnValue x) := by
  unfold returnValue
  refine Ranged.bind (update_runs fun _ => ⟨rfl, rfl, rfl, rfl⟩) fun _ L₁ h₁ _ => ?_
  refine (hx L₁).bind fun x L₂ h₂ hx => ?_
  refine (emit_emits (by simpa using hx)).bind fun _ L₃ h₃ hlt => ?_
  refine (release_runs x).imp fun L' _ h _ => ?_
  exact lt_of_lt_of_le (lt_of_le_of_lt (le_trans h₁ h₂).code hlt) h.code

theorem assertion_runs {cond message : Lower Address} (hc : ∀ L, Locates size L cond)
    (hm : ∀ L, Locates size L message) : Runs size L (assertion cond message) := by
  unfold assertion
  refine (hc L).bind fun c L₁ h₁ hc => ?_
  refine (hm L₁).bind fun m L₂ h₂ hm => ?_
  refine (emit_runs (by simp; grind)).bind fun _ L₃ h₃ _ => ?_
  exact (release_runs m).bind fun _ L₄ h₄ _ => release_runs c

theorem initVariable_runs {dst : Address} (hd : dst.Within L.toScope) (n : Note)
    {first : Option (Lower Address)} (hf : ∀ x ∈ first, ∀ L, Locates size L x) :
    Runs size L (initVariable dst n first) := by
  unfold initVariable
  cases first with
  | none => exact storeDefault_runs hd _
  | some x =>
    refine (hf x rfl L).bind fun src L₁ h₁ hs => ?_
    exact (assign_emits (hd.le h₁) hs _).bind fun _ L₂ h₂ _ => release_runs src

/-! ### Patterns -/

/-- Code that tests a value which its caller keeps. -/
def Examines (size : Nat → Option Nat) (f : Address → Lower Address) : Prop :=
  ∀ L a, a.Within L.toScope → Locates size L (f a)

theorem equalPattern_examines (x : Expr) {code : Lower Address} (hc : ∀ L, Locates size L code) :
    Examines size fun value => equalPattern value x code := by
  intro L value hv
  unfold equalPattern
  refine (addTemporary_locates _).bind fun dst L₁ h₁ hd => ?_
  refine (pushFrame_runs _).bind fun _ L₂ h₂ _ => ?_
  refine (hc L₂).bind fun c L₃ h₃ hc => ?_
  refine (addTemporary_locates _).bind fun test L₄ h₄ ht => ?_
  have hv₄ := hv.le (le_trans h₁ (le_trans h₂ (le_trans h₃ h₄)))
  refine (emit_runs (by simpa using ⟨ht, hv₄⟩)).bind fun _ L₅ h₅ _ => ?_
  refine (andOperand_decides L₅ test (ht.le h₅)).bind fun _ L₆ h₆ _ => ?_
  have h₄₆ := le_trans h₅ h₆
  refine (emit_runs (by
    simpa using ⟨ht.le h₄₆, hv₄.le h₄₆, hc.le (le_trans h₄ h₄₆)⟩)).bind fun _ L₇ h₇ _ => ?_
  refine (andOperand_decides L₇ test (ht.le (le_trans h₄₆ h₇))).bind fun _ L₈ h₈ _ => ?_
  refine (release_runs test).bind fun _ L₉ h₉ _ => ?_
  refine (release_runs c).bind fun _ L₁₀ h₁₀ _ => ?_
  have hd₁₀ := hd.le (le_trans h₂ (le_trans h₃ (le_trans h₄ (le_trans h₄₆ (le_trans h₇ (le_trans h₈
    (le_trans h₉ h₁₀)))))))
  refine (endLogical_runs .and hd₁₀ true).bind fun _ L₁₁ h₁₁ _ => ?_
  exact pure_ranged (by grind)

theorem bindPattern_examines (id : Ident) : Examines size fun value => bindPattern value id := by
  intro L value hv
  unfold bindPattern
  refine (note_runs _).bind fun n L₁ h₁ _ => ?_
  refine (addLocal_locates id _).bind fun v L₂ h₂ hl => ?_
  refine (emit_runs (by simp; grind)).bind fun _ L₃ h₃ _ => ?_
  exact constant_locates _

theorem lengthTest_runs {test value : Address} (ht : test.Within L.toScope)
    (hv : value.Within L.toScope) (n : Nat) (atLeast : Bool) :
    Runs size L (lengthTest test value n atLeast) := by
  unfold lengthTest
  refine (addTemporary_locates _).bind fun len L₁ h₁ hlen => ?_
  refine (name_gen_ranged _).bind fun i L₂ h₂ hi => ?_
  refine (emitList_runs (by simp; grind)).bind fun _ L₃ h₃ _ => ?_
  refine (constant_locates _).bind fun c L₄ h₄ hc => ?_
  refine (emit_runs (by simp; grind)).bind fun _ L₅ h₅ _ => ?_
  refine (release_runs len).bind fun _ L₆ h₆ _ => ?_
  exact (andOperand_decides L₆ test (by grind)).runs

theorem containerPattern_examines (t : BuiltinType) (n : Nat) (atLeast : Bool)
    {contents : Address → Address → Lower Unit}
    (hc : ∀ L test value, test.Within L.toScope → value.Within L.toScope →
      Runs size L (contents value test)) :
    Examines size fun value => containerPattern value t n atLeast (contents value) := by
  intro L value hv
  unfold containerPattern
  refine (addTemporary_locates _).bind fun dst L₁ h₁ hd => ?_
  refine (pushFrame_runs _).bind fun _ L₂ h₂ _ => ?_
  refine (addTemporary_locates _).bind fun test L₃ h₃ ht => ?_
  refine (emit_runs (by simp; grind)).bind fun _ L₄ h₄ _ => ?_
  refine (andOperand_decides L₄ test (ht.le h₄)).bind fun _ L₅ h₅ _ => ?_
  have hv₅ := hv.le (le_trans h₁ (le_trans h₂ (le_trans h₃ (le_trans h₄ h₅))))
  have ht₅ := ht.le (le_trans h₄ h₅)
  refine (lengthTest_runs ht₅ hv₅ n atLeast).bind fun _ L₆ h₆ _ => ?_
  refine (hc L₆ test value (ht₅.le h₆) (hv₅.le h₆)).bind fun _ L₇ h₇ _ => ?_
  refine (release_runs test).bind fun _ L₈ h₈ _ => ?_
  have hd₈ := hd.le (le_trans h₂ (le_trans h₃ (le_trans h₄ (le_trans h₅ (le_trans h₆ (le_trans h₇
    h₈))))))
  refine (endLogical_runs .and hd₈ true).bind fun _ L₉ h₉ _ => ?_
  exact pure_ranged (by grind)

theorem elementPattern_runs {container : Address} (hc : container.Within L.toScope) {key : Gen Address}
    (hk : ∀ L', L ≤ L' → Locates size L' (liftM key)) {pattern : Address → Lower Address}
    (hp : Examines size pattern) : Runs size L (elementPattern container key pattern) := by
  unfold elementPattern
  refine (addTemporary_locates _).bind fun value L₁ h₁ hv => ?_
  refine (hk L₁ h₁).bind fun k L₂ h₂ hk => ?_
  refine (emit_runs (by simp; grind)).bind fun _ L₃ h₃ _ => ?_
  refine (hp L₃ value (by grind)).bind fun r L₄ h₄ hr => ?_
  refine (andOperand_decides L₄ r hr).bind fun _ L₅ h₅ _ => ?_
  exact (release_runs r).bind fun _ L₆ h₆ _ => release_runs value

theorem entryPattern_runs {test container : Address} (ht : test.Within L.toScope)
    (hc : container.Within L.toScope) {key : Lower Address} (hk : ∀ L, Locates size L key)
    {pattern : Option (Address → Lower Address)} (hp : ∀ p ∈ pattern, Examines size p) :
    Runs size L (entryPattern test container key pattern) := by
  unfold entryPattern
  refine (hk L).bind fun k L₁ h₁ hk => ?_
  refine (emit_runs (by simp; grind)).bind fun _ L₂ h₂ _ => ?_
  refine (andOperand_decides L₂ test (by grind)).bind fun _ L₃ h₃ _ => ?_
  have hvalue : Runs size L₃ (pattern.forM (elementPattern container (pure k))) := by
    cases pattern with
    | none => exact pure_runs _
    | some p =>
      refine elementPattern_runs (by grind) (fun L' h => ?_) (hp p rfl)
      exact pure_ranged (by grind)
  exact hvalue.bind fun _ L₄ h₄ _ => release_runs k

theorem orOperands_runs {ps : List (Lower Address)}
    (hp : ∀ p ∈ ps, ∀ L', L ≤ L' → Locates size L' p) :
    Runs size L (ps.forM fun p => operand Gen.orOperand p) := by
  induction ps generalizing L with
  | nil => exact pure_runs _
  | cons p ps ih =>
    refine (operand_runs orOperand_decides (hp p (by simp) L le_rfl)).bind fun _ L₁ h₁ _ => ?_
    exact ih fun q hq L' h => hp q (by simp [hq]) L' (le_trans h₁ h)

theorem anyPattern_locates {ps : List (Lower Address)}
    (hp : ∀ p ∈ ps, ∀ L', L ≤ L' → Locates size L' p) : Locates size L (anyPattern ps) := by
  unfold anyPattern
  split
  · exact hp _ (by simp) L le_rfl
  · refine (addTemporary_locates _).bind fun dst L₁ h₁ hd => ?_
    refine (pushFrame_runs _).bind fun _ L₂ h₂ _ => ?_
    refine (orOperands_runs fun p hmem L' h => hp p hmem L' (le_trans h₁ (le_trans h₂ h))).bind
      fun _ L₃ h₃ _ => ?_
    refine (endLogical_runs .or (by grind) false).bind fun _ L₄ h₄ _ => ?_
    exact pure_ranged (by grind)

theorem matchBranch_runs (done : Nat) {cond : Lower Address} {body : Lower Unit}
    (hc : ∀ L', L ≤ L' → Locates size L' cond) (hb : ∀ L, Runs size L body) :
    Runs size L (matchBranch done cond body) := by
  unfold matchBranch
  refine newLabel_ranged.bind fun next L₁ h₁ _ => ?_
  refine (hc L₁ h₁).bind fun c L₂ h₂ hc => ?_
  refine (jumpIfNot_emits hc next).bind fun _ L₃ h₃ _ => ?_
  refine (release_runs c).bind fun _ L₄ h₄ _ => ?_
  refine Ranged.bind (update_runs fun _ => ⟨rfl, rfl, rfl, rfl⟩) fun _ L₅ h₅ _ => ?_
  refine (hb L₅).bind fun _ L₆ h₆ _ => ?_
  refine Ranged.bind (update_runs fun _ => ⟨rfl, rfl, rfl, rfl⟩) fun _ L₇ h₇ _ => ?_
  exact (jumpTo_emits done).bind fun _ L₈ h₈ _ => bind_runs next

theorem matching_emits (t : StaticType) {x : Lower Address} (hx : ∀ L, Locates size L x)
    {branches : Address → Nat → Lower Unit}
    (hb : ∀ L value done, value.Within L.toScope → Runs size L (branches value done)) :
    Emits size L (matching t x branches) := by
  unfold matching
  refine (addTemporary_locates t).bind fun value L₁ h₁ hv => ?_
  refine (hx L₁).bind fun x L₂ h₂ hx => ?_
  refine (emit_emits (by simpa using ⟨hv.le h₂, hx⟩)).bind fun _ L₃ h₃ hlt => ?_
  refine Ranged.imp (R := fun _ _ => True) ?_ fun L' _ h _ =>
    lt_of_lt_of_le (lt_of_le_of_lt (le_trans h₁ h₂).code hlt) h.code
  refine (release_runs x).bind fun _ L₄ h₄ _ => ?_
  refine newLabel_ranged.bind fun done L₅ h₅ _ => ?_
  refine (hb L₅ value done (by grind)).bind fun _ L₆ h₆ _ => ?_
  exact (bind_runs done).bind fun _ L₇ h₇ _ => release_runs value

theorem literal_locates (l : Literal) : Locates size L (literal l) := by
  unfold literal
  refine (direct?_ranged _).bind fun r L₁ h₁ hr => ?_
  cases r with
  | some a => exact pure_ranged fun L' h => (hr a rfl).le h
  | none => exact constant_locates _

end Lower

end GameScript
