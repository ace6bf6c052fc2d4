import GameScript.Proofs.Construction.Parts
import GameScript.Proofs.Lowering.Emission

/-!
# Construction of statements and patterns

Statements and patterns put the code of their parts together with jumps. Each label that is made for a
jump is bound before the statement is complete (`labelled_tidy`).
-/

namespace GameScript

namespace Lower

variable {α β : Type} {σ : Site} {k : FrameKind}

/-! ### Labels of a statement -/

/-- A step that binds a label. -/
def Binds (l : Nat) (x : Lower α) : Prop :=
  ∀ σ : Site, σ.Free l → Moves (σ.await l) x fun _ σ' => σ' = σ

theorem bind_binds (l : Nat) : Binds l (Gen.bind l : Lower Unit) := fun _ => bind_last

theorem Reaches.binds {l : Nat} {x : Lower α} {f : α → Lower β} (hx : Reaches l x)
    (hf : ∀ a, Binds l (f a)) : Binds l (x >>= f) :=
  fun σ hl => Stays.bind (hx _ hl.2) fun a => hf a σ hl

theorem Tidy.binds {l : Nat} {x : Lower α} {f : α → Lower β} (hx : Tidy x)
    (hf : ∀ a, Binds l (f a)) : Binds l (x >>= f) := (hx.reaches l).binds hf

theorem Binds.bind {l : Nat} {x : Lower α} {f : α → Lower β} (hx : Binds l x)
    (hf : ∀ a, Tidy (f a)) : Binds l (x >>= f) :=
  fun σ hl => (hx σ hl).bind fun a _ h => h ▸ hf a σ

/-- **A label that is made is bound.** -/
theorem labelled_stays {f : Nat → Lower α}
    (hf : ∀ n l, σ.made ≤ n → (σ.knowing n).Free l →
      Moves ((σ.knowing n).await l) (f l) fun _ σ' => σ' = σ.knowing n) :
    Stays σ (do f (← Gen.newLabel)) :=
  newLabel_moves.bind fun l _ ⟨n, hn, hl, h⟩ => h ▸ (hf n l hn hl).forget hn

theorem labelled_tidy {f : Nat → Lower α} (hf : ∀ l, Binds l (f l)) :
    Tidy (do f (← Gen.newLabel)) := fun _ => labelled_stays fun _ l _ => hf l _

/-- A label that is made while another one is waited for. -/
theorem labelled_binds {k : Nat} {f : Nat → Lower α}
    (hf : ∀ l (σ : Site), σ.Free k → σ.Free l → l ≠ k →
      Moves ((σ.await k).await l) (f l) fun _ σ' => σ' = σ) :
    Binds k (do f (← Gen.newLabel)) := by
  intro σ hk
  refine newLabel_moves.bind fun l σ₁ ⟨n, hn, hl, h⟩ => ?_
  subst h
  have hl' : l ≠ k ∧ l ∉ σ.pending := not_or.mp hl.1
  have hn' : σ.made ≤ n := hn
  exact (hf l (σ.knowing n) ⟨hk.1, lt_of_lt_of_le hk.2 hn'⟩ ⟨hl'.2, hl.2⟩ hl'.1).forget hn'

theorem entry_tidy : Tidy entry :=
  labelled_tidy fun l => (bind_binds l).bind fun _ => pure_tidy l

/-! ### Assignments -/

theorem storedValue_tidy {v : StoredValue} (hv : Tidy v.rhs) {present : Lower Address}
    (hp : Tidy present) : Tidy (storedValue v present) := by
  unfold storedValue
  split
  · exact hv
  · exact (addTemporary_tidy _).bind fun dst => hp.bind fun x => hv.bind fun y =>
      Tidy.bind (emit_tidy rfl (by decide)) fun _ => (release_tidy y).bind fun _ => release_pure_tidy _ _

theorem assignName_tidy (id : Ident) {v : StoredValue} (hv : Tidy v.rhs) :
    Tidy (assignName id v) := by
  have hstored : Tidy (storedValue v (name id)) := storedValue_tidy hv (name_tidy id)
  have hlocal : Tidy (do
      let dst ← localVar id
      let src ← storedValue v (name id)
      assign dst src v.converts
      Gen.release src) :=
    (localVar_tidy id).bind fun dst => hstored.bind fun src => (assign_tidy dst src _).bind fun _ =>
      release_tidy src
  unfold assignName
  split
  · exact hlocal
  · exact hlocal
  · exact hlocal
  · exact hlocal
  · refine (member_tidy _ _).bind fun m => hstored.bind fun src => (inAccessor_tidy m).bind fun b => ?_
    split
    · exact (name_gen_tidy _).bind fun _ => Tidy.bind (emitList_tidy rfl rfl) fun _ =>
        release_tidy src
    · exact (assign_tidy _ _ _).bind fun _ => release_tidy src
  · exact hstored.bind fun src => (name_gen_tidy _).bind fun _ => Tidy.bind (emit_tidy rfl (by decide)) fun _ =>
      release_tidy src
  · exact (placeText_tidy _).bind fun _ => contradiction_tidy rfl

theorem getPart_tidy (dst base : Address) (key : PartKey) : Tidy (getPart dst base key) := by
  cases key with
  | named n => exact emit_tidy rfl (by decide)
  | keyed k => exact emit_tidy rfl (by decide)

theorem setPart_tidy (base : Address) (key : PartKey) (value : Address) :
    Tidy (setPart base key value) := by
  cases key with
  | named n => exact emit_tidy rfl (by decide)
  | keyed k => exact emit_tidy rfl (by decide)

theorem releaseKey_tidy (key : PartKey) : Tidy (releaseKey key) := by
  cases key with
  | named n => exact pure_tidy _
  | keyed k => exact release_tidy k

theorem loadPart_tidy (r : Route) (key : PartKey) (t : StaticType) : Tidy (loadPart r key t) :=
  (addTemporary_tidy t).bind fun _ => (getPart_tidy _ _ _).bind fun _ => pure_tidy _

theorem writeBack_tidy (base : Address) (ps : List LoadedPart) : Tidy (writeBack base ps) := by
  induction ps with
  | nil => exact pure_tidy _
  | cons p ps ih =>
    have hstore := setPart_tidy (lastValue base ps) p.key p.value
    unfold writeBack
    dsimp only
    split
    · exact ih
    · exact hstore.bind fun _ => ih
    · refine labelled_tidy fun skip => ?_
      exact Reaches.binds (emit_reaches rfl rfl) fun _ => hstore.binds fun _ =>
        (bind_binds skip).bind fun _ => ih

theorem storeRoot_tidy (id : Ident) (value : Address) : Tidy (storeRoot id value) := by
  unfold storeRoot
  split
  · exact pure_tidy _
  · split
    · refine read_tidy.bind fun ctx => ?_
      split
      · refine (inAccessor_tidy _).bind fun b => Tidy.ite ?_ (pure_tidy _)
        exact (name_gen_tidy _).bind fun _ => emitList_tidy rfl rfl
      · exact pure_tidy _
    · exact (name_gen_tidy _).bind fun _ => emit_tidy rfl (by decide)
    · exact pure_tidy _

theorem releaseParts_tidy (ps : List LoadedPart) : Tidy (releaseParts ps) := by
  induction ps with
  | nil => exact pure_tidy _
  | cons p ps ih =>
    exact (release_tidy _).bind fun _ => (releaseKey_tidy _).bind fun _ => ih

theorem assignPart_tidy (r : Route) (key : PartKey) {v : StoredValue} (hv : Tidy v.rhs) :
    Tidy (assignPart r key v) := by
  have hpresent : Tidy (do
      let dst ← Gen.addTemporary v.type
      getPart dst (lastValue r.base r.parts) key
      return dst) :=
    (addTemporary_tidy _).bind fun _ => (getPart_tidy _ _ _).bind fun _ => pure_tidy _
  have hroot : Tidy (r.root.forM (storeRoot · r.base)) := by
    cases r.root with
    | none => exact pure_tidy _
    | some id => exact storeRoot_tidy id _
  refine (storedValue_tidy hv hpresent).bind fun src => (setPart_tidy _ _ _).bind fun _ => ?_
  refine (release_tidy src).bind fun _ => (writeBack_tidy _ _).bind fun _ => hroot.bind fun _ => ?_
  exact (releaseKey_tidy key).bind fun _ => (releaseParts_tidy _).bind fun _ => release_tidy _

/-! ### Choices and loops -/

theorem choose_tidy {cond : Lower Address} {yes : Lower Unit} {no : Option (Lower Unit)}
    (hc : Tidy cond) (hy : Tidy yes) (hn : ∀ x ∈ no, Tidy x) : Tidy (choose cond yes no) := by
  refine hc.bind fun c => labelled_tidy fun l => ?_
  refine (jumpIfNot_reaches c l).binds fun _ => (release_tidy c).binds fun _ => hy.binds fun _ => ?_
  cases no with
  | none => exact bind_binds l
  | some no =>
    refine labelled_binds fun done σ hl hdone hne => ?_
    refine Stays.bind (jump_reaches done _ hdone.2) fun _ => ?_
    refine (bind_earlier hl hne).bind fun _ σ₁ h₁ => ?_
    subst h₁
    exact (hn no rfl).binds (fun _ => bind_binds done) σ hdone

/-- The labels of a loop stay known while its body is built. -/
theorem inLoop_stays {l : LoopLabels} (hexit : l.exit < σ.made) (hnext : l.next < σ.made)
    {body : Lower Unit} (hb : Tidy body) : Stays σ (inLoop l body) := by
  intro ctx s hs
  unfold inLoop
  rw [after_bind, after_update]
  have hin : Lowering.At { s with loops := l :: s.loops } σ := { hs with
    loops := fun l' hl' => by
      rcases List.mem_cons.mp hl' with rfl | hl'
      · exact ⟨lt_of_lt_of_le hexit hs.made, lt_of_lt_of_le hnext hs.made⟩
      · exact hs.loops l' hl' }
  refine (hb σ ctx _ hin).bind fun _ s₁ ⟨σ₁, hs₁, h₁⟩ => ?_
  subst h₁
  rw [after_update]
  exact ⟨σ₁, { hs₁ with loops := fun l' hl' => hs₁.loops l' (List.mem_of_mem_drop hl') }, rfl⟩

theorem repeatWhile_tidy {cond : Lower Address} {body : Lower Unit} (hc : Tidy cond)
    (hb : Tidy body) : Tidy (repeatWhile cond body) := by
  refine labelled_tidy fun head => labelled_binds fun done σ hhead hdone hne => ?_
  refine (bind_earlier hhead hne).bind fun _ σ₁ h₁ => ?_
  subst h₁
  refine Stays.bind (hc _) fun c => Stays.bind (jumpIfNot_reaches c done _ hdone.2) fun _ => ?_
  refine Stays.bind (release_tidy c _) fun _ => ?_
  refine Stays.bind (inLoop_stays hdone.2 hhead.2 hb) fun _ => ?_
  exact Stays.bind (jump_reaches head _ hhead.2) fun _ => bind_last hdone

theorem forEach_tidy (id : Ident) (t : StaticType) {x : Lower Address} {body : Lower Unit}
    (hx : Tidy x) (hb : Tidy body) : Tidy (forEach id t x body) := by
  refine (addTemporary_tidy _).bind fun counter => (addTemporary_tidy t).bind fun container => ?_
  refine hx.bind fun x => Tidy.bind (emit_tidy rfl (by decide)) fun _ => ?_
  refine (release_tidy x).bind fun _ => ?_
  refine (note_tidy _).bind fun n => (addLocal_tidy id _).bind fun v => ?_
  refine labelled_tidy fun again => labelled_binds fun next σ hagain hnext hne => ?_
  refine newLabel_moves.bind fun done σ₁ ⟨n, hn, hdone, h₁⟩ => ?_
  subst h₁
  have hn' : σ.made ≤ n := hn
  rw [Site.knowing_await, Site.knowing_await] at hdone ⊢
  obtain ⟨hdone₁, hdone₂, hdone₃⟩ : done ≠ next ∧ done ≠ again ∧ done ∉ (σ.knowing n).pending := by
    simpa only [Site.mem_await, not_or] using hdone.1
  have hagain' : (σ.knowing n).Free again := ⟨hagain.1, lt_of_lt_of_le hagain.2 hn'⟩
  have hnext' : (σ.knowing n).Free next := ⟨hnext.1, lt_of_lt_of_le hnext.2 hn'⟩
  have hdone' : (σ.knowing n).Free done := ⟨hdone₃, hdone.2⟩
  refine Moves.forget hn' ?_
  -- the labels are bound in the order in which they were made
  generalize σ.knowing n = τ at *
  have hfirst : (((τ.await again).await next).await done).settle again = (τ.await next).await done := by
    rw [Site.settle_await_of_ne hdone₂, Site.settle_await_of_ne hne, Site.settle_await hagain'.1]
  refine Stays.bind (emit_reaches rfl rfl _ hdone.2) fun _ => ?_
  refine Moves.bind (bind_moves (.inr (.inr (.inl rfl)))) fun _ σ₂ h₂ => ?_
  rw [h₂, hfirst]
  refine Stays.bind (inLoop_stays hdone'.2 hnext'.2 hb) fun _ => ?_
  refine Moves.bind (bind_earlier hnext' hdone₁) fun _ σ₃ h₃ => ?_
  subst h₃
  refine Stays.bind (emit_reaches rfl rfl _ hdone'.2) fun _ => ?_
  refine Stays.bind (jump_reaches again _ hagain'.2) fun _ => ?_
  refine (bind_last hdone').bind fun _ σ₄ h₄ => ?_
  subst h₄
  exact (release_tidy container).bind (fun _ => release_tidy counter) _

/-- A jump leads to a label of the loop or of the match it is in. -/
theorem jump_tidy (pos : Pos) (j : Jump) : Tidy (jump pos j) := by
  intro σ ctx s hs
  have hjump : ∀ l, s.gen.Made l → After (Gen.jump l : Lower Unit) ctx s
      (fun _ s' => ∃ σ', s'.At σ' ∧ σ' = σ) Sturdy := by
    intro l hl
    unfold Gen.jump
    rw [after_lift, Gen.after_emit_of_fits rfl]
    refine ⟨σ, hs.push fun k hk => ?_, rfl⟩
    rwa [List.mem_singleton.mp hk]
  unfold jump
  rw [after_bind, after_current]
  dsimp only
  split
  · exact pure_tidy _ σ ctx s hs
  · exact emit_tidy rfl (by decide) σ ctx s hs
  · split
    · rename_i l ls hcases
      exact hjump l (hs.cases l (by simp [hcases]))
    · exact (placeText_tidy _).bind (fun _ => contradiction_tidy rfl) σ ctx s hs
  all_goals
    split
    · rename_i l ls hloops
      have hl := hs.loops l (by simp [hloops])
      split
      · exact hjump _ hl.1
      · exact hjump _ hl.2
    · exact (placeText_tidy _).bind (fun _ => contradiction_tidy rfl) σ ctx s hs

/-! ### Simple statements -/

theorem returnNil_tidy : Tidy returnNil := emit_tidy rfl (by decide)

theorem returnValue_tidy {x : Lower Address} (hx : Tidy x) : Tidy (returnValue x) :=
  Tidy.bind (update_tidy fun _ => ⟨rfl, rfl, rfl⟩) fun _ => hx.bind fun x =>
    Tidy.bind (emit_tidy rfl (by decide)) fun _ => release_tidy x

theorem assertion_tidy {cond message : Lower Address} (hc : Tidy cond) (hm : Tidy message) :
    Tidy (assertion cond message) :=
  hc.bind fun c => hm.bind fun m => Tidy.bind (emit_tidy rfl (by decide)) fun _ =>
    (release_tidy m).bind fun _ => release_tidy c

theorem initVariable_tidy (dst : Address) (n : Note) {first : Option (Lower Address)}
    (hx : ∀ x ∈ first, Tidy x) : Tidy (initVariable dst n first) := by
  unfold initVariable
  cases first with
  | some x =>
    exact (hx x rfl).bind fun src => (assign_tidy dst src _).bind fun _ => release_tidy src
  | none => exact storeDefault_tidy dst _

/-! ### Patterns -/

theorem equalPattern_tidy (value : Address) (x : Expr) {code : Lower Address} (hc : Tidy code) :
    Tidy (equalPattern value x code) := by
  refine (addTemporary_tidy _).bind fun dst => Closes.tidy ?_
  refine hc.closes fun c => (addTemporary_tidy _).closes fun test => ?_
  refine Tidy.closes (emit_tidy rfl (by decide)) fun _ => (andOperand_tidyIn test).closes fun _ => ?_
  refine Tidy.closes (emit_tidy rfl (by decide)) fun _ => (andOperand_tidyIn test).closes fun _ => ?_
  refine (release_tidy test).closes fun _ => (release_tidy c).closes fun _ => ?_
  exact (endLogical_closes .and dst true).bind fun _ => pure_tidy dst

theorem bindPattern_tidy (value : Address) (id : Ident) : Tidy (bindPattern value id) :=
  (note_tidy _).bind fun _ => (addLocal_tidy id _).bind fun _ =>
    Tidy.bind (emit_tidy rfl (by decide)) fun _ => boolean_tidy true

theorem lengthTest_tidyIn (test value : Address) (n : Nat) (atLeast : Bool) :
    TidyIn .and (lengthTest test value n atLeast) := by
  refine (addTemporary_tidy _).within.bind fun size => ?_
  refine (name_gen_tidy _).within.bind fun _ => TidyIn.bind (emitList_tidy rfl rfl).within fun _ => ?_
  refine (constant_tidy _).within.bind fun length => ?_
  refine TidyIn.bind (emit_tidy rfl (by decide)).within fun _ => ?_
  exact (release_tidy size).within.bind fun _ => andOperand_tidyIn test

theorem containerPattern_tidy (value : Address) (t : BuiltinType) (n : Nat) (atLeast : Bool)
    {contents : Address → Lower Unit} (hc : ∀ test, TidyIn .and (contents test)) :
    Tidy (containerPattern value t n atLeast contents) := by
  refine (addTemporary_tidy _).bind fun dst => Closes.tidy ?_
  refine (addTemporary_tidy _).closes fun test => ?_
  refine Tidy.closes (emit_tidy rfl (by decide)) fun _ => (andOperand_tidyIn test).closes fun _ => ?_
  refine (lengthTest_tidyIn test value n atLeast).closes fun _ => (hc test).closes fun _ => ?_
  refine (release_tidy test).closes fun _ => ?_
  exact (endLogical_closes .and dst true).bind fun _ => pure_tidy dst

theorem elementPattern_tidyIn (container : Address) {key : Gen Address}
    (hk : Tidy (key : Lower Address)) {pattern : Address → Lower Address}
    (hp : ∀ value, Tidy (pattern value)) : TidyIn .and (elementPattern container key pattern) := by
  refine (addTemporary_tidy _).within.bind fun value => hk.within.bind fun key => ?_
  refine TidyIn.bind (emit_tidy rfl (by decide)).within fun _ => (hp value).within.bind fun r => ?_
  refine (andOperand_tidyIn r).bind fun _ => ?_
  exact ((release_tidy r).bind fun _ => release_tidy value).within

theorem entryPattern_tidyIn (test container : Address) {key : Lower Address} (hk : Tidy key)
    {pattern : Option (Address → Lower Address)} (hp : ∀ p ∈ pattern, ∀ value, Tidy (p value)) :
    TidyIn .and (entryPattern test container key pattern) := by
  refine hk.within.bind fun key => TidyIn.bind (emit_tidy rfl (by decide)).within fun _ => ?_
  refine (andOperand_tidyIn test).bind fun _ => TidyIn.bind ?_ fun _ => (release_tidy key).within
  cases pattern with
  | none => exact (pure_tidy _).within
  | some p => exact elementPattern_tidyIn container (pure_tidy key) (hp p rfl)

theorem orOperands_tidyIn {ps : List (Lower Address)} (hp : ∀ p ∈ ps, Tidy p) :
    TidyIn .or (ps.forM fun p => operand Gen.orOperand p) := by
  induction ps with
  | nil => exact (pure_tidy _).within
  | cons p ps ih =>
    refine (operand_tidyIn orOperand_tidyIn (hp p (by simp))).bind fun _ => ?_
    exact ih fun p hmem => hp p (by simp [hmem])

theorem anyPattern_tidy {ps : List (Lower Address)} (hp : ∀ p ∈ ps, Tidy p) :
    Tidy (anyPattern ps) := by
  unfold anyPattern
  split
  · exact hp _ (by simp)
  · refine (addTemporary_tidy _).bind fun dst => Closes.tidy ?_
    refine (orOperands_tidyIn hp).closes fun _ => ?_
    exact (endLogical_closes .or dst false).bind fun _ => pure_tidy dst

/-- The label of the next branch stays known while the body of one is built. -/
theorem inCase_stays {l : Nat} (hl : l < σ.made) {body : Lower Unit} (hb : Tidy body) :
    Stays σ (do
      update fun s => { s with cases := l :: s.cases }
      body
      update fun s => { s with cases := s.cases.drop 1 }) := by
  intro ctx s hs
  rw [after_bind, after_update]
  have hin : Lowering.At { s with cases := l :: s.cases } σ := { hs with
    cases := fun l' hl' => by
      rcases List.mem_cons.mp hl' with rfl | hl'
      · exact lt_of_lt_of_le hl hs.made
      · exact hs.cases l' hl' }
  refine (hb σ ctx _ hin).bind fun _ s₁ ⟨σ₁, hs₁, h₁⟩ => ?_
  subst h₁
  rw [after_update]
  exact ⟨σ₁, { hs₁ with cases := fun l' hl' => hs₁.cases l' (List.mem_of_mem_drop hl') }, rfl⟩

theorem matchBranch_reaches (done : Nat) {cond : Lower Address} {body : Lower Unit} (hc : Tidy cond)
    (hb : Tidy body) : Reaches done (matchBranch done cond body) := by
  intro σ hdone
  refine labelled_stays fun n next hn hnext => ?_
  refine Stays.bind (hc _) fun c => Stays.bind (jumpIfNot_reaches c next _ hnext.2) fun _ => ?_
  refine Stays.bind (release_tidy c _) fun _ => ?_
  have hcase := Stays.bind (inCase_stays (σ := (σ.knowing n).await next) hnext.2 hb) fun _ =>
    Stays.bind (jump_reaches done _ (lt_of_lt_of_le hdone hn)) fun _ => bind_last hnext
  simpa only [bind_assoc] using hcase

theorem matching_tidy (t : StaticType) {x : Lower Address} (hx : Tidy x)
    {branches : Address → Nat → Lower Unit} (hb : ∀ value done, Reaches done (branches value done)) :
    Tidy (matching t x branches) := by
  refine (addTemporary_tidy t).bind fun value => hx.bind fun x => ?_
  refine Tidy.bind (emit_tidy rfl (by decide)) fun _ => (release_tidy x).bind fun _ => ?_
  refine labelled_tidy fun done => (hb value done).binds fun _ => ?_
  exact (bind_binds done).bind fun _ => release_tidy value

/-! ### Functions -/

theorem returnType_tidy (t : StaticType) : Tidy (returnType t) := by
  unfold returnType
  split
  · exact types_tidy.bind fun _ => pure_tidy _
  · refine current_tidy.bind fun s => ?_
    split
    · exact pure_tidy _
    · exact pure_tidy _

theorem forIn_tidy {β : Type} (xs : List β) {f : β → PUnit → Lower (ForInStep PUnit)}
    (hf : ∀ x u, Tidy (f x u)) (u : PUnit) : Tidy (forIn xs u f) := by
  induction xs generalizing u with
  | nil => exact pure_tidy u
  | cons x xs ih =>
    rw [List.forIn_cons]
    refine (hf x u).bind fun r => ?_
    cases r with
    | done u => exact pure_tidy u
    | yield u => exact ih u

theorem addParams_tidy (captures : List Ident) (params : List Param) :
    Tidy (addParams captures params) := by
  unfold addParams
  refine (forIn_tidy captures (fun id _ => ?_) _).bind fun _ =>
    (forIn_tidy params (fun p _ => ?_) _).bind fun _ => pure_tidy _
  · split
    · exact (addParam_tidy _ _ _ _).bind fun _ => pure_tidy _
    · exact (addParam_tidy _ _ _ _).bind fun _ => pure_tidy _
  · exact (note_tidy _).bind fun n => (addParam_tidy _ _ _ _).bind fun _ => pure_tidy _

theorem paramAt_tidy (p : Pos) : Tidy (paramAt p) := current_tidy.bind fun _ => pure_tidy _

/-- **The code of a function is complete** where nothing is waited for: its constructs are ended, and each
label in use has been made and is bound. -/
theorem machineCode_stays : Stays {} (Gen.machineCode : Lower MachineCode) := by
  intro ctx s hs
  have hbound : ∀ i ∈ s.gen.instructions, ∀ l ∈ i.instruction.labels,
      (s.gen.binds.getD l none).isSome := by
    intro i hi l hl
    have hlt : l < s.gen.binds.length := hs.code i hi l hl
    have hne : s.gen.binds[l]? ≠ some none := fun h => (hs.pending l).mp h
    rw [List.getElem?_eq_getElem hlt] at hne
    rw [List.getD_eq_getElem _ _ hlt, Option.isSome_iff_ne_none]
    exact fun h => hne (congrArg some h)
  rw [after_lift]
  unfold Gen.After
  rw [GenCall.run_machineCode hs.frames hbound]
  exact ⟨{}, hs, rfl⟩

theorem finish_stays (f : Function) (entries : List Nat) : Stays {} (finish f entries) := by
  refine Stays.bind (current_tidy _) fun s => ?_
  have hcode : Stays {} (do
      let code ← (Gen.machineCode : Lower MachineCode)
      let ctx ← read
      return { f with
        script := some ctx.scriptIndex
        code := code.code
        lines := code.lines
        params := s.params
        locals := s.locals
        entries := entries.map fun l => code.labels.getD l 0
        maxTemps := s.gen.maxTemps
        allocated := s.gen.allocated
        released := s.gen.released }) :=
    Stays.bind machineCode_stays fun _ => read_tidy.bind (fun _ => pure_tidy _) _
  dsimp only
  split
  · exact Stays.bind (contradiction_tidy rfl _) fun _ => hcode
  · exact hcode

/-- A function of its own leaves the site around it as it was. -/
theorem separately_tidy (name : Text) (property : Option Text) (line : Int) {x : Lower Function}
    (hx : Stays {} x) : Tidy (separately name property line x) := by
  intro σ ctx s hs
  have hfresh : Lowering.At { gen := { pool := s.gen.pool, line } } {} := by
    constructor <;> simp
  have h := hx { ctx with function := name, property } _ hfresh
  unfold After at h ⊢
  unfold separately
  split at h
  · rename_i f inner heq
    rw [heq]
    exact ⟨σ, hs.same rfl rfl rfl rfl rfl, rfl⟩
  · rename_i e inner heq
    rw [heq]
    exact h

end Lower

end GameScript
