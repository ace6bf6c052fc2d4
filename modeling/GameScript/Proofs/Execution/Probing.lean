import GameScript.Proofs.Execution.Constants
import GameScript.Proofs.Running.Matches

/-!
# Code of single tests

What the parts of the code of a pattern do: a comparison with a constant, a name, the test of the type and the
length of a container, the test of an element or an entry.
-/

namespace GameScript

variable {cs : List Value} {E : Scene} {S : Setup cs (Value.host E)}

namespace Lower

/-- Code that finds out whether `P` holds of the value `v` at the temporary `i`, and gives the names of `B`
their values. -/
def Determines (S : Setup cs (Value.host E)) (ctx : LowerContext) (i : Nat) (t : StaticType) (v : Value)
    (x : Lower Address) (D : List Pos) (P : Prop) (B : List (Pos × Value)) : Prop :=
  ∀ s, s.Ready → s.Lacks D → i < s.gen.temps.length →
    Ends x ctx s fun a s' => Determined S D (S.Steady · ⟨.temporary, i, t⟩ v) s a s' P B

variable {ctx : LowerContext} {s s₁ s₂ s₃ : Lowering} {D : List Pos} {P : Prop} {B : List (Pos × Value)}
  {d i j : Nat} {t : StaticType} {v u c : Value} {a b : Address} {Pre : Cells Value → Prop}

theorem Determines.congr {x : Lower Address} {P' : Prop} (h : Determines S ctx i t v x D P B) (hP : P ↔ P') :
    Determines S ctx i t v x D P' B := fun s hs hl hi => (h s hs hl hi).post fun _ _ h => h.congr hP

/-! ### Operations on a value -/

/-- The value at a temporary that is live stays there while code computes something above it. -/
theorem steady_below {m m' : Cells Value} (h : S.Steady m ⟨.temporary, i, t⟩ v) (hm : Cells.Agree d m m')
    (hi : i < d) : S.Steady m' ⟨.temporary, i, t⟩ v := h.agree hm ⟨nofun, nofun⟩ fun _ => hi

/-- The operands of a test of the type of a value. -/
theorem operands_typeTest {op : Opcode} (hop : op = .matchType ∨ op = .typeTestBuiltin) {m : Cells Value}
    {w : List Probe} (ha : S.Reads m w a v) (x n : Nat) :
    S.hosted.operands m w .written ⟨op, [x, a.encode, n]⟩ = some [.value v, .number n] := by
  rcases hop with rfl | rfl <;>
    simp [HostMachine.operands, Instruction.operands, Opcode.shape, Instruction.operandsFrom,
      ha.2, HostMachine.operand]

/-- The operands of an operator. -/
theorem operands_operator {m : Cells Value} {w : List Probe} (ha : S.Reads m w a v) (hb : S.Reads m w b u) (x n : Nat) :
    S.hosted.operands m w .written ⟨.operator, [x, n, a.encode, b.encode]⟩ =
      some [.number n, .value v, .value u] := by
  simp [HostMachine.operands, Instruction.operands, Opcode.shape, Instruction.operandsFrom,
    ha.2, hb.2, HostMachine.operand]

theorem operands_getIndexed {m : Cells Value} {w : List Probe} (ha : S.Reads m w a v) (hb : S.Reads m w b u) (x : Nat) :
    S.hosted.operands m w .written ⟨.getIndexed, [x, a.encode, b.encode]⟩ = some [.value v, .value u] := by
  simp [HostMachine.operands, Instruction.operands, Opcode.shape, Instruction.operandsFrom,
    ha.2, hb.2, HostMachine.operand]

/-- The operands of a function of one argument. -/
theorem operands_utility {m : Cells Value} {w : List Probe} {n : Text} {k : Nat} (ha : S.Reads m w a v)
    (hn : S.names[k]? = some n) (x : Nat) :
    S.hosted.operands m w .written ⟨.callLanguageUtility, [x, k, 1, a.encode]⟩ =
      some [.name n, .number 1, .value v] := by
  have hn' : S.hosted.names[k]? = some n := hn
  simp [HostMachine.operands, Instruction.operands, Opcode.shape, Instruction.operandsFrom,
    ha.2, HostMachine.operand, hn']

/-- A test of the type of a value. -/
theorem typeTest_probes {op : Opcode} {n skip : Nat} {k k₂ : Nesting} {b : Bool}
    (hop : op = .matchType ∨ op = .typeTestBuiltin)
    (h₁ : Adds s [⟨op, [Address.encode ⟨.temporary, j, t⟩, a.encode, n]⟩] k s₁)
    (h₂ : Adds s₁ [⟨.jumpIfNot, [Address.encode ⟨.temporary, j, t⟩, skip]⟩] k₂ s₂)
    (hs : s.Ready) (hj : j < s.gen.temps.length) (hn : n < twoTo 32) (hpre : ∀ m, Pre m → S.Steady m a v)
    (hresult : Value.operate E.lookup op [.value v, .number n] = some (.bool b)) (hb : b = true ↔ P) :
    Probed S j Pre s s₂ k₂ skip P := by
  refine test_probes (by rcases hop with rfl | rfl <;> simp) h₁ h₂ hs hj fun hi m w hm hp => ?_
  have hroom := hm.room (hi.of_grows h₁.grows) hs hj
  have ha := hpre m hp
  have hshape : op.shape = [.address, .address, .type] := by rcases hop with rfl | rfl <;> rfl
  exact ⟨Image.readable hshape (by simp [Instruction.operandsFrom, hroom.narrow, ha.narrow, hn]), _, b,
    operands_typeTest hop (ha.reads w) _ n, hresult, hb⟩

/-- A test by an operator. -/
theorem operator_probes {o : Operator} {skip : Nat} {k k₂ : Nesting}
    (h₁ : Adds s [⟨.operator, [Address.encode ⟨.temporary, j, t⟩, o.number, a.encode, b.encode]⟩] k s₁)
    (h₂ : Adds s₁ [⟨.jumpIfNot, [Address.encode ⟨.temporary, j, t⟩, skip]⟩] k₂ s₂)
    (hs : s.Ready) (hj : j < s.gen.temps.length)
    (hpre : S.Covers s₁ → ∀ m, Pre m → ∃ v u r, S.Steady m a v ∧ S.Steady m b u ∧
      Value.binary o v u = .ok (.bool r) ∧ (r = true ↔ P)) :
    Probed S j Pre s s₂ k₂ skip P := by
  refine test_probes (.inr (.inr rfl)) h₁ h₂ hs hj fun hi m w hm hp => ?_
  have hroom := hm.room (hi.of_grows h₁.grows) hs hj
  obtain ⟨v, u, r, ha, hb, hr, hP⟩ := hpre hi m hp
  have ho : o.number < twoTo 32 := by cases o <;> decide
  exact ⟨Image.readable rfl (by simp [Instruction.operandsFrom, Opcode.shape, hroom.narrow, ha.narrow, hb.narrow, ho]),
    _, r, operands_operator (ha.reads w) (hb.reads w) _ _, Value.operate_operator hr, hP⟩

/-- An operation that is no test puts its result into a temporary. -/
theorem operation_prepares {op : Opcode} {args : List Nat} {k : Nesting} {Post : Cells Value → Prop}
    (hop : op.target? = some .written) (hno : op ≠ .matchType ∧ op ≠ .typeTestBuiltin ∧ op ≠ .operator)
    (h₁ : Adds s [⟨op, Address.encode ⟨.temporary, j, t⟩ :: args⟩] k s₁) (hs : s.Ready)
    (hj : j < s.gen.temps.length) (hd : d ≤ j)
    (hact : S.Covers s₁ → ∀ m w, S.Full m → Pre m →
      (⟨op, Address.encode ⟨.temporary, j, t⟩ :: args⟩ : Instruction).Readable ∧ ∃ os r,
        S.hosted.operands m w .written ⟨op, Address.encode ⟨.temporary, j, t⟩ :: args⟩ = some os ∧
        Value.operate E.lookup op os = some r ∧ (Setup.Room m j → Post (m.setTemp j r))) :
    Prepared S d Pre Post s s₁ := by
  refine ⟨h₁.grows, fun hi m w hm hp => ?_⟩
  obtain ⟨hr, os, r, hos, hresult, hpost⟩ := hact hi m w hm hp
  have hroom := hm.room (hi.of_grows h₁.grows) hs hj
  have hdone : (Value.host E).act op os w = some (r, w ++ [⟨op, os, r⟩]) := by
    simp [Value.host, hresult]
  refine ⟨_, _, Setup.reaches_result hop h₁ hi hr hroom hos hdone, m.same_setTemp hd r,
    Pattern.passed_singleton fun ht => ?_, hpost hroom⟩
  rcases ht with ht | ht | ht
  · exact absurd ht hno.1
  · exact absurd ht hno.2.1
  · exact absurd ht hno.2.2

/-! ### Constants and names -/

theorem wildcard_determines : Determines S ctx i t v (Gen.boolean true) [] True [] := by
  intro s hs _ _
  refine (constant_steady (Pool.told_bool cs true) hs S).post fun a s₁ ⟨h₁, hmode, u, hu⟩ => ?_
  have hc := supplied_constant h₁ hmode fun hi => (hu hi).2
  refine ⟨h₁.grows, h₁.ready, hc.holds, hc.nesting, fun hi m w hm hp => ⟨true, m, [], ?_, .refl hm trivial, ?_⟩⟩
  · rw [List.append_nil, Setup.atEnd_of_adds h₁]
    exact .refl _
  · obtain rfl := eq_bool_of_alike (hu hi).1
    exact (hu hi).2 m

theorem bindPattern_determines (id : Ident) : Determines S ctx i t v (bindPattern ⟨.temporary, i, t⟩ id) [id.pos] True
    [(id.pos, v)] := by
  intro s hs hl hlt
  unfold bindPattern Ends
  rw [after_bind, after_note]
  refine Ends.bind (addLocal_ends hs id (hl id.pos (by simp)) _) fun dst s₁ ⟨_, h₁⟩ => ?_
  refine (emit_adds h₁.ready _ _).bind fun _ s₂ h₂ => ?_
  refine (constant_steady (Pool.told_bool cs true) h₂.ready S).post fun a s₃ ⟨h₃, hmode, u, hu⟩ => ?_
  have hc := supplied_constant h₃ hmode fun hi => (hu hi).2
  have hnest : s₂.nesting = s.nesting := h₂.nesting.trans h₁.nesting
  have htemps : s₂.gen.temps = s.gen.temps := congrArg Nesting.temps hnest
  refine ⟨(h₁.grows.then h₂.grows).then h₃.grows, h₃.ready, htemps ▸ hc.holds, ?_, fun hi m w hm hp => ?_⟩
  · rw [hc.nesting, hnest]
  have hi₂ := hi.of_grows h₃.grows
  have hvar := hi₂.includes.vars id.pos dst (h₂.grows.vars _ _ h₁.found)
  obtain ⟨m', hstore, htemps', hfull, hvalue, hframe⟩ := Setup.store_variable hm hvar rfl v w
  have hreach := Setup.reaches_assign h₂ hi₂ (Address.encode_lt (S.few _ _ hvar)) (hp.reads w) hstore
  have hstart : S.atEnd s₁ m w = S.atEnd s m w := by
    unfold Setup.atEnd
    rw [h₁.gen]
  refine ⟨true, m', [], ?_, ⟨⟨by rw [htemps'], fun _ _ => by rw [htemps']⟩, hfull, by simp,
    fun _ => Pattern.passed_nil, nofun, ?_, ?_⟩, ?_⟩
  · rw [List.append_nil, Setup.atEnd_of_adds h₃]
    exact hstart ▸ hreach
  · simpa using hvalue
  · exact fun q hq => hframe q (by simpa using hq)
  · obtain rfl := eq_bool_of_alike (hu hi).1
    exact (hu hi).2 m'

theorem equalPattern_determines {x : Expr} {code : Lower Address} (hx : Supplies S ctx code c)
    (he : x.value? = some c) :
    Determines S ctx i t v (equalPattern ⟨.temporary, i, t⟩ x code) [] (v.Fits c) [] := by
  intro s hs _ hlt
  unfold equalPattern
  refine (addTemporary_adds hs _).bind fun dst s₁ ⟨h₁, hdst⟩ => ?_
  subst hdst
  refine (pushFrame_adds h₁.ready .and).bind fun _ s₂ ⟨skip, done, _, h₂, hskip, hdone⟩ => ?_
  refine (hx s₂ h₂.ready).bind fun a s₃ ⟨u, htwin, hx⟩ => ?_
  refine (addTemporary_adds hx.ready _).bind fun test s₄ ⟨h₄, htest⟩ => ?_
  subst htest
  have hf₄ : s₄.gen.frames = ⟨.and, skip, done⟩ :: s₁.gen.frames :=
    h₄.frames.trans ((congrArg Nesting.frames hx.nesting).trans h₂.frames)
  refine (emit_adds h₄.ready _ _).bind fun _ s₅ h₅ => ?_
  have hf₅ := h₅.frames.trans hf₄
  refine (decide_adds true s₅ _ h₅.ready hf₅).bind fun _ s₆ h₆ => ?_
  refine (emit_adds h₆.ready _ _).bind fun _ s₇ h₇ => ?_
  have hf₇ := h₇.frames.trans (h₆.frames.trans hf₅)
  refine (decide_adds true s₇ _ h₇.ready hf₇).bind fun _ s₈ h₈ => ?_
  have hnest₈ : s₈.nesting = s₃.nesting.withTemps (boolType :: s₃.gen.temps) := by
    rw [h₈.nesting, h₇.nesting, h₆.nesting, h₅.nesting, h₄.nesting]
  have htemps₈ : s₈.gen.temps = boolType :: s₃.gen.temps := congrArg Nesting.temps hnest₈
  have hheld : GameScript.Holds s₃.gen.temps ⟨.temporary, s₃.gen.temps.length, boolType⟩ s₈.gen.temps :=
    htemps₈ ▸ holds_temporary _ _ _
  refine (release_adds h₈.ready hheld).bind fun _ s₉ h₉ => ?_
  rw [hnest₈] at h₉
  refine (release_held hx.holds hx.nesting h₉).bind fun _ s₁₀ h₁₀ => ?_
  have hf₁₀ := h₁₀.frames.trans h₂.frames
  have hg₁₀ := hx.grows.then (h₄.grows.then (h₅.grows.then (h₆.grows.then (h₇.grows.then
    (h₈.grows.then h₁₀.grows)))))
  refine (endLogical_concludes S h₁₀.ready hf₁₀ (hskip.trans_le hg₁₀.labels) (hdone.trans_le hg₁₀.labels)
    s.gen.temps.length boolType true).bind fun _ s₁₁ h₁₁ => ?_
  have hdepth₂ : s₂.gen.temps.length = s.gen.temps.length + 1 := by
    rw [h₂.temps, Nesting.temps_withFrames, Lowering.temps_nesting, h₁.temps]
    rfl
  have hlt₂ : i < s₂.gen.temps.length := by omega
  have hlt₃ := hlt₂.trans_le hx.depth_le
  have hlt₄ : s₃.gen.temps.length < s₄.gen.temps.length := h₄.depth_lt
  -- The value and the constant stay in their places during both tests.
  let Pre (m : Cells Value) : Prop := S.Steady m ⟨.temporary, i, t⟩ v ∧ S.Steady m a u
  have hnumber : c.type.number < twoTo 32 := by cases c.type <;> decide
  have htag : ((x.value?.map Value.type).getD .nil).number = c.type.number := by rw [he]; rfl
  rw [htag] at h₅
  have htype : Probed S s₃.gen.temps.length Pre s₄ s₆ s₅.nesting skip (v.type.mayEqual c.type = true) :=
    typeTest_probes (.inl rfl) h₅ h₆ h₄.ready hlt₄ hnumber (fun m hp => hp.1) (Value.operate_matchType v c.type) .rfl
  have hequal : Probed S s₃.gen.temps.length (fun m => Pre m ∧ v.type.mayEqual c.type = true) s₆ s₈ s₇.nesting
      skip (v.equal c = true) := by
    refine operator_probes h₇ h₈ h₆.ready ?_ fun hi m hp => ⟨v, u, v.equal c, hp.1.1, hp.1.2, ?_, .rfl⟩
    · rw [h₆.temps, Lowering.temps_nesting, h₅.temps]
      exact hlt₄
    · have htwin := htwin (hi.of_grows (h₄.grows.then (h₅.grows.then (h₆.grows.then h₇.grows))))
      rw [← htwin.equal]
      exact Value.binary_equal (htwin.type ▸ hp.2)
  have hboth := htype.then (hequal.checked le_rfl) le_rfl fun m hp hmay => by
    have hm := (m.same_setTemp le_rfl (.bool true) : Cells.Same s₃.gen.temps.length _ _).toAgree
    exact ⟨⟨steady_below hp.1 hm hlt₃, hp.2.agree hm hx.place fun ha => (hx.index ha).2⟩, hmay⟩
  have hprepared : Prepared S (s.gen.temps.length + 1) (S.Steady · ⟨.temporary, i, t⟩ v) Pre s₂ s₄ :=
    (hx.prepared hdepth₂.ge fun m m' hp hm => steady_below hp hm.toAgree hlt₂).trans (prepared_of_adds h₄)
  have hle : s.gen.temps.length + 1 ≤ s₃.gen.temps.length := hdepth₂ ▸ hx.depth_le
  exact determined_of_checked h₁ h₂ (((hboth.mono hle).after hprepared).then h₁₀) rfl h₁₁

/-! ### Containers -/

theorem eq_int_of_alike {v : Value} {n : Int64} (h : v.Alike (.int n)) : v = .int n := by
  have h : v.unify = (Value.int n).unify := h
  cases v <;> simp_all [Value.unify]

/-- The length of a value is tested. -/
theorem lengthTest_checks {fr : Frame} {fs : List Frame} {tj : StaticType} {n k : Nat} (atLeast : Bool)
    (hs : s.Ready) (hj : j < s.gen.temps.length) (hf : s.gen.frames = fr :: fs) (hn : n < 2 ^ 63) (hk : k < 2 ^ 63)
    (hpre : ∀ m, Pre m → S.Steady m a v ∧ GlobalFunction.length v = .ok (.int (Int64.ofNat k))) :
    Ends (lengthTest ⟨.temporary, j, tj⟩ a n atLeast) ctx s fun _ s' =>
      Checked S [] j Pre s s' s.nesting fr.skip (if atLeast then n ≤ k else k = n) [] := by
  unfold lengthTest
  refine (addTemporary_adds hs _).bind fun size s₁ ⟨h₁, hsize⟩ => ?_
  subst hsize
  refine (name_adds h₁.ready _).bind fun len s₂ ⟨h₂, hlen⟩ => ?_
  refine (emit_adds h₂.ready _ _).bind fun _ s₃ h₃ => ?_
  refine (constant_steady (Pool.told_int cs hn) h₃.ready S).bind fun length s₄ ⟨h₄, _, u, hu⟩ => ?_
  refine (emit_adds h₄.ready _ _).bind fun _ s₅ h₅ => ?_
  have hnest₅ : s₅.nesting = s.nesting.withTemps (.ofBuiltin .int :: s.gen.temps) := by
    rw [h₅.nesting, h₄.nesting, h₃.nesting, h₂.nesting, h₁.nesting]
  have htemps₅ : s₅.gen.temps = .ofBuiltin .int :: s.gen.temps := congrArg Nesting.temps hnest₅
  have hheld : GameScript.Holds s.gen.temps ⟨.temporary, s.gen.temps.length, .ofBuiltin .int⟩ s₅.gen.temps :=
    htemps₅ ▸ holds_temporary _ _ _
  refine (release_adds h₅.ready hheld).bind fun _ s₆ h₆ => ?_
  have hnest₆ : s₆.nesting = s.nesting := by
    rw [h₆.nesting, hnest₅]
    rfl
  have hf₆ : s₆.gen.frames = fr :: fs := (congrArg Nesting.frames hnest₆).trans hf
  refine (decide_adds true s₆ _ h₆.ready hf₆).post fun _ s₇ h₇ => ?_
  have hnest₇ : s₇.nesting = s.nesting := h₇.nesting.trans hnest₆
  have hlt₂ : s.gen.temps.length < s₂.gen.temps.length := by
    rw [h₂.temps, Lowering.temps_nesting]
    exact h₁.depth_lt
  have hlt₄ : s.gen.temps.length < s₄.gen.temps.length := by
    rw [h₄.temps, Lowering.temps_nesting, h₃.temps, Lowering.temps_nesting]
    exact hlt₂
  have hmeasured : Prepared S j Pre (S.Steady · ⟨.temporary, s.gen.temps.length, .ofBuiltin .int⟩
      (.int (Int64.ofNat k))) s₂ s₃ := by
    refine operation_prepares rfl (by simp) h₃ h₂.ready hlt₂ hj.le fun hi m w hm hp => ?_
    obtain ⟨ha, hlength⟩ := hpre m hp
    have hroom := hm.room (hi.of_grows h₃.grows) h₂.ready hlt₂
    have hname := (hi.of_grows h₃.grows).name hlen
    refine ⟨Instruction.readable_list [_, _] [a] rfl rfl ?_ (show 1 < 2 ^ 32 by decide) (by simpa using ha.narrow),
      _, _, operands_utility (ha.reads w) hname _, Value.operate_len hlength, fun hr => Setup.steady_setTemp hr _⟩
    simpa using ⟨hroom.narrow _, Setup.name_lt hname⟩
  have hprepared := ((prepared_of_adds h₁ : Prepared S j Pre Pre s s₁).trans (prepared_of_adds h₂)).trans
    (hmeasured.trans (prepared_of_adds h₄))
  have hj₄ : j < s₄.gen.temps.length := hj.trans hlt₄
  rw [hnest₆] at h₇
  refine Checked.after (Probed.checked ?_ le_rfl) hprepared
  refine operator_probes (h₅.trans h₆) h₇ h₄.ready hj₄ fun hi m hp => ?_
  obtain ⟨hu, hsteady⟩ := hu (hi.of_grows (h₅.grows.then h₆.grows))
  obtain rfl := eq_int_of_alike hu
  exact ⟨_, _, _, hp, hsteady m, Value.binary_length atLeast hk hn, by cases atLeast <;> simp⟩

/-- The tests of the contents of a value, by means of the temporary `j`. -/
def TestsParts (S : Setup cs (Value.host E)) (ctx : LowerContext) (i : Nat) (t : StaticType) (v : Value) (Shape : Prop)
    (x : Address → Lower Unit) (D : List Pos) (P : Prop) (B : List (Pos × Value)) : Prop :=
  ∀ s j fr fs, s.Ready → s.Lacks D → i < j → j < s.gen.temps.length → s.gen.frames = fr :: fs →
    Ends (x ⟨.temporary, j, boolType⟩) ctx s fun _ s' =>
      Checked S D j (fun m => S.Steady m ⟨.temporary, i, t⟩ v ∧ Shape) s s' s.nesting fr.skip P B

section Sequences

variable {x y : Address → Lower Unit} {D₁ D₂ : List Pos} {P₁ P₂ Shape Shape₁ Shape₂ : Prop} {B₁ B₂ : List (Pos × Value)}

theorem TestsParts.weaken (h : TestsParts S ctx i t v Shape₁ x D P₁ B) (hshape : Shape₂ → Shape₁)
    (hP : Shape₂ → (P₁ ↔ P₂)) : TestsParts S ctx i t v Shape₂ x D P₂ B := fun s j fr fs hs hl hij hj hf =>
  (h s j fr fs hs hl hij hj hf).post fun _ _ h => (h.weaken fun _ hp => ⟨hp.1, hshape hp.2⟩).congr
    (fun _ hp => hP hp.2) (fun _ _ he => he) fun _ hq => hq

/-- Nothing is tested. -/
theorem tests_nothing (hP : Shape → P) : TestsParts S ctx i t v Shape (fun _ => pure ()) [] P [] :=
  fun _ _ _ _ hs _ _ _ _ => checked_nothing hs fun _ hp => hP hp.2

/-- Tests of the contents one after another. -/
theorem TestsParts.trans (h₁ : TestsParts S ctx i t v Shape x D₁ P₁ B₁) (h₂ : TestsParts S ctx i t v Shape y D₂ P₂ B₂)
    (hB : ∀ e ∈ B₁, e.1 ∈ D₁) (hD : ∀ p ∈ D₁, p ∉ D₂) :
    TestsParts S ctx i t v Shape (fun a => x a >>= fun _ => y a) (D₁ ++ D₂) (P₁ ∧ P₂) (B₁ ++ B₂) := by
  intro s j fr fs hs hl hij hj hf
  refine (h₁ s j fr fs hs (fun p hp => hl p (List.mem_append_left _ hp)) hij hj hf).bind fun _ s₁ h₁ => ?_
  have hl₁ : s₁.Lacks D₂ := h₁.grows.lacks (fun p hp => hl p (List.mem_append_right _ hp)) fun p hp hp' => hD p hp' hp
  refine (h₂ s₁ j fr fs h₁.ready hl₁ hij (h₁.temps ▸ hj) (h₁.frames.trans hf)).post fun _ s₂ h₂ => ?_
  rw [h₁.nesting] at h₂
  exact h₁.trans h₂ (fun m m' hp hm _ => ⟨steady_below hp.1 hm hij, hp.2⟩) hB hD

end Sequences

theorem containerPattern_determines {ty : BuiltinType} {n k : Nat} {atLeast : Bool} {contents : Address → Lower Unit}
    (hn : n < 2 ^ 63) (hk : k < 2 ^ 63) (hlength : v.type = ty → GlobalFunction.length v = .ok (.int (Int64.ofNat k)))
    (hcontents : TestsParts S ctx i t v (v.type = ty ∧ if atLeast then n ≤ k else k = n) contents D P B) :
    Determines S ctx i t v (containerPattern ⟨.temporary, i, t⟩ ty n atLeast contents) D
      (v.type = ty ∧ (if atLeast then n ≤ k else k = n) ∧ P) B := by
  intro s hs hl hlt
  unfold containerPattern
  refine (addTemporary_adds hs _).bind fun dst s₁ ⟨h₁, hdst⟩ => ?_
  subst hdst
  refine (pushFrame_adds h₁.ready .and).bind fun _ s₂ ⟨skip, done, _, h₂, hskip, hdone⟩ => ?_
  refine (addTemporary_adds h₂.ready _).bind fun test s₃ ⟨h₃, htest⟩ => ?_
  subst htest
  refine (emit_adds h₃.ready _ _).bind fun _ s₄ h₄ => ?_
  have hf₄ : s₄.gen.frames = ⟨.and, skip, done⟩ :: s₁.gen.frames := h₄.frames.trans (h₃.frames.trans h₂.frames)
  refine (decide_adds true s₄ _ h₄.ready hf₄).bind fun _ s₅ h₅ => ?_
  have hf₅ := h₅.frames.trans hf₄
  have hdepth₂ : s₂.gen.temps.length = s.gen.temps.length + 1 := by
    rw [h₂.temps, Nesting.temps_withFrames, Lowering.temps_nesting, h₁.temps]
    rfl
  have hlt₃ : s₂.gen.temps.length < s₃.gen.temps.length := h₃.depth_lt
  have htemps₅ : s₅.gen.temps = s₃.gen.temps := h₅.temps.trans h₄.temps
  have hlt₅ : s₂.gen.temps.length < s₅.gen.temps.length := htemps₅ ▸ hlt₃
  have hnest₅ : s₅.nesting = s₃.nesting := h₅.nesting.trans h₄.nesting
  refine (lengthTest_checks atLeast h₅.ready hlt₅ hf₅ hn hk fun m
    (hp : S.Steady m ⟨.temporary, i, t⟩ v ∧ v.type = ty) => ⟨hp.1, hlength hp.2⟩).bind fun _ s₆ hlen => ?_
  have hlt₆ : s₂.gen.temps.length < s₆.gen.temps.length := hlen.temps ▸ hlt₅
  have hf₆ := hlen.frames.trans hf₅
  have hg₆ := h₁.grows.then (h₂.grows.then (h₃.grows.then (h₄.grows.then (h₅.grows.then hlen.grows))))
  refine (hcontents s₆ _ _ _ hlen.ready (hg₆.lacks hl (by simp)) (by omega) hlt₆ hf₆).bind fun _ s₇ hrest => ?_
  have hnest₇ : s₇.nesting = s₂.nesting.withTemps (boolType :: s₂.gen.temps) := by
    rw [hrest.nesting, hlen.nesting, hnest₅, h₃.nesting]
  have htemps₇ : s₇.gen.temps = boolType :: s₂.gen.temps := congrArg Nesting.temps hnest₇
  have hheld : GameScript.Holds s₂.gen.temps ⟨.temporary, s₂.gen.temps.length, boolType⟩ s₇.gen.temps :=
    htemps₇ ▸ holds_temporary _ _ _
  refine (release_adds hrest.ready hheld).bind fun _ s₈ h₈ => ?_
  rw [hnest₇, Nesting.withTemps_withTemps] at h₈
  have hf₈ : s₈.gen.frames = ⟨.and, skip, done⟩ :: s₁.gen.frames := h₈.frames.trans h₂.frames
  have hg₈ : Grows D s₂ s₈ :=
    (hrest.grows.after (h₃.grows.then (h₄.grows.then (h₅.grows.then hlen.grows)))).then h₈.grows
  refine (endLogical_concludes S h₈.ready hf₈ (hskip.trans_le hg₈.labels) (hdone.trans_le hg₈.labels)
    s.gen.temps.length boolType true).bind fun _ s₉ h₉ => ?_
  have hlt₂ : i < s₂.gen.temps.length := by omega
  have hnumber : ty.number < twoTo 32 := by cases ty <;> decide
  let Pre (m : Cells Value) : Prop := S.Steady m ⟨.temporary, i, t⟩ v
  have htype : Probed S s₂.gen.temps.length Pre s₃ s₅ s₄.nesting skip (v.type = ty) :=
    typeTest_probes (.inr rfl) h₄ h₅ h₃.ready hlt₃ hnumber (fun m hp => hp) (Value.operate_typeTest v ty) (by simp)
  have hall := htype.then (hlen.trans hrest
    (fun m m' hp hm hn => ⟨steady_below hp.1 hm hlt₂, hp.2, hn⟩) nofun nofun) le_rfl
    fun m hp hty => ⟨steady_below hp (m.same_setTemp le_rfl _).toAgree hlt₂, hty⟩
  exact determined_of_checked h₁ h₂ (((hall.mono hdepth₂.ge).after (prepared_of_adds h₃)).then h₈) rfl h₉

/-- A part of a value is read and tested. -/
theorem elementPattern_checks {key : Gen Address} {code : Address → Lower Address} {fr : Frame} {fs : List Frame}
    (hs : s.Ready) (hl : s.Lacks D) (hd : d ≤ s.gen.temps.length) (hf : s.gen.frames = fr :: fs)
    (hkey : ∀ s₁, s₁.Ready → Grows [] s s₁ → Ends key ctx s₁ fun b s' => Adds s₁ [] s₁.nesting s' ∧
      (S.Covers s' → ∀ m, Pre m → S.Steady m a v ∧ ∃ k, S.Steady m b k ∧ v.getIndexed k = .ok u))
    (hcode : ∀ j t, Determines S ctx j t u (code ⟨.temporary, j, t⟩) D P B) :
    Ends (elementPattern a key code) ctx s fun _ s' => Checked S D d Pre s s' s.nesting fr.skip P B := by
  unfold elementPattern
  refine (addTemporary_adds hs _).bind fun part s₁ ⟨h₁, hpart⟩ => ?_
  subst hpart
  refine (hkey s₁ h₁.ready h₁.grows).bind fun b s₂ ⟨h₂, hb⟩ => ?_
  have hlt₂ : s.gen.temps.length < s₂.gen.temps.length := by
    rw [h₂.temps, Lowering.temps_nesting]
    exact h₁.depth_lt
  refine (emit_adds h₂.ready _ _).bind fun _ s₃ h₃ => ?_
  have hlt₃ : s.gen.temps.length < s₃.gen.temps.length := by
    rw [h₃.temps, Lowering.temps_nesting]
    exact hlt₂
  have hg₃ := h₁.grows.then (h₂.grows.then h₃.grows)
  refine (hcode _ _ s₃ h₃.ready (hg₃.lacks hl (by simp)) hlt₃).bind fun r s₄ h₄ => ?_
  have hnest₃ : s₃.nesting = s.nesting.withTemps (.variant :: s.gen.temps) := by
    rw [h₃.nesting, h₂.nesting, h₁.nesting]
  have hf₄ : s₄.gen.frames = fr :: fs :=
    (congrArg Nesting.frames h₄.nesting).trans ((congrArg Nesting.frames hnest₃).trans hf)
  refine (decide_adds true s₄ _ h₄.ready hf₄).bind fun _ s₅ h₅ => ?_
  refine (release_held h₄.holds h₄.nesting h₅).bind fun _ s₆ h₆ => ?_
  have hnest₆ : s₆.nesting = s.nesting.withTemps (.variant :: s.gen.temps) := h₆.nesting.trans hnest₃
  have htemps₆ : s₆.gen.temps = .variant :: s.gen.temps := congrArg Nesting.temps hnest₆
  have hheld : GameScript.Holds s.gen.temps ⟨.temporary, s.gen.temps.length, .variant⟩ s₆.gen.temps :=
    htemps₆ ▸ holds_temporary _ _ _
  refine (release_adds h₆.ready hheld).post fun _ s₇ h₇ => ?_
  have hnest₇ : s₆.nesting.withTemps s.gen.temps = s.nesting := by
    rw [hnest₆]
    rfl
  rw [hnest₇] at h₇
  have hread : Prepared S d Pre (S.Steady · ⟨.temporary, s.gen.temps.length, .variant⟩ u) s₂ s₃ := by
    refine operation_prepares rfl (by simp) h₃ h₂.ready hlt₂ hd fun hi m w hm hp => ?_
    have hi₂ := hi.of_grows h₃.grows
    have hroom := hm.room hi₂ h₂.ready hlt₂
    obtain ⟨ha, k, hb, hget⟩ := hb hi₂ m hp
    refine ⟨Image.readable rfl (by simp [Instruction.operandsFrom, Opcode.shape, hroom.narrow, ha.narrow, hb.narrow]), _, u,
      operands_getIndexed (ha.reads w) (hb.reads w) _, ?_, fun hr => Setup.steady_setTemp hr _⟩
    exact congrArg Except.toOption hget
  have hprepared := ((prepared_of_adds h₁ : Prepared S d Pre Pre s s₁).trans (prepared_of_adds h₂)).trans hread
  exact ((Checked.of_determined h₄ h₆ (hd.trans hlt₃.le)).then h₇).after hprepared

/-- An element of an array is tested. -/
theorem elementPattern_tests {n : Nat} (code : Address → Lower Address) (hn : n < 2 ^ 63)
    (hcode : ∀ j t, Determines S ctx j t ((v.elements.drop n).headD .nil) (code ⟨.temporary, j, t⟩) D P B) :
    TestsParts S ctx i t v (v.type = .array ∧ n < v.elements.length)
      (fun _ => elementPattern ⟨.temporary, i, t⟩ (Gen.constant (.int (Int64.ofNat n))) code) D P B := by
  intro s j fr fs hs hl hij hj hf
  refine elementPattern_checks (v := v) hs hl hj.le hf (fun s₁ hs₁ _ => ?_) hcode
  refine (constant_steady (Pool.told_int cs hn) hs₁ S).post fun b s₂ ⟨h₂, _, u, hu⟩ => ⟨h₂, fun hi m hp => ?_⟩
  obtain ⟨halike, hsteady⟩ := hu hi
  obtain rfl := eq_int_of_alike halike
  obtain ⟨hv, harray, hlt⟩ := hp
  refine ⟨hv, _, hsteady m, ?_⟩
  obtain ⟨element, name, vs, frozen, rfl⟩ := Value.array_of_type harray
  refine Value.elementAt_ofNat hn ?_
  simp only [Value.elements] at hlt ⊢
  rw [List.headD_eq_head?_getD, List.head?_drop, List.getElem?_eq_getElem hlt]
  rfl

/-- A key is looked for in a dictionary, and its value is tested if there is a pattern for it. -/
theorem entryPattern_checks (es : List Entry) {key : Lower Address} (code : Option (Address → Lower Address))
    (hkey : Supplies S ctx key c)
    (hcode : match code with
      | some code => ∀ j t, Determines S ctx j t ((Value.lookup? c es).getD .nil) (code ⟨.temporary, j, t⟩) D P B
      | none => D = [] ∧ P ∧ B = []) :
    TestsParts S ctx i t v (∃ frozen, v = .dictionary es frozen)
      (fun test => entryPattern test ⟨.temporary, i, t⟩ key code) D ((Value.lookup? c es).isSome = true ∧ P) B := by
  intro s j fr fs hs hl hij hj hf
  unfold entryPattern
  refine (hkey s hs).bind fun a s₁ ⟨k, htwin, h₁⟩ => ?_
  refine (emit_adds h₁.ready _ _).bind fun _ s₂ h₂ => ?_
  have hf₂ : s₂.gen.frames = fr :: fs := h₂.frames.trans ((congrArg Nesting.frames h₁.nesting).trans hf)
  refine (decide_adds true s₂ _ h₂.ready hf₂).bind fun _ s₃ h₃ => ?_
  have hf₃ : s₃.gen.frames = fr :: fs := h₃.frames.trans hf₂
  have hnest₃ : s₃.nesting = s₁.nesting := h₃.nesting.trans h₂.nesting
  have hdepth₃ : s₃.gen.temps.length = s₁.gen.temps.length := congrArg (List.length ∘ Nesting.temps) hnest₃
  have hj₁ : j < s₁.gen.temps.length := hj.trans_le h₁.depth_le
  have hg₃ := h₁.grows.then (h₂.grows.then h₃.grows)
  have hi₁ : i < s₁.gen.temps.length := hij.trans hj₁
  -- What the key was computed to stays where it is, also while the result of the test is stored.
  let Pre (m : Cells Value) : Prop :=
    (S.Steady m ⟨.temporary, i, t⟩ v ∧ ∃ frozen, v = .dictionary es frozen) ∧ S.Steady m a k
  have hwithin : Probed S j Pre s₁ s₃ s₂.nesting fr.skip ((Value.lookup? c es).isSome = true) := by
    refine operator_probes h₂ h₃ h₁.ready hj₁ fun hi m hp => ?_
    obtain ⟨⟨hv, frozen, rfl⟩, hk⟩ := hp
    have hhash := (htwin (hi.of_grows h₂.grows)).hash
    refine ⟨k, _, _, hk, hv, Value.binary_within k es frozen, ?_⟩
    unfold Value.lookup?
    rw [hhash]
  have hpart : Ends (code.forM (elementPattern ⟨.temporary, i, t⟩ (pure a))) ctx s₃ fun _ s' =>
      Checked S D j (fun m => Pre m ∧ (Value.lookup? c es).isSome = true) s₃ s' s₃.nesting fr.skip P B := by
    cases code with
    | none =>
      obtain ⟨rfl, hP, rfl⟩ := hcode
      exact checked_nothing h₃.ready fun _ _ => hP
    | some code =>
      refine elementPattern_checks (v := v) h₃.ready (hg₃.lacks hl (by simp)) (by omega) hf₃ (fun s' hs' hg =>
        ⟨.refl hs', fun hi m ⟨⟨⟨hv, frozen, hshape⟩, hk⟩, hsome⟩ => ⟨hv, k, hk, ?_⟩⟩) hcode
      have hhash := (htwin (hi.of_grows (h₂.grows.then (h₃.grows.then hg)))).hash
      have hlookup : Value.lookup? k es = Value.lookup? c es := by
        unfold Value.lookup?
        rw [hhash]
      obtain ⟨u, hu⟩ := Option.isSome_iff_exists.mp hsome
      simp [hshape, Value.getIndexed, hlookup, hu]
  refine hpart.bind fun _ s₄ h₄ => ?_
  have h₄₄ : Adds s₄ [] s₁.nesting s₄ := by
    rw [← hnest₃, ← h₄.nesting]
    exact .refl h₄.ready
  refine (release_held h₁.holds h₁.nesting h₄₄).post fun _ s₅ h₅ => ?_
  have hboth := hwithin.then h₄ le_rfl fun m hp hsome => by
    refine ⟨⟨⟨steady_below hp.1.1 (m.same_setTemp le_rfl _).toAgree hij, hp.1.2⟩, hp.2.setTemp (fun ha => ?_) _⟩,
      hsome⟩
    have := (h₁.index ha).1
    omega
  refine (hboth.after (h₁.prepared hj.le fun m m' hp hm => ⟨steady_below hp.1 hm.toAgree ?_, hp.2⟩)).then h₅
  omega

end Lower

end GameScript
