import GameScript.Proofs.Execution.Keys
import GameScript.Proofs.Execution.Matching
import GameScript.Proofs.Inheritance.Files

/-!
# Code of assignments to parts

The code of an assignment such as `a.b[i].c = v` does what the assignment means: it reads the values on the way to
its target once, in the order of the source, gives the last one the new part, and stores each value back that is a
copy, at the end the first one to where it comes from.

* `Setup.TrailAt` — the values on the way are where the code has them;
* `Lower.route_follows` — the code that reads them;
* `Lower.storedValue_obtains` — the code of the new value;
* `Lower.trail_stores` — the code that stores it, and the values on the way back;
* `Lower.assign_assigns` — **the code of an assignment does what it means**;
* `Compiler.assigned_part_lost` — what becomes of an assignment to a variable with a getter alone.
-/

namespace GameScript

variable {cs : List Value} {V W : Type} {H : Host V W}

/-- The name that an expression is. -/
def Expr.identifier? : Expr → Option Ident
  | .ident id => some id
  | _ => none

/-- Whether an expression is an attribute or an element of a value. -/
def Expr.isPart : Expr → Bool
  | .dot .. | .index .. => true
  | _ => false

/-! ### Places -/

namespace Setup

/-- The values on the way to a target are where the code has them: the first one and the others in temporaries from
`e` on and below `d`. -/
def TrailAt (S : Setup cs H) (m : Cells V) (e d : Nat) (r : Route) (c : Trail V W) : Prop :=
  ∃ b, S.Staged m e b r.base c.toStage ∧ S.PartsAt m b d r.parts c.parts

variable {S : Setup cs H} {m m' : Cells V} {e d d' : Nat} {r : Route} {c : Trail V W} {u : V}

theorem TrailAt.le (h : S.TrailAt m e d r c) : e ≤ d := by
  obtain ⟨b, hstaged, hparts⟩ := h
  exact hstaged.le.trans hparts.le

theorem TrailAt.full (h : S.TrailAt m e d r c) : S.Full m := by
  obtain ⟨b, hstaged, -⟩ := h
  exact hstaged.full

theorem TrailAt.mono (h : S.TrailAt m e d r c) (hd : d ≤ d') : S.TrailAt m e d' r c := by
  obtain ⟨b, hstaged, hparts⟩ := h
  exact ⟨b, hstaged, hparts.mono hd⟩

theorem TrailAt.same (h : S.TrailAt m e d r c) (hm : Cells.Same d m m') (w : W) :
    S.TrailAt m' e d r { c with world := w } := by
  obtain ⟨b, hstaged, hparts⟩ := h
  exact ⟨b, hstaged.same (hm.mono hparts.le) w, hparts.same hm⟩

theorem TrailAt.reads (h : S.TrailAt m e d r c) (hu : c.last H = some u) :
    S.Reads m c.world (Lower.lastValue r.base r.parts) u := by
  obtain ⟨b, hstaged, hparts⟩ := h
  exact hparts.reads hstaged hu

end Setup

/-! ### Code that follows a route -/

/-- The code between `s` and `s'` reads the values that `F` tells, from the name `n` on if there is one. -/
structure Followed (S : Setup cs H) (F : Vars V → W → Option (Trail V W)) (n : Option Ident) (s : Lowering) (r : Route)
    (s' : Lowering) : Prop extends Stacks s s' where
  named : r.root = n
  holds : ∃ mid, Holds s.gen.temps r.base mid ∧ PartsHold mid r.parts s'.gen.temps
  runs : S.Covers s' → ∀ m w c, S.Full m → F (S.value m) w = some c → ∃ m',
    S.hosted.Reaches (S.atEnd s m w) (S.atEnd s' m' c.world) ∧ Cells.Same s.gen.temps.length m m' ∧
      S.TrailAt m' s.gen.temps.length s'.gen.temps.length r c

/-- The values on the way and then a key. -/
def withKey (F : Vars V → W → Option (Trail V W)) (K : Vars V → W → Option (Key V × W)) (ρ : Vars V) (w : W) :
    Option (Trail V W × Key V) := do
  let c ← F ρ w
  let (k, w) ← K ρ c.world
  return ({ c with world := w }, k)

/-- The code between `s` and `s'` reads the values and the key that `F` tells. -/
structure Targeted (S : Setup cs H) (F : Vars V → W → Option (Trail V W × Key V)) (n : Option Ident) (s : Lowering)
    (r : Route) (key : PartKey) (s' : Lowering) : Prop extends Stacks s s' where
  named : r.root = n
  holds : ∃ mid mid', Holds s.gen.temps r.base mid ∧ PartsHold mid r.parts mid' ∧ key.Holds mid' s'.gen.temps
  runs : S.Covers s' → ∀ m w c k, S.Full m → F (S.value m) w = some (c, k) → ∃ m',
    S.hosted.Reaches (S.atEnd s m w) (S.atEnd s' m' c.world) ∧ Cells.Same s.gen.temps.length m m' ∧
      S.TrailAt m' s.gen.temps.length s'.gen.temps.length r c ∧ S.KeyAt m' s'.gen.temps.length key k

section Follow

variable {S : Setup cs H} {F : Vars V → W → Option (Trail V W)} {K : Vars V → W → Option (Key V × W)}
  {G : Vars V → W → Option (Trail V W × Key V)} {n : Option Ident} {s s₁ s₂ : Lowering} {r : Route} {key : PartKey}
  {o : Origin} {a : Address}

theorem Followed.congr {F' : Vars V → W → Option (Trail V W)} (h : Followed S F n s r s₁) (hF : ∀ ρ w, F' ρ w = F ρ w) :
    Followed S F' n s r s₁ :=
  { h with runs := fun hi m w c hm hc => h.runs hi m w c hm (hF _ _ ▸ hc) }

theorem Targeted.congr {G' : Vars V → W → Option (Trail V W × Key V)} (h : Targeted S G n s r key s₁)
    (hG : ∀ ρ w, G' ρ w = G ρ w) : Targeted S G' n s r key s₁ :=
  { h with runs := fun hi m w c k hm hc => h.runs hi m w c k hm (hG _ _ ▸ hc) }

/-- A first value with nothing behind it. -/
theorem Rooted.followed (h : Rooted S o s a s₁) (n : Option Ident) :
    Followed S (fun ρ w => (o.enter H ρ w).map fun c => { toStage := c }) n s ⟨n, a, []⟩ s₁ := by
  refine ⟨h.toStacks, rfl, ⟨_, h.holds, .nil⟩, fun hi m w c hm hc => ?_⟩
  obtain ⟨c₀, hc₀, rfl⟩ := Option.map_eq_some_iff.mp hc
  obtain ⟨m', hreach, hsame, hstaged⟩ := h.runs hi m w c₀ hm hc₀
  exact ⟨m', hreach, hsame, _, hstaged, .nil le_rfl⟩

/-- A key is computed behind the values on the way. -/
theorem Followed.targeted (h : Followed S F n s r s₁) (hK : KeyObtained S K s₁ key s₂) :
    Targeted S (withKey F K) n s r key s₂ := by
  obtain ⟨mid, hbase, hparts⟩ := h.holds
  refine ⟨h.toStacks.trans hK.toStacks, h.named, ⟨mid, _, hbase, hparts, hK.holds⟩, fun hi m w c k hm hck => ?_⟩
  obtain ⟨c, hc, hck⟩ := Option.bind_eq_some_iff.mp hck
  obtain ⟨⟨k, w₁⟩, hk, hpair⟩ := Option.bind_eq_some_iff.mp hck
  obtain ⟨rfl, rfl⟩ := Prod.mk.inj (Option.some.inj hpair)
  obtain ⟨m₁, hreach₁, hsame₁, htrail⟩ := h.runs (hi.of_grows hK.grows) m w c hm hc
  have hvars : S.value m₁ = S.value m := funext (Setup.value_same hsame₁)
  obtain ⟨m₂, hreach₂, hsame₂, hkey⟩ := hK.runs hi m₁ c.world k w₁ htrail.full (hvars ▸ hk)
  exact ⟨m₂, hreach₁.trans hreach₂, hsame₁.trans (hsame₂.mono htrail.le),
    (htrail.same hsame₂ w₁).mono hK.holds.length_le, hkey⟩

namespace Host

variable {eval : Meaning V W} {ctx : LowerContext} {ρ : Vars V} {w : W} {x y : Expr}

/-- The meaning of a name as a key. -/
def nameKey (n : Text) : Vars V → W → Option (Key V × W) := fun _ w => some (.named n, w)

theorem target_dot (id : Ident) (i : Info) : H.target eval ctx ρ (.dot x id i) w =
    withKey (fun ρ w => H.follow eval ctx ρ x w) (nameKey id.name) ρ w := by
  show ((H.follow eval ctx ρ x w).bind fun c => some (c, Key.named id.name)) = (H.follow eval ctx ρ x w).bind _
  cases H.follow eval ctx ρ x w <;> rfl

theorem target_index (close : Pos) (i : Info) : H.target eval ctx ρ (.index x y close i) w =
    withKey (fun ρ w => H.follow eval ctx ρ x w) (fun ρ w => eval.key ctx ρ y w) ρ w := rfl

/-- The values on the way to an attribute. -/
theorem follow_dot (id : Ident) (i : Info) : H.follow eval ctx ρ (.dot x id i) w =
    (H.target eval ctx ρ (.dot x id i) w).bind fun c => c.1.load H c.2 i.type := by
  show ((H.follow eval ctx ρ x w).bind fun c => c.load H (.named id.name) i.type) =
    ((H.follow eval ctx ρ x w).bind fun c => some (c, Key.named id.name)).bind _
  cases H.follow eval ctx ρ x w <;> rfl

/-- The values on the way to an element. -/
theorem follow_index (close : Pos) (i : Info) : H.follow eval ctx ρ (.index x y close i) w =
    (H.target eval ctx ρ (.index x y close i) w).bind fun c => c.1.load H c.2 i.type := by
  show ((H.follow eval ctx ρ x w).bind fun c => (eval.key ctx ρ y c.world).bind fun k =>
      Trail.load H { c with world := k.2 } k.1 i.type) =
    ((H.follow eval ctx ρ x w).bind fun c => (eval.key ctx ρ y c.world).bind fun k =>
      some ({ c with world := k.2 }, k.1)).bind _
  cases H.follow eval ctx ρ x w with
  | none => rfl
  | some c =>
    rw [Option.bind_some, Option.bind_some]
    cases eval.key ctx ρ y c.world <;> rfl

end Host

namespace Lower

variable {ctx : LowerContext} {eval : Meaning V W} {x : Expr} {t : StaticType}

/-- One more value is read behind the others. -/
theorem loadPart_follows (h : Targeted S G n s r key s₁) (t : StaticType) :
    Ends (loadPart r key t) ctx s₁ fun r' s' =>
      Followed S (fun ρ w => (G ρ w).bind fun c => c.1.load H c.2 t) n s r' s' := by
  unfold loadPart
  refine (addTemporary_adds h.ready t).bind fun value s₂ ⟨h₂, hvalue⟩ => ?_
  subst hvalue
  refine (getPart_loads (S := S) h₂.ready).bind fun _ s₃ h₃ => ?_
  have htemps : s₃.gen.temps = t :: s₁.gen.temps := h₃.toLevel.temps.trans h₂.temps
  obtain ⟨mid, mid', hbase, hparts, hkey⟩ := h.holds
  refine ⟨h.toStacks.trans (h₂.stacks.trans h₃.toLevel.stacks), h.named,
    ⟨mid, hbase, .cons hparts hkey (htemps ▸ holds_temporary _ _ _)⟩, fun hi m w c hm hc => ?_⟩
  obtain ⟨⟨c, k⟩, hck, hload⟩ := Option.bind_eq_some_iff.mp hc
  obtain ⟨u, hu, hload⟩ := Option.bind_eq_some_iff.mp hload
  obtain ⟨⟨v, w'⟩, hget, hpair⟩ := Option.bind_eq_some_iff.mp hload
  obtain rfl := Option.some.inj hpair
  obtain ⟨m₁, hreach, hsame, htrail, hk⟩ := h.runs (hi.of_grows (h₂.grows.then h₃.grows)) m w c k hm hck
  have hroom := htrail.full.room hi h₃.ready (i := s₁.gen.temps.length) (by simp [htemps])
  have hload := h₃.runs hi m₁ c.world w' _ k u v hroom hk (htrail.reads hu) hget
  rw [Setup.atEnd_of_adds h₂] at hload
  have hset := Cells.same_setTemp m₁ (le_refl s₁.gen.temps.length) v
  obtain ⟨b, hstaged, hps⟩ := htrail
  refine ⟨_, hreach.trans hload, hsame.trans (hset.mono (hstaged.le.trans hps.le)), b,
    hstaged.same (hset.mono hps.le) w', ?_⟩
  exact .cons (by simp [htemps]) (hk.same hset) (Setup.steady_setTemp hroom v) (hps.same hset)

/-- The code of the first value of a route. -/
theorem root_follows (hc : FewSlots ctx) (ho : x.origin? ctx = some o) (hs : s.Ready) :
    Ends (route (expr x) x) ctx s fun r s' => Followed S (fun ρ w => H.follow eval ctx ρ x w) x.identifier? s r s' := by
  cases x with
  | ident id =>
    rw [route]
    refine (expr_roots (S := S) hc ho hs).bind fun a s₁ h => ?_
    refine (h.followed (some id)).congr fun ρ w => ?_
    simp only [Host.follow, ho, Option.bind_eq_bind, Option.bind_some]
    cases o.enter H ρ w <;> rfl
  | self p i =>
    rw [route]
    refine (expr_roots (S := S) hc ho hs).bind fun a s₁ h => ?_
    refine (h.followed none).congr fun ρ w => ?_
    simp only [Host.follow, ho, Option.bind_eq_bind, Option.bind_some]
    · cases o.enter H ρ w <;> rfl
    all_goals simp
  | _ =>
    unfold Expr.origin? at ho
    split at ho <;> cases ho

/-- **The code of a route** reads the values on the way. -/
theorem route_follows (hc : FewSlots ctx) (ho : x.root.origin? ctx = some o)
    (hkeys : ∀ y ∈ x.keys, y.slot? ctx = none → Means S ctx (expr y) (eval y)) (hs : s.Ready) :
    Ends (route (expr x) x) ctx s fun r s' =>
      Followed S (fun ρ w => H.follow eval ctx ρ x w) x.root.identifier? s r s' := by
  induction x using Expr.root.induct generalizing s with
  | case1 x id i ih =>
    rw [route]
    refine (ih ho hkeys hs).bind fun r s₁ hr => ?_
    refine (name_obtains (S := S) hr.ready id.name).bind fun i s₂ hk => ?_
    refine (loadPart_follows (hr.targeted hk) _).post fun r' s' h => h.congr fun ρ w => ?_
    rw [Host.follow_dot, Host.target_dot]
    rfl
  | case2 x y close i ih =>
    rw [route]
    refine (ih ho (fun z hz => hkeys z (List.mem_append_left _ hz)) hs).bind fun r s₁ hr => ?_
    have hy : y ∈ (Expr.index x y close i).keys := List.mem_append_right _ List.mem_cons_self
    refine (key_obtains (S := S) hc (hkeys y hy) hr.ready).bind fun a s₂ hk => ?_
    refine (loadPart_follows (hr.targeted hk) _).post fun r' s' h => h.congr fun ρ w => ?_
    rw [Host.follow_index, Host.target_index]
  | case3 x hdot hindex =>
    have hroot : x.root = x := by
      cases x with
      | dot x id i => exact absurd rfl (hdot x id i)
      | index x y close i => exact absurd rfl (hindex x y close i)
      | _ => rfl
    rw [hroot] at ho ⊢
    exact root_follows hc ho hs

end Lower

end Follow

/-! ### The new value -/

namespace Lower

variable {S : Setup cs H} {ctx : LowerContext} {s s₁ s₂ s₃ : Lowering} {eval : Meaning V W} {rhs : Expr} {e d : Nat}
  {r : Route} {key : PartKey} {base src : Address} {m : Cells V} {w w' : W} {o : Origin} {x : Expr} {k : Nesting}

/-- Code that reads a part of a value into a new temporary. -/
def present (t : StaticType) (base : Address) (key : PartKey) : Lower Address := do
  let dst ← Gen.addTemporary t
  getPart dst base key
  return dst

theorem present_loads {t : StaticType} (hs : s.Ready) : Ends (present t base key) ctx s fun a s' => ∃ s₁,
    Adds s [] (s.nesting.withTemps (t :: s.gen.temps)) s₁ ∧ LoadsPart S s₁ s' s.gen.temps.length base key ∧
      a = ⟨.temporary, s.gen.temps.length, t⟩ := by
  unfold present
  refine (addTemporary_adds hs t).bind fun x s₁ ⟨h₁, hx⟩ => ?_
  subst hx
  exact (getPart_loads (S := S) h₁.ready).bind fun _ s₂ h₂ => ⟨s₁, h₁, h₂, rfl⟩

/-- What the new value of a part is, where the values on the way are in their places. -/
def NewValue (S : Setup cs H) (eval : Meaning V W) (op : Option Operator) (rhs : Expr) (e d : Nat) (r : Route)
    (key : PartKey) (m : Cells V) (w : W) (v : V) (w' : W) : Prop :=
  ∃ c k, c.world = w ∧ S.TrailAt m e d r c ∧ S.KeyAt m d key k ∧
    H.newValue eval (S.value m) op rhs c k = some (v, w')

/-- **The code of the new value** computes it. -/
theorem storedValue_obtains (op : Option Operator) (t : StaticType) (converts : Bool)
    (hrhs : Means S ctx (expr rhs) (eval rhs)) (hs : s.Ready) :
    Ends (storedValue ⟨op, t, expr rhs, converts⟩ (present t (lastValue r.base r.parts) key)) ctx s fun a s' =>
      Obtained S (NewValue S eval op rhs e s.gen.temps.length r key) s a s' := by
  unfold storedValue
  cases op with
  | none =>
    refine (hrhs s hs).post fun a s₁ h => { h with runs := fun hi m w v w' hm hv => ?_ }
    obtain ⟨c, k, rfl, -, -, hv⟩ := hv
    exact h.runs hi m c.world v w' hm hv
  | some op =>
    refine (addTemporary_adds hs t).bind fun dst s₁ ⟨h₁, hdst⟩ => ?_
    subst hdst
    refine (present_loads (S := S) h₁.ready).bind fun x s₃ ⟨s₂, h₂, h₃, hx⟩ => ?_
    subst hx
    refine (hrhs s₃ h₃.ready).bind fun y s₄ h₄ => ?_
    refine (emit_adds h₄.ready _ _).bind fun _ s₅ h₅ => ?_
    have ht₃ : s₃.gen.temps = t :: s₁.gen.temps := h₃.toLevel.temps.trans h₂.temps
    have hy : Holds s₃.gen.temps y s₅.gen.temps := h₅.temps ▸ h₄.holds
    refine (release_adds h₅.ready hy).bind fun _ s₆ h₆ => ?_
    have hx : Holds s₁.gen.temps ⟨.temporary, s₁.gen.temps.length, t⟩ s₆.gen.temps := by
      rw [h₆.temps, ht₃]
      exact holds_temporary _ _ _
    refine (release_adds h₆.ready hx).bind fun _ s₇ h₇ => ?_
    have ht₁ : s₁.gen.temps = t :: s.gen.temps := h₁.temps
    have ht₇ : s₇.gen.temps = t :: s.gen.temps := h₇.temps.trans ht₁
    have hstacks₅ := h₃.toLevel.stacks.trans (h₄.toStacks.trans h₅.level.stacks)
    refine ⟨h₁.stacks.trans (h₂.stacks.trans (hstacks₅.trans (h₆.stacks.trans h₇.stacks))),
      ht₇ ▸ holds_temporary _ _ _, fun hi m w v w' hm hnew => ?_⟩
    obtain ⟨c, k, rfl, htrail, hkey, hv⟩ := hnew
    obtain ⟨u, hu, hv⟩ := Option.bind_eq_some_iff.mp hv
    obtain ⟨⟨p, w₁⟩, hget, hv⟩ := Option.bind_eq_some_iff.mp hv
    obtain ⟨⟨q, w₂⟩, heval, hact⟩ := Option.bind_eq_some_iff.mp hv
    have hi₅ : S.Covers s₅ := hi.of_grows (h₆.grows.then h₇.grows)
    have hi₄ : S.Covers s₄ := hi₅.of_grows h₅.grows
    have hi₃ : S.Covers s₃ := hi₄.of_grows h₄.grows
    -- The present value is read into the second temporary.
    have hroom := hm.room hi₃ h₃.ready (i := s₁.gen.temps.length) (by simp [ht₃])
    have hreach₁ := h₃.runs hi₃ m c.world w₁ _ k u p hroom hkey (htrail.reads hu) hget
    rw [Setup.atEnd_of_adds h₂, Setup.atEnd_of_adds h₁] at hreach₁
    have hsame₁ := Cells.same_setTemp m (le_refl s₁.gen.temps.length) p
    have hp := Setup.steady_setTemp (S := S) (t := t) hroom p
    generalize m.setTemp s₁.gen.temps.length p = m₁ at hreach₁ hsame₁ hp
    -- The new value is computed behind it.
    have hvars : S.value m₁ = S.value m := funext (Setup.value_same hsame₁)
    obtain ⟨m₂, hreach₂, hsame₂, hq⟩ := h₄.runs hi₄ m₁ w₁ q w₂ (hm.same hsame₁) (hvars ▸ heval)
    have hp₂ := (hp.same hsame₂ fun _ => by simp [ht₃]).reads w₂
    have hm₂ := (hm.same hsame₁).same hsame₂
    have hlt : s.gen.temps.length < s₁.gen.temps.length := by simp [ht₁]
    have hle : s.gen.temps.length ≤ s₃.gen.temps.length := by
      rw [ht₃, ht₁]
      simp only [List.length_cons]
      omega
    have hroom₂ := hm₂.room hi₃ h₃.ready (i := s.gen.temps.length) (by
      rw [ht₃, ht₁]
      simp only [List.length_cons]
      omega)
    have hop : op.number < twoTo 32 := by cases op <;> decide
    have hreach₃ : S.hosted.Reaches (S.atEnd s₄ m₂ w₂) (S.atEnd s₅ (m₂.setTemp s.gen.temps.length v) w') := by
      refine Setup.reaches_result rfl h₅ hi₅ (Image.readable rfl ?_) hroom₂ ?_ hact
      · simp [Instruction.operandsFrom, Opcode.shape, hroom₂.narrow, hp₂.1, hq.1, hop]
      · simp [HostMachine.operands, Instruction.operands, Opcode.shape, Instruction.operandsFrom,
          Setup.operand_address hp₂, Setup.operand_address hq,
          show S.hosted.operand m₂ w₂ (.operator, op.number) = some (.number op.number) from rfl]
    rw [← Setup.atEnd_of_adds h₆, ← Setup.atEnd_of_adds h₇] at hreach₃
    refine ⟨_, hreach₁.trans (hreach₂.trans hreach₃), ?_, Setup.reads_setTemp hroom₂ w' v⟩
    exact (hsame₁.mono hlt.le).trans ((hsame₂.mono hle).trans (Cells.same_setTemp m₂ le_rfl v))

/-! ### Storing -/

/-- **The code that stores a new part** also stores the values on the way back. -/
theorem trail_stores (h₁ : StoresPart S s s₁ (lastValue r.base r.parts) key src) (h₂ : Adds s₁ [] k s₂)
    (h₃ : StoresBack S s₂ s₃ r.base r.parts) (hi : S.Covers s₃) {c : Trail V W} {c' : Stage V W} {j : Key V} {v : V}
    (htrail : S.TrailAt m e d r c) (hj : S.KeyAt m d key j) (hv : S.Reads m c.world src v)
    (hstore : c.store H j v = some c') : ∃ m' b, S.hosted.Reaches (S.atEnd s m c.world) (S.atEnd s₃ m' c'.world) ∧
      S.Staged m' e b r.base c' ∧ Cells.Agree e m m' := by
  have hi₁ : S.Covers s₁ := hi.of_grows (h₂.grows.then h₃.grows)
  obtain ⟨b, hstaged, hparts⟩ := htrail
  obtain ⟨n, base, ps⟩ := r
  obtain ⟨c, hs⟩ := c
  dsimp only at *
  cases hparts with
  | nil hle =>
    obtain ⟨u, x, w', m', hu, hset, hplace, hc', hagree⟩ := hstaged.setPart hstore
    refine ⟨m', b, ?_, hc', hagree⟩
    rw [h₃.idle rfl, Setup.atEnd_of_adds h₂]
    exact h₁.runs hi₁ m m' c.world w' c'.world d j u x v hj hu hv hset hplace
  | @cons _ i key' k' u t ps hs hlt hk hu hps =>
    have hparts : S.PartsAt m b d (⟨key', ⟨.temporary, i, t⟩⟩ :: ps) (⟨k', u, t⟩ :: hs) := .cons hlt hk hu hps
    obtain ⟨⟨x, w'⟩, hset, hback⟩ := Option.bind_eq_some_iff.mp hstore
    have hroom := (hu.reads w').room
    have hreach := h₁.runs hi₁ m _ c.world w' w' d j u x v hj (hu.reads _) hv hset (Setup.store_temporary hroom w' x)
    rw [← Setup.atEnd_of_adds h₂] at hreach
    obtain ⟨hparts', hc, hagree⟩ := hparts.setTemp hstaged x w'
    obtain ⟨m', hreach', hc', hagree'⟩ := h₃.runs hi _ e b d _ c' _ _ hc hparts' hback
    exact ⟨m', b, hreach.trans hreach', hc', hagree.trans hagree'⟩

end Lower

/-! ### Storing to the origin -/

namespace Setup

variable {S : Setup cs H} {s s₁ : Lowering} {k : Nesting} {op : Opcode} {args : List Nat} {os : List (Operand V)}
  {m : Cells V} {w w' : W} {v : V}

/-- An operation without a result. -/
theorem reaches_effect (ht : op.target? = some .none) (h : Adds s [⟨op, args⟩] k s₁) (hi : S.Covers s₁)
    (hr : (⟨op, args⟩ : Instruction).Readable) (hos : S.hosted.operands m w .none ⟨op, args⟩ = some os)
    (hact : H.act op os w = some (v, w')) : S.hosted.Reaches (S.atEnd s m w) (S.atEnd s₁ m w') := by
  refine .single ((step_operation ht h hi hr m w).trans ?_)
  have hact' : S.hosted.host.act op os w = some (v, w') := hact
  unfold HostMachine.operate
  simp only [hos, hact', Option.bind_eq_bind, Option.bind_some, if_true]
  rfl

end Setup

/-- The code between `s` and `s'` stores the value at `base` back to its origin. -/
structure Leaves (S : Setup cs H) (o : Origin) (t : StaticType) (base : Address) (s s' : Lowering) : Prop
    extends Level s s' where
  runs : S.Covers s' → ∀ m e d (c : Stage V W) w', S.Staged m e d base c → o.leave H t c = some w' →
    S.hosted.Reaches (S.atEnd s m c.world) (S.atEnd s' m w')

namespace Lower

variable {S : Setup cs H} {ctx : LowerContext} {s : Lowering} {base : Address} {o : Origin} {x : Expr} {id : Ident}
  {t : StaticType}

/-- Nothing is to be stored back. -/
theorem leaves_nothing (hs : s.Ready) (h : ∀ c : Stage V W, o.leave H t c = some c.world) : Leaves S o t base s s := by
  refine ⟨.refl hs, fun _ m e d c w' _ hleave => ?_⟩
  rw [h] at hleave
  obtain rfl := Option.some.inj hleave
  exact .refl _

/-- A function of the instance gets the value. -/
theorem setter_leaves {n : Text} (hs : s.Ready) (h : ∀ c : Stage V W, o.leave H t c = do
      let v ← c.read H
      let (_, w) ← H.act .callSelf [.name n, .number 1, .value v] c.world
      return w) :
    Ends (do Gen.emitList .callSelf [base] [Address.nil.encode, ← Gen.name n]) ctx s fun _ s' =>
      Leaves S o t base s s' := by
  refine (name_adds hs n).bind fun i s₁ hadds => ?_
  obtain ⟨h₁, hn⟩ := hadds
  refine (emit_adds h₁.ready _ _).post fun _ s₂ h₂ => ⟨h₁.level.trans h₂.level, fun hi m e d c w' hc hleave => ?_⟩
  rw [h] at hleave
  obtain ⟨v, hv, hleave⟩ := Option.bind_eq_some_iff.mp hleave
  obtain ⟨⟨x, w₁⟩, hact, hleave⟩ := Option.bind_eq_some_iff.mp hleave
  obtain rfl := Option.some.inj hleave
  have hbase := hc.reads hv
  have hname := (hi.of_grows h₂.grows).name hn
  have hn' : S.hosted.names[i]? = some n := hname
  have hoperand : S.hosted.operand m c.world (.name, i) = some (.name n) := by simp [HostMachine.operand, hn']
  rw [← Setup.atEnd_of_adds h₁]
  have hstore : S.hosted.store m w₁ Address.nil.encode x = some (m, w₁) := rfl
  refine Setup.reaches_operation (t := .written) rfl (fun h => by cases h) h₂ hi ?_ ?_ hact hstore
  · exact Instruction.readable_list [Address.nil.encode, i] [base] rfl rfl
      (by simpa using ⟨by decide, Setup.name_lt hname⟩)
      (show 1 < twoTo 32 by decide) (by simpa using hbase.1)
  · simp [HostMachine.operands, Instruction.operands, Opcode.shape, Instruction.operandsFrom,
      Setup.operand_address hbase, hoperand, show S.hosted.operand m c.world (.list, 1) = some (.number 1) from rfl]

/-- The code that stores a variable of the instance back. -/
theorem storeRoot_member {m : MemberSlot} {Q : Unit → Lowering → Prop} (hshared : id.info.type.sharing? ≠ some true)
    (hsource : id.source = .memberVariable) (hm : ctx.script.member? id.name = some m)
    (h : Ends (if !m.setter.isEmpty && !ctx.isAccessorOf m then
        (do Gen.emitList .callSelf [base] [Address.nil.encode, ← Gen.name m.setter])
      else pure ()) ctx s Q) : Ends (storeRoot id base) ctx s Q := by
  unfold storeRoot
  rw [if_neg hshared]
  simp only [hsource]
  unfold Ends
  rw [after_bind, after_read]
  simp only [hm]
  refine (inAccessor_ends m).bind fun b s₁ ⟨hs₁, hb⟩ => ?_
  subst hs₁ hb
  exact h

/-- **The code that stores a name back** to its origin. -/
theorem storeRoot_leaves (h : NameOf ctx id o) (hs : s.Ready) : Ends (storeRoot id base) ctx s fun _ s' =>
    Leaves S o id.info.type base s s' := by
  by_cases hshared : id.info.type.sharing? = some true
  · unfold storeRoot
    rw [if_pos hshared]
    exact leaves_nothing hs fun c => if_pos hshared
  have hcopied : ∀ (o : Origin) (c : Stage V W), o.leave H id.info.type c = _ := fun o c => if_neg hshared
  cases h with
  | declared hsource hb =>
    unfold storeRoot
    rw [if_neg hshared]
    have hplain : ∀ p, Leaves S (.declared p) id.info.type base s s := fun p => leaves_nothing hs fun c => hcopied _ c
    cases hs : id.source <;> rw [hs] at hsource <;> first | exact hplain _ | cases hsource
  | @slot m hsource hm hdirect =>
    refine storeRoot_member hshared hsource hm ?_
    cases hplain : ctx.isAccessorOf m || m.setter.isEmpty with
    | true =>
      rw [if_neg (by cases h₁ : ctx.isAccessorOf m <;> simp_all), if_pos rfl]
      exact leaves_nothing hs fun c => hcopied _ c
    | false =>
      rw [if_pos (by cases h₁ : ctx.isAccessorOf m <;> simp_all), if_neg Bool.false_ne_true]
      exact setter_leaves hs fun c => hcopied _ c
  | @property m hsource hm hin hg hset =>
    refine storeRoot_member hshared hsource hm ?_
    rw [if_pos (by simp [hin, hset])]
    exact setter_leaves hs fun c => hcopied _ c
  | native hsource =>
    unfold storeRoot
    rw [if_neg hshared]
    simp only [hsource]
    refine (name_adds hs _).bind fun i s₁ ⟨h₁, hn⟩ => ?_
    refine (emit_adds h₁.ready _ _).post fun _ s₂ h₂ => ⟨h₁.level.trans h₂.level, fun hi m e d c w' hc hleave => ?_⟩
    rw [hcopied] at hleave
    obtain ⟨v, hv, hleave⟩ := Option.bind_eq_some_iff.mp hleave
    obtain ⟨⟨x, w₁⟩, hact, hleave⟩ := Option.bind_eq_some_iff.mp hleave
    obtain rfl := Option.some.inj hleave
    have hbase := hc.reads hv
    have hname := (hi.of_grows h₂.grows).name hn
    have hn' : S.hosted.names[i]? = some _ := hname
    have hoperand : S.hosted.operand m c.world (.name, i) = some (.name id.name) := by
      simp [HostMachine.operand, hn']
    rw [← Setup.atEnd_of_adds h₁]
    refine Setup.reaches_effect rfl h₂ hi (Image.readable rfl ?_) ?_ hact
    · simp [Instruction.operandsFrom, Opcode.shape, hbase.1, Setup.name_lt hname]
    · simp [HostMachine.operands, Instruction.operands, Opcode.shape, Instruction.operandsFrom,
        Setup.operand_address hbase, hoperand]

/-- The first value of a route is stored back, if a name is there. -/
theorem root_leaves (ho : x.origin? ctx = some o) (hs : s.Ready) :
    Ends (x.identifier?.forM (storeRoot · base)) ctx s fun _ s' => Leaves S o x.info.type base s s' := by
  have hopen := open_of_origin? ho
  cases x with
  | ident id => exact storeRoot_leaves (nameOf_origin (ident_origin ho)) hs
  | self p i =>
    unfold Expr.origin? at ho
    rw [hopen, if_neg Bool.false_ne_true] at ho
    obtain rfl := Option.some.inj ho
    exact leaves_nothing hs fun c => ite_self _
  | _ =>
    unfold Expr.origin? at ho
    split at ho <;> cases ho

end Lower

/-! ### Releasing -/

/-- Between `s` and `s'` there is no code, and temporaries are released down to `before`. -/
structure Frees (S : Setup cs H) (before : List StaticType) (s s' : Lowering) : Prop extends Stacks s s' where
  temps : s'.gen.temps = before
  still : ∀ m w, S.atEnd s' m w = S.atEnd s m w

section Frees

variable {S : Setup cs H} {s s₁ s₂ : Lowering} {mid before : List StaticType}

theorem Frees.of_adds (h : Adds s [] (s.nesting.withTemps before) s₁) : Frees S before s s₁ :=
  ⟨h.stacks, h.temps, fun m w => Setup.atEnd_of_adds h m w⟩

theorem Frees.trans (h₁ : Frees S mid s s₁) (h₂ : Frees S before s₁ s₂) : Frees S before s s₂ :=
  ⟨h₁.toStacks.trans h₂.toStacks, h₂.temps, fun m w => (h₂.still m w).trans (h₁.still m w)⟩

end Frees

namespace Lower

variable {S : Setup cs H} {ctx : LowerContext} {s : Lowering} {a : Address} {before : List StaticType}

theorem release_frees (hs : s.Ready) (h : Holds before a s.gen.temps) :
    Ends (Gen.release a) ctx s fun _ s' => Frees S before s s' :=
  (release_adds hs h).post fun _ _ h => Frees.of_adds h

theorem releaseKey_frees {key : PartKey} (hs : s.Ready) (h : key.Holds before s.gen.temps) :
    Ends (releaseKey key) ctx s fun _ s' => Frees S before s s' := by
  cases key with
  | named n => exact ⟨(Level.refl hs).stacks, h, fun _ _ => rfl⟩
  | keyed k => exact release_frees hs h

/-- The values on a route are released with their keys. -/
theorem releaseParts_frees {ps : List LoadedPart} (hs : s.Ready) (h : PartsHold before ps s.gen.temps) :
    Ends (releaseParts ps) ctx s fun _ s' => Frees S before s s' := by
  induction ps generalizing s with
  | nil =>
    generalize ht : s.gen.temps = after at h
    cases h
    exact ⟨(Level.refl hs).stacks, ht, fun _ _ => rfl⟩
  | cons p ps ih =>
    generalize ht : s.gen.temps = after at h
    cases h with
    | cons hps hk hv =>
      unfold releaseParts
      refine (release_frees (S := S) hs (ht ▸ hv)).bind fun _ s₁ h₁ => ?_
      refine (releaseKey_frees (S := S) h₁.ready (h₁.temps ▸ hk)).bind fun _ s₂ h₂ => ?_
      exact (ih h₂.ready (h₂.temps ▸ hps)).post fun _ s₃ h₃ => (h₁.trans h₂).trans h₃

end Lower

/-! ### Assignments -/

/-- The code between `s` and `s'` changes the variables and the world as `F` tells. -/
structure Assigns (S : Setup cs H) (F : Vars V → W → Option (Vars V × W)) (s s' : Lowering) : Prop
    extends Level s s' where
  runs : S.Covers s' → ∀ m w ρ w', S.Full m → F (S.value m) w = some (ρ, w') → ∃ m',
    S.hosted.Reaches (S.atEnd s m w) (S.atEnd s' m' w') ∧ S.Full m' ∧ S.value m' = ρ ∧
      Cells.Agree s.gen.temps.length m m'

/-- What is open is as before when the temporaries are. -/
theorem Stacks.level {s s' : Lowering} (h : Stacks s s') (ht : s'.gen.temps = s.gen.temps) : Level s s' := by
  refine ⟨h.grows, h.ready, ?_⟩
  rw [h.nesting, ht]
  rfl

/-- What an assignment does once the values on the way and the key of its target are there. -/
def Host.finish (H : Host V W) (eval : Meaning V W) (ρ : Vars V) (op : Option Operator) (rhs : Expr) (o : Origin)
    (t : StaticType) (c : Trail V W) (k : Key V) : Option (Vars V × W) := do
  let (v, w) ← H.newValue eval ρ op rhs c k
  let c ← { c with world := w }.store H k v
  let w ← o.leave H t c
  return (c.vars, w)

/-- An assignment is made in two steps. -/
theorem assign_of_target {ctx : LowerContext} {eval : Meaning V W} {ρ : Vars V} {w : W} {x rhs : Expr}
    {op : Option Operator} {o : Origin} (ho : x.root.origin? ctx = some o) : H.assign eval ctx ρ x op rhs w =
      (H.target eval ctx ρ x w).bind fun c => H.finish eval ρ op rhs o x.root.info.type c.1 c.2 := by
  unfold Host.assign Host.finish
  rw [ho]
  rfl

theorem Assigns.congr {S : Setup cs H} {F F' : Vars V → W → Option (Vars V × W)} {s s₁ : Lowering}
    (h : Assigns S F s s₁) (hF : ∀ ρ w, F' ρ w = F ρ w) : Assigns S F' s s₁ :=
  { h with runs := fun hi m w ρ w' hm hc => h.runs hi m w ρ w' hm (hF _ _ ▸ hc) }

namespace Lower

variable {S : Setup cs H} {ctx : LowerContext} {s s₁ : Lowering} {eval : Meaning V W} {rhs : Expr}
  {r : Route} {key : PartKey} {o : Origin} {x : Expr} {G : Vars V → W → Option (Trail V W × Key V)}

/-- **The code of an assignment to a part**, behind that of the route and the key. -/
theorem assignPart_assigns (op : Option Operator) (t : StaticType) (converts : Bool) (ho : x.origin? ctx = some o)
    (h : Targeted S G x.identifier? s r key s₁) (hrhs : Means S ctx (expr rhs) (eval rhs)) :
    Ends (assignPart r key ⟨op, t, expr rhs, converts⟩) ctx s₁ fun _ s' => Assigns S (fun ρ w =>
      (G ρ w).bind fun c => H.finish eval ρ op rhs o x.info.type c.1 c.2) s s' := by
  obtain ⟨mid, mid', hbase, hparts, hkey⟩ := h.holds
  unfold assignPart
  have hvalue : Ends (storedValue ⟨op, t, expr rhs, converts⟩ (present t (lastValue r.base r.parts) key)) ctx s₁
      fun a s' => Obtained S (NewValue S eval op rhs s.gen.temps.length s₁.gen.temps.length r key) s₁ a s' :=
    storedValue_obtains op t converts hrhs h.ready
  refine hvalue.bind fun src s₂ h₂ => ?_
  refine (setPart_stores (S := S) h₂.ready).bind fun _ s₃ h₃ => ?_
  have ht₃ : s₃.gen.temps = s₂.gen.temps := h₃.toLevel.temps
  refine (release_adds h₃.ready (ht₃ ▸ h₂.holds)).bind fun _ s₄ h₄ => ?_
  refine (writeBack_stores (S := S) h₄.ready).bind fun _ s₅ h₅ => ?_
  rw [h.named]
  refine (root_leaves (S := S) ho h₅.ready).bind fun _ s₆ h₆ => ?_
  have ht₆ : s₆.gen.temps = s₁.gen.temps := h₆.toLevel.temps.trans (h₅.toLevel.temps.trans h₄.temps)
  refine (releaseKey_frees (S := S) h₆.ready (ht₆ ▸ hkey)).bind fun _ s₇ h₇ => ?_
  refine (releaseParts_frees (S := S) h₇.ready (h₇.temps ▸ hparts)).bind fun _ s₈ h₈ => ?_
  refine (release_frees (S := S) h₈.ready (h₈.temps ▸ hbase)).post fun _ s₉ h₉ => ?_
  have hfree := (h₇.trans h₈).trans h₉
  have hstacks₆ := h₃.toLevel.stacks.trans (h₄.stacks.trans (h₅.toLevel.stacks.trans h₆.toLevel.stacks))
  refine ⟨(h.toStacks.trans (h₂.toStacks.trans (hstacks₆.trans hfree.toStacks))).level hfree.temps,
    fun hi m w ρ w' hm hF => ?_⟩
  obtain ⟨⟨c, k⟩, hG, hF⟩ := Option.bind_eq_some_iff.mp hF
  obtain ⟨⟨v, w₂⟩, hnew, hF⟩ := Option.bind_eq_some_iff.mp hF
  obtain ⟨c', hstore, hF⟩ := Option.bind_eq_some_iff.mp hF
  obtain ⟨w₃, hleave, hF⟩ := Option.bind_eq_some_iff.mp hF
  obtain ⟨rfl, rfl⟩ := Prod.mk.inj (Option.some.inj hF)
  have hi₆ : S.Covers s₆ := hi.of_grows hfree.grows
  have hi₅ : S.Covers s₅ := hi₆.of_grows h₆.grows
  have hi₂ : S.Covers s₂ := hi₅.of_grows (h₃.grows.then (h₄.grows.then h₅.grows))
  -- The values on the way and the key stay where they are while the new value is computed.
  obtain ⟨m₁, hreach₁, hsame₁, htrail, hk⟩ := h.runs (hi₂.of_grows h₂.grows) m w c k hm hG
  have hvars : S.value m₁ = S.value m := funext (Setup.value_same hsame₁)
  obtain ⟨m₂, hreach₂, hsame₂, hv⟩ := h₂.runs hi₂ m₁ c.world v w₂ htrail.full
    ⟨c, k, rfl, htrail, hk, hvars ▸ hnew⟩
  obtain ⟨m₃, b, hreach₃, hstaged, hagree⟩ := trail_stores h₃ h₄ h₅ hi₅ (htrail.same hsame₂ w₂) (hk.same hsame₂) hv
    hstore
  have hreach₄ := h₆.runs hi₆ m₃ _ b c' w₃ hstaged hleave
  rw [← hfree.still] at hreach₄
  refine ⟨m₃, hreach₁.trans (hreach₂.trans (hreach₃.trans hreach₄)), hstaged.full, hstaged.vars, ?_⟩
  exact hsame₁.toAgree.trans ((hsame₂.toAgree.mono htrail.le).trans hagree)

/-- The code of an assignment to a part, as far as there is any. -/
theorem assign_ends (hc : FewSlots ctx) (b : Option BinaryOp) (op : Option Operator) (converts : Bool)
    (hx : x.isPart = true) (ho : x.root.origin? ctx = some o)
    (hkeys : ∀ y ∈ x.keys, y.slot? ctx = none → Means S ctx (expr y) (eval y))
    (hrhs : Means S ctx (expr rhs) (eval rhs)) (hs : s.Ready) :
    Ends (stmt (.assign b x rhs op converts)) ctx s fun _ s' =>
      Assigns S (fun ρ w => H.assign eval ctx ρ x op rhs w) s s' := by
  cases x with
  | dot x id i =>
    rw [stmt]
    refine (route_follows (x := x) hc ho hkeys hs).bind fun r s₁ hr => ?_
    refine (name_obtains (S := S) hr.ready id.name).bind fun n s₂ hn => ?_
    have htarget : Targeted S (fun ρ w => H.target eval ctx ρ (.dot x id i) w) x.root.identifier? s r (.named n) s₂ :=
      (hr.targeted hn).congr fun ρ w => Host.target_dot id i
    exact (assignPart_assigns op _ converts ho htarget hrhs).post fun _ s₃ h => h.congr fun ρ w => assign_of_target ho
  | index x y close i =>
    rw [stmt]
    have hy : y ∈ (Expr.index x y close i).keys := List.mem_append_right _ List.mem_cons_self
    refine (route_follows (x := x) hc ho (fun z hz => hkeys z (List.mem_append_left _ hz)) hs).bind fun r s₁ hr => ?_
    refine (key_obtains (S := S) hc (hkeys y hy) hr.ready).bind fun a s₂ hk => ?_
    have htarget : Targeted S (fun ρ w => H.target eval ctx ρ (.index x y close i) w) x.root.identifier? s r (.keyed a)
        s₂ :=
      (hr.targeted hk).congr fun ρ w => Host.target_index close i
    exact (assignPart_assigns op _ converts ho htarget hrhs).post fun _ s₃ h => h.congr fun ρ w => assign_of_target ho
  | _ => cases hx

/-- **The code of an assignment does what it means.** The variables of the instance have numbers that fit into
addresses, the target is a part of a value that starts at a variable, a property or `self`, and the code of the new
value and of the keys computes what these mean. A variable of the instance that has a getter and no setter is no such
start outside of its getter. -/
theorem assign_assigns (hc : FewSlots ctx) (b : Option BinaryOp) (op : Option Operator) (converts : Bool)
    (hx : x.isPart = true) (ho : x.root.origin? ctx = some o)
    (hkeys : ∀ y ∈ x.keys, y.slot? ctx = none → Means S ctx (expr y) (eval y))
    (hrhs : Means S ctx (expr rhs) (eval rhs)) (hs : s.Ready) {s' : Lowering}
    (hrun : stmt (.assign b x rhs op converts) ctx s = (.ok (), s')) (hi : S.Covers s') {m : Cells V} {w w' : W}
    {ρ : Vars V} (hm : S.Full m) (hassign : H.assign eval ctx (S.value m) x op rhs w = some (ρ, w')) :
    ∃ m', S.hosted.Reaches (S.atEnd s m w) (S.atEnd s' m' w') ∧ S.Full m' ∧ S.value m' = ρ ∧
      Cells.Agree s.gen.temps.length m m' := by
  have h := (assign_ends (S := S) hc b op converts hx ho hkeys hrhs hs).of_run hrun
  exact h.runs hi m w ρ w' hm hassign

/-- The code of a variable computes its value. -/
theorem ident_means {id : Ident} {p : Pos} (hc : FewSlots ctx) (h : (Expr.ident id).origin? ctx = some (.declared p)) :
    Means S ctx (expr (.ident id)) fun ρ w => (ρ p).map (·, w) := by
  intro s hs
  refine (expr_roots (S := S) hc h hs).post fun a s₁ h => ⟨h.toStacks, h.holds, fun hi m w v w' hm hv => ?_⟩
  obtain ⟨u, hu, hpair⟩ := Option.map_eq_some_iff.mp hv
  obtain ⟨rfl, rfl⟩ := Prod.mk.inj hpair
  obtain ⟨m', hreach, hsame, hstaged⟩ := h.runs hi m w ⟨S.value m, w, .declared p⟩ hm rfl
  exact ⟨m', hreach, hsame, hstaged.reads hu⟩

end Lower

/-! ### Values that are copied -/

/-- Numbers and pairs of values. -/
inductive Copied where
  | number (n : Nat)
  | pair (x y : Copied)
deriving DecidableEq

namespace Copied

/-- Whether an operand is a key of the first or the second value of a pair. -/
def key? : Operand Copied → Option Bool
  | .name n => if n = "x" then some true else if n = "y" then some false else none
  | .value (.number 0) => some true
  | .value (.number 1) => some false
  | _ => none

def get (u : Copied) (o : Operand Copied) : Option Copied :=
  match u, key? o with
  | pair x y, some b => some (if b then x else y)
  | _, _ => none

def set (u : Copied) (o : Operand Copied) (v : Copied) : Option Copied :=
  match u, key? o with
  | pair x y, some b => some (if b then pair v y else pair x v)
  | _, _ => none

/-- A host of such values. The world is the variable of the instance: each function without arguments reads it, each
one with an argument writes it. -/
def host : Host Copied Copied where
  constant
    | .int n => number n.toNatClampNeg
    | _ => number 0
  nil := number 0
  self := number 0
  cls := number 0
  truth := fun _ => false
  isShared := fun _ => false
  slot := fun w _ => some w
  setSlot := fun _ _ v => some v
  act
    | .getNamed, [.value u, o], w | .getIndexed, [.value u, o], w => (u.get o).map (·, w)
    | .setNamed, [.value u, o, .value v], w | .setIndexed, [.value u, o, .value v], w => (u.set o v).map (·, w)
    | .callSelf, [.name _, .number 0], w => some (w, w)
    | .callSelf, [.name _, .number 1, .value v], _ => some (number 0, v)
    | _, _, _ => none

end Copied

namespace Lower

/-- The context of a function of a script with a variable `v` that has a getter and a setter. -/
def propertyContext : LowerContext :=
  { emptyContext with script := { members := [{ name := "v", getter := "@v_getter", setter := "@v_setter" }] } }

/-- A function with a parameter. -/
def withParameter : Lowering where
  vars := { entries := [(⟨1, 8⟩, ⟨.parameter, 0, .variant⟩)] }
  params := [default]

theorem withParameter_ready : withParameter.Ready := by
  have hvars : ∀ p a, withParameter.vars.get? p = some a → p = ⟨1, 8⟩ ∧ a = ⟨.parameter, 0, .variant⟩ := fun p a h =>
    Prod.mk.inj (List.mem_singleton.mp (Session.mem_of_get? h))
  refine ⟨by decide, nofun, ⟨fun p a h => .inl ?_, fun p q a b hp hq _ _ => ?_⟩⟩
  · obtain ⟨-, rfl⟩ := hvars p a h
    exact ⟨rfl, Nat.one_pos⟩
  · rw [(hvars p a hp).1, (hvars q b hq).1]

/-- What the analysis knows of an expression of any type. -/
def untyped : Info := ⟨true, .variant, none⟩

/-- The parameter as it is used somewhere. -/
def parameterAt (p : Pos) : Ident :=
  { pos := p, name := "p", source := .parameter, binding := .toLocal ⟨⟨1, 8⟩, ⟨1, 8⟩, ⟨1, 1⟩⟩, info := untyped }

/-- The target `v[p].y`. -/
def innerTarget : Expr :=
  .dot (.index (.ident { pos := ⟨2, 2⟩, name := "v", source := .memberVariable, info := untyped })
    (.ident (parameterAt ⟨2, 4⟩)) ⟨2, 5⟩ untyped) { pos := ⟨2, 7⟩, name := "y" } untyped

/-- The new value. -/
def innerValue : Expr := .ident (parameterAt ⟨2, 11⟩)

/-- The function with the assignment `v[p].y = p`. -/
def innerAssigned : Lowering :=
  (stmt (.assign none innerTarget innerValue none false) propertyContext withParameter).2

theorem innerAssigned_vars {p : Pos} {a : Address} (h : innerAssigned.vars.get? p = some a) :
    p = ⟨1, 8⟩ ∧ a.mode = .parameter ∧ a.index = 0 := by
  have hentries : ∀ e ∈ innerAssigned.vars.entries, e.1 = ⟨1, 8⟩ ∧ e.2.mode = .parameter ∧ e.2.index = 0 := by
    decide +kernel
  exact hentries _ (Session.mem_of_get? h)

theorem innerAssigned_ready : innerAssigned.Ready := by
  have hkeyed : ∀ c ∈ innerAssigned.gen.pool.constants, c.1 = Pool.key c.2 := by decide +kernel
  have hparams : innerAssigned.params.length = 1 := by decide +kernel
  refine ⟨by decide +kernel, hkeyed, ⟨fun p a h => ?_, fun p q a b hp hq _ _ => ?_⟩⟩
  · obtain ⟨-, hmode, hindex⟩ := innerAssigned_vars h
    exact .inl ⟨hmode, by omega⟩
  · rw [(innerAssigned_vars hp).1, (innerAssigned_vars hq).1]

theorem innerAssigned_addressable : innerAssigned.complete.Addressable innerAssigned.constants :=
  ⟨by decide +kernel, by decide +kernel, by decide +kernel, by decide +kernel, by decide +kernel⟩

/-- The function in a host of values that are copied. -/
def innerSetup : Setup innerAssigned.constants Copied.host :=
  innerAssigned.setup _ innerAssigned_ready innerAssigned_addressable (by decide +kernel)

/-- The parameter is 0. -/
def innerCells : Cells Copied := ⟨[.number 0], [], List.replicate innerAssigned.gen.maxTemps (.number 0)⟩

/-- What the parameter means, wherever it is used. -/
def parameterMeaning : Meaning Copied Copied := fun _ ρ w => (ρ ⟨1, 8⟩).map (·, w)

/-- The variable `v` is `((1, 2), 4)` before, and `((1, 0), 4)` afterwards. -/
theorem assign_assigns_inner : ∃ m',
    innerSetup.hosted.Reaches
      (innerSetup.atEnd withParameter innerCells (.pair (.pair (.number 1) (.number 2)) (.number 4)))
      (innerSetup.atEnd innerAssigned m' (.pair (.pair (.number 1) (.number 0)) (.number 4))) := by
  have hok : (stmt (.assign none innerTarget innerValue none false) propertyContext withParameter).1.isOk =
      true := by decide +kernel
  obtain ⟨⟨⟩, hrun⟩ := exists_of_isOk hok
  rw [← innerAssigned] at hrun
  have hslots : FewSlots propertyContext := by
    intro m hm
    obtain rfl := List.mem_singleton.mp hm
    decide
  have hfull : innerSetup.Full innerCells := by
    refine Lowering.full_setup (by simp [innerCells]) fun p b hb => ?_
    obtain ⟨-, hmode, hindex⟩ := innerAssigned_vars hb
    simp [Cells.stored?, hmode, hindex, innerCells]
  have hparameter : innerSetup.value innerCells ⟨1, 8⟩ = some (.number 0) := by decide +kernel
  have hmeans : ∀ p, Means innerSetup propertyContext (expr (.ident (parameterAt p)))
      (parameterMeaning (.ident (parameterAt p))) := fun p =>
    ident_means hslots rfl
  have hkeys : ∀ y ∈ innerTarget.keys, y.slot? propertyContext = none →
      Means innerSetup propertyContext (expr y) (parameterMeaning y) := by
    intro y hy _
    obtain rfl := List.mem_singleton.mp hy
    exact hmeans _
  have hassign : Copied.host.assign parameterMeaning propertyContext (innerSetup.value innerCells) innerTarget none
      innerValue (.pair (.pair (.number 1) (.number 2)) (.number 4)) =
        some (innerSetup.value innerCells, .pair (.pair (.number 1) (.number 0)) (.number 4)) := by
    generalize innerSetup.value innerCells = ρ at hparameter
    unfold Host.assign Host.newValue Host.target Host.follow Meaning.key parameterMeaning
    dsimp only
    rw [hparameter]
    rfl
  obtain ⟨m', hreach, -⟩ := assign_assigns hslots none none false (x := innerTarget) rfl
    (show innerTarget.root.origin? propertyContext = some (.property "@v_getter" "@v_setter") by decide +kernel)
    hkeys (hmeans _) withParameter_ready hrun (Lowering.covers_setup _ _ _) hfull hassign
  exact ⟨m', hreach⟩

end Lower

/-! ### A variable with a getter alone -/

/-- Does a number of instructions. -/
def HostMachine.after (M : HostMachine V W) : Nat → Moment V W → Option (Moment V W)
  | 0, c => some c
  | n + 1, c => (M.step c).bind (M.after n)

namespace Compiler

/-- A file with a variable that has a getter and no setter, and a function that assigns a part of it. -/
def readOnlyProject : Compiler := ofSource "res://test.gd" "var v:\n\tget:\n\t\treturn v\nfunc f():\n\tv.x = 5\n"

/-- The function gets to its return, and the variable is what it was: the part has been assigned to a copy. -/
theorem assigned_part_lost : ∃ p ∈ (readOnlyProject.compile 0).2.library, ∃ fn ∈ p.functions, fn.name = "f" ∧
    ∃ c ∈ HostMachine.after ⟨⟨fn, p.constants, 0⟩, p.names, Copied.host⟩ 2
        ⟨0, ⟨[], [], [.number 0]⟩, .pair (.number 1) (.number 2)⟩,
      (Machine.fetch ⟨fn, p.constants, 0⟩ c.pc).toOption.map (·.1.op) = some .return ∧
      c.cells.temps = [.pair (.number 5) (.number 2)] ∧ c.world = .pair (.number 1) (.number 2) := by
  decide +kernel

end Compiler

end GameScript
