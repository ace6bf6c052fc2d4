import GameScript.Proofs.Execution.Places
import GameScript.Proofs.Running.Statements

/-!
# Code of first values

The code of the first value of a route leaves it where it is, or reads it into a temporary.

* `Obtained` — code that computes a value, which leaves what is open as it was;
* `Lower.expr_roots` — the first value is where its origin says.
-/

namespace GameScript

variable {cs : List Value} {V W : Type} {H : Host V W}

/-! ### Code that keeps values -/

/-- The code between `s` and `s'` leaves what is open as it was, up to temporaries. -/
structure Stacks (s s' : Lowering) : Prop where
  grows : Grows [] s s'
  ready : s'.Ready
  nesting : s'.nesting = s.nesting.withTemps s'.gen.temps

section Stacks

variable {s s₁ s₂ : Lowering}

theorem Stacks.trans (h₁ : Stacks s s₁) (h₂ : Stacks s₁ s₂) : Stacks s s₂ := by
  refine ⟨h₁.grows.then h₂.grows, h₂.ready, ?_⟩
  rw [h₂.nesting, h₁.nesting]
  rfl

theorem Level.stacks (h : Level s s₁) : Stacks s s₁ := by
  refine ⟨h.grows, h.ready, ?_⟩
  rw [h.temps, h.nesting]
  rfl

theorem Adds.stacks {is : List Instruction} {ts : List StaticType} (h : Adds s is (s.nesting.withTemps ts) s₁) :
    Stacks s s₁ := by
  refine ⟨h.grows, h.ready, ?_⟩
  rw [h.nesting, h.temps]
  rfl

end Stacks

/-- The code between `s` and `s'` computes a value into `a`: wherever `R` tells a value and a world, the value
is there and the world is that one. -/
structure Obtained (S : Setup cs H) (R : Cells V → W → V → W → Prop) (s : Lowering) (a : Address) (s' : Lowering) : Prop
    extends Stacks s s' where
  holds : Holds s.gen.temps a s'.gen.temps
  runs : S.Covers s' → ∀ m w v w', S.Full m → R m w v w' → ∃ m',
    S.hosted.Reaches (S.atEnd s m w) (S.atEnd s' m' w') ∧ Cells.Same s.gen.temps.length m m' ∧ S.Reads m' w' a v

theorem Grows.name {D : List Pos} {s s' : Lowering} {k : Nat} {n : Text} (h : Grows D s s')
    (hn : s.gen.pool.names[k]? = some n) : s'.gen.pool.names[k]? = some n := by
  obtain ⟨ns, hns⟩ := h.names
  rw [← hns, List.getElem?_append_left (List.getElem?_eq_some_iff.mp hn).1]
  exact hn

/-- The code between `s` and `s'` computes the first value of a route into `a`. -/
structure Rooted (S : Setup cs H) (o : Origin) (s : Lowering) (a : Address) (s' : Lowering) : Prop
    extends Stacks s s' where
  holds : Holds s.gen.temps a s'.gen.temps
  runs : S.Covers s' → ∀ m w c, S.Full m → o.enter H (S.value m) w = some c → ∃ m',
    S.hosted.Reaches (S.atEnd s m w) (S.atEnd s' m' c.world) ∧ Cells.Same s.gen.temps.length m m' ∧
      S.Staged m' s.gen.temps.length s'.gen.temps.length a c

namespace Lower

variable {S : Setup cs H} {ctx : LowerContext} {s s₁ s₂ : Lowering} {x y : Expr} {o : Origin} {i : Nat} {a : Address}
  {eval : Meaning V W} {t : StaticType}

/-- Code that computes what `f` tells. -/
def Means (S : Setup cs H) (ctx : LowerContext) (x : Lower Address) (f : Vars V → W → Option (V × W)) : Prop :=
  ∀ s, s.Ready → Ends x ctx s fun a s' => Obtained S (fun m w v w' => f (S.value m) w = some (v, w')) s a s'

/-! ### First values -/

/-- An expression that is computed where it is used. -/
theorem direct?_open (h : x.isDirect ctx = false) : Ends (direct? x) ctx s fun r s' => r = none ∧ s' = s := by
  unfold Expr.isDirect at h
  rw [Bool.or_eq_false_iff] at h
  obtain ⟨hd, hv⟩ := h
  unfold direct? Ends
  cases hr : x.info.reduced with
  | false => simp [hr, after_bind]
  | true =>
    simp only [hr, hd, Bool.not_true, Bool.false_eq_true, if_false, after_bind, after_read]
    cases hvalue : x.info.value with
    | none => exact ⟨rfl, rfl⟩
    | some v =>
      have hv' : (!x.isContainer && !x.info.type.isScriptValue) = false := by
        rwa [show x.value? = some v from hvalue, Option.isSome_some, Bool.true_and] at hv
      simp [hv']

theorem open_of_origin? (h : x.origin? ctx = some o) : x.isDirect ctx = false := by
  unfold Expr.origin? at h
  split at h
  · cases h
  · rename_i hn
    simpa using hn

/-- The code of a name is that of a variable or a property. -/
theorem expr_ident {id : Ident} (h : (Expr.ident id).isDirect ctx = false) {Q : Address → Lowering → Prop}
    (hname : Ends (name id) ctx s Q) : Ends (expr (.ident id)) ctx s Q := by
  rw [expr]
  refine (direct?_open h).bind fun r s₁ hpost => ?_
  obtain ⟨hr, hs⟩ := hpost
  subst hr hs
  exact hname

/-! ### Origins -/

/-- What the origin of a name says about it. -/
inductive NameOf (ctx : LowerContext) (id : Ident) : Origin → Prop
  | declared {r} : id.source.isVariable → id.binding = .toLocal r → NameOf ctx id (.declared r.anchor)
  | slot {m} : id.source = .memberVariable → ctx.script.member? id.name = some m →
    (ctx.isAccessorOf m || m.getter.isEmpty) = true →
    NameOf ctx id (.slot m.index.toNat (if ctx.isAccessorOf m || m.setter.isEmpty then none else some m.setter))
  | property {m} : id.source = .memberVariable → ctx.script.member? id.name = some m → ctx.isAccessorOf m = false →
    m.getter.isEmpty = false → m.setter.isEmpty = false → NameOf ctx id (.property m.getter m.setter)
  | native : id.source = .inherited → NameOf ctx id (.native id.name)

theorem origin?_of_isVariable {id : Ident} (hs : id.source.isVariable) (h : id.origin? ctx = some o) :
    ∃ r, id.binding = .toLocal r ∧ o = .declared r.anchor := by
  unfold Ident.origin? at h
  cases hsource : id.source with
  | parameter | localVariable | iterator | bind =>
    rw [hsource] at h
    cases hb : id.binding with
    | toLocal r =>
      rw [hb] at h
      exact ⟨r, rfl, (Option.some.inj h).symm⟩
    | _ =>
      rw [hb] at h
      cases h
  | _ => simp [hsource, NameSource.isVariable] at hs

theorem nameOf_origin {id : Ident} (h : id.origin? ctx = some o) : NameOf ctx id o := by
  by_cases hvariable : id.source.isVariable
  · obtain ⟨r, hb, rfl⟩ := origin?_of_isVariable hvariable h
    exact .declared hvariable hb
  unfold Ident.origin? at h
  cases hs : id.source with
  | parameter | localVariable | iterator | bind => simp [hs, NameSource.isVariable] at hvariable
  | memberVariable =>
    rw [hs] at h
    obtain ⟨m, hm, h⟩ := Option.bind_eq_some_iff.mp h
    unfold MemberSlot.origin? at h
    cases hin : ctx.isAccessorOf m with
    | true =>
      rw [hin, if_pos rfl] at h
      obtain rfl := Option.some.inj h
      have hslot := NameOf.slot hs hm (by simp [hin])
      simpa [hin] using hslot
    | false =>
      rw [hin, if_neg (by simp)] at h
      cases hg : m.getter.isEmpty with
      | true =>
        have hslot := NameOf.slot hs hm (by simp [hg])
        cases hset : m.setter.isEmpty <;> simp only [hg, hset, Option.some.injEq] at h <;> subst h <;>
          simpa [hin, hset] using hslot
      | false =>
        cases hset : m.setter.isEmpty <;> simp only [hg, hset, Option.some.injEq, reduceCtorEq] at h
        subst h
        exact .property hs hm hin hg hset
  | inherited =>
    rw [hs] at h
    obtain rfl := Option.some.inj h
    exact .native hs
  | _ =>
    rw [hs] at h
    cases h

theorem member_ends (pos : Option Pos) (n : Text) : Ends (member pos n) ctx s fun m s' =>
    s' = s ∧ ctx.script.member? n = some m := by
  unfold member Ends
  rw [after_bind, after_read]
  dsimp only
  cases ctx.script.member? n with
  | some m => exact ⟨rfl, rfl⟩
  | none => cases pos <;> simp [after_bind]

theorem inAccessor_ends (m : MemberSlot) : Ends (inAccessor m) ctx s fun b s' => s' = s ∧ b = ctx.isAccessorOf m :=
  ⟨rfl, rfl⟩

/-- The variables of the instance have addresses of 32 bits. -/
def FewSlots (ctx : LowerContext) : Prop := ∀ m ∈ ctx.script.members, m.index.toNat < Address.limit

theorem narrow_member {m : MemberSlot} {n : Text} (hc : FewSlots ctx) (h : ctx.script.member? n = some m)
    (t : StaticType) : Address.encode ⟨.member, m.index.toNat, t⟩ < twoTo 32 :=
  Address.encode_lt (hc m (List.mem_of_find?_eq_some h))

/-- A variable of the instance that is used directly. -/
theorem name_slot {id : Ident} {setter : Option Text} (hc : FewSlots ctx) (h : NameOf ctx id (.slot i setter)) :
    Ends (name id) ctx s fun a s' => s' = s ∧ a.mode = .member ∧ a.index = i ∧ a.encode < twoTo 32 := by
  generalize ho : Origin.slot i setter = o at h
  cases h with
  | @slot m hs hm hdirect =>
    obtain ⟨rfl, rfl⟩ := Origin.slot.inj ho
    unfold name
    simp only [hs]
    refine (member_ends _ _).bind fun m' s₁ hpost => ?_
    obtain ⟨hs₁, hm'⟩ := hpost
    subst hs₁
    obtain rfl : m = m' := Option.some.inj (hm.symm.trans hm')
    refine (inAccessor_ends m).bind fun b s₂ hpost => ?_
    obtain ⟨hs₂, hb⟩ := hpost
    subst hs₂ hb
    have hplain : (!m.getter.isEmpty && !ctx.isAccessorOf m) = false := by
      cases hg : m.getter.isEmpty <;> simp_all
    rw [hplain, if_neg Bool.false_ne_true]
    exact ⟨rfl, rfl, rfl, narrow_member hc hm _⟩
  | _ => cases ho

/-! ### First values -/

/-- A first value that an operation on a name puts into a new temporary. -/
theorem emitName_roots {op : Opcode} {rest : List Nat} {os : List (Operand V)} {n : Text} {k : Nat}
    (h₁ : Adds s [] (s.nesting.withTemps (t :: s.gen.temps)) s₁) (hn : s₁.gen.pool.names[k]? = some n)
    (hop : op.target? = some .written)
    (hr : ∀ d i, d < twoTo 32 → i < twoTo 32 → (⟨op, d :: i :: rest⟩ : Instruction).Readable)
    (hos : ∀ m w d i, S.names[i]? = some n → S.hosted.operands m w .written ⟨op, d :: i :: rest⟩ = some os)
    (ho : ∀ ρ w, o.enter H ρ w = (H.act op os w).map fun (v, w) => ⟨ρ, w, .held v⟩) :
    Ends (do
      Gen.emit op (Address.encode ⟨.temporary, s.gen.temps.length, t⟩ :: k :: rest)
      return ⟨.temporary, s.gen.temps.length, t⟩ : Lower Address) ctx s₁ fun a s' => Rooted S o s a s' := by
  refine (emit_adds h₁.ready _ _).bind fun _ s₂ h₂ => ?_
  have htemps : s₂.gen.temps = t :: s.gen.temps := h₂.temps.trans h₁.temps
  refine ⟨h₁.stacks.trans h₂.level.stacks, htemps ▸ holds_temporary _ _ _, fun hi m w c hm hc => ?_⟩
  rw [ho] at hc
  obtain ⟨⟨v, w'⟩, hact, rfl⟩ := Option.map_eq_some_iff.mp hc
  have hroom := hm.room hi h₂.ready (i := s.gen.temps.length) (by simp [htemps])
  have hname := (hi.of_grows h₂.grows).name hn
  have hsame := Cells.same_setTemp m (le_refl s.gen.temps.length) v
  rw [← Setup.atEnd_of_adds h₁ m]
  refine ⟨_, Setup.reaches_result hop h₂ hi (hr _ _ (hroom.narrow t) (Setup.name_lt hname)) hroom
    (hos m w _ _ hname) hact, hsame, by simp [htemps], hm.same hsame, funext (Setup.value_same hsame), ?_⟩
  exact .held rfl le_rfl (by simp [htemps]) (Setup.steady_setTemp hroom v)

/-- A first value that is used where it is. -/
theorem rooted_place (hs : s.Ready) (ha : a.isTemporary = false)
    (h : S.Covers s → ∀ m w c, S.Full m → o.enter H (S.value m) w = some c →
      c.world = w ∧ c.vars = S.value m ∧ S.BaseAt m s.gen.temps.length s.gen.temps.length a c.base) :
    Rooted S o s a s := by
  refine ⟨(Level.refl hs).stacks, holds_of_not_temporary ha _, fun hi m w c hm hc => ?_⟩
  obtain ⟨hw, hvars, hbase⟩ := h hi m w c hm hc
  exact ⟨m, hw ▸ .refl _, .refl _ m, le_rfl, hm, hvars.symm, hbase⟩

theorem name_roots {id : Ident} (hc : FewSlots ctx) (h : NameOf ctx id o) (hs : s.Ready) :
    Ends (name id) ctx s fun a s' => Rooted S o s a s' := by
  cases h with
  | @declared r hsource hb =>
    rw [name_eq_localVar hsource]
    refine (localVar_ends hb).post fun a s₁ hpost => ?_
    obtain ⟨hs₁, b, hget, ha⟩ := hpost
    subst hs₁ ha
    have hmode := hs.placed.mode hget
    refine rooted_place hs ?_ fun hi m w c hm hc => ?_
    · rcases hmode with h | h <;> simp [Address.isTemporary, h]
    · obtain rfl := Option.some.inj hc
      exact ⟨rfl, rfl, .declared (hi.includes.vars _ b hget) rfl⟩
  | @slot m hsource hm hdirect =>
    refine (name_slot hc (.slot hsource hm hdirect)).post fun a s₁ hpost => ?_
    obtain ⟨hs₁, hmode, hindex, hlt⟩ := hpost
    subst hs₁
    have ha : a.isTemporary = false := by simp [Address.isTemporary, hmode]
    refine rooted_place hs ha fun hi m' w c hm hc => ?_
    obtain rfl := Option.some.inj hc
    exact ⟨rfl, rfl, hindex ▸ .slot hmode hlt⟩
  | @property m hsource hm hin hg hset =>
    unfold name
    simp only [hsource]
    refine (member_ends _ _).bind fun m' s₁ hpost => ?_
    obtain ⟨hs₁, hm'⟩ := hpost
    subst hs₁
    obtain rfl : m = m' := Option.some.inj (hm.symm.trans hm')
    refine (inAccessor_ends m).bind fun b s₂ hpost => ?_
    obtain ⟨hs₂, hb⟩ := hpost
    subst hs₂ hb
    rw [hin, hg, if_pos (show (!false && !false) = true from rfl)]
    refine (addTemporary_adds hs _).bind fun dst s₁ hpost => ?_
    obtain ⟨h₁, hdst⟩ := hpost
    subst hdst
    refine (name_adds h₁.ready _).bind fun k s₂ hpost => ?_
    obtain ⟨h₂, hn⟩ := hpost
    have h := h₁.trans h₂
    rw [h₁.nesting] at h
    refine emitName_roots h hn rfl (fun d i hd hi => ?_) (fun m w d i hn => ?_) fun ρ w => rfl
    · exact Instruction.readable_list [d, i] [] rfl rfl (by simp [hd, hi]) (by decide) (by simp)
    · have hn' : S.hosted.names[i]? = some _ := hn
      simp [HostMachine.operands, Instruction.operands, Opcode.shape, Instruction.operandsFrom, HostMachine.operand,
        hn']
  | native hsource =>
    unfold name fetch
    simp only [hsource]
    refine (name_adds hs _).bind fun k s₁ hpost => ?_
    obtain ⟨h₁, hn⟩ := hpost
    refine (addTemporary_adds h₁.ready _).bind fun dst s₂ hpost => ?_
    obtain ⟨h₂, hdst⟩ := hpost
    subst hdst
    have htemps : s₁.gen.temps = s.gen.temps := h₁.temps
    have h := h₁.trans h₂
    rw [h₁.nesting, htemps] at h
    rw [htemps]
    refine emitName_roots h (h₂.grows.name hn) rfl (fun d i hd hi => Image.readable rfl ?_) (fun m w d i hn => ?_)
      fun ρ w => rfl
    · simp [Instruction.operandsFrom, Opcode.shape, hd, hi]
    · have hn' : S.hosted.names[i]? = some _ := hn
      simp [HostMachine.operands, Instruction.operands, Opcode.shape, Instruction.operandsFrom, HostMachine.operand,
        hn']

theorem ident_origin {id : Ident} (h : (Expr.ident id).origin? ctx = some o) : id.origin? ctx = some o := by
  have hd := open_of_origin? h
  unfold Expr.origin? at h
  rw [hd, if_neg Bool.false_ne_true] at h
  exact h

/-- The code of the first value of a route. -/
theorem expr_roots (hc : FewSlots ctx) (h : x.origin? ctx = some o) (hs : s.Ready) :
    Ends (expr x) ctx s fun a s' => Rooted S o s a s' := by
  have hd := open_of_origin? h
  cases x with
  | ident id => exact expr_ident hd (name_roots hc (nameOf_origin (ident_origin h)) hs)
  | self p i =>
    unfold Expr.origin? at h
    rw [hd, if_neg Bool.false_ne_true] at h
    obtain rfl := Option.some.inj h
    rw [expr]
    refine (direct?_open hd).bind fun r s₁ hpost => ?_
    obtain ⟨hr, hs₁⟩ := hpost
    subst hr hs₁
    refine rooted_place hs rfl fun hi m w c hm hc => ?_
    obtain rfl := Option.some.inj hc
    refine ⟨rfl, rfl, .fixed rfl ⟨Address.encode_lt (show 0 < Address.limit by decide), by simp, fun w => ?_⟩⟩
    rw [Setup.load_encode]
  | _ =>
    unfold Expr.origin? at h
    split at h <;> cases h

end Lower

end GameScript
