import GameScript.Proofs.Execution.Parts
import GameScript.Proofs.Execution.Setup
import GameScript.Proofs.Temporaries.Routes

/-!
# Where the values of a route are

While an assignment is made, the values on the way to its target are in the places that its code keeps for
them. Each temporary is above those of the values before it, so that storing to it leaves them as they are.

* `Setup.KeyAt`, `Setup.Staged`, `Setup.PartsAt` — the places of a key, of the first value and of the others;
* `Lower.setPart_stores`, `Lower.setPart_updates` — what giving a value a new part does there.
-/

namespace GameScript

/-- A key as an operand of an instruction. -/
def PartKey.operand : PartKey → OperandKind × Nat
  | .named n => (.name, n)
  | .keyed a => (.address, a.encode)

namespace Setup

variable {cs : List Value} {V W : Type} {H : Host V W}

/-! ### Places -/

/-- A key is where the code has it, in no temporary from `d` on. -/
inductive KeyAt (S : Setup cs H) (m : Cells V) (d : Nat) : PartKey → Key V → Prop
  | named {i n} : S.names[i]? = some n → KeyAt S m d (.named i) (.named n)
  | keyed {a k} : S.Steady m a k → (a.mode = .temporary → a.index < d) → KeyAt S m d (.keyed a) (.keyed k)
  | slot {a} : a.mode = .member → a.encode < twoTo 32 → KeyAt S m d (.keyed a) (.slot a.index)

/-- The first value of a route is at the address `a`: in a variable, or in a temporary from `e` on and
below `d`. -/
inductive BaseAt (S : Setup cs H) (m : Cells V) (e d : Nat) (a : Address) : Base V → Prop
  | declared {p b} : S.vars.get? p = some b → a.encode = b.encode → BaseAt S m e d a (.declared p)
  | slot : a.mode = .member → a.encode < twoTo 32 → BaseAt S m e d a (.slot a.index)
  | held {v} : a.mode = .temporary → e ≤ a.index → a.index < d → S.Steady m a v → BaseAt S m e d a (.held v)
  | fixed {v} : a.mode = .self → S.Steady m a v → BaseAt S m e d a (.fixed v)

/-- The cells hold the first value of a route at `a` and the variables. -/
structure Staged (S : Setup cs H) (m : Cells V) (e d : Nat) (a : Address) (c : Stage V W) : Prop where
  le : e ≤ d
  full : S.Full m
  vars : S.value m = c.vars
  base : BaseAt S m e d a c.base

/-- The other values of a route are in temporaries from `e` on and below `d`, each with its key below it. -/
inductive PartsAt (S : Setup cs H) (m : Cells V) (e : Nat) : Nat → List LoadedPart → List (Held V) → Prop
  | nil {d} : e ≤ d → PartsAt S m e d [] []
  | cons {d i key k v t ps hs} : i < d → KeyAt S m i key k → S.Steady m ⟨.temporary, i, t⟩ v →
    PartsAt S m e i ps hs → PartsAt S m e d (⟨key, ⟨.temporary, i, t⟩⟩ :: ps) (⟨k, v, t⟩ :: hs)

variable {S : Setup cs H} {m m' : Cells V} {w : W} {d d' e : Nat} {a base : Address} {u v : V}

theorem KeyAt.same {key : PartKey} {k : Key V} (h : KeyAt S m d key k) (hm : Cells.Same d m m') :
    KeyAt S m' d key k := by
  cases h with
  | named hn => exact .named hn
  | keyed hk hlt => exact .keyed (hk.same hm hlt) hlt
  | slot hmode hlt => exact .slot hmode hlt

theorem BaseAt.same {b : Base V} (h : BaseAt S m e d a b) (hm : Cells.Same d m m') : BaseAt S m' e d a b := by
  cases h with
  | declared hp ha => exact .declared hp ha
  | slot hmode hlt => exact .slot hmode hlt
  | held hmode he hlt hv => exact .held hmode he hlt (hv.same hm fun _ => hlt)
  | fixed hmode hv => exact .fixed hmode (hv.same hm fun ht => by rw [hmode] at ht; cases ht)

theorem Staged.same {c : Stage V W} (h : Staged S m e d a c) (hm : Cells.Same d m m') (w : W) :
    Staged S m' e d a { c with world := w } :=
  ⟨h.le, h.full.same hm, (funext (value_same hm)).trans h.vars, h.base.same hm⟩

theorem PartsAt.le {ps : List LoadedPart} {hs : List (Held V)} (h : PartsAt S m e d ps hs) : e ≤ d := by
  induction h with
  | nil hd => exact hd
  | cons hlt _ _ _ ih => exact ih.trans hlt.le

theorem PartsAt.mono {ps : List LoadedPart} {hs : List (Held V)} (h : PartsAt S m e d ps hs) (hd : d ≤ d') :
    PartsAt S m e d' ps hs := by
  cases h with
  | nil he => exact .nil (he.trans hd)
  | cons hlt hk hv hps => exact .cons (hlt.trans_le hd) hk hv hps

theorem PartsAt.same {ps : List LoadedPart} {hs : List (Held V)} (h : PartsAt S m e d ps hs)
    (hm : Cells.Same d m m') : PartsAt S m' e d ps hs := by
  induction h with
  | nil hd => exact .nil hd
  | cons hlt hk hv _ ih =>
    have hm' := hm.mono hlt.le
    exact .cons hlt (hk.same hm') (hv.same hm fun _ => hlt) (ih hm')

/-! ### Reading -/

/-- The first value can be read where it is. -/
theorem Staged.reads {c : Stage V W} (h : Staged S m e d a c) (hu : c.read H = some u) :
    S.Reads m c.world a u := by
  obtain ⟨ρ, w, b⟩ := c
  obtain ⟨-, -, hvars, hb⟩ := h
  cases hb with
  | @declared p b hp ha =>
    have hvalue : S.value m p = some u := (congrFun hvars p).trans hu
    unfold value at hvalue
    rw [hp, Option.bind_some] at hvalue
    refine ⟨ha ▸ Address.encode_lt (S.few p b hp), ?_⟩
    rw [ha, load_encode]
    unfold Cells.stored? at hvalue
    rcases S.modes p b hp with hmode | hmode
    · rw [hmode] at hvalue ⊢
      exact hvalue
    · rw [hmode] at hvalue ⊢
      exact hvalue
  | slot hmode hlt =>
    refine ⟨hlt, ?_⟩
    rw [load_encode, hmode]
    exact hu
  | held _ _ _ hv =>
    obtain rfl := Option.some.inj hu
    exact hv.reads w
  | fixed _ hv =>
    obtain rfl := Option.some.inj hu
    exact hv.reads w

/-- The last value of a route can be read where it is. -/
theorem PartsAt.reads {c : Trail V W} {ps : List LoadedPart} (h : PartsAt S m d' d ps c.parts)
    (hc : Staged S m e d' base c.toStage) (hu : c.last H = some u) :
    S.Reads m c.world (Lower.lastValue base ps) u := by
  obtain ⟨c, hs⟩ := c
  cases h with
  | nil => exact hc.reads hu
  | cons _ _ hv _ =>
    obtain rfl := Option.some.inj hu
    exact hv.reads c.world

theorem KeyAt.narrow {key : PartKey} {k : Key V} (h : KeyAt S m d key k) : key.operand.2 < twoTo 32 := by
  cases h with
  | named hn => exact name_lt hn
  | keyed hk _ => exact hk.narrow
  | slot _ hlt => exact hlt

/-- A key as an operand of the machine. -/
theorem KeyAt.operand {key : PartKey} {k : Key V} {o : Operand V} (h : KeyAt S m d key k)
    (ho : H.operand? k w = some o) : S.hosted.operand m w key.operand = some o := by
  cases h with
  | @named i n hn =>
    obtain rfl := Option.some.inj ho
    have hn' : S.hosted.names[i]? = some n := hn
    simp [PartKey.operand, HostMachine.operand, hn']
  | keyed hk _ =>
    obtain rfl := Option.some.inj ho
    exact operand_address (hk.reads w)
  | slot hmode hlt =>
    obtain ⟨v, hv, rfl⟩ := Option.map_eq_some_iff.mp ho
    refine operand_address ⟨hlt, ?_⟩
    rw [load_encode, hmode]
    exact hv

/-! ### Writing -/

/-- A new first value is stored where the old one is. -/
theorem Staged.store {c c' : Stage V W} (h : Staged S m e d a c) (hc : c.write H v = some c') :
    ∃ m', S.hosted.store m c.world a.encode v = some (m', c'.world) ∧ Staged S m' e d a c' ∧
      Cells.Agree e m m' := by
  obtain ⟨ρ, w, b⟩ := c
  obtain ⟨hle, hfull, hvars, hb⟩ := h
  cases hb with
  | @declared p b hp ha =>
    obtain rfl := Option.some.inj hc
    obtain ⟨m', hstore, htemps, hfull', hvalue, hframe⟩ := store_variable hfull hp ha v w
    refine ⟨m', hstore, ⟨hle, hfull', funext fun q => ?_, .declared hp ha⟩, by rw [htemps], fun _ _ => by rw [htemps]⟩
    by_cases hq : q = p
    · subst hq
      simp [hvalue, Vars.set]
    · rw [hframe q hq]
      show _ = if q = p then some v else ρ q
      rw [if_neg hq]
      exact congrFun hvars q
  | slot hmode hlt =>
    obtain ⟨w', hw, rfl⟩ := Option.map_eq_some_iff.mp hc
    refine ⟨m, ?_, ⟨hle, hfull, hvars, .slot hmode hlt⟩, .refl e m⟩
    unfold HostMachine.store
    rw [Address.ofNumber_encode, Address.encode_div, hmode]
    show (H.setSlot w a.index v).map (m, ·) = _
    rw [hw]
    rfl
  | @held u hmode he hlt hu =>
    obtain rfl := Option.some.inj hc
    obtain ⟨amode, i, t⟩ := a
    obtain rfl : amode = .temporary := hmode
    have hroom := (hu.reads w).room
    have hsame := Cells.same_setTemp m he v
    refine ⟨m.setTemp i v, store_temporary hroom w v, ⟨hle, hfull.same hsame, ?_, ?_⟩, hsame.toAgree⟩
    · exact (funext (value_same hsame)).trans hvars
    · exact .held rfl he hlt (steady_setTemp hroom v)
  | fixed hmode hu =>
    obtain rfl := Option.some.inj hc
    refine ⟨m, ?_, ⟨hle, hfull, hvars, .fixed hmode hu⟩, .refl e m⟩
    unfold HostMachine.store
    rw [Address.ofNumber_encode, Address.encode_div, hmode]

end Setup

/-! ### Code of parts -/

/-- The code between `s` and `s'` leaves what is open as it was. -/
structure Level (s s' : Lowering) : Prop where
  grows : Grows [] s s'
  ready : s'.Ready
  nesting : s'.nesting = s.nesting

section Levels

variable {s s₁ s₂ : Lowering}

theorem Level.refl (h : s.Ready) : Level s s := ⟨.refl s, h, rfl⟩

theorem Level.trans (h₁ : Level s s₁) (h₂ : Level s₁ s₂) : Level s s₂ :=
  ⟨h₁.grows.then h₂.grows, h₂.ready, h₂.nesting.trans h₁.nesting⟩

theorem Adds.level {is : List Instruction} (h : Adds s is s.nesting s₁) : Level s s₁ := ⟨h.grows, h.ready, h.nesting⟩

theorem Level.temps (h : Level s s₁) : s₁.gen.temps = s.gen.temps := congrArg Nesting.temps h.nesting

end Levels

variable {cs : List Value} {V W : Type} {H : Host V W}

/-- The code between `s` and `s'` reads a part of the value at `base` into the temporary `i`. -/
structure LoadsPart (S : Setup cs H) (s s' : Lowering) (i : Nat) (base : Address) (key : PartKey) : Prop
    extends Level s s' where
  runs : S.Covers s' → ∀ m w w' d k u v, Setup.Room m i → S.KeyAt m d key k → S.Reads m w base u →
    H.getPart u k w = some (v, w') → S.hosted.Reaches (S.atEnd s m w) (S.atEnd s' (m.setTemp i v) w')

/-- The code between `s` and `s'` gives the value at `base` a new part, which is at `src`. -/
structure StoresPart (S : Setup cs H) (s s' : Lowering) (base : Address) (key : PartKey) (src : Address) : Prop
    extends Level s s' where
  runs : S.Covers s' → ∀ m m' w w' w₁ d k u v x, S.KeyAt m d key k → S.Reads m w base u → S.Reads m w src x →
    H.setPart u k x w = some (v, w') → S.hosted.store m w' base.encode v = some (m', w₁) →
    S.hosted.Reaches (S.atEnd s m w) (S.atEnd s' m' w₁)

namespace Lower

variable {S : Setup cs H} {ctx : LowerContext} {s : Lowering} {base src : Address} {key : PartKey} {t : StaticType}
  {i : Nat}

theorem getPart_loads (hs : s.Ready) : Ends (getPart ⟨.temporary, i, t⟩ base key) ctx s fun _ s' =>
    LoadsPart S s s' i base key := by
  cases key with
  | named n =>
    refine (emit_adds hs .getNamed _).post fun _ s' h => ⟨h.level, fun hi m w w' d k u v hroom hk hu hget => ?_⟩
    obtain ⟨o, ho, hact⟩ := Option.bind_eq_some_iff.mp hget
    have hkey := hk.operand ho
    have hlt := hk.narrow
    cases hk with
    | named _ =>
      refine Setup.reaches_result rfl h hi (Image.readable rfl ?_) hroom ?_ hact
      · simp [Instruction.operandsFrom, Opcode.shape, hroom.narrow, hu.1, show n < twoTo 32 from hlt]
      · simp [HostMachine.operands, Instruction.operands, Opcode.shape, Instruction.operandsFrom,
          Setup.operand_address hu, show S.hosted.operand m w (.name, n) = some o from hkey]
  | keyed a =>
    refine (emit_adds hs .getIndexed _).post fun _ s' h => ⟨h.level, fun hi m w w' d k u v hroom hk hu hget => ?_⟩
    obtain ⟨o, ho, hact⟩ := Option.bind_eq_some_iff.mp hget
    have hkey := hk.operand ho
    have hlt := hk.narrow
    have hact : H.act .getIndexed [.value u, o] w = some (v, w') := by cases hk <;> exact hact
    refine Setup.reaches_result rfl h hi (Image.readable rfl ?_) hroom ?_ hact
    · simp [Instruction.operandsFrom, Opcode.shape, hroom.narrow, hu.1, show a.encode < twoTo 32 from hlt]
    · simp [HostMachine.operands, Instruction.operands, Opcode.shape, Instruction.operandsFrom,
        Setup.operand_address hu, show S.hosted.operand m w (.address, a.encode) = some o from hkey]

theorem setPart_stores (hs : s.Ready) : Ends (setPart base key src) ctx s fun _ s' =>
    StoresPart S s s' base key src := by
  cases key with
  | named n =>
    refine (emit_adds hs .setNamed _).post fun _ s' h =>
      ⟨h.level, fun hi m m' w w' w₁ d k u v x hk hu hx hset hstore => ?_⟩
    obtain ⟨o, ho, hact⟩ := Option.bind_eq_some_iff.mp hset
    have hkey := hk.operand ho
    have hlt := hk.narrow
    cases hk with
    | named _ =>
      refine Setup.reaches_operation (t := .updated) rfl nofun h hi (Image.readable rfl ?_) ?_ hact
        hstore
      · simp [Instruction.operandsFrom, Opcode.shape, hx.1, hu.1, show n < twoTo 32 from hlt]
      · simp [HostMachine.operands, Instruction.operands, Opcode.shape, Instruction.operandsFrom,
          Setup.operand_address hu, Setup.operand_address hx,
          show S.hosted.operand m w (.name, n) = some o from hkey]
  | keyed a =>
    refine (emit_adds hs .setIndexed _).post fun _ s' h =>
      ⟨h.level, fun hi m m' w w' w₁ d k u v x hk hu hx hset hstore => ?_⟩
    obtain ⟨o, ho, hact⟩ := Option.bind_eq_some_iff.mp hset
    have hkey := hk.operand ho
    have hlt := hk.narrow
    have hact : H.act .setIndexed [.value u, o, .value x] w = some (v, w') := by cases hk <;> exact hact
    refine Setup.reaches_operation (t := .updated) rfl nofun h hi (Image.readable rfl ?_) ?_ hact
      hstore
    · simp [Instruction.operandsFrom, Opcode.shape, hx.1, hu.1, show a.encode < twoTo 32 from hlt]
    · simp [HostMachine.operands, Instruction.operands, Opcode.shape, Instruction.operandsFrom,
        Setup.operand_address hu, Setup.operand_address hx,
        show S.hosted.operand m w (.address, a.encode) = some o from hkey]

end Lower

end GameScript

/-!
## Code that stores values back

What the code of an assignment does once the new value is computed: it gives the last value on the way that
value as a part, and stores each value into the one before it unless it is shared.
-/

namespace GameScript

variable {cs : List Value} {V W : Type} {H : Host V W} {S : Setup cs H} {ctx : LowerContext} {s s' : Lowering}
  {base src : Address} {key : PartKey} {ps : List LoadedPart} {m : Cells V} {w w' : W} {e d d' i : Nat} {k : Key V}
  {u v x : V} {t : StaticType}

/-! ### One value -/

/-- Where the first value of a route gets a new part, and what is in its place then. -/
theorem Setup.Staged.setPart {c c' : Stage V W} (hc : S.Staged m e d base c) (hset : c.setPart H k x = some c') :
    ∃ u v w' m', S.Reads m c.world base u ∧ H.setPart u k x c.world = some (v, w') ∧
      S.hosted.store m w' base.encode v = some (m', c'.world) ∧ S.Staged m' e d base c' ∧ Cells.Agree e m m' := by
  obtain ⟨u, hu, hset⟩ := Option.bind_eq_some_iff.mp hset
  obtain ⟨⟨v, w'⟩, hset, hwrite⟩ := Option.bind_eq_some_iff.mp hset
  obtain ⟨m', hstore, hc', hagree⟩ := (hc.same (.refl d m) w').store hwrite
  exact ⟨u, v, w', m', hc.reads hu, hset, hstore, hc', hagree⟩

/-- The code between `s` and `s'` gives the value at `base` the value at `src` as a part, unless that is
shared. -/
structure StoresUnshared (S : Setup cs H) (s s' : Lowering) (base : Address) (key : PartKey) (src : Address) : Prop
    extends Level s s' where
  skips : S.Covers s' → ∀ m w x, S.Steady m src x → H.shared? src.type x = some true →
    S.hosted.Reaches (S.atEnd s m w) (S.atEnd s' m w)
  runs : S.Covers s' → ∀ m m' w w' w₁ d k u v x, S.KeyAt m d key k → S.Reads m w base u → S.Steady m src x →
    H.shared? src.type x = some false → H.setPart u k x w = some (v, w') →
    S.hosted.store m w' base.encode v = some (m', w₁) → S.hosted.Reaches (S.atEnd s m w) (S.atEnd s' m' w₁)

namespace Lower

/-- What a type says about sharing is so. -/
theorem shared?_of_known {b b' : Bool} (ht : t.sharing? = some b) (h : H.shared? t x = some b') : b = b' := by
  unfold Host.shared? at h
  rw [ht] at h
  dsimp only at h
  split at h
  · exact Option.some.inj h
  · cases h

theorem isShared_of_unknown {b : Bool} (ht : t.sharing? = none) (h : H.shared? t x = some b) : H.isShared x = b := by
  unfold Host.shared? at h
  rw [ht] at h
  exact Option.some.inj h

/-- Gives a value a new part, unless that is shared. -/
def storeUnshared (base : Address) (key : PartKey) (src : Address) : Lower Unit :=
  match src.type.sharing? with
  | some true => pure ()
  | some false => setPart base key src
  | none => do
    let skip ← Gen.newLabel
    Gen.emit .jumpIfShared [src.encode, skip]
    setPart base key src
    Gen.bind skip

theorem writeBack_cons (base : Address) (p : LoadedPart) (ps : List LoadedPart) :
    writeBack base (p :: ps) = storeUnshared (lastValue base ps) p.key p.value >>= fun _ => writeBack base ps := by
  rw [writeBack]
  unfold storeUnshared
  cases p.value.type.sharing? with
  | none => simp only [bind_assoc]
  | some b => cases b <;> rfl

theorem storeUnshared_stores (hs : s.Ready) : Ends (storeUnshared base key src) ctx s fun _ s' =>
    StoresUnshared S s s' base key src := by
  unfold storeUnshared
  cases ht : src.type.sharing? with
  | some b =>
    cases b with
    | true =>
      refine ⟨.refl hs, fun _ m w x _ _ => .refl _, fun _ m m' w w' w₁ d k u v x _ _ _ hshared => ?_⟩
      cases shared?_of_known ht hshared
    | false =>
      refine (setPart_stores (S := S) hs).post fun _ s₁ h₁ => ⟨h₁.toLevel, fun _ m w x _ hshared => ?_,
        fun hi m m' w w' w₁ d k u v x hk hu hx _ => h₁.runs hi m m' w w' w₁ d k u v x hk hu (hx.reads w)⟩
      cases shared?_of_known ht hshared
  | none =>
    refine (newLabel_adds hs).bind fun skip s₁ ⟨h₁, hskip⟩ => ?_
    refine (emit_adds h₁.ready _ _).bind fun _ s₂ h₂ => ?_
    refine (setPart_stores (S := S) h₂.ready).bind fun _ s₃ h₃ => ?_
    have hlt : skip < s₃.gen.binds.length := hskip.trans_le (h₂.grows.then h₃.grows).labels
    refine (bind_adds h₃.ready hlt).post fun _ s₄ ⟨h₄, hl₄⟩ => ?_
    have hjump : S.Covers s₄ → ∀ m w x, S.Steady m src x → S.hosted.Reaches (S.atEnd s m w)
        (if H.isShared x then S.atEnd s₄ m w else S.atEnd s₂ m w) := fun hi m w x hx => by
      have hi₂ := hi.of_grows (h₃.grows.then h₄.grows)
      have hreach := Setup.reaches_branch .jumpIfShared rfl h₂ hi₂ (hx.reads w)
      rw [← Setup.atEnd_eq_label hi hl₄, ← Setup.atEnd_of_adds h₄, Setup.atEnd_of_adds h₁] at hreach
      exact hreach
    refine ⟨(h₁.level.trans h₂.level).trans (h₃.toLevel.trans h₄.level), fun hi m w x hx hshared => ?_,
      fun hi m m' w w' w₁ d k u v x hk hu hx hshared hset hstore => ?_⟩
    · have hreach := hjump hi m w x hx
      rwa [isShared_of_unknown ht hshared, if_pos rfl] at hreach
    · have hreach := hjump hi m w x hx
      rw [isShared_of_unknown ht hshared, if_neg (by simp)] at hreach
      rw [Setup.atEnd_of_adds h₄]
      exact hreach.trans (h₃.runs (hi.of_grows h₄.grows) m m' w w' w₁ d k u v x hk hu (hx.reads w) hset hstore)

end Lower

/-! ### All values -/

/-- The code between `s` and `s'` stores the values of a route back. -/
structure StoresBack (S : Setup cs H) (s s' : Lowering) (base : Address) (ps : List LoadedPart) : Prop
    extends Level s s' where
  idle : ps = [] → ∀ m w, S.atEnd s' m w = S.atEnd s m w
  runs : S.Covers s' → ∀ m e d d' (c c' : Stage V W) h hs, S.Staged m e d base c → S.PartsAt m d d' ps (h :: hs) →
    c.storeBack H h hs = some c' → ∃ m', S.hosted.Reaches (S.atEnd s m c.world) (S.atEnd s' m' c'.world) ∧
      S.Staged m' e d base c' ∧ Cells.Agree e m m'

namespace Setup

/-- The last value of a route is replaced where it is. -/
theorem PartsAt.setTemp {c : Stage V W} {hs : List (Held V)}
    (h : S.PartsAt m d d' (⟨key, ⟨.temporary, i, t⟩⟩ :: ps) (⟨k, u, t⟩ :: hs)) (hc : S.Staged m e d base c) (v : V)
    (w : W) : S.PartsAt (m.setTemp i v) d d' (⟨key, ⟨.temporary, i, t⟩⟩ :: ps) (⟨k, v, t⟩ :: hs) ∧
      S.Staged (m.setTemp i v) e d base { c with world := w } ∧ Cells.Agree e m (m.setTemp i v) := by
  cases h with
  | cons hlt hk hu hps =>
    have hsame := Cells.same_setTemp m (le_refl i) v
    refine ⟨.cons hlt (hk.same hsame) (steady_setTemp (hu.reads w).room v) (hps.same hsame),
      hc.same (hsame.mono hps.le) w, (hsame.mono (hc.le.trans hps.le)).toAgree⟩

end Setup

namespace Lower

/-- The code that stores values back does it in the reverse order. -/
theorem writeBack_stores (hs : s.Ready) : Ends (writeBack base ps) ctx s fun _ s' => StoresBack S s s' base ps := by
  induction ps generalizing s with
  | nil => exact ⟨.refl hs, fun _ _ _ => rfl, fun _ _ _ _ _ _ _ _ _ _ hp => nomatch hp⟩
  | cons p ps ih =>
    rw [writeBack_cons]
    refine (storeUnshared_stores (S := S) hs).bind fun _ s₁ h₁ => ?_
    refine (ih h₁.ready).post fun _ s₂ h₂ => ⟨h₁.toLevel.trans h₂.toLevel, nofun, ?_⟩
    intro hi m e d d' c c' h hs hc hp hback
    have hi₁ := hi.of_grows h₂.grows
    cases hp with
    | @cons _ i key k v t _ _ hlt hk hv hps =>
      cases hps with
      | nil hle =>
        simp only [Stage.storeBack] at hback
        obtain ⟨b, hb, hback⟩ := Option.bind_eq_some_iff.mp hback
        cases b with
        | true =>
          obtain rfl := Option.some.inj hback
          refine ⟨m, ?_, hc, .refl e m⟩
          rw [h₂.idle rfl]
          exact h₁.skips hi₁ m c.world v hv hb
        | false =>
          obtain ⟨u, v₁, w₁, m', hu, hset, hstore, hc', hagree⟩ := hc.setPart hback
          refine ⟨m', ?_, hc', hagree⟩
          rw [h₂.idle rfl]
          exact h₁.runs hi₁ m m' c.world w₁ c'.world i k u v₁ v hk hu hv hb hset hstore
      | @cons _ i' key' k' v' t' ps' hs' hlt' hk' hv' hps' =>
        have hparts : S.PartsAt m d i (⟨key', ⟨.temporary, i', t'⟩⟩ :: ps') (⟨k', v', t'⟩ :: hs') :=
          .cons hlt' hk' hv' hps'
        simp only [Stage.storeBack] at hback
        obtain ⟨b, hb, hback⟩ := Option.bind_eq_some_iff.mp hback
        cases b with
        | true =>
          obtain ⟨m', hreach, hc', hagree⟩ := h₂.runs hi m e d i c c' _ _ hc hparts hback
          exact ⟨m', (h₁.skips hi₁ m c.world v hv hb).trans hreach, hc', hagree⟩
        | false =>
          obtain ⟨⟨u, w⟩, hset, hback⟩ := Option.bind_eq_some_iff.mp hback
          have hroom := (hv'.reads c.world).room
          have hreach₁ := h₁.runs hi₁ m _ c.world w w i k v' u v hk (hv'.reads c.world) hv hb hset
            (Setup.store_temporary hroom w u)
          obtain ⟨hparts', hc₁, hagree₁⟩ := hparts.setTemp hc u w
          obtain ⟨m', hreach₂, hc', hagree₂⟩ := h₂.runs hi _ e d i _ c' _ _ hc₁ hparts' hback
          exact ⟨m', hreach₁.trans hreach₂, hc', hagree₁.trans hagree₂⟩

end Lower

end GameScript
