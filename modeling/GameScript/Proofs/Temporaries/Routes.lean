import GameScript.Proofs.Temporaries.Parts

/-!
# Temporaries of assignments

An assignment to a part of a value keeps every value on the way to it, with the keys that are computed,
until it has stored them back. `Routed` says what is on the stack then.
-/

namespace GameScript

/-! ### Stacks with a route -/

/-- The stack `after` is `before` with a slot for the key of a part if it is in a temporary. -/
def PartKey.Holds (before : List StaticType) : PartKey → List StaticType → Prop
  | .named _, after => after = before
  | .keyed k, after => GameScript.Holds before k after

/-- A key in a temporary below `m`. -/
def PartKey.Below (m : Nat) : PartKey → Prop
  | .named _ => True
  | .keyed k => TempBelow m k.encode

/-- The stack `after` is `before` with slots for the keys and the values of a route. -/
inductive PartsHold (before : List StaticType) : List LoadedPart → List StaticType → Prop
  | nil : PartsHold before [] before
  | cons {p ps mid mid' after} : PartsHold before ps mid → p.key.Holds mid mid' →
    Holds mid' p.value after → PartsHold before (p :: ps) after

/-- The keys and the values of a route are below `m`. -/
def PartsBelow (m : Nat) (ps : List LoadedPart) : Prop :=
  ∀ p ∈ ps, p.key.Below m ∧ TempBelow m p.value.encode

theorem PartKey.Holds.length_le {before after : List StaticType} {k : PartKey}
    (h : k.Holds before after) : before.length ≤ after.length := by
  cases k with
  | named n =>
    rw [show after = before from h]
  | keyed a => exact GameScript.Holds.length_le h

theorem PartKey.Holds.below {before after : List StaticType} {k : PartKey} (h : k.Holds before after)
    {m : Nat} (hm : after.length ≤ m) : k.Below m := by
  cases k with
  | named n => trivial
  | keyed a => exact (GameScript.Holds.below h hm).encode

theorem PartKey.Below.mono {k : PartKey} {m n : Nat} (h : k.Below m) (hmn : m ≤ n) : k.Below n := by
  cases k with
  | named n => trivial
  | keyed a => exact TempBelow.mono h hmn

theorem PartsHold.length_le {before after : List StaticType} {ps : List LoadedPart}
    (h : PartsHold before ps after) : before.length ≤ after.length := by
  induction h with
  | nil => exact le_rfl
  | cons _ hk hv ih => exact le_trans ih (le_trans hk.length_le hv.length_le)

theorem PartsHold.below_of_le {before after : List StaticType} {ps : List LoadedPart}
    (h : PartsHold before ps after) {m : Nat} (hm : after.length ≤ m) : PartsBelow m ps := by
  induction h with
  | nil => simp [PartsBelow]
  | cons _ hk hv ih =>
    intro p hp
    have hmid := le_trans hv.length_le hm
    rcases List.mem_cons.mp hp with rfl | hp
    · exact ⟨hk.below hmid, (hv.below hm).encode⟩
    · exact ih (le_trans hk.length_le hmid) p hp

theorem PartsBelow.mono {ps : List LoadedPart} {m n : Nat} (h : PartsBelow m ps) (hmn : m ≤ n) :
    PartsBelow n ps :=
  fun p hp => ⟨(h p hp).1.mono hmn, (h p hp).2.mono hmn⟩

/-- A sound state `s'` after `s`, with slots for the values of a route and their keys. -/
structure Routed (s : Lowering) (r : Route) (s' : Lowering) : Prop where
  sound : s'.Sound
  holds : ∃ mid, Holds s.gen.temps r.base mid ∧ PartsHold mid r.parts s'.gen.temps
  maxTemps : s.gen.maxTemps ≤ s'.gen.maxTemps

theorem Routed.base_below {s s' : Lowering} {r : Route} (h : Routed s r s') :
    TempBelow s'.gen.maxTemps r.base.encode := by
  obtain ⟨mid, hb, hp⟩ := h.holds
  exact (hb.below (le_trans hp.length_le h.sound.gen.depth)).encode

theorem Routed.parts_below {s s' : Lowering} {r : Route} (h : Routed s r s') :
    PartsBelow s'.gen.maxTemps r.parts := by
  obtain ⟨mid, -, hp⟩ := h.holds
  exact hp.below_of_le h.sound.gen.depth

namespace Lower

variable {ctx : LowerContext} {s s₁ s₂ : Lowering} {a : Address}

theorem lastValue_below {base : Address} {ps : List LoadedPart} {m : Nat}
    (hb : TempBelow m base.encode) (hp : PartsBelow m ps) : TempBelow m (lastValue base ps).encode := by
  cases ps with
  | nil => exact hb
  | cons p ps => exact (hp p (by simp)).2

/-! ### Values that are stored -/

/-- The value to be stored, if `present` computes a value wherever the bound is at least that of `s`. -/
theorem storedValue_yields {v : StoredValue} (hv : Yields v.rhs) {present : Lower Address}
    (hs : s.Sound) (hp : ∀ s', s'.Sound → s.gen.maxTemps ≤ s'.gen.maxTemps →
      After present ctx s' (fun a s'' => Yielded s' a s'') Benign) :
    After (storedValue v present) ctx s (fun a s' => Yielded s a s') Benign := by
  unfold storedValue
  split
  · exact hv ctx s hs
  · refine (addTemporary_yields _ ctx s hs).bind fun dst s₁ hd => ?_
    refine (hp s₁ hd.sound hd.maxTemps).bind fun x s₂ hx => ?_
    refine (hv ctx s₂ hx.sound).bind fun y s₃ hy => ?_
    refine (emit_keeps hy.sound ?_).bind fun _ s₄ h₄ => ?_
    · simp
      grind
    refine (release_keeps (hy.kept h₄)).bind fun _ s₅ h₅ => ?_
    refine (release_keeps (hx.kept h₅)).bind fun _ s₆ h₆ => ?_
    exact hd.kept h₆

theorem assignName_keeps (id : Ident) {v : StoredValue} (hv : Yields v.rhs) :
    Keeps (assignName id v) := by
  have hstored : Yields (storedValue v (name id)) := fun ctx s hs =>
    storedValue_yields hv hs fun s' hs' _ => name_yields id ctx s' hs'
  have hlocal : Keeps (do
      let dst ← localVar id
      let src ← storedValue v (name id)
      assign dst src v.converts
      Gen.release src) := by
    intro ctx s hs
    refine (localVar_finds id ctx s hs).bind fun dst s₁ ⟨h₁, hd⟩ => ?_
    refine (hstored ctx s₁ h₁.sound).bind fun src s₂ hx => ?_
    refine (assign_keeps _ hx.sound (tempBelow_of_not_temporary hd _) (hx.operand le_rfl)).bind
      fun _ s₃ h₃ => ?_
    exact (release_keeps (hx.kept h₃)).post fun _ _ => h₁.trans
  unfold assignName
  split
  · exact hlocal
  · exact hlocal
  · exact hlocal
  · exact hlocal
  · intro ctx s hs
    refine (member_keeps _ _ ctx s hs).bind fun m s₁ h₁ => ?_
    refine (hstored ctx s₁ h₁.sound).bind fun src s₂ hx => ?_
    have hend : ∀ s₃, Kept s₂ s₃ → After (Gen.release src) ctx s₃ (fun _ s' => Kept s s') Benign :=
      fun s₃ h₃ => (release_keeps (hx.kept h₃)).post fun _ _ => h₁.trans
    rw [after_bind, after_inAccessor]
    dsimp only
    split
    · refine (name_gen_keeps _ ctx s₂ hx.sound).bind fun i s₃ h₃ => ?_
      refine (emitList_keeps h₃.sound ?_).bind fun _ s₄ h₄ => hend s₄ (h₃.trans h₄)
      simpa using hx.operand h₃.maxTemps
    · refine (assign_keeps _ hx.sound ?_ (hx.operand le_rfl)).bind fun _ => hend
      exact tempBelow_of_not_temporary rfl _
  · intro ctx s hs
    refine (hstored ctx s hs).bind fun src s₁ hx => ?_
    refine (name_gen_keeps _ ctx s₁ hx.sound).bind fun i s₂ h₂ => ?_
    refine (emit_keeps h₂.sound ?_).bind fun _ s₃ h₃ => release_keeps (hx.kept (h₂.trans h₃))
    simpa using hx.operand h₂.maxTemps
  · exact fun ctx s hs => benign_internal rfl

/-! ### Parts of values -/

theorem getPart_keeps {dst base : Address} {key : PartKey} (hs : s.Sound)
    (hd : TempBelow s.gen.maxTemps dst.encode) (hb : TempBelow s.gen.maxTemps base.encode)
    (hk : key.Below s.gen.maxTemps) :
    After (getPart dst base key) ctx s (fun _ s' => Kept s s') Benign := by
  cases key with
  | named n => exact emit_keeps hs (by simpa using ⟨hd, hb⟩)
  | keyed k => exact emit_keeps hs (by simpa using ⟨hd, hb, hk⟩)

theorem setPart_keeps {base value : Address} {key : PartKey} (hs : s.Sound)
    (hb : TempBelow s.gen.maxTemps base.encode) (hk : key.Below s.gen.maxTemps)
    (hv : TempBelow s.gen.maxTemps value.encode) :
    After (setPart base key value) ctx s (fun _ s' => Kept s s') Benign := by
  cases key with
  | named n => exact emit_keeps hs (by simpa using ⟨hb, hv⟩)
  | keyed k => exact emit_keeps hs (by simpa using ⟨hb, hk, hv⟩)

/-- Releasing the key on top returns to the stack before it. -/
theorem after_releaseKey {key : PartKey} {before : List StaticType} (hs : s.Sound)
    (hk : key.Holds before s.gen.temps) :
    After (releaseKey key) ctx s
      (fun _ s' => s'.Sound ∧ s'.gen.temps = before ∧ s.gen.maxTemps ≤ s'.gen.maxTemps) Benign := by
  cases key with
  | named n => exact ⟨hs, hk, le_rfl⟩
  | keyed k => exact after_release hs hk

/-- Releasing the values and keys of a route returns to the stack before them. -/
theorem after_releaseParts {ps : List LoadedPart} {before : List StaticType} (hs : s.Sound)
    (hp : PartsHold before ps s.gen.temps) :
    After (releaseParts ps) ctx s
      (fun _ s' => s'.Sound ∧ s'.gen.temps = before ∧ s.gen.maxTemps ≤ s'.gen.maxTemps) Benign := by
  induction ps generalizing s with
  | nil =>
    generalize ht : s.gen.temps = after at hp
    cases hp
    exact ⟨hs, ht, le_rfl⟩
  | cons p ps ih =>
    generalize ht : s.gen.temps = after at hp
    cases hp with
    | cons hps hk hv =>
      unfold releaseParts
      refine (after_release hs (ht ▸ hv)).bind fun _ s₁ ⟨hs₁, ht₁, hm₁⟩ => ?_
      refine (after_releaseKey hs₁ (ht₁ ▸ hk)).bind fun _ s₂ ⟨hs₂, ht₂, hm₂⟩ => ?_
      refine (ih hs₂ (ht₂ ▸ hps)).post fun _ s₃ ⟨hs₃, ht₃, hm₃⟩ => ?_
      exact ⟨hs₃, ht₃, le_trans hm₁ (le_trans hm₂ hm₃)⟩

theorem writeBack_keeps {base : Address} {ps : List LoadedPart} (hs : s.Sound)
    (hb : TempBelow s.gen.maxTemps base.encode) (hp : PartsBelow s.gen.maxTemps ps) :
    After (writeBack base ps) ctx s (fun _ s' => Kept s s') Benign := by
  induction ps generalizing s with
  | nil => exact .refl hs
  | cons p ps ih =>
    obtain ⟨hk, hv⟩ := hp p (by simp)
    have hps : PartsBelow s.gen.maxTemps ps := fun q hq => hp q (by simp [hq])
    have hnext : ∀ s', Kept s s' → After (writeBack base ps) ctx s' (fun _ s'' => Kept s' s'') Benign :=
      fun s' h => ih h.sound (hb.mono h.maxTemps) (hps.mono h.maxTemps)
    have hstore : ∀ s', Kept s s' → After (setPart (lastValue base ps) p.key p.value) ctx s'
        (fun _ s'' => Kept s' s'') Benign := fun s' h =>
      setPart_keeps h.sound ((lastValue_below hb hps).mono h.maxTemps) (hk.mono h.maxTemps)
        (hv.mono h.maxTemps)
    unfold writeBack
    dsimp only
    split
    · exact hnext s (.refl hs)
    · exact (hstore s (.refl hs)).keeping fun _ => hnext
    · refine (newLabel_keeps ctx s hs).bind fun l s₁ h₁ => ?_
      refine (emit_keeps h₁.sound ?_).bind fun _ s₂ h₂ => ?_
      · simpa using hv.mono h₁.maxTemps
      refine (hstore s₂ (h₁.trans h₂)).bind fun _ s₃ h₃ => ?_
      refine (bind_keeps l ctx s₃ h₃.sound).bind fun _ s₄ h₄ => ?_
      have h := ((h₁.trans h₂).trans h₃).trans h₄
      exact (hnext s₄ h).post fun _ _ => h.trans

theorem storeRoot_keeps (id : Ident) {value : Address} (hs : s.Sound)
    (hv : TempBelow s.gen.maxTemps value.encode) :
    After (storeRoot id value) ctx s (fun _ s' => Kept s s') Benign := by
  unfold storeRoot
  split
  · exact .refl hs
  · split
    · rw [after_bind, after_read]
      split
      · rw [after_bind, after_inAccessor]
        split
        · refine (name_gen_keeps _ ctx s hs).keeping fun i s₁ h₁ => emitList_keeps h₁.sound ?_
          simpa using hv.mono h₁.maxTemps
        · exact .refl hs
      · exact .refl hs
    · refine (name_gen_keeps _ ctx s hs).keeping fun i s₁ h₁ => emit_keeps h₁.sound ?_
      simpa using hv.mono h₁.maxTemps
    · exact .refl hs

/-- A sound state `s'` after `s`, with a slot for a key. -/
structure Keyed (s : Lowering) (key : PartKey) (s' : Lowering) : Prop where
  sound : s'.Sound
  holds : key.Holds s.gen.temps s'.gen.temps
  maxTemps : s.gen.maxTemps ≤ s'.gen.maxTemps

theorem Keyed.below {key : PartKey} (h : Keyed s key s₁) : key.Below s₁.gen.maxTemps :=
  h.holds.below h.sound.gen.depth

theorem keyed_named (h : Kept s s₁) (n : Nat) : Keyed s (.named n) s₁ := ⟨h.sound, h.temps, h.maxTemps⟩

theorem keyed_keyed (h : Yielded s a s₁) : Keyed s (.keyed a) s₁ := ⟨h.sound, h.holds, h.maxTemps⟩

theorem loadPart_routes {r : Route} {key : PartKey} (hr : Routed s r s₁) (hk : Keyed s₁ key s₂)
    (t : StaticType) : After (loadPart r key t) ctx s₂ (fun r' s' => Routed s r' s') Benign := by
  unfold loadPart
  refine (addTemporary_yields t ctx s₂ hk.sound).bind fun value s₃ hv => ?_
  have hm := le_trans hk.maxTemps hv.maxTemps
  have hlast := lastValue_below (hr.base_below.mono hm) (hr.parts_below.mono hm)
  refine (getPart_keeps hv.sound (hv.operand le_rfl) hlast (hk.below.mono hv.maxTemps)).bind
    fun _ s₄ h₄ => ?_
  obtain ⟨mid, hb, hp⟩ := hr.holds
  refine ⟨h₄.sound, ⟨mid, hb, .cons hp hk.holds (h₄.temps.symm ▸ hv.holds)⟩, ?_⟩
  exact le_trans hr.maxTemps (le_trans hm h₄.maxTemps)

theorem assignPart_keeps {r : Route} {key : PartKey} {v : StoredValue} (hr : Routed s r s₁)
    (hk : Keyed s₁ key s₂) (hv : Yields v.rhs) :
    After (assignPart r key v) ctx s₂ (fun _ s' => Kept s s') Benign := by
  obtain ⟨mid, hb, hp⟩ := hr.holds
  have hbase := hr.base_below.mono hk.maxTemps
  have hparts := hr.parts_below.mono hk.maxTemps
  have htarget := lastValue_below hbase hparts
  have hsrc : After (storedValue v do
      let dst ← Gen.addTemporary v.type
      getPart dst (lastValue r.base r.parts) key
      return dst) ctx s₂ (fun a s' => Yielded s₂ a s') Benign := by
    refine storedValue_yields hv hk.sound fun s' hs' hm => ?_
    refine (addTemporary_yields _ ctx s' hs').bind fun dst s₃ hd => ?_
    have hm₃ := le_trans hm hd.maxTemps
    refine (getPart_keeps hd.sound (hd.operand le_rfl) (htarget.mono hm₃) (hk.below.mono hm₃)).bind
      fun _ s₄ h₄ => ?_
    exact hd.kept h₄
  unfold assignPart
  refine hsrc.bind fun src s₃ hx => ?_
  refine (setPart_keeps hx.sound (htarget.mono hx.maxTemps) (hk.below.mono hx.maxTemps)
    (hx.operand le_rfl)).bind fun _ s₄ h₄ => ?_
  refine (release_keeps (hx.kept h₄)).bind fun _ s₅ h₅ => ?_
  refine (writeBack_keeps h₅.sound (hbase.mono h₅.maxTemps) (hparts.mono h₅.maxTemps)).bind
    fun _ s₆ h₆ => ?_
  have h₂₆ := h₅.trans h₆
  have hroot : After (r.root.forM (storeRoot · r.base)) ctx s₆ (fun _ s' => Kept s₆ s') Benign := by
    cases r.root with
    | none => exact .refl h₆.sound
    | some id => exact storeRoot_keeps id h₆.sound (hbase.mono h₂₆.maxTemps)
  refine hroot.bind fun _ s₇ h₇ => ?_
  have h₂₇ := h₂₆.trans h₇
  refine (after_releaseKey h₇.sound (h₂₇.temps ▸ hk.holds)).bind fun _ s₈ ⟨hs₈, ht₈, hm₈⟩ => ?_
  refine (after_releaseParts hs₈ (ht₈ ▸ hp)).bind fun _ s₉ ⟨hs₉, ht₉, hm₉⟩ => ?_
  refine (after_release hs₉ (ht₉ ▸ hb)).post fun _ s' ⟨hs', ht', hm'⟩ => ⟨hs', ht', ?_⟩
  have := hr.maxTemps
  have := hk.maxTemps
  have := h₂₇.maxTemps
  omega

end Lower

end GameScript
