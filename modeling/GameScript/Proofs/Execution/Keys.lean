import GameScript.Proofs.Execution.Addresses

/-!
# Code of keys

A key that is computed stays as it is while the values on the way to a target are stored back. A variable of
the instance that is a key by itself is read whenever the key is used. No other key is in such a variable
(`Lower.expr_leftAt`).
-/

namespace GameScript

variable {cs : List Value} {V W : Type} {H : Host V W}

/-- The code between `s` and `s'` computes a key. -/
structure KeyObtained (S : Setup cs H) (K : Vars V → W → Option (Key V × W)) (s : Lowering) (key : PartKey)
    (s' : Lowering) : Prop extends Stacks s s' where
  holds : key.Holds s.gen.temps s'.gen.temps
  runs : S.Covers s' → ∀ m w k w', S.Full m → K (S.value m) w = some (k, w') → ∃ m',
    S.hosted.Reaches (S.atEnd s m w) (S.atEnd s' m' w') ∧ Cells.Same s.gen.temps.length m m' ∧
      S.KeyAt m' s'.gen.temps.length key k

namespace Setup

variable {S : Setup cs H} {m : Cells V} {w : W} {a : Address} {v : V}

/-- What is in no variable of the instance is there whatever the world is like. -/
theorem Reads.steady_of_ne (h : S.Reads m w a v) (ha : a.mode ≠ .member) : S.Steady m a v := by
  refine ⟨h.1, ha, fun w' => ?_⟩
  have hv := h.2
  rw [load_encode] at hv ⊢
  cases hmode : a.mode with
  | member => exact absurd hmode ha
  | _ =>
    rw [hmode] at hv
    exact hv

end Setup

theorem Holds.index_lt {before after : List StaticType} {a : Address} (h : Holds before a after)
    (ha : a.mode = .temporary) : a.index < after.length := by
  unfold Holds at h
  rw [if_pos (by simp [Address.isTemporary, ha])] at h
  obtain ⟨hi, t, rfl⟩ := h
  simp [hi]

namespace Lower

variable {S : Setup cs H} {ctx : LowerContext} {s s₁ s₂ : Lowering} {x y : Expr} {o : Origin} {i : Nat} {a : Address}
  {eval : Meaning V W} {t : StaticType}

/-! ### Keys -/

/-- What refers to a variable of the instance is that variable. -/
theorem slot_ends (hc : FewSlots ctx) (h : x.slot? ctx = some i) : Ends (expr x) ctx s fun a s' =>
    s' = s ∧ a.mode = .member ∧ a.index = i ∧ a.encode < twoTo 32 := by
  fun_induction Expr.slot? ctx x with
  | case1 | case4 => cases h
  | case2 x u j hn ih =>
    obtain ⟨hd, ht⟩ : (Expr.cast x u j).isDirect ctx = false ∧ j.type.isVariant = true := by simpa using hn
    rw [expr]
    refine (direct?_open hd).bind fun r s₁ hpost => ?_
    obtain ⟨hr, hs₁⟩ := hpost
    subst hr hs₁
    unfold cast
    dsimp only
    rw [ht, if_pos rfl]
    exact ih h
  | case3 x _ k setter ho =>
    obtain rfl := Option.some.inj h
    cases x with
    | ident id => exact expr_ident (open_of_origin? ho) (name_slot hc (nameOf_origin (ident_origin ho)))
    | _ =>
      unfold Expr.origin? at ho
      split at ho <;> cases ho

/-- The code of a key computes it. -/
theorem key_obtains (hc : FewSlots ctx) (h : y.slot? ctx = none → Means S ctx (expr y) (eval y)) (hs : s.Ready) :
    Ends (expr y) ctx s fun a s' =>
      KeyObtained S (fun ρ w => eval.key ctx ρ y w) s (.keyed a) s' := by
  unfold Meaning.key
  cases hslot : y.slot? ctx with
  | some i =>
    refine (slot_ends hc hslot).post fun a s₁ hpost => ?_
    obtain ⟨hs₁, hmode, hindex, hlt⟩ := hpost
    subst hs₁ hindex
    have ha : a.isTemporary = false := by simp [Address.isTemporary, hmode]
    refine ⟨(Level.refl hs).stacks, holds_of_not_temporary ha _, fun _ m w k w' _ hk => ?_⟩
    obtain ⟨rfl, rfl⟩ := Prod.mk.inj (Option.some.inj hk)
    exact ⟨m, .refl _, .refl _ m, .slot hmode hlt⟩
  | none =>
    refine (After.and (h hslot s hs) (expr_leftAt y)).post fun a s₁ hpost => ?_
    obtain ⟨hy, hleft⟩ := hpost
    have ha := hleft.outside hslot hs
    refine ⟨hy.toStacks, hy.holds, fun hi m w k w' hm hk => ?_⟩
    obtain ⟨⟨v, w₁⟩, heval, hpair⟩ := Option.map_eq_some_iff.mp hk
    obtain ⟨rfl, rfl⟩ := Prod.mk.inj hpair
    obtain ⟨m', hreach, hsame, hv⟩ := hy.runs hi m w v w₁ hm heval
    exact ⟨m', hreach, hsame, .keyed (hv.steady_of_ne ha) hy.holds.index_lt⟩

/-- A name as a key. -/
theorem name_obtains (hs : s.Ready) (n : Text) : Ends (Gen.name n) ctx s fun i s' =>
    KeyObtained S (fun _ w => some (.named n, w)) s (.named i) s' := by
  refine (name_adds hs n).post fun i s₁ ⟨h₁, hn⟩ => ⟨h₁.level.stacks, h₁.temps, fun hi m w k w' _ hk => ?_⟩
  obtain ⟨rfl, rfl⟩ := Prod.mk.inj (Option.some.inj hk)
  rw [← Setup.atEnd_of_adds h₁]
  exact ⟨m, .refl _, .refl _ m, .named (hi.name hn)⟩

end Lower

end GameScript
