import GameScript.Proofs.Compilation.Records

/-!
# How compilations end

A file is compiled in the middle of others, and what goes wrong in one ends all those that wait for it. What
is recorded is right at every moment of this.

* `Compile.Goes` — a step of compilation keeps what is recorded, also if it fails;
* `draft_goes`, `compileBase_goes`, `compileFile_onward` — compilation does so.
-/

namespace GameScript

namespace Compile

variable {α β : Type} {start unit : Nat} {c c' : Compiler}

/-! ### Steps that keep what is recorded -/

/-- From `c`, a step for the file `unit` **goes on** with the same classes under way to a result that satisfies
`Q`. If it fails, some more classes of the file are left under way. -/
def Goes (start unit : Nat) (x : Compile α) (c : Compiler) (Q : α → Compiler → Prop) : Prop :=
  After x c (fun a c' => Onward start c c' ∧ c'.drafting = c.drafting ∧ Q a c') fun _ c' =>
    Onward start c c' ∧ ∀ id ∈ c'.drafting, id ∈ c.drafting ∨ id.unit = unit

/-- A step after others. -/
theorem Goes.after {x : Compile α} {Q : α → Compiler → Prop} (hx : Goes start unit x c' Q) (h : Onward start c c')
    (hstack : ∀ id ∈ c'.drafting, id ∈ c.drafting ∨ id.unit = unit) :
    After x c' (fun a c'' => Onward start c c'' ∧ c''.drafting = c'.drafting ∧ Q a c'') fun _ c'' =>
      Onward start c c'' ∧ ∀ id ∈ c''.drafting, id ∈ c.drafting ∨ id.unit = unit := by
  refine After.mono hx (fun _ _ h' => ⟨h.trans h'.1, h'.2⟩) fun _ _ h' => ⟨h.trans h'.1, fun id hid => ?_⟩
  exact (h'.2 id hid).elim (hstack id) .inr

theorem Goes.bind {x : Compile α} {f : α → Compile β} {P : α → Compiler → Prop} {Q : β → Compiler → Prop}
    (hx : Goes start unit x c P)
    (hf : ∀ a c', Onward start c c' → c'.drafting = c.drafting → P a c' → Goes start unit (f a) c' Q) :
    Goes start unit (x >>= f) c Q := by
  refine After.bind hx fun a c' ⟨h, hd, ha⟩ => ?_
  refine ((hf a c' h hd ha).after h fun id hid => .inl (hd ▸ hid)).mono ?_ fun _ _ h' => h'
  exact fun _ _ h' => ⟨h'.1, h'.2.1.trans hd, h'.2.2⟩

theorem pure_goes (h : Consistent start c) {Q : α → Compiler → Prop} {a : α} (ha : Q a c) :
    Goes start unit (pure a : Compile α) c Q := ⟨.refl h, rfl, ha⟩

/-- The same is done with each element of a list, and what comes of each stays. -/
theorem forM_goes {f : α → Compile PUnit} {R : α → Compiler → Prop} {xs : List α} (h : Consistent start c)
    (hR : ∀ a c c', Onward start c c' → R a c → R a c')
    (hf : ∀ a ∈ xs, ∀ c', Onward start c c' → c'.drafting = c.drafting → Goes start unit (f a) c' fun _ => R a) :
    Goes start unit (xs.forM f) c fun _ c' => ∀ a ∈ xs, R a c' := by
  induction xs generalizing c with
  | nil => exact pure_goes h fun a ha => by cases ha
  | cons x xs ih =>
    refine (hf x List.mem_cons_self c (.refl h) rfl).bind fun _ c₁ h₁ hd₁ hx => ?_
    refine After.mono (ih h₁.consistent fun a ha c₂ h₂ hd₂ => ?_) (fun _ c₂ h₂ => ?_) fun _ _ h₂ => h₂
    · exact hf a (List.mem_cons_of_mem x ha) c₂ (h₁.trans h₂) (hd₂.trans hd₁)
    · refine ⟨h₂.1, h₂.2.1, fun a ha => ?_⟩
      rcases List.mem_cons.1 ha with rfl | ha
      · exact hR a c₁ c₂ h₂.1 hx
      · exact h₂.2.2 a ha

/-- A script of the library is found. -/
theorem foreign_goes (h : Consistent start c) {n i : Nat} {s : Script} (hs : c.library.Has n i s) :
    Goes start unit (foreign (n, i)) c fun r c' => r.1 = .foreign n i ∧ c'.library.Has n i r.2 := by
  unfold foreign Goes
  rw [after_bind, after_get]
  dsimp only
  rw [hs.foreign n]
  exact ⟨.refl h, rfl, rfl, hs⟩

/-! ### Tables -/

theorem Inherits.indexed {ref : Option ScriptRef} {ms : List MemberSlot} (h : Consistent start c)
    (hms : Inherits c unit ref ms) : ∀ (i : Nat) (m : MemberSlot), ms[i]? = some m → m.index = i := by
  cases hms with
  | none => exact fun i m hm => by simp at hm
  | own _ ht => exact (h.drafted _ _ ht).indexed
  | foreign hs => exact h.whole.indexed _ _ _ hs

/-- A class is begun unless it is under way already. -/
theorem enter_goes (h : Consistent start c) {id : DeclId} (hhas : c.session.Has id)
    (hbusy : c.outcomes.get? (c.session.pathOf id.unit) = some .compiling) (r : ClassRecord) :
    After (enter id r) c
      (fun _ c' => c' = { c with drafting := id :: c.drafting, entered := id :: c.entered } ∧ id ∉ c.drafting)
      fun _ c' => Onward start c c' ∧ ∀ d ∈ c'.drafting, d ∈ c.drafting ∨ d.unit = id.unit := by
  have hentered := h.enter hhas hbusy (id :: c.entered)
  have hstack : ∀ d ∈ id :: c.drafting, d ∈ c.drafting ∨ d.unit = id.unit := by
    intro d hd
    rcases List.mem_cons.1 hd with rfl | hd
    · exact .inr rfl
    · exact .inl hd
  unfold enter
  rw [after_bind, after_get]
  dsimp only
  split
  · exact ⟨.refl h, fun d hd => .inl hd⟩
  · rename_i hmem
    have hnew : id ∉ c.drafting := by simpa using hmem
    rw [after_bind, after_set]
    split
    · split
      · exact ⟨hentered, hstack⟩
      · exact ⟨rfl, hnew⟩
    · exact ⟨rfl, hnew⟩

/-- The variables of a class come after those that its table has from the base. -/
theorem complete_goes (h : Onward start c c') {id : DeclId} {r : ClassRecord} {table : Script}
    (hnew : id ∉ c.drafting) (hmem : id ∈ c'.drafting) (hnone : c'.drafts.get? id = none)
    (hhas : c'.session.Has id) (hdecl : c'.session.declOf id = some r.decl)
    (htable : Inherits c' id.unit table.base table.members) :
    After (complete id r table) c'
      (fun t c'' => Onward start c c'' ∧ c''.drafting = c'.drafting ∧ c''.session = c'.session ∧
        c''.drafts.get? id = some t) fun _ _ => False := by
  unfold complete
  rw [after_bind, after_get, after_bind, after_set, after_pure]
  dsimp only
  obtain ⟨hbase, hmembers⟩ := addMembers_eq c'.session id.unit r.decl.members table
  generalize r.decl.members.foldl (addMember c'.session id.unit) table = t at hbase hmembers
  have hindexed : table.Indexed := htable.indexed h.consistent
  have hdrafted : Drafted c' id t := by
    refine ⟨hhas, indexed_of_append hindexed c'.session id.unit r.decl.members hmembers, table.members, c'.session, ?_, .refl, ?_⟩
    · rw [hbase]
      exact htable
    · rw [membersOf_eq hdecl]
      exact hmembers
  refine ⟨h.complete hnew hmem hnone hdrafted, rfl, rfl, ?_⟩
  rw [Table.get?_set, if_pos rfl]

/-! ### Programs -/

/-- What the compilation of a file adds to a compiler: the program, and the numbers of its scripts. -/
def Adds (unit n : Nat) (c c' : Compiler) (p : Program) : Prop :=
  n = c.library.length ∧ c' = { c with
    library := c.library ++ [p]
    scripts := ⟨c.scripts.entries ++ (classIds c.session unit).zipIdx.map fun (id, i) => (id, (c.library.length, i))⟩ }

/-- A file is lowered and its program added when all its tables are there. -/
theorem build_goes (h : Consistent start c) (hunit : unit < c.session.files.length)
    (hbusy : c.outcomes.get? (c.session.pathOf unit) = some .compiling)
    (hstack : ∀ id ∈ c.drafting, id.unit ≠ unit) (path : Text) (pos : Pos) {draft : Compile Script}
    (hd : Goes start unit draft c fun t c' => c'.drafts.get? (Session.mainClass unit) = some t) :
    After (build unit path pos draft) c
      (fun n c'' => ∃ c' p, Onward start c c' ∧ c'.drafting = c.drafting ∧
        List.Forall₂ (fun id s => ∃ t, c'.drafts.get? id = some t ∧ Completes t s) (classIds c'.session unit) p.scripts ∧
        Adds unit n c' c'' p)
      fun _ c' => Onward start c c' ∧ ∀ id ∈ c'.drafting, id ∈ c.drafting ∨ id.unit = unit := by
  unfold build
  rw [after_bind, after_get]
  dsimp only
  split
  · exact ⟨.refl h, fun id hid => .inl hid⟩
  · refine After.bind hd fun t c₁ h₁ => ?_
    obtain ⟨h₁, hd₁, hmain⟩ := h₁
    rw [after_bind, after_get, after_bind, after_modify]
    split
    · rename_i he
      have hp : lowerFile c₁ unit = ((lowerFile c₁ unit).1, none) := Prod.ext rfl he
      obtain ⟨f, hf⟩ : ∃ f, c₁.session.trees[unit]? = some f := by
        have hlt : unit < c₁.session.trees.length := c₁.session.length_trees ▸ hunit.trans_le h₁.grows.files
        exact ⟨_, List.getElem?_eq_getElem hlt⟩
      have hall := h₁.consistent.all_drafted hf (Option.isSome_iff_exists.2 ⟨t, hmain⟩) (hd₁ ▸ hstack)
        ((congrArg c₁.outcomes.get? (h₁.grows.path unit hunit)).trans (h₁.outcomes _ _ hbusy))
      refine ⟨_, (lowerFile c₁ unit).1, h₁.same (t := c₁.trace ++ [(lowerFile c₁ unit).1]), hd₁, ?_, rfl, rfl⟩
      refine (List.forall₂_and_left _ _).2 ⟨hall, lowerFile_completes hf hp⟩ |>.imp ?_
      rintro id s ⟨⟨t, ht⟩, hs⟩
      refine ⟨t, ht, ?_⟩
      rwa [draftOf, ht] at hs
    · exact ⟨h₁.same, fun id hid => .inl (hd₁ ▸ hid)⟩

/-! ### Compilation -/

mutual

/-- The table of a class is drafted, or what is recorded is kept. -/
theorem draft_goes (fuel : Nat) {c : Compiler} {id : DeclId} (h : Consistent start c) (hhas : c.session.Has id)
    (hbusy : c.outcomes.get? (c.session.pathOf id.unit) = some .compiling) :
    Goes start id.unit (draft fuel id) c fun t c' => c'.drafts.get? id = some t := by
  match fuel with
  | 0 => exact ⟨.refl h, fun d hd => .inl hd⟩
  | fuel + 1 =>
    unfold draft Goes
    rw [after_bind, after_get]
    dsimp only
    split
    · rename_i t _ ht
      exact pure_goes h ht
    · rename_i hnone
      obtain ⟨r, hr⟩ := (c.session.has_iff id).1 hhas
      rw [hnone] at hr
      cases hr
    · rename_i r hnone hr
      have hfacts : r.facts = c.session.types.classes id := by simp [Session.types, hr]
      refine (enter_goes h hhas hbusy r).bind fun _ c₁ h₁ => ?_
      obtain ⟨hc₁, hnew⟩ := h₁
      have hstack : c₁.drafting = id :: c.drafting := by rw [hc₁]
      have hsession : c₁.session = c.session := by rw [hc₁]
      have hnone₁ : c₁.drafts.get? id = none := by rw [hc₁]; exact hnone
      have hbusy₁ : c₁.outcomes.get? (c₁.session.pathOf id.unit) = some .compiling := by rw [hc₁]; exact hbusy
      have hentered : Onward start c c₁ := hc₁ ▸ h.enter hhas hbusy _
      clear hc₁
      have hunder : ∀ d ∈ c₁.drafting, d ∈ c.drafting ∨ d.unit = id.unit := by
        intro d hd
        rw [hstack] at hd
        rcases List.mem_cons.1 hd with rfl | hd
        · exact .inr rfl
        · exact .inl hd
      -- What the table has from the base.
      have hbase : ∀ {x : Compile Script},
          Goes start id.unit x c₁ (fun table c₂ => Inherits c₂ id.unit table.base table.members) →
          After x c₁ (fun table c₂ => (Onward start c c₂ ∧ Onward start c₁ c₂) ∧ c₂.drafting = c₁.drafting ∧
            Inherits c₂ id.unit table.base table.members)
            fun _ c₂ => Onward start c c₂ ∧ ∀ d ∈ c₂.drafting, d ∈ c.drafting ∨ d.unit = id.unit := by
        intro x hx
        exact (After.mono hx (fun _ _ h' => ⟨⟨hentered.trans h'.1, h'.1⟩, h'.2⟩) fun _ _ h' =>
          ⟨hentered.trans h'.1, fun d hd => (h'.2 d hd).elim (hunder d) .inr⟩)
      have hblank : ∀ native : Text, Goes start id.unit (pure { blank c.session id r with native }) c₁
          fun table c₂ => Inherits c₂ id.unit table.base table.members :=
        fun native => pure_goes hentered.consistent .none
      refine After.bind (hbase ?_) fun table c₂ h₂ => ?_
      · split
        · rename_i b ancestor hshape
          have hderives : c.session.DerivesFrom id b :=
            ⟨ancestor, (congrArg (fun f : ClassFacts => f.base.shape) hfacts).symm.trans hshape⟩
          have hhasb : c.session.Has b := (h.sound.settled id b hderives).has
          split
          · -- A class of the same file.
            rename_i hpath
            have hunit : b.unit = id.unit := h.regular.unit_eq (h.unit_lt hhasb) (h.unit_lt hhas) hpath
            have hgoes : Goes start b.unit (draft fuel b) c₁ fun t c₂ => c₂.drafts.get? b = some t :=
              draft_goes fuel hentered.consistent (hsession ▸ hhasb) (hunit ▸ hbusy₁)
            rw [hunit] at hgoes
            refine hgoes.bind fun t c₂ h₂ _ ht => pure_goes h₂.consistent ?_
            show Inherits c₂ id.unit (some (.own _)) t.members
            refine .own (b := b) ?_ ht
            rw [classIds_of_events h (hentered.events.trans h₂.events) (h.unit_lt hhas)]
            exact List.getElem?_idxOf (hunit ▸ h.regular.known b hhasb)
          · -- A class of another file.
            refine (compileBase_goes fuel hentered.consistent (hsession ▸ hhasb)).bind fun x c₂ h₂ _ hx =>
              pure_goes h₂.consistent ?_
            obtain ⟨n, i, href, hs⟩ := hx
            show Inherits c₂ id.unit (some x.1) x.2.members
            rw [href]
            exact .foreign hs
        · -- A script that is known in compiled form.
          split
          · rename_i number hnumber
            obtain ⟨s, hs⟩ := h.origins number (List.mem_of_getElem? hnumber)
            refine (foreign_goes hentered.consistent (hs.mono hentered.library)).bind fun x c₂ h₂ _ hx =>
              pure_goes h₂.consistent ?_
            show Inherits c₂ id.unit (some x.1) x.2.members
            rw [hx.1]
            exact .foreign hx.2
          · exact hblank _
        · exact hblank _
      · obtain ⟨⟨h₂, hunderway⟩, hd₂, htable⟩ := h₂
        have hmem : id ∈ c₂.drafting := by rw [hd₂, hstack]; exact List.mem_cons_self
        have hnone₂ : c₂.drafts.get? id = none := by
          rw [hunderway.underway id (by rw [hstack]; exact List.mem_cons_self)]
          exact hnone₁
        have hdecl : c₂.session.declOf id = some r.decl := h₂.grows.decl id _ (by simp [Session.declOf, hr])
        refine After.bind (After.mono (complete_goes h₂ hnew hmem hnone₂ (h₂.grows.has hhas) hdecl htable)
          (fun _ _ h₃ => h₃) fun _ _ h₃ => h₃.elim) fun t c₃ h₃ => ?_
        obtain ⟨h₃, hd₃, -, ht⟩ := h₃
        have hstack₃ : c₃.drafting = id :: c.drafting := by rw [hd₃, hd₂, hstack]
        rw [after_bind, after_get]
        -- The classes inside come last.
        have hinner : Goes start id.unit ((innerIds c₃.session id).forM fun inner => do let _ ← draft fuel inner) c₃
            fun _ c₄ => ∀ d ∈ innerIds c₃.session id, (c₄.drafts.get? d).isSome := by
          refine forM_goes h₃.consistent (fun d c₄ c₅ h₅ hd => ?_) fun d hd c₄ h₄ _ => ?_
          · obtain ⟨t, ht⟩ := Option.isSome_iff_exists.1 hd
            exact Option.isSome_iff_exists.2 ⟨t, h₅.drafts d t ht⟩
          · have hunit : d.unit = id.unit := Session.unit_of_mem_innerIds hd
            have hhasd : c₄.session.Has d := h₄.grows.has (h₃.consistent.filed.has_inner hd)
            have hpath : c₄.session.pathOf d.unit = c.session.pathOf id.unit := by
              rw [hunit]
              exact (h₃.grows.trans h₄.grows).path _ (h.unit_lt hhas)
            have hgoes : Goes start d.unit (draft fuel d) c₄ fun t c₅ => c₅.drafts.get? d = some t :=
              draft_goes fuel h₄.consistent hhasd ((congrArg c₄.outcomes.get? hpath).trans ((h₃.trans h₄).outcomes _ _ hbusy))
            rw [hunit] at hgoes
            refine hgoes.bind fun t c₅ h₅ _ ht => pure_goes h₅.consistent ?_
            exact Option.isSome_iff_exists.2 ⟨t, ht⟩
        have hunder₃ : ∀ d ∈ c₃.drafting, d ∈ c.drafting ∨ d.unit = id.unit := by
          rw [hstack₃, ← hstack]
          exact hunder
        refine (After.mono hinner (fun _ _ h' => h') fun _ _ h' =>
          ⟨h₃.trans h'.1, fun d hd => (h'.2 d hd).elim (hunder₃ d) .inr⟩).bind fun _ c₄ h₄ => ?_
        obtain ⟨h₄, hd₄, hall⟩ := h₄
        have hstack₄ : c₄.drafting = id :: c.drafting := hd₄.trans hstack₃
        rw [after_bind, after_modify]
        refine ⟨(h₃.trans h₄).leave hstack₄ fun d hd => ?_, ?_, h₄.drafts id t ht⟩
        · exact hall d ((Session.mem_innerIds_grows h₄.grows (h₃.grows.has hhas)).1 hd)
        · show c₄.drafting.erase id = c.drafting
          rw [hstack₄, List.erase_cons_head]

/-- The script of a class in another file is one of a program. -/
theorem compileBase_goes (fuel : Nat) {c : Compiler} {unit : Nat} {pos : Pos} {base : DeclId}
    (h : Consistent start c) (hhas : c.session.Has base) :
    Goes start unit (compileBase fuel unit pos base) c
      fun r c' => ∃ n i, r.1 = .foreign n i ∧ c'.library.Has n i r.2 := by
  match fuel with
  | 0 => exact ⟨.refl h, fun d hd => .inl hd⟩
  | fuel + 1 =>
    -- The file of the base has been loaded before.
    have hlt := h.unit_lt hhas
    obtain ⟨other, hcache⟩ := h.filed.loaded base.unit hlt
    obtain ⟨hother, -⟩ := h.filed.cached _ other hcache
    have hfetch : c.session.fetch (c.session.pathOf base.unit) = (.ok other, c.session) := by
      unfold Session.fetch
      rw [hcache]
    obtain ⟨honward, hdrafting⟩ := compileFile_onward fuel h hother
    have hstack : ∀ d ∈ ((compileFile fuel other).run c).2.drafting, d ∈ c.drafting ∨ d.unit = unit :=
      fun d hd => .inl (hdrafting ▸ hd)
    unfold compileBase Goes
    rw [after_bind, after_get]
    dsimp only
    rw [hfetch]
    dsimp only
    rw [after_bind, after_set, after_bind, after_lift]
    split
    · exact ⟨honward, hstack⟩
    · rw [after_bind, after_get]
      split
      · rename_i number hnumber
        obtain ⟨-, -, s, hs⟩ := honward.consistent.scripts base number.1 number.2 hnumber
        refine ((foreign_goes honward.consistent hs).after honward hstack).mono ?_ fun _ _ h' => h'
        exact fun _ _ h' => ⟨h'.1, h'.2.1.trans hdrafting, number.1, number.2, h'.2.2⟩
      · exact ⟨honward, hstack⟩

/-- However the compilation of a file ends, what is recorded is kept. -/
theorem compileFile_onward (fuel : Nat) {c : Compiler} {unit : Nat} (h : Consistent start c)
    (hunit : unit < c.session.files.length) : Onward start c ((compileFile fuel unit).run c).2 ∧
      ((compileFile fuel unit).run c).2.drafting = c.drafting := by
  match fuel with
  | 0 => exact ⟨.refl h, rfl⟩
  | fuel + 1 =>
    rw [run_compileFile]
    split
    · exact ⟨.refl h, rfl⟩
    · exact ⟨.refl h, rfl⟩
    · exact ⟨.refl h, rfl⟩
    · rename_i hnone
      have hbegun := h.begin hunit hnone
      have hgrows : c.session.Grows (begun c unit).session :=
        (Session.Event.raise unit .body hunit).grows h.sound h.filed
      have hpath : (begun c unit).session.pathOf unit = c.session.pathOf unit := hgrows.path unit hunit
      have hunit' := hunit.trans_le hgrows.files
      have hbusy : (begun c unit).outcomes.get? ((begun c unit).session.pathOf unit) = some .compiling := by
        rw [hpath]
        exact outcome_begun (.refl hbegun)
      -- The classes under way are in other files, as this one has not been begun.
      have hstack : ∀ id ∈ (begun c unit).drafting, id.unit ≠ unit := by
        rintro id hid rfl
        obtain ⟨-, hout⟩ := h.busy id hid
        rw [hnone] at hout
        cases hout
      have hgoes := build_goes hbegun hunit' hbusy hstack (c.session.pathOf unit) (startOf c.session unit)
        (draft_goes fuel hbegun (hbegun.filed.main unit hunit') hbusy)
      have hbuild : ∀ r, (build unit (c.session.pathOf unit) (startOf c.session unit)
          (draft fuel (Session.mainClass unit))).run (begun c unit) = r →
          Onward start c { r.2 with
            outcomes := r.2.outcomes.set (c.session.pathOf unit) (outcomeOf r.1)
            drafting := c.drafting } := by
        intro r hr
        unfold After at hgoes
        rw [hr] at hgoes
        rcases r with ⟨e | n, c''⟩
        · exact Onward.fail h hunit hnone hgoes.1 e hgoes.2
        · obtain ⟨c', p, h', hdrafting, hscripts, rfl, rfl⟩ := hgoes
          obtain ⟨f, hf⟩ : ∃ f, c'.session.trees[unit]? = some f := by
            have hlt : unit < c'.session.trees.length := c'.session.length_trees ▸ hunit'.trans_le h'.grows.files
            exact ⟨_, List.getElem?_eq_getElem hlt⟩
          exact Onward.file h hunit hnone h' hf hdrafting hscripts
      exact ⟨hbuild _ rfl, rfl⟩

end

end Compile

end GameScript
