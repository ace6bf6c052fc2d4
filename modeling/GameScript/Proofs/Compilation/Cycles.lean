import GameScript.Proofs.Compilation.Awaits
import GameScript.Proofs.Construction.Files
import GameScript.Proofs.Inheritance.Reached
import Mathlib.Data.List.Chain

/-!
# Cyclic references between tables

* `CompileError.Acyclic` — an error with another cause than classes that wait for each other;
* `Compile.Queue` — the classes under way wait for each other in turn;
* `Compile.Proceeds` — a step of compilation goes on or fails with such an error;
* `Compiler.compile_acyclic` — a cyclic reference is reported only if some class waits for itself.
-/

namespace GameScript

/-- An error **with another cause than a cycle**: an error of the analysis, a fault of the source or of the
compiler, or a base whose file could not be compiled for such a cause. -/
inductive CompileError.Acyclic : CompileError → Prop
  | analysis (path : Text) (es : List AnalysisError) : Acyclic (.analysis path es)
  | fault {f : CompileFault} (path : Text) (pos : Pos) : f.aboutTables = false → Acyclic (.fault path pos f)
  | base {e : CompileError} (path : Text) (pos : Pos) (name : Text) : e.Acyclic →
      Acyclic (.fault path pos (.base name e.message))

namespace Compile

variable {α β : Type} {room : Nat} {c c' : Compiler}

/-! ### What compilation keeps up -/

/-- The session of a compiler is one of a project, and recorded errors have another cause than a cycle. -/
structure Steady (room : Nat) (c : Compiler) : Prop where
  reached : c.session.Reached
  failed : ∀ path e, c.outcomes.get? path = some (.failed e) → e.Acyclic ∨ c.session.Entangled room

/-- A compiler has gone on to another: the session has grown, and no file is left half compiled. -/
structure Advances (room : Nat) (c c' : Compiler) : Prop where
  steady : Steady room c'
  grows : c.session.Grows c'.session
  compiling : ∀ path, c'.outcomes.get? path = some .compiling → c.outcomes.get? path = some .compiling
  drafts : ∀ id, (c.drafts.get? id).isSome → (c'.drafts.get? id).isSome

theorem Advances.refl (h : Steady room c) : Advances room c c := ⟨h, .refl _, fun _ h => h, fun _ h => h⟩

theorem Advances.trans {c'' : Compiler} (h : Advances room c c') (h' : Advances room c' c'') :
    Advances room c c'' :=
  ⟨h'.steady, h.grows.trans h'.grows, fun path hp => h.compiling path (h'.compiling path hp),
    fun id hid => h'.drafts id (h.drafts id hid)⟩

/-- A change of neither the session nor an outcome nor the tables. -/
theorem Advances.same (h : Advances room c c') {c'' : Compiler} (hs : c''.session = c'.session)
    (ho : c''.outcomes = c'.outcomes) (hd : c''.drafts = c'.drafts) : Advances room c c'' := by
  refine ⟨⟨hs ▸ h.steady.reached, ?_⟩, hs ▸ h.grows, ho ▸ h.compiling, hd ▸ h.drafts⟩
  rw [hs, ho]
  exact h.steady.failed

theorem After.mono {x : Compile α} {Q Q' : α → Compiler → Prop} {E E' : CompileError → Compiler → Prop}
    (h : After x c Q E) (hQ : ∀ a c', Q a c' → Q' a c') (hE : ∀ e c', E e c' → E' e c') : After x c Q' E' := by
  unfold After at h ⊢
  revert h
  rcases x.run c with ⟨_ | a, c'⟩
  · exact hE _ c'
  · exact hQ a c'

/-- From `c`, a step goes on with the same classes under way, or fails with another cause than a cycle. -/
def Proceeds (room : Nat) (x : Compile α) (c : Compiler) : Prop :=
  After x c (fun _ c' => Advances room c c' ∧ c'.drafting = c.drafting) fun e c' =>
    Advances room c c' ∧ (e.Acyclic ∨ c'.session.Entangled room)

/-- A step after others. -/
theorem Proceeds.after {x : Compile α} (hx : Proceeds room x c') (h : Advances room c c') :
    After x c' (fun _ c'' => Advances room c c'' ∧ c''.drafting = c'.drafting) fun e c'' =>
      Advances room c c'' ∧ (e.Acyclic ∨ c''.session.Entangled room) :=
  After.mono hx (fun _ _ h' => ⟨h.trans h'.1, h'.2⟩) fun _ _ h' => ⟨h.trans h'.1, h'.2⟩

theorem Proceeds.bind {x : Compile α} {f : α → Compile β} (hx : Proceeds room x c)
    (hf : ∀ a c', Advances room c c' → c'.drafting = c.drafting → Proceeds room (f a) c') :
    Proceeds room (x >>= f) c := by
  refine After.bind hx fun a c' h => ?_
  exact ((hf a c' h.1 h.2).after h.1).mono (fun _ _ h' => ⟨h'.1, h'.2.trans h.2⟩) fun _ _ h' => h'

theorem Proceeds.run {x : Compile α} (hx : Proceeds room x c) : Advances room c (x.run c).2 ∧
    ∀ e, (x.run c).1 = .error e → e.Acyclic ∨ (x.run c).2.session.Entangled room := by
  unfold Proceeds After at hx
  revert hx
  rcases x.run c with ⟨e | a, c'⟩
  · exact fun h => ⟨h.1, fun e' he => by cases he; exact h.2⟩
  · exact fun h => ⟨h.1, fun e' he => by cases he⟩

theorem pure_proceeds (h : Steady room c) (a : α) : Proceeds room (pure a : Compile α) c := ⟨.refl h, rfl⟩

theorem forM_proceeds {f : α → Compile PUnit} {xs : List α} (h : Steady room c)
    (hf : ∀ a ∈ xs, ∀ c', Advances room c c' → c'.drafting = c.drafting → Proceeds room (f a) c') :
    Proceeds room (xs.forM f) c := by
  induction xs generalizing c with
  | nil => exact pure_proceeds h _
  | cons x xs ih =>
    refine (hf x List.mem_cons_self c (.refl h) rfl).bind fun _ c₁ h₁ hd₁ => ih h₁.steady fun a ha c₂ h₂ hd₂ => ?_
    exact hf a (List.mem_cons_of_mem x ha) c₂ (h₁.trans h₂) (hd₂.trans hd₁)

theorem foreign_proceeds (h : Steady room c) (number : Nat × Nat) : Proceeds room (foreign number) c := by
  unfold foreign Proceeds
  rw [after_bind, after_get]
  split
  · exact pure_proceeds h _
  · exact pure_proceeds h _

/-! ### Classes under way -/

/-- Classes **queue**: each one is awaited by the next, and all of them have been loaded. -/
structure Queue (s : Session) (ids : List DeclId) : Prop where
  chain : ids.IsChain fun d e => s.Awaits e d
  nodup : ids.tail.Nodup
  has : ∀ d ∈ ids.tail, s.Has d

theorem Queue.grows {s s' : Session} {ids : List DeclId} (h : Queue s ids) (hs : s.Sound) (hf : s.Filed)
    (hgrows : s.Grows s') : Queue s' ids :=
  ⟨h.chain.imp fun _ _ h => h.grows hs hf hgrows, h.nodup, fun d hd => hgrows.has (h.has d hd)⟩

/-- The last one in a queue is reached from each of them. -/
theorem Queue.reaches {s : Session} {id d : DeclId} {ids : List DeclId} (h : Queue s (id :: ids)) (hd : d ∈ ids) :
    Relation.TransGen s.Awaits d id := by
  have hchain := h.chain
  clear h
  induction ids generalizing id with
  | nil => cases hd
  | cons e ids ih =>
    rw [List.isChain_cons_cons] at hchain
    rcases List.mem_cons.1 hd with rfl | hd
    · exact .single hchain.1
    · exact (ih hd hchain.2).tail hchain.1

theorem length_le_of_has {s : Session} {ids : List DeclId} (hnodup : ids.Nodup) (hhas : ∀ d ∈ ids, s.Has d) :
    ids.length ≤ s.classes.entries.length := by
  have hkeys : ids ⊆ s.classes.keys := by
    intro d hd
    obtain ⟨r, hr⟩ := (s.has_iff d).1 (hhas d hd)
    exact Session.isSome_get?_iff.1 (by rw [hr]; rfl)
  have hle := (List.subperm_of_subset hnodup hkeys).length_le
  rwa [Table.keys, List.length_map] at hle

/-- No more classes queue than there are. -/
theorem Queue.length_le {s : Session} {id : DeclId} {ids : List DeclId} (h : Queue s (id :: ids)) :
    ids.length ≤ s.classes.entries.length := length_le_of_has h.nodup h.has

/-- The tables of a class can be drafted: it is next in the queue, the tables of guarded classes around it are
there, a file is being compiled only if its class is in the queue, and there is room for what the queue can
grow by. -/
structure Next (room fuel : Nat) (id : DeclId) (c : Compiler) : Prop where
  steady : Steady room c
  queue : Queue c.session (id :: c.drafting)
  around : ∀ b, c.session.Inside b id → c.session.Guarded b → (c.drafts.get? b).isSome
  compiling : ∀ path, c.outcomes.get? path = some .compiling →
    ∃ u < c.session.files.length, c.session.pathOf u = path ∧ Session.mainClass u ∈ id :: c.drafting
  enough : room ≤ fuel + 3 * c.drafting.length

/-- Without fuel there is no room. -/
theorem Next.entangled {id : DeclId} (h : Next room 0 id c) : c.session.Entangled room := by
  have hlength := h.queue.length_le
  have henough := h.enough
  exact .inr (by omega)

/-- The tables around a class that has been begun stay there. -/
theorem Next.around_of_advances {fuel : Nat} {id b : DeclId} (h : Next room fuel id c) (hhas : c.session.Has id)
    (h' : Advances room c c') (hb : c'.session.Inside b id) (hguarded : c'.session.Guarded b) :
    (c'.drafts.get? b).isSome := by
  obtain ⟨hs, hf⟩ := h.steady.reached.sound
  have hold : c.session.Has b := hb.has_of_grows hf h'.grows hhas
  exact h'.drafts b (h.around b (hb.of_grows hf h'.grows hold) (hguarded.of_grows hs hf h'.grows hold))

/-- The class that comes after one that has been begun. -/
theorem Next.next {fuel : Nat} {id d : DeclId} (h : Next room (fuel + 1) id c) (hnew : id ∉ c.drafting)
    (hhas : c.session.Has id) (h' : Advances room c c') (hstack : c'.drafting = id :: c.drafting)
    (hd : c'.session.Awaits id d)
    (haround : ∀ b, c'.session.Inside b d → c'.session.Guarded b → (c'.drafts.get? b).isSome) :
    Next room fuel d c' := by
  obtain ⟨hs, hf⟩ := h.steady.reached.sound
  have hqueue := h.queue.grows hs hf h'.grows
  refine ⟨h'.steady, ⟨?_, ?_, fun e he => ?_⟩, haround, fun path hp => ?_, ?_⟩
  · rw [hstack]
    exact List.isChain_cons_cons.2 ⟨hd, hqueue.chain⟩
  · rw [hstack]
    exact List.nodup_cons.2 ⟨hnew, hqueue.nodup⟩
  · rw [List.tail_cons, hstack] at he
    rcases List.mem_cons.1 he with rfl | he
    · exact h'.grows.has hhas
    · exact hqueue.has e he
  · obtain ⟨u, hu, hpath, hmem⟩ := h.compiling path (h'.compiling path hp)
    rw [hstack]
    exact ⟨u, hu.trans_le h'.grows.files, (h'.grows.path u hu).trans hpath, List.mem_cons_of_mem d hmem⟩
  · have henough := h.enough
    rw [hstack, List.length_cons]
    omega

/-- A class is begun unless it is in the queue already, and then it waits for itself. -/
theorem enter_after {fuel : Nat} {id : DeclId} (h : Next room fuel id c) (r : ClassRecord) :
    After (enter id r) c
      (fun _ c' => c' = { c with drafting := id :: c.drafting, entered := id :: c.entered } ∧ id ∉ c.drafting)
      fun e c' => Advances room c c' ∧ (e.Acyclic ∨ c'.session.Entangled room) := by
  have hentered : Advances room c { c with drafting := id :: c.drafting, entered := id :: c.entered } :=
    (Advances.refl h.steady).same rfl rfl rfl
  unfold enter
  rw [after_bind, after_get]
  dsimp only
  split
  · rename_i hmem
    exact ⟨.refl h.steady, .inr (.inl ⟨id, h.queue.reaches (by simpa using hmem)⟩)⟩
  · rename_i hmem
    have hnew : id ∉ c.drafting := by simpa using hmem
    rw [after_bind, after_set]
    split
    · split
      · exact ⟨hentered, .inl (.fault _ _ rfl)⟩
      · exact ⟨rfl, hnew⟩
    · exact ⟨rfl, hnew⟩

/-- The tables of a class are kept. -/
theorem complete_after (h : Steady room c) (id : DeclId) (r : ClassRecord) (table : Script) :
    After (complete id r table) c
      (fun _ c' => Advances room c c' ∧ c'.drafting = c.drafting ∧ (c'.drafts.get? id).isSome) fun _ _ => False := by
  unfold complete
  rw [after_bind, after_get, after_bind, after_set, after_pure]
  refine ⟨⟨⟨h.reached, h.failed⟩, .refl _, fun _ hp => hp, fun d hd => ?_⟩, rfl, ?_⟩
  · rw [Table.get?_set]
    split
    · rfl
    · exact hd
  · simp [Table.get?_set]

/-- There is room at least for the classes in the queue. -/
theorem Next.room_of_begun {fuel : Nat} {id : DeclId} (h : Next room (fuel + 1) id c) (hnew : id ∉ c.drafting)
    (hhas : c.session.Has id) (h' : Advances room c c') : fuel = 0 → c'.session.Entangled room := by
  rintro rfl
  have hnodup : (id :: c.drafting).Nodup := List.nodup_cons.2 ⟨hnew, h.queue.nodup⟩
  have hlength := length_le_of_has hnodup fun d hd => by
    rcases List.mem_cons.1 hd with rfl | hd
    · exact hhas
    · exact h.queue.has d hd
  have henough := h.enough
  have hclasses := h'.grows.classes
  rw [List.length_cons] at hlength
  exact .inr (by omega)

/-- Tables that are there need not be drafted. -/
theorem drafted_proceeds {fuel : Nat} {id : DeclId} (h : Steady room c) (hid : (c.drafts.get? id).isSome)
    (hroom : fuel = 0 → c.session.Entangled room) : Proceeds room (draft fuel id) c := by
  cases fuel with
  | zero => exact ⟨.refl h, .inr (hroom rfl)⟩
  | succ fuel =>
    obtain ⟨t, ht⟩ := Option.isSome_iff_exists.1 hid
    unfold draft Proceeds
    rw [after_bind, after_get]
    dsimp only
    rw [ht]
    exact pure_proceeds h t

/-! ### Compilation -/

/-- A file can be compiled: the latest class in the queue, if there is one, awaits it. -/
structure Wanted (room unit : Nat) (c : Compiler) : Prop where
  loaded : unit < c.session.files.length
  next : ∀ u < c.session.files.length, c.session.pathOf u = c.session.pathOf unit →
    Queue c.session (Session.mainClass u :: c.drafting)
  steady : Steady room c
  compiling : ∀ path, c.outcomes.get? path = some .compiling →
    ∃ u < c.session.files.length, c.session.pathOf u = path ∧ Session.mainClass u ∈ c.drafting

/-- The file that has the base of a class that has been begun. -/
theorem Next.wanted {fuel : Nat} {id b : DeclId} (h : Next room (fuel + 1) id c) (hnew : id ∉ c.drafting)
    (hhas : c.session.Has id) (h' : Advances room c c') (hstack : c'.drafting = id :: c.drafting)
    (hbase : c'.session.DerivesFrom id b) (hother : c'.session.pathOf b.unit ≠ c'.session.pathOf id.unit) :
    Wanted room b.unit c' := by
  obtain ⟨hs, hf⟩ := h'.steady.reached.sound
  refine ⟨hf.unit_lt b (hs.settled id b hbase).has, fun u hu hpath => ?_, h'.steady, fun path hp => ?_⟩
  · exact (h.next hnew hhas h' hstack (.file hbase hother hu hpath) fun b hb hguarded =>
      absurd hb (hguarded.main u)).queue
  · obtain ⟨u, hu, hpath, hmem⟩ := h.compiling path (h'.compiling path hp)
    rw [hstack]
    exact ⟨u, hu.trans_le h'.grows.files, (h'.grows.path u hu).trans hpath, hmem⟩

/-- How the compilation of a file ends. -/
def Ended (room : Nat) (c : Compiler) (r : Except CompileError Nat × Compiler) : Prop :=
  Advances room c r.2 ∧ r.2.drafting = c.drafting ∧ ∀ e, r.1 = .error e → e.Acyclic ∨ r.2.session.Entangled room

/-- The compiler at the begin of the compilation of a file. -/
def begun (c : Compiler) (unit : Nat) : Compiler :=
  { c with
    session := (c.session.raise unit .body).2
    outcomes := c.outcomes.set (c.session.pathOf unit) .compiling }

theorem Wanted.next_begun {fuel unit : Nat} (h : Wanted room unit c)
    (henough : room ≤ fuel + 3 * c.drafting.length) :
    Next room fuel (Session.mainClass unit) (begun c unit) := by
  obtain ⟨hs, hf⟩ := h.steady.reached.sound
  have hevent : Session.Event c.session (c.session.raise unit .body).2 := .raise unit .body h.loaded
  have hgrows := hevent.grows hs hf
  refine ⟨⟨h.steady.reached.event hevent, fun path e he => ?_⟩, (h.next unit h.loaded rfl).grows hs hf hgrows,
    fun b hb hguarded => absurd hb (hguarded.main unit), fun path hp => ?_, henough⟩
  · have he' : (c.outcomes.set (c.session.pathOf unit) .compiling).get? path = some (.failed e) := he
    rw [Table.get?_set] at he'
    split at he'
    · cases he'
    · exact (h.steady.failed path e he').imp_right fun h => h.grows hs hf hgrows
  · have hp' : (c.outcomes.set (c.session.pathOf unit) .compiling).get? path = some .compiling := hp
    rw [Table.get?_set] at hp'
    split at hp'
    · rename_i heq
      exact ⟨unit, h.loaded.trans_le hgrows.files, (hgrows.path unit h.loaded).trans heq, List.mem_cons_self⟩
    · obtain ⟨u, hu, hpath, hmem⟩ := h.compiling path hp'
      exact ⟨u, hu.trans_le hgrows.files, (hgrows.path u hu).trans hpath, List.mem_cons_of_mem _ hmem⟩

/-- What is recorded at the end of the compilation of a file. -/
theorem Wanted.ended {unit : Nat} (h : Wanted room unit c) {x : Compile Nat}
    (hx : Proceeds room x (begun c unit)) :
    Ended room c ((x.run (begun c unit)).1, { (x.run (begun c unit)).2 with
      outcomes := (x.run (begun c unit)).2.outcomes.set (c.session.pathOf unit) (outcomeOf (x.run (begun c unit)).1)
      drafting := c.drafting }) := by
  obtain ⟨h', hr⟩ := hx.run
  generalize x.run (begun c unit) = r at h' hr
  obtain ⟨r, c'⟩ := r
  dsimp only at h' hr ⊢
  obtain ⟨hs, hf⟩ := h.steady.reached.sound
  have hevent : Session.Event c.session (c.session.raise unit .body).2 := .raise unit .body h.loaded
  refine ⟨⟨⟨h'.steady.reached, fun path e he => ?_⟩, (hevent.grows hs hf).trans h'.grows, fun path hp => ?_,
    h'.drafts⟩, rfl, hr⟩
  · rw [Table.get?_set] at he
    split at he
    · cases r with
      | ok n => cases he
      | error e' =>
        cases he
        exact hr _ rfl
    · exact h'.steady.failed path e he
  · rw [Table.get?_set] at hp
    split at hp
    · cases r <;> cases hp
    · rename_i hne
      have hbegun := h'.compiling path hp
      have hold : (c.outcomes.set (c.session.pathOf unit) .compiling).get? path = some .compiling := hbegun
      rwa [Table.get?_set, if_neg hne] at hold

theorem build_proceeds (unit : Nat) (path : Text) (start : Pos) {draft : Compile Script} (h : Steady room c)
    (hd : Proceeds room draft c) : Proceeds room (build unit path start draft) c := by
  unfold build Proceeds
  rw [after_bind, after_get]
  dsimp only
  split
  · exact ⟨.refl h, .inl (.analysis _ _)⟩
  · refine hd.bind fun _ c₁ h₁ _ => ?_
    unfold Proceeds
    rw [after_bind, after_get, after_bind, after_modify]
    split
    · exact ⟨(Advances.refl h₁.steady).same rfl rfl rfl, rfl⟩
    · rename_i e he
      exact ⟨(Advances.refl h₁.steady).same rfl rfl rfl, .inl (.fault _ _ (lowerFile_sturdy c₁ unit e he).2)⟩

mutual

/-- The tables of a class are drafted, or fail with another cause than a cycle. -/
theorem draft_proceeds (fuel : Nat) {c : Compiler} {id : DeclId} (h : Next room fuel id c) : Proceeds room (draft fuel id) c := by
  match fuel with
  | 0 => exact ⟨.refl h.steady, .inr h.entangled⟩
  | fuel + 1 =>
    unfold draft Proceeds
    rw [after_bind, after_get]
    dsimp only
    split
    · exact pure_proceeds h.steady _
    · exact pure_proceeds h.steady _
    · rename_i r _ hr
      have hhas : c.session.Has id := (c.session.has_iff id).2 ⟨r, hr⟩
      have hfacts : r.facts = c.session.types.classes id := by simp [Session.types, hr]
      refine (enter_after h r).bind fun _ c₁ h₁ => ?_
      obtain ⟨hc₁, hnew⟩ := h₁
      have hstack : c₁.drafting = id :: c.drafting := by rw [hc₁]
      have hsession : c₁.session = c.session := by rw [hc₁]
      have hadvances : Advances room c c₁ := by
        rw [hc₁]
        exact (Advances.refl h.steady).same rfl rfl rfl
      clear hc₁
      -- The tables of the base come first.
      refine After.bind (P := fun _ c₂ => Advances room c c₂ ∧ c₂.drafting = c₁.drafting) ?_ fun table c₂ h₂ => ?_
      · refine Proceeds.after ?_ hadvances
        split
        · rename_i b ancestor hshape
          have hbase : c₁.session.DerivesFrom id b := ⟨ancestor, by
            rw [hsession]
            exact (congrArg (fun f : ClassFacts => f.base.shape) hfacts).symm.trans hshape⟩
          split
          · rename_i hpath
            have hsame : c₁.session.pathOf b.unit = c₁.session.pathOf id.unit := by
              rw [hsession]
              exact hpath
            refine Proceeds.bind ?_ fun _ _ h₂ _ => pure_proceeds h₂.steady _
            by_cases hguarded : c₁.session.Inside b id ∧ c₁.session.Guarded b
            · -- The base is around the class, so its tables are there.
              have hdrafted := h.around_of_advances hhas hadvances hguarded.1 hguarded.2
              exact drafted_proceeds hadvances.steady hdrafted (h.room_of_begun hnew hhas hadvances)
            · refine draft_proceeds fuel (h.next hnew hhas hadvances hstack (.base hbase hsame hguarded) ?_)
              exact fun e he hguarded => h.around_of_advances hhas hadvances (hguarded.base id b hbase hsame he) hguarded
          · rename_i hpath
            refine (compileBase_proceeds fuel (h.wanted hnew hhas hadvances hstack hbase ?_) ?_).bind
              fun _ _ h₂ _ => pure_proceeds h₂.steady _
            · rw [hsession]
              exact hpath
            · have henough := h.enough
              rw [hstack, List.length_cons]
              omega
        · split
          · exact (foreign_proceeds hadvances.steady _).bind fun _ _ h₂ _ => pure_proceeds h₂.steady _
          · exact pure_proceeds hadvances.steady _
        · exact pure_proceeds hadvances.steady _
      · refine After.bind (P := fun _ c₃ => Advances room c c₃ ∧ c₃.drafting = c₂.drafting ∧
          (c₃.drafts.get? id).isSome) ?_ fun t c₃ h₃ => ?_
        · exact (complete_after h₂.1.steady id r table).mono (fun _ _ h₃ => ⟨h₂.1.trans h₃.1, h₃.2⟩)
            fun _ _ h₃ => h₃.elim
        rw [after_bind, after_get]
        have hinner : Proceeds room ((innerIds c₃.session id).forM fun inner => do let _ ← draft fuel inner) c₃ := by
          refine forM_proceeds h₃.1.steady fun d hd c₄ h₄ hd₄ => ?_
          obtain ⟨hs, hf⟩ := h₃.1.steady.reached.sound
          have hawaits : c₄.session.Awaits id d := Session.Awaits.grows hs hf h₄.grows (.inner hd)
          have hstack₄ : c₄.drafting = id :: c.drafting := by rw [hd₄, h₃.2.1, h₂.2, hstack]
          have hmem : d ∈ innerIds c₄.session id :=
            (Session.mem_innerIds_grows h₄.grows (h₃.1.grows.has hhas)).2 hd
          refine (draft_proceeds fuel (h.next hnew hhas (h₃.1.trans h₄) hstack₄ hawaits fun b hb hguarded => ?_)).bind
            fun _ _ h₅ _ => pure_proceeds h₅.steady _
          rcases hguarded.inner id d hmem hb with rfl | hb
          · exact h₄.drafts _ h₃.2.2
          · exact h.around_of_advances hhas (h₃.1.trans h₄) hb hguarded
        refine (hinner.after h₃.1).bind fun _ c₄ h₄ => ?_
        rw [after_bind, after_modify]
        refine ⟨h₄.1.same rfl rfl rfl, ?_⟩
        show c₄.drafting.erase id = c.drafting
        rw [h₄.2, h₃.2.1, h₂.2, hstack, List.erase_cons_head]

theorem compileBase_proceeds (fuel : Nat) {c : Compiler} {unit : Nat} {pos : Pos} {base : DeclId}
    (h : Wanted room base.unit c) (henough : room + 2 ≤ fuel + 3 * c.drafting.length) :
    Proceeds room (compileBase fuel unit pos base) c := by
  match fuel with
  | 0 =>
    have hlength := (h.next base.unit h.loaded rfl).length_le
    exact ⟨.refl h.steady, .inr (.inr (by omega))⟩
  | fuel + 1 =>
    obtain ⟨-, hf⟩ := h.steady.reached.sound
    -- The file of the base has been loaded before.
    obtain ⟨other, hcache⟩ := hf.loaded base.unit h.loaded
    obtain ⟨hlt, hpath⟩ := hf.cached _ other hcache
    have hfetch : c.session.fetch (c.session.pathOf base.unit) = (.ok other, c.session) := by
      unfold Session.fetch
      rw [hcache]
    have hwanted : Wanted room other c := ⟨hlt, hpath ▸ h.next, h.steady, h.compiling⟩
    obtain ⟨hadvances, hdrafting, hfailed⟩ := compileFile_ended fuel hwanted (by omega)
    unfold compileBase Proceeds
    rw [after_bind, after_get]
    dsimp only
    rw [hfetch]
    dsimp only
    rw [after_bind, after_set, after_bind, after_lift]
    split
    · rename_i e he
      exact ⟨hadvances, (hfailed e he).imp_left fun h => .base _ _ _ h⟩
    · rw [after_bind, after_get]
      split
      · exact ((foreign_proceeds hadvances.steady _).after hadvances).mono
          (fun _ _ h' => ⟨h'.1, h'.2.trans hdrafting⟩) fun _ _ h' => h'
      · exact ⟨hadvances, .inl (.fault _ _ rfl)⟩

theorem compileFile_ended (fuel : Nat) {c : Compiler} {unit : Nat} (h : Wanted room unit c)
    (henough : room + 1 ≤ fuel + 3 * c.drafting.length) : Ended room c ((compileFile fuel unit).run c) := by
  match fuel with
  | 0 => exact ⟨.refl h.steady, rfl, fun e he => by cases he; exact .inl (.analysis _ _)⟩
  | fuel + 1 =>
    rw [run_compileFile]
    split
    · exact ⟨.refl h.steady, rfl, fun e he => by cases he⟩
    · rename_i e he
      refine ⟨.refl h.steady, rfl, fun e' he' => ?_⟩
      cases he'
      exact h.steady.failed _ e he
    · -- The class of the file is in the queue, and its latest class awaits it.
      rename_i hcompiling
      obtain ⟨u, hu, hpath, hmem⟩ := h.compiling _ hcompiling
      exact ⟨.refl h.steady, rfl, fun _ _ => .inr (.inl ⟨_, (h.next u hu hpath).reaches hmem⟩)⟩
    · have hnext : Next room fuel (Session.mainClass unit) (begun c unit) := h.next_begun (by omega)
      exact h.ended (build_proceeds unit _ _ hnext.steady (draft_proceeds fuel hnext))

end

end Compile

/-! ### Projects -/

/-- The compilers of a project after any calls in any order, while the analysis goes on: there is always room
to nest so many steps. -/
inductive Compiler.Called (room : Nat) : Compiler → Prop
  | new {c : Compiler} : c.session.Reached → c.outcomes = {} → c.drafting = [] → Called room c
  | compile {c : Compiler} (unit : Nat) : Called room c → unit < c.session.files.length →
      room ≤ c.session.fuel + 3 → Called room (c.compile unit).2
  | event {c : Compiler} {s : Session} : Called room c → Session.Event c.session s → Called room { c with session := s }

namespace Compiler

variable {c : Compiler} {room : Nat}

/-- Between two calls, no class is under way. -/
structure Idle (room : Nat) (c : Compiler) : Prop where
  steady : Compile.Steady room c
  drafting : c.drafting = []
  compiling : ∀ path, c.outcomes.get? path ≠ some .compiling

theorem Idle.wanted (h : c.Idle room) {unit : Nat} (hunit : unit < c.session.files.length) :
    Compile.Wanted room unit c := by
  refine ⟨hunit, fun u _ _ => ?_, h.steady, fun path hp => absurd hp (h.compiling path)⟩
  rw [h.drafting]
  exact ⟨List.isChain_singleton _, List.nodup_nil, fun d hd => by cases hd⟩

theorem Idle.ended (h : c.Idle room) {unit : Nat} (hunit : unit < c.session.files.length)
    (hroom : room ≤ c.session.fuel + 3) : Compile.Ended room c (c.compile unit) :=
  Compile.compileFile_ended (c.session.fuel + 4) (h.wanted hunit) (by omega)

theorem Called.idle (h : c.Called room) : c.Idle room := by
  induction h with
  | new hreached houtcomes hdrafting =>
    refine ⟨⟨hreached, fun path e he => ?_⟩, hdrafting, fun path hp => ?_⟩
    · rw [houtcomes] at he
      cases he
    · rw [houtcomes] at hp
      cases hp
  | compile unit _ hunit hroom ih =>
    obtain ⟨hadvances, hdrafting, -⟩ := ih.ended hunit hroom
    exact ⟨hadvances.steady, hdrafting.trans ih.drafting, fun path hp => ih.compiling path (hadvances.compiling path hp)⟩
  | event _ hevent ih =>
    obtain ⟨hs, hf⟩ := ih.steady.reached.sound
    refine ⟨⟨ih.steady.reached.event hevent, fun path e he => ?_⟩, ih.drafting, ih.compiling⟩
    exact (ih.steady.failed path e he).imp_right fun h => h.grows hs hf (hevent.grows hs hf)

/-- **A cyclic reference is reported only if the tables of some class wait for themselves.** In whatever
order files are compiled and analysed: if a file cannot be compiled, and in the end no class awaits itself by
its base, the file of its base and the classes inside, then the error has another cause than a cycle. The
classes must not outnumber the room to nest them. -/
theorem compile_acyclic {c' : Compiler} {unit : Nat} {e : CompileError} (h : c.Called room)
    (hunit : unit < c.session.files.length) (hroom : room ≤ c.session.fuel + 3)
    (hc : c.compile unit = (.error e, c')) (hclasses : 3 * c'.session.classes.entries.length < room)
    (hacyclic : ∀ x, ¬ Relation.TransGen c'.session.Awaits x x) :
    e.Acyclic ∧ ∀ path pos name, e ≠ .fault path pos (.cyclicClass name) := by
  obtain ⟨-, -, hfailed⟩ := h.idle.ended hunit hroom
  rw [hc] at hfailed
  have hacyclic : e.Acyclic := by
    rcases hfailed e rfl with he | ⟨x, hx⟩ | hle
    · exact he
    · exact absurd hx (hacyclic x)
    · exact absurd hle (Nat.not_le.2 hclasses)
  refine ⟨hacyclic, fun path pos name he => ?_⟩
  subst he
  cases hacyclic with
  | fault _ _ h => cases h

/-- A compiler of a project with one file loaded. -/
def ofProject (p : Project) (path : Text) : Compiler := { session := (p.session.fetch path).2 }

theorem called_ofProject (p : Project) (path : Text) : (ofProject p path).Called room :=
  .new (.event (.new _) (.load path)) rfl rfl

/-- What is said about a file that cannot be compiled. -/
def complaintOf : Except CompileError Nat → Option Text
  | .ok _ => none
  | .error e => some e.message

/-- A file that derives from another, in which the analysis finds an error. -/
def faultyBase : Compiler :=
  ofProject (.ofFiles [("a.gd", "extends \"b.gd\"\n"), ("b.gd", "func f():\n\treturn x\n")]) "res://a.gd"

/-- The class of the first file awaits that of the second, and there are no others. -/
theorem unit_lt_of_awaits_faultyBase {x y : DeclId} (h : (faultyBase.compile 0).2.session.Awaits x y) :
    x.unit < y.unit := by
  generalize hs : (faultyBase.compile 0).2.session = s at h
  have hkeys : s.classes.keys = [⟨0, .none⟩, ⟨1, .none⟩] := by
    rw [← hs]
    decide +kernel
  have hcases : ∀ {c}, s.Has c → c = ⟨0, .none⟩ ∨ c = ⟨1, .none⟩ := by
    intro c hc
    obtain ⟨r, hr⟩ := (s.has_iff c).1 hc
    have hmem := Session.isSome_get?_iff.1 (Option.isSome_iff_exists.2 ⟨r, hr⟩)
    simpa [hkeys] using hmem
  have hbase : ∀ {c b}, s.DerivesFrom c b → c = ⟨0, .none⟩ ∧ b = ⟨1, .none⟩ := by
    intro c b hb
    have hzero : (s.baseOf ⟨0, .none⟩).shape = .cls ⟨1, .none⟩ "RefCounted" := by
      rw [← hs]
      decide +kernel
    have hone : (s.baseOf ⟨1, .none⟩).shape = .native "RefCounted" := by
      rw [← hs]
      decide +kernel
    have hc := hb.settled.has
    obtain ⟨ancestor, hb⟩ := hb
    rcases hcases hc with rfl | rfl
    · rw [hzero] at hb
      cases hb
      exact ⟨rfl, rfl⟩
    · rw [hone] at hb
      cases hb
  cases h with
  | base hb _ _ =>
    obtain ⟨rfl, rfl⟩ := hbase hb
    decide
  | @file b u hb _ _ hpath =>
    obtain ⟨rfl, rfl⟩ := hbase hb
    have hne : s.pathOf 0 ≠ s.pathOf 1 := by
      rw [← hs]
      decide +kernel
    exact Nat.pos_of_ne_zero fun hu => hne (by rw [← hpath, ← hu]; rfl)
  | inner hmem =>
    have hnone : Compile.innerIds s ⟨0, .none⟩ = [] ∧ Compile.innerIds s ⟨1, .none⟩ = [] := by
      rw [← hs]
      decide +kernel
    rcases hcases (Session.has_of_mem_innerIds hmem) with rfl | rfl
    · rw [hnone.1] at hmem
      cases hmem
    · rw [hnone.2] at hmem
      cases hmem

theorem compile_acyclic_faultyBase : ∃ e, (faultyBase.compile 0).1 = .error e ∧ e.Acyclic ∧
    ∀ path pos name, e ≠ .fault path pos (.cyclicClass name) := by
  have hcalled : faultyBase.Called (faultyBase.session.fuel + 3) := called_ofProject _ _
  have hunit : 0 < faultyBase.session.files.length := by decide +kernel
  have hcomplaint : (complaintOf (faultyBase.compile 0).1).isSome := by decide +kernel
  have hclasses : 3 * (faultyBase.compile 0).2.session.classes.entries.length < faultyBase.session.fuel + 3 := by
    decide +kernel
  have hacyclic : ∀ x, ¬ Relation.TransGen (faultyBase.compile 0).2.session.Awaits x x := by
    intro x hx
    have hlt : ∀ {y}, Relation.TransGen (faultyBase.compile 0).2.session.Awaits x y → x.unit < y.unit := by
      intro y hy
      induction hy with
      | single h => exact unit_lt_of_awaits_faultyBase h
      | tail _ h ih => exact ih.trans (unit_lt_of_awaits_faultyBase h)
    exact lt_irrefl _ (hlt hx)
  rcases hr : faultyBase.compile 0 with ⟨e | n, c'⟩
  · rw [hr] at hclasses hacyclic
    exact ⟨e, rfl, compile_acyclic hcalled hunit le_rfl hr hclasses hacyclic⟩
  · rw [hr] at hcomplaint
    cases hcomplaint

/-- A file in which a class derives from one with a class inside that derives from the first. -/
def crossedClasses : Compiler :=
  ofProject (.ofFiles [("a.gd", "class X extends Y:\n\tpass\nclass Y:\n\tclass W extends X:\n\t\tpass\n")]) "res://a.gd"

/-- Two files of which the first has a class inside that derives from the second, and the second derives
from the first. -/
def crossedFiles : Compiler :=
  ofProject (.ofFiles [("a.gd", "class Inner extends \"b.gd\":\n\tpass\n"), ("b.gd", "extends \"a.gd\"\n")])
    "res://a.gd"

/-- The analysis finds no error in these files, and no class derives from itself, and yet the compiler reports
a cyclic reference: the tables of the classes inside are drafted while those of another class wait. -/
theorem acyclic_classes_refused :
    ((crossedClasses.compile 0).2.session.files.all (·.failure.isNone) = true ∧
      (∀ x, ¬ Relation.TransGen (crossedClasses.compile 0).2.session.DerivesFrom x x) ∧
      complaintOf (crossedClasses.compile 0).1 =
        some "res://a.gd:1:1: Cyclic class reference for \"res://a.gd::X\".") ∧
    ((crossedFiles.compile 0).2.session.files.all (·.failure.isNone) = true ∧
      (∀ x, ¬ Relation.TransGen (crossedFiles.compile 0).2.session.DerivesFrom x x) ∧
      complaintOf (crossedFiles.compile 0).1 =
        some ("res://a.gd:1:1: Could not compile base class \"res://b.gd\": " ++
          "res://b.gd:1:1: Could not compile base class \"res://a.gd\": " ++
          "res://a.gd:1:1: Cyclic class reference for \"res://a.gd\".")) := by
  have hsound : ∀ c : Compiler, c.Called 0 → 0 < c.session.files.length → (c.compile 0).2.session.Sound := by
    intro c hc hunit
    obtain ⟨hadvances, -⟩ := hc.idle.ended hunit (Nat.zero_le _)
    exact hadvances.steady.reached.sound.1
  have hclasses := hsound crossedClasses (called_ofProject _ _) (by decide +kernel)
  have hfiles := hsound crossedFiles (called_ofProject _ _) (by decide +kernel)
  exact ⟨⟨by decide +kernel, hclasses.acyclic, by decide +kernel⟩,
    ⟨by decide +kernel, hfiles.acyclic, by decide +kernel⟩⟩

end Compiler

end GameScript
