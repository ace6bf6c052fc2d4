import GameScript.Proofs.Syntax.Expressions

/-!
# Spans of statements and their regions

A marker in front of a statement may ask for no warnings there. The region that is recorded then begins with the first
marker and ends with the statement, so it cuts none of its nodes.

* `Parse.Markers.Behind` — markers stand behind a place;
* `Parse.ReadVar` — the parts of a variable, which are in some order behind its name;
* `Parse.Read.negative` — a negative number, which is one literal;
* `Parse.recordIgnore_reads` — **a region is recorded** that cuts nothing;
* `Parse.stmt_reads` — **statements are nested**, and regions cut none of their nodes.
-/

namespace GameScript

/-! ### Branches and negative numbers -/

theorem finishOfBranches_eq {bs : List Branch} {b : Branch} (h : bs.getLast? = some b) (q : Pos) :
    finishOfBranches q bs = b.body.finish := by
  induction bs generalizing q with
  | nil => cases h
  | cons b bs ih =>
    obtain ⟨_, body, _⟩ := b
    unfold finishOfBranches
    cases bs with
    | nil =>
      cases h
      rfl
    | cons c cs => exact ih (by simpa using h) _

theorem negativeLiteral?_eq_some {x : Expr} {l : Literal} (h : Parse.negativeLiteral? x = some l) :
    ∃ q i l₀, x = .unary q .minus (.literal l₀) i ∧ l.pos = q ∧ l.raw = "-" ++ l₀.raw := by
  unfold Parse.negativeLiteral? at h
  split at h
  · split at h
    · cases h
      exact ⟨_, _, _, rfl, rfl, rfl⟩
    · cases h
      exact ⟨_, _, _, rfl, rfl, rfl⟩
    · cases h
  · cases h

namespace Parse

variable {α β : Type} {Q : β → State → Prop} {s s' : State} {t : Token} {p : Pos} {R : List WarningIgnore}
  {ns : List Node} {n : Node}

section Sub

variable (sub : Subparsers) [hsub : sub.Nest]

/-! ### Markers -/

/-- A marker, of whose arguments no node remains. -/
theorem marker_reads (hs : s.Sound) (ht : s.At t) (hk : t.kind = .marker) : After (marker sub) s fun r s' =>
    Read s.here s.ignores [] s' ∧ r.2.2 = s.here ∧ s.here.advance ("@" ++ r.1) ≤ s'.here := by
  unfold marker
  refine after_current hs fun u hu => ?_
  obtain rfl : t = u := by
    obtain ⟨rest, ht⟩ := ht
    obtain ⟨rest', hu⟩ := hu
    rw [ht] at hu
    exact (List.cons.inj hu).1
  refine after_advance hs hu fun s₁ h₁ => ?_
  have hfinish : s.here.advance ("@" ++ t.text) ≤ s₁.here := by
    rw [h₁.here, ← h₁.spelled.marker hk]
    exact (h₁.word (by rw [hk]; rfl)).2
  refine after_skip h₁.sound fun b s₂ h₂ => ?_
  have hread := (h₁.read hs).onward h₂
  split
  · refine after_skip h₂.sound fun n s₃ h₃ => ?_
    have h := (Read.refl h₂.sound).onward h₃
    refine h.nexts (commaList_reads hsub.expr _ n) fun xs s₄ h => h.skip fun _ s₅ h => after_pure ⟨?_, h₁.here.symm, ?_⟩
    · exact (hread.append h le_rfl).sublist (List.nil_sublist _)
    · exact hfinish.trans (h₂.upto.trans h.start)
  · exact after_pure ⟨hread, h₁.here.symm, hfinish.trans h₂.upto⟩

/-- The first of some markers stands behind a place. -/
def Markers.Behind (m : Markers) (p : Pos) : Prop := m.any = true → p ≤ m.pos

theorem Markers.Behind.before {m : Markers} (h : m.Behind p) {q : Pos} (hq : p ≤ q) : p ≤ (m.at q).pos := by
  unfold Markers.at
  split
  · exact h ‹_›
  · exact hq

theorem after_ignoring (hs : s.Sound) (m : Markers) (xs : List Expr) {f : Markers → Parser β}
    (h : ∀ m' s', m'.pos = m.pos → Onward s s' → After (f m') s' Q) : After (m.ignoring xs >>= f) s Q := by
  unfold Markers.ignoring
  rw [bind_assoc]
  exact after_skip hs fun names s₁ hon => after_bind (after_pure (h _ s₁ rfl hon))

theorem stmtMarkers_reads (n : Nat) {m : Markers} (h : Read p R [] s) (hm : m.Behind p) :
    After (stmtMarkers sub m n) s fun m' s' => Read p R [] s' ∧ m'.Behind p := by
  induction n generalizing m s with
  | zero => exact after_fail _ _
  | succ n ih =>
    unfold stmtMarkers
    refine after_isAt h.sound _ fun t ht => ?_
    split
    · have hk : t.kind = .marker := of_decide_eq_true ‹_›
      refine after_bind ((marker_reads sub h.sound ht hk).mono fun r s₁ ⟨h₁, hpos, _⟩ => ?_)
      have hm := hm.before (hpos ▸ h.start)
      obtain ⟨name, args, q⟩ := r
      dsimp only at hm ⊢
      refine after_guard (after_ignoring h₁.sound _ _ fun m'' s₂ hpos' hon => after_skip hon.sound fun k s₃ hon' => ?_)
      refine after_skip hon'.sound fun _ s₄ hon'' => ih ?_ ?_
      · exact (h.append h₁ le_rfl).onward (hon.trans (hon'.trans hon''))
      · exact fun _ => hpos' ▸ hm
    · exact after_pure ⟨h, hm⟩

/-! ### Declarations in functions -/

/-- A variable whose parts **have been read**, in some order behind its name. -/
structure ReadVar (R : List WarningIgnore) (d : VarDecl) (s : State) : Prop where
  parts : ∃ ns, Read d.pos R (.ofIdent d.name :: ns) s ∧ (Node.var d).children.tail ⊆ ns ∧
    ∀ c ∈ Node.ofIdent d.name :: ns, c.span.finish ≤ d.finish
  finish : d.finish ≤ s.here

theorem ReadVar.node {d : VarDecl} (h : ReadVar R d s) : Read d.pos R [.var d] s := by
  obtain ⟨⟨ns, hread, hchildren, hends⟩, hfinish⟩ := h
  have hname := hread.nodes (.ofIdent d.name) List.mem_cons_self
  refine hread.node rfl ?_ hfinish trivial fun c hc => .inl ?_
  · exact hname.1.1.trans (hname.2.1.span.trans (hends _ List.mem_cons_self))
  · have hc : c ∈ Node.ofIdent d.name :: ns := List.cons_subset_cons _ hchildren hc
    exact ⟨hc, hends c hc⟩

theorem ReadVar.onward {d : VarDecl} (h : ReadVar R d s) (hs : Onward s s') : ReadVar R d s' := by
  obtain ⟨⟨ns, hread, hrest⟩, hfinish⟩ := h
  exact ⟨⟨ns, hread.onward hs, hrest⟩, hfinish.trans hs.upto⟩

theorem ReadVar.rename {d : VarDecl} (h : ReadVar R d s) {name : Ident} (hpos : name.pos = d.name.pos)
    (hname : name.name = d.name.name) : ReadVar R { d with name } s := by
  obtain ⟨⟨ns, hread, hchildren, hends⟩, hfinish⟩ := h
  have hspan : name.span = d.name.span := by
    rw [Ident.span, Ident.finish, hpos, hname]
    rfl
  refine ⟨⟨ns, hread.rename hpos hname, hchildren, ?_⟩, hfinish⟩
  obtain ⟨hfirst, hrest⟩ := List.forall_mem_cons.mp hends
  refine List.forall_mem_cons.mpr ⟨?_, hrest⟩
  exact (congrArg Span.finish hspan).le.trans hfirst

theorem varHead_reads {isLocal : Bool} {start : Pos} {name : Ident} {spec : Option TypeSpec}
    (h : Read start R (.ofIdent name :: spec.toList.map .typeSpec) s) :
    After (varHead sub isLocal start name spec) s fun d s' => ReadVar R d s' ∧ d.pos = start ∧ d.name = name := by
  unfold varHead
  extract_lets make
  refine h.skip fun k s₁ h => ?_
  split
  · refine h.skip fun _ s₂ h => h.next hsub.expr fun x s₃ h => after_pure ⟨⟨⟨_, h, ?_, ?_⟩, ?_⟩, rfl, rfl⟩
    · rw [Node.children_var]
      simp [make]
    · exact h.finish_le (l := .expr x) List.getLast?_concat
    · exact (h.nodes (Node.expr x) (by simp)).1.2
  · obtain ⟨l, hl, hfinish⟩ : ∃ l, (Node.ofIdent name :: spec.toList.map .typeSpec).getLast? = some l ∧
        l.span.finish = (spec.map TypeSpec.finish).getD name.finish := by
      cases spec with
      | none => exact ⟨_, rfl, rfl⟩
      | some t => exact ⟨_, rfl, rfl⟩
    refine after_pure ⟨⟨⟨_, h, ?_, ?_⟩, ?_⟩, rfl, rfl⟩
    · rw [Node.children_var]
      simp [make]
    · exact fun c hc => (h.finish_le hl c hc).trans hfinish.le
    · exact hfinish.ge.trans (h.nodes l (List.mem_of_getLast? hl)).1.2

theorem localVar_reads : Reads (localVar sub) Node.var := by
  intro s hs
  unfold localVar
  refine (Read.refl hs).advance fun s₁ h => h.next ident_reads fun name s₂ h => h.skip fun b s₃ h => ?_
  dsimp only
  refine h.opt hsub.typeSpec b fun spec s₄ h => ?_
  refine after_bind ((varHead_reads sub h).mono fun d s₅ ⟨hvar, hpos, hname⟩ => ?_)
  subst hname
  refine after_declare hvar.node.sound _ _ _ fun name' s₆ hpos' hname' hon => after_pure ?_
  have hnode := ((hvar.onward hon).rename hpos' hname').node
  dsimp only at hnode
  rw [hpos] at hnode ⊢
  exact ⟨le_rfl, hnode⟩

theorem constDecl_reads (isLocal : Bool) : Reads (constDecl sub isLocal) Node.const := by
  intro s hs
  unfold constDecl
  refine (Read.refl hs).advance fun s₁ h => h.next ident_reads fun name s₂ h => h.skip fun k s₃ h => ?_
  extract_lets rest
  have hrest {spec : Option TypeSpec} {infer : Bool} {s₄ : State}
      (h : Read s.here s.ignores (.ofIdent name :: spec.toList.map .typeSpec) s₄) :
      After (rest (spec, infer)) s₄ fun d s' => ReadNode s (.const d) s' := by
    refine h.next hsub.expr fun x s₅ h => ?_
    have hnode {name' : Ident} {s₆ : State} (hon : Onward s₅ s₆) (hpos : name'.pos = name.pos)
        (hname : name'.name = name.name) :
        Read s.here s.ignores [.const ⟨s.here, name', spec, infer, x, isLocal⟩] s₆ := by
      have h : Read s.here s.ignores ((.ofIdent name' :: spec.toList.map .typeSpec) ++ [.expr x]) s₆ :=
        (h.onward hon).rename hpos hname
      refine h.last (l := .expr x) rfl List.getLast?_concat rfl trivial ?_
      rw [Node.children_const]
      exact List.Subset.refl _
    extract_lets bound
    split
    · exact after_declare h.sound _ _ _ fun name' s₆ hpos hname hon => after_pure ⟨le_rfl, hnode hon hpos hname⟩
    · exact after_bind (after_pure (after_pure ⟨le_rfl, hnode (.refl h.sound) rfl rfl⟩))
  split
  · refine h.skip fun _ s₄ h => h.next hsub.typeSpec fun t s₅ h => h.skip fun _ s₆ h => ?_
    exact after_bind (after_pure (hrest h))
  split
  · exact h.skip fun _ s₄ h => after_bind (after_pure (hrest h))
  · exact h.skip fun _ s₄ h => after_bind (after_pure (hrest h))

/-! ### Simple statements -/

theorem exprStmt_reads : Reads (exprStmt sub) Node.ofStmt := by
  intro s hs
  unfold exprStmt
  refine hsub.expr.first (.refl hs) fun x s₁ hstart h => h.skip fun k s₂ h => ?_
  extract_lets op
  split
  · refine after_guard (h.skip fun _ s₃ h => h.next hsub.expr fun y s₄ h => after_pure ⟨hstart, ?_⟩)
    exact h.last (n := .stmt (.assign op x y none false)) rfl rfl rfl trivial (List.Subset.refl _)
  · exact after_pure ⟨hstart, h.last (n := .stmt (.expr x)) rfl rfl rfl trivial (List.Subset.refl _)⟩

/-- A statement that is a keyword alone. -/
theorem jump_reads {s₀ : State} (hs : Onward s₀ s) (ht : s.At t) {j : Jump} (hk : t.kind = j.token) :
    After (advance >>= fun q => pure (.jump q j)) s fun x s' => ReadNode s₀ (.ofStmt x) s' := by
  refine after_advance hs.sound ht fun s₁ h => ?_
  have hfinish : s.here.advance j.token.name ≤ s₁.here := h.keyword hk _ ⟨by cases j <;> rfl, rfl⟩
  rw [← h.here]
  exact after_pure (hs.node (h.node hs.sound h.here (Pos.le_advance _ _) hfinish trivial rfl))

theorem State.At.of_tokens (h : s.At t) (htokens : s'.tokens = s.tokens) : s'.At t := by
  obtain ⟨ts, h⟩ := h
  exact ⟨ts, htokens.trans h⟩

theorem smallStmt_reads : Reads (smallStmt sub) Node.ofStmt := by
  intro s hs
  unfold smallStmt
  refine after_current hs fun t ht => ?_
  split
  · exact (localVar_reads sub).first (.refl hs) fun d s₁ hstart h => after_pure ⟨hstart, h⟩
  · exact (constDecl_reads sub true).first (.refl hs) fun d s₁ hstart h => after_pure ⟨hstart, h⟩
  · rename_i hk
    refine after_advance hs ht fun s₁ h₁ => after_skip h₁.sound fun b s₂ h₂ => ?_
    have h := (h₁.read hs).onward h₂
    rw [← h₁.here]
    split
    · have hfinish : s.here.shift 6 ≤ s₁.here := h₁.keyword hk "return" (by decide)
      exact after_pure ⟨le_rfl, h.node (n := .stmt (.return s.here none false)) rfl (Pos.le_shift _ _)
        (hfinish.trans h₂.upto) trivial (List.forall_mem_nil _)⟩
    · refine h.next hsub.expr fun x s₃ h => after_pure ⟨le_rfl, ?_⟩
      exact h.last (n := .stmt (.return s.here (some x) false)) rfl rfl rfl trivial (List.Subset.refl _)
  · refine after_idle hs fun cs s₁ htokens h₁ => ?_
    extract_lets
    exact after_guard (jump_reads h₁ (ht.of_tokens htokens) ‹_›)
  · refine after_idle hs fun cs s₁ htokens h₁ => ?_
    split
    · exact after_fail _ _
    · exact jump_reads h₁ (ht.of_tokens htokens) ‹_›
  · exact jump_reads (.refl hs) ht ‹_›
  · exact jump_reads (.refl hs) ht ‹_›
  · refine (Read.refl hs).advance fun s₁ h => h.skip fun _ s₂ h => h.next hsub.expr fun x s₃ h => ?_
    refine h.skip fun b s₄ h => ?_
    extract_lets close
    have hclose {m : Option Expr} {s₅ : State} (h : Read s.here s.ignores (.expr x :: m.toList.map .expr) s₅) :
        After (close m) s₅ fun y s' => ReadNode s (.ofStmt y) s' := by
      refine after_consume h.sound fun u s₆ hu h' => after_pure ⟨le_rfl, ?_⟩
      refine h.bracket (n := .stmt (.assert s.here x m u.pos)) h' (by rw [hu]; rfl) rfl rfl trivial ?_
      rw [Node.children_assert]
      exact List.Subset.refl _
    split
    · refine h.skip fun b s₅ h => ?_
      split
      · exact after_bind (after_pure (hclose h))
      · refine h.next hsub.expr fun y s₆ h => h.skip fun _ s₇ h => after_bind (after_pure (hclose h))
    · exact after_bind (after_pure (hclose h))
  · exact exprStmt_reads sub s hs

/-! ### Patterns -/

/-- **A negative number** is one literal, which begins with the sign. -/
theorem Read.negative {x : Expr} {l : Literal} (h : Read p R [.expr x] s) (hl : negativeLiteral? x = some l)
    (hx : x.start = p) : l.pos = p ∧ Read p R [.ofLiteral l] s := by
  obtain ⟨q, i, l₀, rfl, hpos, hraw⟩ := negativeLiteral?_eq_some hl
  obtain rfl : q = p := hx
  obtain ⟨⟨-, hfinish⟩, hnested, -⟩ := h.nodes _ (List.mem_singleton_self _)
  have hsign : q < l₀.pos := hnested.signed
  refine ⟨hpos, (h.sublist (List.nil_sublist _)).node hpos (Pos.le_advance _ _) ?_ trivial (List.forall_mem_nil _)⟩
  refine le_trans ?_ hfinish
  show l.pos.advance l.raw ≤ l₀.pos.advance l₀.raw
  rw [hpos, hraw, Pos.advance_append]
  exact Pos.advance_mono (Pos.shift_le 0 hsign) _

theorem patternOf_reads {x : Expr} (h : Read p R [.expr x] s) (hx : x.start = p) :
    (patternOf x).start = p ∧ Read p R [.pattern (patternOf x)] s := by
  have hexpr : Read p R [.pattern (.expr x)] s :=
    h.last (n := .pattern (.expr x)) hx rfl rfl trivial (List.Subset.refl _)
  unfold patternOf
  split
  · split
    · rename_i id hid
      have hspan : (Node.pattern (.wildcard id.pos)).span = (Node.expr (.ident id)).span := by
        show (⟨id.pos, id.pos.shift 1⟩ : Span) = ⟨id.pos, id.pos.advance id.name⟩
        rw [hid]
        rfl
      exact ⟨hx, h.leaf hspan trivial rfl⟩
    · exact ⟨hx, hexpr⟩
  · exact ⟨hx, h.last (n := .pattern (.literal _)) hx rfl rfl trivial (List.Subset.refl _)⟩
  · split
    · obtain ⟨hpos, h⟩ := h.negative ‹_› hx
      exact ⟨hpos, h.last (n := .pattern (.literal _)) hpos rfl rfl trivial (List.Subset.refl _)⟩
    · exact ⟨hx, hexpr⟩

theorem Read.patternEntry {e : PatternEntry} (h : Read p R (.expr e.key :: e.value.toList.map .pattern) s)
    (hp : e.key.start = p) : Read p R [.patternEntry e] s := by
  obtain ⟨key, value⟩ := e
  cases value with
  | none => exact h.last (l := .expr key) hp rfl rfl trivial (List.Subset.refl _)
  | some x => exact h.last (l := .pattern x) hp rfl rfl trivial (List.Subset.refl _)

theorem patternEntries_reads (isOpen : Bool) (n : Nat) :
    ReadsAll (patternEntries sub isOpen n) (·.1.map Node.patternEntry) := by
  induction n generalizing isOpen with
  | zero => exact fun _ _ => after_fail _ _
  | succ n ih =>
    intro s hs
    unfold patternEntries
    refine (Read.refl hs).skip fun b s₁ h => ?_
    split
    · exact after_pure h
    extract_lets rest fresh
    have hrest {es : List PatternEntry} {o : Bool} {s₂ : State} (h : Read s.here s.ignores (es.map .patternEntry) s₂) :
        After (rest (es, o)) s₂ fun r s' => Read s.here s.ignores (r.1.map .patternEntry) s' := by
      refine h.skip fun b s₃ h => ?_
      split
      · refine h.nexts (ih o) fun r s₄ h => after_pure ?_
        rw [List.map_append]
        exact h
      · exact after_pure h
    refine after_guard_here (h.skip fun b s₂ h => ?_)
    split
    · exact after_bind (after_pure (hrest h))
    refine hsub.expr.first (.refl h.sound) fun key s₃ hstart h' => h'.skip fun b s₄ h' => ?_
    dsimp only
    refine h'.opt (hsub.pattern false) b fun value s₅ h' => after_bind (after_pure (hrest ?_))
    exact h.append (Read.patternEntry (e := ⟨key, value⟩) h' rfl) hstart

theorem pattern_reads (top : Bool) : Reads (pattern sub top) Node.pattern := by
  intro s hs
  unfold pattern
  refine after_current hs fun t ht => ?_
  split
  · refine (Read.refl hs).advance fun s₁ h => h.next ident_reads fun name s₂ h => ?_
    refine after_declare h.sound _ _ _ fun name' s₃ hpos hname hon => after_pure ⟨le_rfl, ?_⟩
    exact ((h.onward hon).rename hpos hname).last (n := .pattern (.bind s.here name')) rfl rfl rfl trivial
      (List.Subset.refl _)
  · rename_i hk
    extract_lets
    refine after_guard (after_advance hs ht fun s₁ h => after_pure ?_)
    have hfinish : t.finish ≤ s₁.here := (h.word (by rw [hk]; rfl)).2
    rw [Token.finish, h.spelled.dotDot hk] at hfinish
    exact h.node (n := .pattern (.rest t.pos)) hs rfl (Pos.le_shift _ _) hfinish trivial rfl
  · refine (Read.refl hs).advance fun s₁ h => h.skip fun n s₂ h => ?_
    refine h.nexts (commaList_reads (hsub.pattern false) _ n) fun xs s₃ h => after_consume h.sound fun u s₄ hu h' => ?_
    split
    · exact after_fail _ _
    · exact after_pure ⟨le_rfl, h.bracket h' (by rw [hu]; rfl) rfl rfl trivial (List.Subset.refl _)⟩
  · refine (Read.refl hs).advance fun s₁ h => h.skip fun n s₂ h => ?_
    refine h.nexts (patternEntries_reads sub false n) fun r s₃ h => ?_
    obtain ⟨es, isOpen⟩ := r
    exact after_consume h.sound fun u s₄ hu h' =>
      after_pure ⟨le_rfl, h.bracket h' (by rw [hu]; rfl) rfl rfl trivial (List.Subset.refl _)⟩
  · refine hsub.expr.first (.refl hs) fun x s₁ hstart h => after_pure ?_
    obtain ⟨hpos, h⟩ := patternOf_reads h rfl
    exact .of_start hpos hstart h

/-! ### Compound statements -/

theorem block_reads (isLoop : Bool) : Reads (block sub isLoop) Node.block := by
  intro s hs
  unfold block
  refine after_pos hs (after_skip hs fun f s₁ h₁ => ?_)
  refine after_inScope h₁.sound (P := fun xs s' => Read s.here s.ignores (xs.map .ofStmt) s') (fun s₂ h₂ => ?_) ?_
  · refine (suite_reads sub s₂ h₂.sound).mono fun xs s₃ h => ?_
    have h := ((h₁.trans h₂).read hs).append h le_rfl
    exact ⟨h.sound, h⟩
  · intro xs ls s₂ s₃ h hon
    exact after_pure ⟨le_rfl, Read.block (b := ⟨s.here, xs, ls, isLoop, false, false, false⟩) (h.onward hon)⟩

theorem Read.cond {q : Pos} {c : Expr} {yes : Block} {no : Option Block}
    (h : Read q R (.expr c :: .block yes :: no.toList.map .block) s) : Read q R [.ofStmt (.cond q c yes no)] s := by
  cases no with
  | none => exact h.last (n := .stmt (.cond q c yes none)) (l := .block yes) rfl rfl rfl trivial (List.Subset.refl _)
  | some b =>
    exact h.last (n := .stmt (.cond q c yes (some b))) (l := .block b) rfl rfl rfl trivial (List.Subset.refl _)

theorem elseBlock_reads (n : Nat) : ReadsAll (elseBlock sub n) (·.toList.map Node.block) := by
  induction n with
  | zero => exact fun _ _ => after_fail _ _
  | succ n ih =>
    intro s hs
    unfold elseBlock
    refine (Read.refl hs).skip fun b s₁ h => ?_
    split
    · -- The conditional of an `elif` stands in a block of its own.
      refine (Read.refl h.sound).advance fun s₂ h' => h'.next hsub.expr fun c s₃ h' => h'.skip fun _ s₄ h' => ?_
      refine h'.next (block_reads sub false) fun yes s₅ h' => h'.nexts ih fun no s₆ h' => after_pure ?_
      have hcond := Read.cond (q := s₁.here) h'
      have hblock := Read.block (b := ⟨s₁.here, [.cond s₁.here c yes no], [], false, false, false, false⟩) hcond
      exact h.append hblock le_rfl
    · refine h.skip fun b s₂ h => ?_
      split
      · refine h.skip fun _ s₃ h => h.next (block_reads sub false) fun yes s₄ h => after_pure h
      · exact after_pure h

theorem patterns_reads (n : Nat) : ∀ s, s.Sound → After (patterns sub n) s fun ps s' =>
    ∃ first rest, ps = first :: rest ∧ s.here ≤ first.start ∧ Read first.start s.ignores (ps.map .pattern) s' := by
  induction n with
  | zero => exact fun _ _ => after_fail _ _
  | succ n ih =>
    intro s hs
    unfold patterns
    refine (hsub.pattern true).first (.refl hs) fun x s₁ hstart h => h.skip fun b s₂ h => ?_
    split
    · refine after_bind ((ih s₂ h.sound).mono fun ps s₃ ⟨first, rest, hps, hstart', h'⟩ => after_pure ?_)
      exact ⟨x, ps, rfl, hstart, h.append h' hstart'⟩
    · exact after_pure ⟨x, [], rfl, hstart, h⟩

theorem branch_reads : Reads (branch sub) Node.branch := by
  intro s hs
  unfold branch
  refine after_skip hs fun f s₁ h₁ => ?_
  refine after_inScope h₁.sound (P := fun r s' => ∃ first rest, r.1 = first :: rest ∧ s.here ≤ first.start ∧
    ReadBody first.start s.ignores (r.1.map .pattern) r.2.1 r.2.2 s') (fun s₂ h₂ => ?_) ?_
  · refine after_skip h₂.sound fun n s₃ h₃ => ?_
    have hon := h₁.trans (h₂.trans h₃)
    refine after_bind ((patterns_reads sub n s₃ hon.sound).mono fun ps s₄ hps => ?_)
    obtain ⟨first, rest, hps, hstart, h⟩ := hps
    rw [hon.ignores] at h
    refine h.skip fun st s₅ h => ?_
    extract_lets bound fresh
    clear_value bound
    split
    · exact after_fail_bind _ _
    · refine h.skip fun _ s₆ h => after_pos h.sound (h.body sub fun xs s₇ hs₇ hbody => after_pure ?_)
      exact ⟨hs₇, first, rest, hps, hon.upto.trans hstart, hbody⟩
  · intro r ls s₂ s₃ hparts hon
    obtain ⟨ps, start, stmts⟩ := r
    obtain ⟨first, rest, rfl, hstart, hbody⟩ := hparts
    have hall := (hbody.onward hon).block (b := ⟨start, stmts, ls, false, true, false, false⟩)
    refine after_pure ⟨hstart, hall.last rfl (l := .block _) List.getLast?_concat rfl trivial ?_⟩
    exact List.Subset.refl _

theorem Read.loop {q : Pos} {var : Ident} {spec : Option TypeSpec} {x : Expr} {body : Block}
    (h : Read q R (.ofIdent var :: (spec.toList.map .typeSpec ++ [.expr x, .block body])) s) :
    Read q R [.ofStmt (.loop q var spec x body)] s := by
  cases spec with
  | none =>
    exact h.last (n := .stmt (.loop q var none x body)) (l := .block body) rfl rfl rfl trivial (List.Subset.refl _)
  | some t =>
    exact h.last (n := .stmt (.loop q var (some t) x body)) (l := .block body) rfl rfl rfl trivial (List.Subset.refl _)

theorem forStmt_reads : Reads (forStmt sub) Node.ofStmt := by
  intro s hs
  unfold forStmt
  refine (Read.refl hs).advance fun s₁ h => h.next ident_reads fun var s₂ h => h.skip fun b s₃ h => ?_
  dsimp only
  refine h.opt hsub.typeSpec b fun spec s₄ h => h.skip fun _ s₅ h => h.next hsub.expr fun x s₆ h => ?_
  refine h.skip fun _ s₇ h => ?_
  refine after_pos h.sound (after_skip h.sound fun f s₈ h₈ => ?_)
  refine after_inScope h₈.sound (P := fun r s' => r.1.pos = var.pos ∧ r.1.name = var.name ∧
    Read s₇.here s₇.ignores (r.2.map .ofStmt) s') (fun s₉ h₉ => ?_) ?_
  · refine after_declare h₉.sound _ _ _ fun var' s₁₀ hpos hname h₁₀ => ?_
    refine (Read.nexts ((h₈.trans (h₉.trans h₁₀)).read h.sound) (suite_reads sub)) fun xs s₁₁ h' => ?_
    exact after_pure ⟨h'.sound, hpos, hname, h'⟩
  · intro r ls s₉ s₁₀ hparts hon
    obtain ⟨var', stmts⟩ := r
    obtain ⟨hpos, hname, h'⟩ := hparts
    have hblock := Read.block (b := ⟨s₇.here, stmts, ls, true, false, false, false⟩) (h'.onward hon)
    have hall := h.append hblock le_rfl
    rw [List.append_assoc, List.append_assoc] at hall
    exact after_pure ⟨le_rfl, Read.loop (hall.rename hpos hname)⟩

theorem Read.match {q : Pos} {x : Expr} {bs : List Branch} (h : Read q R (.expr x :: bs.map .branch) s) :
    Read q R [.ofStmt (.match q x bs)] s := by
  cases hl : bs.getLast? with
  | none =>
    obtain rfl := List.getLast?_eq_none_iff.mp hl
    exact h.last (n := .stmt (.match q x [])) (l := .expr x) rfl rfl rfl trivial (List.Subset.refl _)
  | some b =>
    refine h.last (n := .stmt (.match q x bs)) (l := .branch b) rfl ?_ (finishOfBranches_eq hl _) trivial
      (List.Subset.refl _)
    obtain ⟨bs, rfl⟩ := List.getLast?_eq_some_iff.mp hl
    rw [List.map_append, ← List.cons_append]
    exact List.getLast?_concat

theorem bareStmt_reads : ReadsAll (bareStmt sub) (List.map Node.ofStmt) := by
  intro s hs
  unfold bareStmt
  refine after_kind hs fun t ht => ?_
  split
  · refine (Read.refl hs).advance fun s₁ h => h.next hsub.expr fun c s₂ h => h.skip fun _ s₃ h => ?_
    refine h.next (block_reads sub false) fun yes s₄ h => h.skip fun n s₅ h => ?_
    exact h.nexts (elseBlock_reads sub n) fun no s₆ h => after_pure (Read.cond h)
  · exact (forStmt_reads sub).first (.refl hs) fun x s₁ hstart h => after_pure ((Read.refl hs).append h hstart)
  · refine (Read.refl hs).advance fun s₁ h => h.next hsub.expr fun c s₂ h => h.skip fun _ s₃ h => ?_
    refine h.next (block_reads sub true) fun b s₄ h => after_pure ?_
    exact h.last (n := .stmt (.while s.here c b)) rfl rfl rfl trivial (List.Subset.refl _)
  · refine (Read.refl hs).advance fun s₁ h => h.next hsub.expr fun x s₂ h => h.skip fun _ s₃ h => ?_
    refine h.skip fun _ s₄ h => h.skip fun _ s₅ h => h.skip fun n s₆ h => ?_
    have hbranch : ReadsAll (branch sub) fun b => [.branch b] := fun s hs =>
      (branch_reads sub s hs).mono fun b s' h => (Read.refl hs).append h.read h.start
    refine h.nexts (untilOutdent_reads hbranch n) fun bs s₇ h => ?_
    rw [← List.map_eq_flatMap] at h
    exact h.skip fun _ s₈ h => after_pure (Read.match h)
  · exact (Read.refl hs).skip fun _ s₁ h => after_pure h
  · exact (Read.refl hs).skip fun _ s₁ h => after_pure h
  · exact simpleStmts_reads sub s hs

theorem recordIgnore_reads {start finish : Pos} {codes : List Text} (h : Read p R ns s) (hp : p ≤ start)
    (hfinish : finish ≤ s.here) (hns : ∀ n ∈ ns, n.span.finish ≤ start ∨ n.span.finish ≤ finish) :
    After (recordIgnore start finish codes) s fun _ s' => Read p R ns s' := by
  unfold recordIgnore
  refine after_bind (after_get ?_)
  split
  · exact after_set (h.record (r := ⟨start, finish, codes⟩) hp hfinish hns)
  · exact after_current h.sound fun t _ => after_fail _ _

theorem stmt_reads : ReadsAll (stmt sub) (List.map Node.ofStmt) := by
  intro s hs
  unfold stmt
  refine (Read.refl hs).skip fun n s₁ h => ?_
  refine after_bind ((stmtMarkers_reads sub n h (m := {}) nofun).mono fun m s₂ ⟨h, hm⟩ => ?_)
  refine h.nexts (bareStmt_reads sub) fun xs s₃ h => ?_
  have hread : Read s.here s.ignores (xs.map .ofStmt) s₃ := h
  extract_lets done
  split
  · rename_i codes last hignore hlast
    have hany : m.any = true := by simp [Markers.any, hignore]
    have hlast : (xs.map Node.ofStmt).getLast? = some (.ofStmt last) := by rw [List.getLast?_map, hlast]; rfl
    have hend : (Node.ofStmt last).span.finish = last.finish := by rw [Node.span_ofStmt]; rfl
    have hfinish := (hread.nodes _ (List.mem_of_getLast? hlast)).1.2
    refine after_bind ((recordIgnore_reads hread (hm hany) (hend.ge.trans hfinish) fun n hn => .inr ?_).mono
      fun _ s₄ h => after_pure h)
    exact (hread.finish_le hlast n hn).trans hend.le
  · exact after_pure hread

end Sub

end Parse

end GameScript
