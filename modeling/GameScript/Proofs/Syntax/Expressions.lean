import GameScript.Proofs.Syntax.Nodes

/-!
# Spans of expressions

Each parser of a part of the grammar reads a node that holds what the parsers of its parts have read.

* `Parse.Subparsers.Nest` — the parsers of the parts of a construct read nodes;
* `Parse.Read.func` — a function, whose name may be detached;
* `Parse.Prolongs` — an expression is taken further to the right: suffixes, operators, casts;
* `Parse.expr_reads` — **expressions are nested**.
-/

namespace GameScript

/-! ### Ends of blocks and functions -/

theorem Node.span_ofStmt (x : Stmt) : (Node.ofStmt x).span = x.span := by
  cases x <;> rfl

theorem finishOfStmts_eq {xs : List Stmt} {x : Stmt} (h : xs.getLast? = some x) (q : Pos) :
    finishOfStmts q xs = x.finish := by
  induction xs generalizing q with
  | nil => cases h
  | cons y ys ih =>
    unfold finishOfStmts
    cases ys with
    | nil =>
      cases h
      rfl
    | cons z zs => exact ih (by simpa using h) _

theorem Func.finish_of_empty {f : Func} (h : f.body.stmts = []) : f.finish = f.pos.shift 4 := by
  obtain ⟨_, _, _, _, ⟨_, stmts, _, _, _, _, _⟩, _, _⟩ := f
  cases stmts with
  | nil => rfl
  | cons => cases h

theorem Func.finish_of_body {f : Func} (h : f.body.stmts ≠ []) : f.finish = f.body.finish := by
  obtain ⟨_, _, _, _, ⟨_, stmts, _, _, _, _, _⟩, _, _⟩ := f
  cases stmts with
  | nil => exact absurd rfl h
  | cons => rfl

/-! ### Signs and negations -/

theorem UnaryOp.isLayout_of_ofSign? {k : TokenKind} {op : UnaryOp} (h : UnaryOp.ofSign? k = some op) :
    k.isLayout = false := by
  unfold UnaryOp.ofSign? at h
  split at h <;> first | rfl | cases h

theorem UnaryOp.isLayout_of_ofNegation? {k : TokenKind} {op : UnaryOp} (h : UnaryOp.ofNegation? k = some op) :
    k.isLayout = false := by
  unfold UnaryOp.ofNegation? at h
  split at h <;> first | rfl | cases h

namespace Parse

variable {α β : Type} {Q : β → State → Prop} {s s' : State} {t : Token} {p : Pos} {R : List WarningIgnore}
  {ns : List Node} {n : Node}

/-! ### The parts of a construct -/

/-- The parsers of the parts of a construct **nest** what they read. -/
class Subparsers.Nest (sub : Subparsers) : Prop where
  expr : Reads sub.expr Node.expr
  ternary : Reads sub.ternary Node.expr
  level : ∀ l, Reads (sub.level l) Node.expr
  sign : Reads sub.sign Node.expr
  powerOperand : Reads sub.powerOperand Node.expr
  await : Reads sub.await Node.expr
  typeSpec : Reads sub.typeSpec Node.typeSpec
  pattern : ∀ top, Reads (sub.pattern top) Node.pattern
  stmt : ReadsAll sub.stmt (List.map Node.ofStmt)
  smallStmt : Reads sub.smallStmt Node.ofStmt

section Sub

variable (sub : Subparsers) [hsub : sub.Nest]

theorem typeSpec_reads : Reads (typeSpec sub) Node.typeSpec := by
  intro s hs
  unfold typeSpec
  refine typeName_reads.first (.refl hs) fun first s₁ hstart h => h.skip fun n s₂ h => ?_
  refine h.nexts (dottedNames_reads typeName_reads n) fun names s₃ h => h.skip fun b s₄ h => ?_
  split
  · refine h.next hsub.typeSpec fun element s₅ h => ?_
    exact after_consume h.sound fun u s₆ hu h₆ =>
      after_pure ⟨hstart, h.bracket h₆ (by rw [hu]; decide) rfl rfl trivial (by simp)⟩
  · let last := (first :: names).getLast (List.cons_ne_nil _ _)
    refine after_pure ⟨hstart, h.last rfl (l := .ofIdent last) ?_ ?_ trivial (by simp)⟩
    · rw [← List.map_singleton, ← List.map_append, List.getLast?_map]
      rw [List.singleton_append, List.getLast?_eq_getLast_of_ne_nil (List.cons_ne_nil _ _)]
      rfl
    · show (((first :: names).getLast?.map Ident.finish).getD .none) = _
      rw [List.getLast?_eq_getLast_of_ne_nil (List.cons_ne_nil _ _)]
      rfl

/-! ### Functions -/

theorem param_reads : ∀ s, s.Sound → After (param sub) s fun a s' =>
    s.here ≤ a.name.pos ∧ Read a.name.pos s.ignores (Node.param a).children s' := by
  intro s hs
  unfold param
  refine ident_reads.first (.refl hs) fun name s₁ hstart h => h.skip fun k s₂ h => ?_
  dsimp only
  split
  · exact h.skip fun q s₃ h => h.next hsub.expr fun x s₄ h => after_pure ⟨hstart, h⟩
  refine h.skip fun b s₃ h => h.opt hsub.typeSpec b fun spec s₄ h => h.skip fun b' s₅ h => ?_
  refine h.opt hsub.expr b' fun x s₅ h => after_pure ⟨hstart, ?_⟩
  rw [List.append_assoc] at h
  rw [Node.children_param]
  exact h

theorem Read.param {a : Param} (h : Read a.name.pos R (Node.param a).children s) : Read a.name.pos R [.param a] s := by
  obtain ⟨name, spec, infer, default⟩ := a
  cases default with
  | some x =>
    cases spec with
    | some t => exact h.last rfl (l := .expr x) rfl rfl trivial (List.Subset.refl _)
    | none => exact h.last rfl (l := .expr x) rfl rfl trivial (List.Subset.refl _)
  | none =>
    cases spec with
    | some t => exact h.last rfl (l := .typeSpec t) rfl rfl trivial (List.Subset.refl _)
    | none => exact h.last rfl (l := .ofIdent name) rfl rfl trivial (List.Subset.refl _)

theorem params_reads (declared : Bool) (n : Nat) (before : List Param) (h : Read p R (before.map .param) s) :
    After (params sub declared before n) s fun ps s' => Read p R (ps.map .param) s' := by
  induction n generalizing before s with
  | zero => exact after_fail _ _
  | succ n ih =>
    unfold params
    refine h.skip fun b s₁ h => ?_
    split
    · exact after_pure h
    refine after_bind ((param_reads sub s₁ h.sound).mono fun a s₂ ⟨hstart, h'⟩ => ?_)
    rw [Node.children_param] at h'
    extract_lets bound fresh checked
    have hbound {name : Ident} {s₃ : State} (hon : Onward s₂ s₃) (hpos : name.pos = a.name.pos)
        (hname : name.name = a.name.name) : After (bound name) s₃ fun ps s' => Read p R (ps.map .param) s' := by
      have h'' : Read name.pos s₁.ignores (Node.param { a with name }).children s₃ := by
        rw [hpos, Node.children_param]
        exact (h'.onward hon).rename hpos hname
      have h : Read p R ((before ++ [{ a with name }]).map .param) s₃ := by
        rw [List.map_append]
        exact h.append h''.param (hpos ▸ hstart)
      refine h.skip fun b s₄ h => ?_
      split
      · exact ih _ h
      · exact after_pure h
    have hchecked : After (checked ()) s₂ fun ps s' => Read p R (ps.map .param) s' := by
      dsimp only [checked]
      split
      · exact after_declare h'.sound _ _ _ fun name s₃ hpos hname hon => hbound hon hpos hname
      · exact after_guard (after_bind (after_pure (hbound (.refl h'.sound) rfl rfl)))
    split <;> exact after_guard hchecked

theorem lambdaStmts_reads (n : Nat) : ReadsAll (lambdaStmts sub n) (List.map Node.ofStmt) := by
  induction n with
  | zero => exact fun _ _ => after_fail _ _
  | succ n ih =>
    intro s hs
    unfold lambdaStmts
    refine (Read.refl hs).next hsub.smallStmt fun x s₁ h => h.skip fun st s₂ h => h.skip fun b s₃ h => ?_
    split
    · exact h.skip fun q s₄ h => h.nexts ih fun xs s₅ h => after_pure h
    · exact after_pure h

theorem lineStmts_reads (n : Nat) : ReadsAll (lineStmts sub n) (List.map Node.ofStmt) := by
  induction n with
  | zero => exact fun _ _ => after_fail _ _
  | succ n ih =>
    intro s hs
    unfold lineStmts
    refine (Read.refl hs).next hsub.smallStmt fun x s₁ h => h.skip fun st s₂ h => h.skip fun b s₃ h => ?_
    split
    · refine h.skip fun q s₄ h => h.skip fun k s₅ h => ?_
      split
      · exact after_pure h
      · exact h.nexts ih fun xs s₆ h => after_pure h
    · exact after_pure h

theorem simpleStmts_reads : ReadsAll (simpleStmts sub) (List.map Node.ofStmt) := by
  intro s hs
  unfold simpleStmts
  refine (Read.refl hs).skip fun n s₁ h => h.nexts (lineStmts_reads sub n) fun xs s₂ h => ?_
  exact h.skip fun _ s₃ h => after_pure h

theorem suite_reads : ReadsAll (suite sub) (List.map Node.ofStmt) := by
  intro s hs
  unfold suite
  refine (Read.refl hs).skip fun b s₁ h => ?_
  split
  · refine h.skip fun _ s₂ h => h.skip fun _ s₃ h => h.skip fun n s₄ h => ?_
    refine h.nexts (untilOutdent_reads hsub.stmt n) fun xs s₅ h => h.skip fun _ s₆ h => after_pure ?_
    rw [List.map_flatten]
    exact h
  · exact (simpleStmts_reads sub s₁ h.sound).mono fun xs s₂ h' => h.append h' le_rfl

/-! ### Blocks and functions -/

/-- Statements are a block. -/
theorem Read.block {b : Block} (h : Read b.start R (b.stmts.map .ofStmt) s) : Read b.start R [.block b] s := by
  obtain ⟨start, stmts, _, _, _, _, _⟩ := b
  cases hl : stmts.getLast? with
  | none =>
    obtain rfl := List.getLast?_eq_none_iff.mp hl
    exact h.node rfl le_rfl h.start trivial (List.forall_mem_nil _)
  | some x =>
    refine h.last rfl (l := .ofStmt x) ?_ ?_ trivial (List.Subset.refl _)
    · rw [List.getLast?_map, hl]
      rfl
    · rw [Node.span_ofStmt]
      exact finishOfStmts_eq hl start

/-- The parts of a function, the last of which is its body. -/
theorem Read.func {f : Func} (h : Read f.pos R (ns ++ [.block f.body]) s) (hpos : f.pos.shift 4 ≤ f.body.start)
    (hchildren : ∀ c ∈ (Node.func f).children, c ∈ ns ++ [.block f.body] ∨ (Node.func f).Detached c ∧ c.Nested) :
    Read f.pos R [.func f] s ∧ f.finish ≤ f.body.finish := by
  obtain ⟨⟨-, hbody⟩, hnested, -⟩ := h.nodes (Node.block f.body) (by simp)
  have hspan : f.body.start ≤ f.body.finish := hnested.span
  by_cases hempty : f.body.stmts = []
  · -- The function ends behind its first word, and all its children are detached.
    have hfinish := Func.finish_of_empty hempty
    have hle : f.finish ≤ f.body.finish := hfinish ▸ hpos.trans hspan
    refine ⟨h.node rfl ?_ (hle.trans hbody) trivial fun c hc => .inr ⟨.inl hempty, ?_⟩, hle⟩
    · exact (Pos.le_shift _ _).trans hfinish.ge
    · exact (hchildren c hc).elim (fun hc => (h.nodes c hc).2.1) And.right
  · have hfinish := Func.finish_of_body hempty
    have hl : (ns ++ [Node.block f.body]).getLast? = some (.block f.body) := List.getLast?_concat
    refine ⟨h.node rfl ?_ (hfinish.le.trans hbody) trivial fun c hc => ?_, hfinish.le⟩
    · exact ((Pos.le_shift _ _).trans hpos).trans (hspan.trans hfinish.ge)
    · exact (hchildren c hc).imp (fun hc => ⟨hc, (h.finish_le hl c hc).trans hfinish.ge⟩) id

/-- Nodes have been read **and then a block** of statements. -/
def ReadBody (p : Pos) (R : List WarningIgnore) (ns : List Node) (start : Pos) (stmts : List Stmt) (s : State) : Prop :=
  ∃ s₁, Read p R ns s₁ ∧ s₁.here = start ∧ Read start s₁.ignores (stmts.map .ofStmt) s

theorem ReadBody.onward {start : Pos} {xs : List Stmt} (h : ReadBody p R ns start xs s) (hs : Onward s s') :
    ReadBody p R ns start xs s' := by
  obtain ⟨s₁, hhead, hstart, hstmts⟩ := h
  exact ⟨s₁, hhead, hstart, hstmts.onward hs⟩

theorem ReadBody.block {b : Block} (h : ReadBody p R ns b.start b.stmts s) : Read p R (ns ++ [.block b]) s := by
  obtain ⟨s₁, hhead, hstart, hstmts⟩ := h
  exact hhead.append hstmts.block hstart.le

theorem Read.body (h : Read p R ns s) {f : List Stmt → Parser β}
    (hf : ∀ xs s', s'.Sound → ReadBody p R ns s.here xs s' → After (f xs) s' Q) : After (suite sub >>= f) s Q :=
  (Read.refl h.sound).nexts (suite_reads sub) fun xs s' h' => hf xs s' h'.sound ⟨s, h, rfl, h'⟩

/-- What follows the name of a function. -/
theorem functionRest_reads {pos : Pos} {name : Option Ident} {isStatic : Bool} {role : FuncRole}
    (h : Read pos R (name.toList.map .ofIdent) s) (hpos : pos.shift 4 ≤ s.here) :
    After (functionRest sub pos name isStatic role) s fun f s' => Read pos R [.func f] s' ∧ f.pos = pos := by
  unfold functionRest
  refine after_inScope h.sound (P := fun r s' => s.here ≤ r.2.2.1 ∧
    ReadBody s.here s.ignores (r.1.map .param ++ r.2.1.toList.map .typeSpec) r.2.2.1 r.2.2.2 s') (fun s₁ hon => ?_) ?_
  · refine (hon.read h.sound).skip fun _ s₂ h => h.skip fun n s₃ h => ?_
    refine after_bind ((params_reads sub true n [] h).mono fun ps s₄ h => h.skip fun _ s₅ h => h.skip fun b s₆ h => ?_)
    dsimp only
    refine h.opt hsub.typeSpec b fun returns s₇ h => h.skip fun _ s₈ h => after_pos h.sound ?_
    split
    · refine after_isAt h.sound _ fun t _ => ?_
      split
      · refine h.body sub fun xs s₉ hs₉ hbody => after_idle hs₉ fun _ s₁₀ _ h₁₀ => after_pure ?_
        exact ⟨h₁₀.sound, h.start, hbody.onward h₁₀⟩
      · refine (Read.refl h.sound).skip fun n s₉ h' => h'.nexts (lambdaStmts_reads sub n) fun xs s₉ h' => after_pure ?_
        exact ⟨h'.sound, h.start, s₈, h, rfl, h'⟩
    · exact h.body sub fun xs s₉ hs₉ hbody => after_pure ⟨hs₉, h.start, hbody⟩
  · intro r ls s₁ s₂ hparts hon
    obtain ⟨ps, returns, start, stmts⟩ := r
    obtain ⟨hstart, hbody⟩ := hparts
    have hblock := (hbody.onward hon).block (b := ⟨start, stmts, ls, false, false, false, false⟩)
    have hall := h.append hblock le_rfl
    rw [← List.append_assoc] at hall
    refine after_pure ⟨?_, rfl⟩
    refine (Read.func (f := ⟨pos, name, ps, returns, _, isStatic, role⟩) hall (hpos.trans hstart) fun c hc => .inl ?_).1
    rw [Node.children_func] at hc
    simpa only [List.append_assoc] using hc

/-! ### Primary expressions -/

/-- Behind arguments a node may end, with the parenthesis that closes them. -/
theorem Read.call (h : Read p R ns s) {f : List Expr × Pos → Parser β}
    (hf : ∀ xs q s', (∀ n : Node, n.span.start = p → n.span.finish = q.shift 1 → n.Signed →
      n.children ⊆ ns ++ xs.map .expr → Read p R [n] s') → After (f (xs, q)) s' Q) :
    After (arguments sub >>= f) s Q := by
  unfold arguments
  rw [bind_assoc]
  refine h.skip fun _ s₁ h => ?_
  rw [bind_assoc]
  refine h.skip fun n s₂ h => ?_
  rw [bind_assoc]
  refine h.nexts (commaList_reads hsub.expr _ n) fun xs s₃ h => ?_
  rw [bind_assoc]
  refine after_consume h.sound fun t s₄ ht h' => after_bind (after_pure (hf xs t.pos s₄ fun n hp hend hsigned hn => ?_))
  exact h.bracket h' (by rw [ht]; rfl) hp hend hsigned hn

theorem dictEntry_reads (style : DictStyle) : Reads (dictEntry sub style) Node.dictEntry := by
  intro s hs
  unfold dictEntry
  extract_lets value
  have hvalue {key : Expr} {s₁ : State} (hstart : s.here ≤ key.start) (h : Read key.start s.ignores [.expr key] s₁) :
      After (value key) s₁ fun e s' => ReadNode s (.dictEntry e) s' := by
    refine h.skip fun _ s₂ h => h.next hsub.expr fun x s₃ h => after_pure ⟨hstart, ?_⟩
    exact h.last rfl rfl rfl trivial (List.Subset.refl _)
  split
  · refine after_isAt hs _ fun t _ => ?_
    extract_lets
    refine after_guard_here (ident_reads.first (.refl hs) fun id s₁ hstart h => h.skip fun b s₂ h => ?_)
    extract_lets
    exact after_guard_here (after_bind (after_pure (hvalue hstart (h.leaf rfl trivial rfl))))
  · refine hsub.expr.first (.refl hs) fun x s₁ hstart h => h.skip fun b s₂ h => ?_
    extract_lets
    exact after_guard_here (after_bind (after_pure (hvalue hstart h)))

theorem dict_reads : Reads (dict sub) Node.expr := by
  intro s hs
  unfold dict
  refine (Read.refl hs).advance fun s₁ h => h.skip fun b s₂ h => ?_
  extract_lets entries
  have hentries {style : DictStyle} {s₃ : State} (h : Read s.here s.ignores [] s₃) :
      After (entries style) s₃ fun x s' => ReadNode s (.expr x) s' := by
    refine h.skip fun n s₄ h => h.nexts (commaList_reads (dictEntry_reads sub style) _ n) fun es s₅ h => ?_
    exact after_consume h.sound fun t s₆ ht h' =>
      after_pure ⟨le_rfl, h.bracket h' (by rw [ht]; rfl) rfl rfl trivial (List.Subset.refl _)⟩
  split
  · refine h.skip fun k s₃ h => ?_
    split <;> exact after_bind (after_pure (hentries h))
  · exact after_bind (after_pure (hentries h))

theorem primary_reads : Reads (primary sub) Node.expr := by
  intro s hs
  unfold primary
  refine after_current hs fun t ht => ?_
  split
  · exact identRef_reads.first (.refl hs) fun id s₁ hstart h => after_pure ⟨hstart, h⟩
  iterate 8 exact literal_reads.first (.refl hs) fun l s₁ hstart h => after_pure ⟨hstart, h⟩
  · rename_i hk
    refine after_advance hs ht fun s₁ h => after_pure (h.node hs rfl (Pos.le_shift _ _) ?_ trivial rfl)
    exact h.here ▸ h.keyword hk "self" (by decide)
  · refine (Read.refl hs).advance fun s₁ h => h.skip fun b s₂ h => ?_
    extract_lets args
    have hargs {fn : Option Ident} {s₃ : State} (h : Read s.here s.ignores (fn.toList.map .ofIdent) s₃) :
        After (args fn) s₃ fun x s' => ReadNode s (.expr x) s' := by
      refine h.call sub fun xs q s₄ hcall => after_pure ⟨le_rfl, hcall _ rfl rfl trivial ?_⟩
      rw [Node.children_superCall]
      exact List.Subset.refl _
    split
    · rw [map_eq_pure_bind, bind_assoc]
      exact h.next memberName_reads fun fn s₃ h => after_bind (after_pure (hargs h))
    · refine h.skip fun b s₃ h => ?_
      extract_lets
      exact after_guard_here (after_bind (after_pure (hargs h)))
  · refine after_skip hs fun _ s₁ hon => hsub.expr.first hon fun x s₂ hstart h => h.skip fun _ s₃ h => ?_
    exact after_pure ⟨hstart, h⟩
  · refine (Read.refl hs).advance fun s₁ h => h.skip fun n s₂ h => ?_
    refine h.nexts (commaList_reads hsub.expr _ n) fun xs s₃ h => after_consume h.sound fun u s₄ hu h' => ?_
    exact after_pure ⟨le_rfl, h.bracket h' (by rw [hu]; rfl) rfl rfl trivial (List.Subset.refl _)⟩
  · exact dict_reads sub s hs
  · rename_i hk
    refine after_advance hs ht fun s₁ h₁ => after_isAt h₁.sound _ fun u hu => ?_
    have hpos : s.here.shift 4 ≤ s₁.here := h₁.keyword hk "func" (by decide)
    rw [← h₁.here]
    extract_lets rest
    have hrest {name : Option Ident} {s₂ : State} (h : Read s.here s.ignores (name.toList.map .ofIdent) s₂)
        (hupto : s₁.here ≤ s₂.here) :
        After (rest name) s₂ fun x s' => ReadNode s (.expr x) s' := by
      refine after_bind ((functionRest_reads sub h (hpos.trans hupto)).mono fun f s₃ hf => after_pure ?_)
      exact .of_start hf.2 le_rfl (hf.1.last hf.2 rfl rfl trivial (List.Subset.refl _))
    split
    · rw [map_eq_pure_bind, bind_assoc]
      refine after_bind ((ident_reads s₁ h₁.sound).mono fun id s₂ hid => after_bind (after_pure ?_))
      exact hrest ((h₁.read hs).append hid.read hid.start) (hid.start.trans hid.read.start)
    · exact after_bind (after_pure (hrest (h₁.read hs) le_rfl))
  · refine (Read.refl hs).advance fun s₁ h => h.skip fun _ s₂ h => h.skip fun b s₃ h => ?_
    extract_lets
    refine after_guard_here (h.next literal_reads fun l s₄ h => after_consume h.sound fun u s₅ hu h' => ?_)
    exact after_pure ⟨le_rfl, h.bracket h' (by rw [hu]; rfl) rfl rfl trivial (List.Subset.refl _)⟩
  · exact after_fail _ _

/-! ### Suffixes and operators -/

/-- A parser **prolongs** an expression to the right. -/
def Prolongs (f : Expr → Parser Expr) : Prop := ∀ ⦃x p R s⦄, x.start = p → Read p R [.expr x] s →
  After (f x) s fun y s' => y.start = p ∧ Read p R [.expr y] s'

theorem Reads.prolong {x : Parser Expr} {f : Expr → Nat → Parser Expr} (hx : Reads x Node.expr)
    (hf : ∀ n, Prolongs (f · n)) : Reads (x >>= fun a => remaining >>= f a) Node.expr := by
  intro s hs
  refine hx.first (.refl hs) fun a s₁ hstart h => h.skip fun n s₂ h => (hf n rfl h).mono fun y s₃ ⟨hy, h⟩ => ?_
  exact .of_start hy hstart h

theorem suffixes_prolongs (n : Nat) : Prolongs (suffixes sub · n) := by
  induction n with
  | zero => exact fun _ _ _ _ _ _ => after_fail _ _
  | succ n ih =>
    intro x p R s hx h
    dsimp only
    unfold suffixes
    refine after_kind h.sound fun t ht => ?_
    split
    · refine h.skip fun _ s₁ h => h.next memberName_reads fun id s₂ h => ih hx ?_
      exact h.last (n := .expr (.dot x id {})) hx rfl rfl trivial (List.Subset.refl _)
    · refine h.skip fun _ s₁ h => h.next hsub.expr fun y s₂ h => after_consume h.sound fun u s₃ hu h' => ih hx ?_
      exact h.bracket (n := .expr (.index x y u.pos {})) h' (by rw [hu]; rfl) hx rfl trivial (List.Subset.refl _)
    · refine h.call sub fun xs q s₁ hcall => ih hx ?_
      exact hcall (.expr (.call x xs q {} {})) hx rfl trivial (List.Subset.refl _)
    · exact after_pure ⟨hx, h⟩

theorem await_reads : Reads (await sub) Node.expr := by
  intro s hs
  unfold await
  refine after_isAt hs _ fun t ht => ?_
  split
  · refine (Read.refl hs).advance fun s₁ h => h.next hsub.await fun x s₂ h => after_pure ⟨le_rfl, ?_⟩
    exact h.last rfl rfl rfl trivial (List.Subset.refl _)
  · exact (primary_reads sub).prolong (suffixes_prolongs sub) s hs

theorem typeTests_prolongs (n : Nat) : Prolongs (typeTests sub · n) := by
  induction n with
  | zero => exact fun _ _ _ _ _ _ => after_fail _ _
  | succ n ih =>
    intro x p R s hx h
    dsimp only
    unfold typeTests
    refine h.skip fun b s₁ h => ?_
    split
    · refine h.skip fun b s₂ h => h.next hsub.typeSpec fun t s₃ h => ih hx ?_
      exact h.last (n := .expr (.typeTest x b t {})) hx rfl rfl trivial (List.Subset.refl _)
    · exact after_pure ⟨hx, h⟩

theorem typeTest_reads : Reads (typeTest sub) Node.expr := (await_reads sub).prolong (typeTests_prolongs sub)

/-- A sign or a negation in front of an operand. -/
theorem unary_reads {x : Parser Expr} (hx : Reads x Node.expr) (op : UnaryOp) (hs : s.Sound) (ht : s.At t)
    (hk : t.kind.isLayout = false) : After (advance >>= fun q => x >>= fun y => pure (.unary q op y {})) s fun y s' =>
      ReadNode s (.expr y) s' := by
  refine after_advance hs ht fun s₁ h₁ => ?_
  rw [← h₁.here]
  have hword := h₁.here ▸ (h₁.word hk).1
  refine after_bind ((hx s₁ h₁.sound).mono fun y s₂ hy => after_pure ⟨le_rfl, ?_⟩)
  have hparts := (h₁.read hs).append hy.read hy.start
  exact hparts.last (n := .expr (.unary s.here op y {})) rfl rfl rfl (hword.trans_le hy.start) (List.Subset.refl _)

theorem powerOperand_reads : Reads (powerOperand sub) Node.expr := by
  intro s hs
  unfold powerOperand
  refine after_kind hs fun t ht => ?_
  split
  · exact unary_reads hsub.powerOperand _ hs ht (UnaryOp.isLayout_of_ofSign? ‹_›)
  · exact typeTest_reads sub s hs

theorem powers_prolongs (n : Nat) : Prolongs (powers sub · n) := by
  induction n with
  | zero => exact fun _ _ _ _ _ _ => after_fail _ _
  | succ n ih =>
    intro x p R s hx h
    dsimp only
    unfold powers
    refine h.skip fun b s₁ h => ?_
    split
    · refine h.next (powerOperand_reads sub) fun y s₂ h => ih hx ?_
      exact h.last (n := .expr (.binary x .power y {})) hx rfl rfl trivial (List.Subset.refl _)
    · exact after_pure ⟨hx, h⟩

theorem sign_reads : Reads (sign sub) Node.expr := by
  intro s hs
  unfold sign
  refine after_kind hs fun t ht => ?_
  split
  · exact unary_reads hsub.sign _ hs ht (UnaryOp.isLayout_of_ofSign? ‹_›)
  · exact unary_reads (hsub.level _) _ hs ht (UnaryOp.isLayout_of_ofNegation? ‹_›)
  · exact (typeTest_reads sub).prolong (powers_prolongs sub) s hs

/-- A word stays one when it is taken for another. -/
theorem State.Sound.join {u : Token} {ts : List Token} (hs : s.Sound) (htokens : s.tokens = t :: u :: ts)
    (hu : u.kind = .inKw) : Onward s { s with tokens := { u with kind := .notIn } :: ts } := by
  have hordered := hs.ordered
  rw [htokens] at hordered
  obtain ⟨hfirst, hrest⟩ := List.pairwise_cons.mp hordered
  have hupto : s.here ≤ u.pos := (show s.here = t.pos from State.At.here ⟨_, htokens⟩) ▸
    (hfirst u List.mem_cons_self).start
  obtain ⟨hsecond, hrest⟩ := List.pairwise_cons.mp hrest
  refine ⟨⟨List.pairwise_cons.mpr ⟨fun v hv => ⟨(hsecond v hv).start, fun _ => ?_⟩, hrest⟩,
    List.forall_mem_cons.mpr ⟨Token.spelled_of_free rfl, fun v hv => hs.spelled v ?_⟩, fun hfault => ?_, ⟨_, _, rfl⟩,
    fun r hr => (hs.ignores r hr).trans hupto⟩, rfl, hupto⟩
  · exact (hsecond v hv).word (by rw [hu]; rfl)
  · rw [htokens]
    exact List.mem_cons_of_mem _ (List.mem_cons_of_mem _ hv)
  · -- The word is not the last token, since that one is the end of the file.
    obtain ⟨v, hv, hend⟩ := hs.ended hfault
    rw [htokens, List.getLast?_cons_cons] at hv
    cases ts with
    | nil =>
      rw [List.getLast?_singleton, Option.some_inj] at hv
      rw [← hv, hu] at hend
      cases hend
    | cons w ts => exact ⟨v, hv, hend⟩

instance joinNotIn_skips : Skips joinNotIn where
  after s hs := by
    unfold joinNotIn
    refine after_current hs fun t ht => ?_
    split
    · obtain ⟨ts, htokens⟩ := ht
      unfold peek
      refine after_bind (after_bind (after_get ?_))
      rw [htokens]
      cases ts with
      | nil =>
        -- Nothing comes behind the last token.
        dsimp only
        split
        · unfold endOfTokens
          split
          · exact after_fail_bind _ _
          · exact after_bind (after_pure (after_pure (after_fail_bind _ _)))
        · exact after_bind (after_pure (after_pure (after_fail_bind _ _)))
      | cons u ts =>
        refine after_pure ?_
        dsimp only
        split
        · exact after_fail_bind _ _
        · unfold advance
          refine after_bind (after_bind (after_get ?_))
          rw [htokens]
          exact after_bind (after_set (after_pure (after_modify (hs.join htokens (not_not.mp ‹_›)))))
    · exact after_pure (.refl hs)

theorem operators_prolongs (level : Nat) (n : Nat) : Prolongs (operators sub level · n) := by
  induction n with
  | zero => exact fun _ _ _ _ _ _ => after_fail _ _
  | succ n ih =>
    intro x p R s hx h
    dsimp only
    unfold operators
    refine h.skip fun _ s₁ h => h.skip fun k s₂ h => ?_
    split
    · split
      · exact after_pure ⟨hx, h⟩
      · refine h.skip fun _ s₃ h => h.next (hsub.level _) fun y s₄ h => ih hx ?_
        exact h.last (n := .expr (.binary x _ y {})) hx rfl rfl trivial (List.Subset.refl _)
    · exact after_pure ⟨hx, h⟩

theorem levels_reads (n : Nat) : Reads (levels sub n) Node.expr := by
  induction n with
  | zero => exact sign_reads sub
  | succ n ih =>
    intro s hs
    unfold levels
    extract_lets level
    refine after_kind hs fun t ht => ?_
    split
    · split
      · exact unary_reads (hsub.level _) _ hs ht (UnaryOp.isLayout_of_ofNegation? ‹_›)
      · exact ih.prolong (operators_prolongs sub _) s hs
    · exact ih.prolong (operators_prolongs sub _) s hs

theorem level_reads (l : Nat) : Reads (level sub l) Node.expr := levels_reads sub _

theorem ternary_reads : Reads (ternary sub) Node.expr := by
  intro s hs
  unfold ternary
  refine (level_reads sub 0).first (.refl hs) fun x s₁ hstart h => h.skip fun b s₂ h => ?_
  split
  · refine h.next (level_reads sub 0) fun c s₃ h => h.skip fun b s₄ h => ?_
    extract_lets
    refine after_guard_here (h.skip fun _ s₅ h => h.next hsub.ternary fun y s₆ h => after_pure ⟨hstart, ?_⟩)
    exact h.last rfl rfl rfl trivial (List.Subset.refl _)
  · exact after_pure ⟨hstart, h⟩

theorem casts_prolongs (n : Nat) : Prolongs (casts sub · n) := by
  induction n with
  | zero => exact fun _ _ _ _ _ _ => after_fail _ _
  | succ n ih =>
    intro x p R s hx h
    dsimp only
    unfold casts
    refine h.skip fun b s₁ h => ?_
    split
    · refine h.next hsub.typeSpec fun t s₂ h => ih hx ?_
      exact h.last (n := .expr (.cast x t {})) hx rfl rfl trivial (List.Subset.refl _)
    · exact after_pure ⟨hx, h⟩

theorem expr_reads : Reads (expr sub) Node.expr := (ternary_reads sub).prolong (casts_prolongs sub)


end Sub

end Parse

end GameScript
