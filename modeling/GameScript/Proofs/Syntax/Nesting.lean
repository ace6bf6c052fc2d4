import GameScript.Proofs.Syntax.Regions

/-!
# Spans are nested

Each node of a parsed file lies within its parent, but for the two exceptions, and a region without warnings cuts no
node: one that starts in the region ends in it.

* `Parse.Gains` — a property gains its accessors one after another;
* `Parse.Grows` — a class grows by nodes that have been read;
* `Parse.Adds` — what a member adds to a class, and where the region of its markers ends;
* `Parse.subparsers_nest` — the parsers of the parts of a construct read nodes;
* `File.parse_nested` — **spans are nested** in a parsed file.
-/

namespace GameScript

namespace Parse

variable {α β : Type} {Q : β → State → Prop} {s s' : State} {t : Token} {p : Pos} {R : List WarningIgnore}
  {ns : List Node} {n : Node} {c c' : ClassDecl}

section Sub

variable (sub : Subparsers) [hsub : sub.Nest]

/-! ### Properties -/

theorem setterParam_reads : Reads (setterParam sub) Node.param := by
  intro s hs
  unfold setterParam
  refine after_skip hs fun _ s₁ h₁ => ident_reads.first h₁ fun name s₂ hstart h => h.skip fun b s₃ h => ?_
  dsimp only
  refine h.opt hsub.typeSpec b fun spec s₄ h => after_declare h.sound _ _ _ fun name' s₅ hpos hname hon => ?_
  have h := ((h.onward hon).rename hpos hname)
  refine h.skip fun _ s₆ h => after_pure ?_
  have hparam : Read name'.pos s.ignores (Node.param ⟨name', spec, false, none⟩).children s₆ := by
    rw [hpos, Node.children_param, Option.toList_none, List.map_nil, List.append_nil]
    exact h
  exact .of_start rfl (hstart.trans hpos.ge) (Read.param (a := ⟨name', spec, false, none⟩) hparam)

/-- The function of an accessor, whose name is made up. -/
theorem accessorBody_reads {property : Text} {word : Ident} {isSet : Bool} (h : Read word.pos R [] s)
    (hword : word.pos.shift 3 ≤ s.here) : After (accessorBody sub property word isSet) s fun f s' =>
      f.pos = word.pos ∧ Read word.pos R [.func f] s' ∧ f.finish ≤ f.body.finish ∧ f.body.finish ≤ s'.here := by
  unfold accessorBody
  refine after_inScope h.sound (P := fun r s' => word.pos.shift 4 ≤ r.2.1 ∧
    ReadBody s.here s.ignores (r.1.map .param) r.2.1 r.2.2 s') (fun s₁ h₁ => ?_) ?_
  · extract_lets rest
    have hrest {ps : List Param} {s₂ : State} (h : Read s.here s.ignores (ps.map .param) s₂) :
        After (rest ps) s₂ fun r s' => s'.Sound ∧ word.pos.shift 4 ≤ r.2.1 ∧
          ReadBody s.here s.ignores (r.1.map .param) r.2.1 r.2.2 s' := by
      refine after_consume h.sound fun t s₃ ht h₃ => after_pos h₃.sound ?_
      refine (h.onward h₃.toOnward).body sub fun xs s₄ hs₄ hbody => after_pure ⟨hs₄, Pos.shift_le 3 ?_, hbody⟩
      exact (hword.trans (h.start.trans h₃.here.le)).trans_lt (h₃.word (by rw [ht]; rfl)).1
    split
    · refine (setterParam_reads sub).first h₁ fun a s₂ hstart h' => after_bind (after_pure (hrest ?_))
      exact (Read.refl h.sound).append h' hstart
    · refine (h₁.read h.sound).skip fun b s₂ h => ?_
      split
      · exact h.skip fun _ s₃ h => after_bind (after_pure (hrest h))
      · exact after_bind (after_pure (hrest h))
  · intro r ls s₁ s₂ hparts hon
    obtain ⟨ps, start, stmts⟩ := r
    obtain ⟨hpos, hbody⟩ := hparts
    have hparts := (hbody.onward hon).block (b := ⟨start, stmts, ls, false, false, false, false⟩)
    have hall := h.append hparts le_rfl
    have hfunc (name : Text) := Read.func (f := ⟨word.pos, some { pos := word.pos, name }, ps, none,
      ⟨start, stmts, ls, false, false, false, false⟩, false, .accessor property⟩) hall hpos fun c hc => by
        simp only [Node.children_func, Option.toList_some, Option.toList_none, List.map_singleton, List.map_nil,
          List.cons_append, List.append_nil] at hc
        rcases List.mem_cons.mp hc with rfl | hc
        · -- No token stands for the name, so it is detached.
          refine .inr ⟨.inr ⟨⟨property, rfl⟩, _, rfl, rfl⟩, .mk (Pos.le_advance _ _) trivial ?_ ?_⟩ <;>
            exact List.forall_mem_nil _
        · exact .inl hc
    have hend := (hparts.nodes (Node.block _) (List.mem_append_right _ (List.mem_singleton_self _))).1.2
    exact after_pure ⟨rfl, (hfunc _).1, (hfunc _).2, hend⟩

/-- A variable **gains** a part. -/
structure Gains (d : VarDecl) (n : Node) (d' : VarDecl) : Prop where
  pos : d'.pos = d.pos
  name : d'.name = d.name
  parts : (Node.var d').children.tail ⊆ (Node.var d).children.tail ++ [n]

theorem gains_function (d : VarDecl) (f : Func) :
    Gains d (.func f) { d with setter := some f } ∧ Gains d (.func f) { d with getter := some f } := by
  refine ⟨⟨rfl, rfl, ?_⟩, rfl, rfl, ?_⟩
  all_goals
    intro c hc
    simp only [Node.children_var, List.tail_cons, List.mem_append, Option.toList_some, List.map_singleton] at hc ⊢
    tauto

theorem gains_name (d : VarDecl) (id : Ident) :
    Gains d (.ofIdent id) { d with setterName := some id } ∧
      Gains d (.ofIdent id) { d with getterName := some id } := by
  refine ⟨⟨rfl, rfl, ?_⟩, rfl, rfl, ?_⟩
  all_goals
    intro c hc
    simp only [Node.children_var, List.tail_cons, List.mem_append, Option.toList_some, List.map_singleton] at hc ⊢
    tauto

/-- A part that has been read behind the others. -/
theorem ReadVar.gain {d d' : VarDecl} {q : Pos} (h : ReadVar R d s) (hgains : Gains d n d')
    (hread : Read p s.ignores [n] s') (hstart : s.here ≤ p) (hfinish : n.span.finish ≤ q) (hend : q ≤ s'.here) :
    ReadVar R { d' with finish := q } s' := by
  obtain ⟨⟨ns, hparts, hns, hends⟩, hbefore⟩ := h
  obtain ⟨⟨hp, -⟩, hnested, -⟩ := hread.nodes n (List.mem_singleton_self n)
  refine ⟨⟨ns ++ [n], ?_, ?_, ?_⟩, hend⟩
  · rw [show VarDecl.pos { d' with finish := q } = d.pos from hgains.pos,
      show VarDecl.name { d' with finish := q } = d.name from hgains.name]
    exact hparts.append hread hstart
  · exact fun c hc => (List.mem_append.mp (hgains.parts hc)).elim (fun hc => List.mem_append_left _ (hns hc))
      (List.mem_append_right ns)
  · have hbehind : d.finish ≤ q := (hbefore.trans hstart).trans (hp.trans (hnested.span.trans hfinish))
    rw [show VarDecl.name { d' with finish := q } = d.name from hgains.name, ← List.cons_append]
    exact List.forall_mem_append.mpr ⟨fun c hc => (hends c hc).trans hbehind, List.forall_mem_singleton.mpr hfinish⟩

theorem accessor_reads {d : VarDecl} (inBlock : Bool) (h : ReadVar R d s) :
    After (accessor sub d inBlock) s fun d' s' => ReadVar R d' s' ∧ d'.pos = d.pos := by
  unfold accessor
  refine ident_reads.first (.refl h.node.sound) fun word s₁ hstart hword => ?_
  extract_lets isSet body second first
  have hbody {s₂ : State} (hname : word.name = "set" ∨ word.name = "get")
      (h₂ : Read word.pos s.ignores [.ofIdent word] s₂) :
      After (body ()) s₂ fun d' s' => ReadVar R d' s' ∧ d'.pos = d.pos := by
    -- The function starts with the word, so that at least a colon comes between the word and its body.
    have hend : word.pos.shift 3 ≤ s₂.here := by
      refine le_trans (le_of_eq ?_) (h₂.nodes _ (List.mem_singleton_self _)).1.2
      show word.pos.shift 3 = word.pos.advance word.name
      rcases hname with hname | hname <;> rw [hname] <;> rfl
    refine after_bind ((accessorBody_reads sub (h₂.sublist (List.nil_sublist _)) hend).mono fun f s₃ h₃ => ?_)
    obtain ⟨hpos, hread, hfinish, hbody⟩ := h₃
    extract_lets d₁
    have hgains : Gains d (.func f) d₁ := by
      dsimp only [d₁]
      split
      · exact (gains_function d f).1
      · exact (gains_function d f).2
    clear_value d₁
    rw [← hpos] at hread
    exact after_pure ⟨h.gain hgains hread (hstart.trans hpos.ge) hfinish hbody, hgains.pos⟩
  have hsecond (hname : word.name = "set" ∨ word.name = "get") :
      After (second ()) s₁ fun d' s' => ReadVar R d' s' ∧ d'.pos = d.pos := by
    refine hword.skip fun b s₂ h₂ => ?_
    split
    · -- Instead of a body there is the name of a method, and the accessor ends with that name.
      refine ident_reads.first (.refl h₂.sound) fun name s₃ hstart' h₃ => ?_
      extract_lets d₁ done
      have hgains : Gains d (.ofIdent name) d₁ := by
        dsimp only [d₁]
        split
        · exact (gains_name d name).1
        · exact (gains_name d name).2
      have hread : Read word.pos s.ignores [.ofIdent name] s₃ :=
        (h₂.append h₃ hstart').sublist (List.sublist_append_right _ _)
      have hdone {s₄ : State} (hon : Onward s₃ s₄) :
          After (done ()) s₄ fun d' s' => ReadVar R d' s' ∧ d'.pos = d.pos := by
        have hread := hread.onward hon
        have hend := (hread.nodes _ (List.mem_singleton_self _)).1.2
        exact after_pure ⟨h.gain hgains hread hstart le_rfl hend, hgains.pos⟩
      split
      · exact after_skip h₃.sound fun _ s₄ hon => hdone hon
      · exact hdone (.refl h₃.sound)
    · exact after_guard_here (hbody hname h₂)
  split
  · exact after_fail_bind _ _
  · rename_i hword
    have hname : word.name = "set" ∨ word.name = "get" := by
      simpa [isSet, or_iff_not_imp_left] using hword
    exact after_guard (after_guard (hsecond hname))

theorem blockAccessors_reads (n : Nat) {d : VarDecl} (h : ReadVar R d s) :
    After (blockAccessors sub d n) s fun d' s' => ReadVar R d' s' ∧ d'.pos = d.pos := by
  induction n generalizing d s with
  | zero => exact after_fail _ _
  | succ n ih =>
    unfold blockAccessors
    refine after_kind h.node.sound fun t _ => ?_
    split
    · exact after_pure ⟨h, rfl⟩
    refine after_bind ((accessor_reads sub true h).mono fun d' s₁ ⟨h₁, hpos⟩ => ?_)
    exact hpos ▸ ih h₁

theorem lineAccessors_reads (n : Nat) {d : VarDecl} (h : ReadVar R d s) :
    After (lineAccessors sub d n) s fun d' s' => ReadVar R d' s' ∧ d'.pos = d.pos := by
  induction n generalizing d s with
  | zero => exact after_fail _ _
  | succ n ih =>
    unfold lineAccessors
    refine after_bind ((accessor_reads sub false h).mono fun d' s₁ ⟨h₁, hpos⟩ => ?_)
    refine after_skip h₁.node.sound fun b s₂ hon => ?_
    split
    · exact hpos ▸ ih (h₁.onward hon)
    · exact after_pure ⟨h₁.onward hon, hpos⟩

theorem accessors_reads {d : VarDecl} (h : ReadVar R d s) :
    After (accessors sub d) s fun d' s' => ReadVar R d' s' ∧ d'.pos = d.pos := by
  unfold accessors
  refine after_skip h.node.sound fun b s₁ h₁ => ?_
  split
  · refine after_skip h₁.sound fun _ s₂ h₂ => after_skip h₂.sound fun n s₃ h₃ => ?_
    refine after_bind ((blockAccessors_reads sub n (h.onward (h₁.trans (h₂.trans h₃)))).mono fun d' s₄ ⟨h', hd⟩ => ?_)
    refine after_skip h'.node.sound fun _ s₅ h₅ => after_skip h₅.sound fun _ s₆ h₆ => after_pure ?_
    exact ⟨h'.onward (h₅.trans h₆), hd⟩
  · refine after_skip h₁.sound fun n s₂ h₂ => lineAccessors_reads sub n (h.onward (h₁.trans h₂))

theorem memberVar_reads (hs : s.Sound) : After (memberVar sub) s fun d s' =>
    ReadVar s.ignores d s' ∧ d.pos = s.here := by
  unfold memberVar
  refine (Read.refl hs).advance fun s₁ h => h.next ident_reads fun name s₂ h => ?_
  extract_lets bare head
  have hhead {spec : Option TypeSpec} {s₃ : State}
      (h : Read s.here s.ignores (.ofIdent name :: spec.toList.map .typeSpec) s₃) :
      After (head spec) s₃ fun d s' => ReadVar s.ignores d s' ∧ d.pos = s.here := by
    refine after_bind ((varHead_reads sub h).mono fun d s₄ ⟨h₄, hpos, _⟩ => after_bind (after_get ?_))
    split
    · refine after_skip h₄.node.sound fun b s₅ h₅ => ?_
      split
      · exact (accessors_reads sub (h₄.onward h₅)).mono fun d' s₆ ⟨h₆, hpos'⟩ => ⟨h₆, hpos'.trans hpos⟩
      · exact after_pure ⟨h₄.onward h₅, hpos⟩
    · exact after_pure ⟨h₄, hpos⟩
  refine h.skip fun b s₃ h => ?_
  split
  · refine h.skip fun b s₄ h => ?_
    split
    · have hbare : ReadVar s.ignores bare s₄ := by
        refine ⟨⟨[], h, ?_, List.forall_mem_singleton.mpr le_rfl⟩, (h.nodes (.ofIdent name) (by simp)).1.2⟩
        exact List.Subset.refl _
      exact accessors_reads sub hbare
    · rw [map_eq_pure_bind, bind_assoc]
      exact h.next hsub.typeSpec fun t s₅ h => after_bind (after_pure (hhead h))
  · exact after_bind (after_pure (hhead h))

/-! ### Other members -/

theorem Read.base {q : Pos} {path : Option Literal} {names : List Ident} (hpath : path.isSome = true ∨ names ≠ [])
    (h : Read q R (path.toList.map .ofLiteral ++ names.map .ofIdent) s) : Read q R [.base ⟨q, path, names⟩] s := by
  have hchildren : (Node.base ⟨q, path, names⟩).children ⊆ path.toList.map .ofLiteral ++ names.map .ofIdent := by
    rw [Node.children_base]
    exact List.Subset.refl _
  rcases List.eq_nil_or_concat names with rfl | ⟨names, id, rfl⟩
  · obtain ⟨l, rfl⟩ := Option.isSome_iff_exists.mp (hpath.resolve_right (not_not.mpr rfl))
    exact h.last (n := .base ⟨q, some l, []⟩) (l := .ofLiteral l) rfl rfl rfl trivial hchildren
  · rw [List.concat_eq_append] at *
    refine h.last (n := .base ⟨q, path, names ++ [id]⟩) (l := .ofIdent id) rfl ?_ ?_ trivial hchildren
    · rw [List.map_append, ← List.append_assoc]
      exact List.getLast?_concat
    · simp only [Node.span, Extends.span, List.getLast?_concat]
      rfl

theorem extendsClause_reads : Reads extendsClause Node.base := by
  intro s hs
  unfold extendsClause
  refine (Read.refl hs).advance fun s₁ h => h.skip fun b s₂ h => ?_
  dsimp only
  refine h.opt literal_reads b fun path s₃ h => ?_
  have hnames {s₄ : State} (h : Read s.here s.ignores (path.toList.map .ofLiteral) s₄) :
      After (ident >>= fun first => remaining >>= fun n => dottedNames ident n >>= fun names =>
        pure { pos := s.here, path, names := first :: names }) s₄ fun e s' => ReadNode s (.base e) s' := by
    refine h.next ident_reads fun first s₅ h => h.skip fun n s₆ h => ?_
    refine h.nexts (dottedNames_reads ident_reads n) fun names s₇ h => after_pure ⟨le_rfl, ?_⟩
    refine Read.base (.inr (List.cons_ne_nil _ _)) ?_
    rw [List.append_assoc] at h
    exact h
  split
  · rename_i hpath
    refine h.skip fun b s₄ h => ?_
    split
    · refine after_pure ⟨le_rfl, Read.base (.inl hpath) ?_⟩
      rw [List.map_nil, List.append_nil]
      exact h
    · exact hnames h
  · exact hnames h

theorem enumElement_reads : Reads (enumElement sub) Node.enumValue := by
  intro s hs
  unfold enumElement
  refine ident_reads.first (.refl hs) fun name s₁ hstart h => h.skip fun b s₂ h => ?_
  dsimp only
  refine h.opt hsub.expr b fun init s₃ h => after_pure ⟨hstart, ?_⟩
  cases init with
  | none => exact h.last (n := .enumValue ⟨name, none⟩) (l := .ofIdent name) rfl rfl rfl trivial (List.Subset.refl _)
  | some x => exact h.last (n := .enumValue ⟨name, some x⟩) (l := .expr x) rfl rfl rfl trivial (List.Subset.refl _)

/-- An enumeration, the elements of which may be members of the class themselves. -/
theorem enumDecl_reads (hs : s.Sound) : After (enumDecl sub) s fun d s' =>
    Read s.here s.ignores (d.name.toList.map .ofIdent ++ d.values.map .enumValue) s' ∧
    Read s.here s.ignores [.enum d] s' ∧ ∀ c ∈ d.values, c.span.finish ≤ d.span.finish := by
  unfold enumDecl
  refine (Read.refl hs).advance fun s₁ h => h.skip fun b s₂ h => ?_
  dsimp only
  refine h.opt ident_reads b fun name s₃ h => h.skip fun _ s₄ h => h.skip fun n s₅ h => ?_
  refine h.nexts (commaList_reads (enumElement_reads sub) _ n) fun values s₆ h => ?_
  refine after_consume h.sound fun t s₇ ht h₇ => after_pure ⟨h.onward h₇.toOnward, ?_, fun c hc => ?_⟩
  · refine h.bracket (n := .enum ⟨s.here, name, values, t.pos⟩) h₇ (by rw [ht]; rfl) rfl rfl trivial ?_
    rw [Node.children_enum]
    exact List.Subset.refl _
  · refine (h.nodes (.enumValue c) (List.mem_append_right _ (List.mem_map_of_mem hc))).1.2.trans ?_
    rw [h₇.here]
    exact Pos.le_shift _ _

theorem signalDecl_reads : Reads (signalDecl sub) Node.signal := by
  intro s hs
  unfold signalDecl
  refine (Read.refl hs).advance fun s₁ h => h.next ident_reads fun name s₂ h => h.skip fun b s₃ h => ?_
  split
  · refine h.skip fun n s₄ h => ?_
    refine after_bind ((params_reads sub false n [] (Read.refl h.sound)).mono fun ps s₅ h' => ?_)
    have h := h.append h' le_rfl
    exact after_consume h.sound fun t s₆ ht h₆ =>
      after_pure ⟨le_rfl, h.bracket h₆ (by rw [ht]; rfl) rfl rfl trivial (List.Subset.refl _)⟩
  · exact after_pure ⟨le_rfl, h.last (n := .signal ⟨s.here, name, [], name.finish⟩) rfl rfl rfl trivial
      (List.Subset.refl _)⟩

end Sub

/-! ### Classes -/

/-- A class **grows** by nodes that have been read since a place. -/
def Grows (c : ClassDecl) (s : State) (c' : ClassDecl) (s' : State) : Prop :=
  c'.pos = c.pos ∧ ∃ new, Read s.here s.ignores new s' ∧ (Node.cls c').children ⊆ (Node.cls c).children ++ new

theorem Grows.trans {c'' : ClassDecl} {s'' : State} (h : Grows c s c' s') (h' : Grows c' s' c'' s'') :
    Grows c s c'' s'' := by
  obtain ⟨hpos, new, hread, hnew⟩ := h
  obtain ⟨hpos', new', hread', hnew'⟩ := h'
  refine ⟨hpos'.trans hpos, new ++ new', hread.append hread' le_rfl, fun n hn => ?_⟩
  rw [← List.append_assoc]
  exact (List.mem_append.mp (hnew' hn)).elim (fun hn => List.mem_append_left _ (hnew hn)) (List.mem_append_right _)

theorem Grows.onward {s'' : State} (h : Grows c s c' s') (hs : Onward s' s'') : Grows c s c' s'' := by
  obtain ⟨hpos, new, hread, hnew⟩ := h
  exact ⟨hpos, new, hread.onward hs, hnew⟩

theorem Grows.refl (c : ClassDecl) (hs : Onward s s') (h : s.Sound) : Grows c s c s' :=
  ⟨rfl, [], (Read.refl h).onward hs, List.subset_append_left _ _⟩

/-- The parser of members inside a class lets it grow. -/
class Subparsers.Grow (sub : Subparsers) : Prop extends sub.Nest where
  member : ∀ top c s, s.Sound → After (sub.member top c) s fun c' s' => Grows c s c' s'

section Sub

variable (sub : Subparsers) [hsub : sub.Grow]

theorem children_add (c : ClassDecl) (ms : List Member) :
    (Node.cls (ClassDecl.add c ms)).children = (Node.cls c).children ++ ms.map .ofMember := by
  rw [Node.children_cls, Node.children_cls, ClassDecl.add, List.map_append, ← List.append_assoc]

/-- A class grows by a member that has been read. -/
theorem grows_add {m : Member} (hstart : s.here ≤ p) (h : Read p s.ignores [.ofMember m] s') (hs : s.Sound) :
    Grows c s (ClassDecl.add c [m]) s' :=
  ⟨rfl, _, (Read.refl hs).append h hstart, by rw [children_add]; exact List.Subset.refl _⟩

theorem memberMarker_reads (hs : s.Sound) (ht : s.At t) (hk : t.kind = .marker) {m : Markers} (hm : m.Behind p)
    (hp : p ≤ s.here) : After (memberMarker sub c m) s fun r s' => Grows c s r.1 s' ∧ r.2.Behind p := by
  unfold memberMarker
  refine after_bind ((marker_reads sub hs ht hk).mono fun r s₁ ⟨h₁, hpos, hend⟩ => ?_)
  have hm := hm.before (hpos ▸ hp)
  obtain ⟨name, args, q⟩ := r
  obtain rfl : q = s.here := hpos
  dsimp only at hm hend ⊢
  have hsame : Grows c s c s₁ := ⟨rfl, [], h₁, List.subset_append_left _ _⟩
  split
  · exact after_pure ⟨⟨rfl, [], h₁, List.subset_append_left _ _⟩, fun _ => hm⟩
  split
  · exact after_pure ⟨hsame, fun _ => hm⟩
  split
  · exact after_pure ⟨hsame, fun _ => hm⟩
  split
  · split
    · exact after_fail _ _
    · refine after_pure ⟨grows_add le_rfl ?_ hs, fun _ => hm⟩
      exact h₁.node rfl (Pos.le_advance _ _) hend trivial (List.forall_mem_nil _)
    · exact after_fail _ _
  split
  · exact after_ignoring h₁.sound _ _ fun m' s₂ hpos' hon =>
      after_pure ⟨hsame.onward hon, fun _ => hpos' ▸ hm⟩
  split
  · exact after_pure ⟨hsame, fun _ => hm⟩
  · exact after_fail _ _

theorem memberMarkers_reads (n : Nat) (hs : s.Sound) {m : Markers} (hm : m.Behind p) (hp : p ≤ s.here) :
    After (memberMarkers sub c m n) s fun r s' => Grows c s r.1 s' ∧ r.2.Behind p := by
  induction n generalizing c m s with
  | zero => exact after_fail _ _
  | succ n ih =>
    unfold memberMarkers
    refine after_isAt hs _ fun t ht => ?_
    split
    · have hk : t.kind = .marker := of_decide_eq_true ‹_›
      refine after_bind ((memberMarker_reads sub hs ht hk hm hp).mono fun r s₁ ⟨hgrows, hm⟩ => ?_)
      obtain ⟨-, new, hread, -⟩ := id hgrows
      refine after_skip hread.sound fun k s₂ h₂ => after_skip h₂.sound fun _ s₃ h₃ => ?_
      have hon := h₂.trans h₃
      refine (ih hon.sound hm (hp.trans (hread.start.trans hon.upto))).mono fun r' s₄ ⟨hgrows', hm'⟩ => ⟨?_, hm'⟩
      exact (hgrows.onward hon).trans hgrows'
    · exact after_pure ⟨.refl c (.refl hs) hs, hm⟩

theorem members_reads (n : Nat) (hs : s.Sound) : After (members sub c n) s fun c' s' => Grows c s c' s' := by
  induction n generalizing c s with
  | zero => exact after_fail _ _
  | succ n ih =>
    unfold members
    refine after_kind hs fun t _ => ?_
    split
    · exact after_pure (.refl c (.refl hs) hs)
    refine after_bind ((hsub.member false c s hs).mono fun c' s₁ hgrows => ?_)
    obtain ⟨-, new, hread, -⟩ := id hgrows
    exact (ih hread.sound).mono fun c'' s₂ hgrows' => hgrows.trans hgrows'

/-- A class that has grown since its head was read. -/
theorem Read.cls {q : Pos} (h : Read c.pos R ns s) (hns : (Node.cls c).children ⊆ ns) (hgrows : Grows c s c' s')
    (hq : s'.here ≤ q) {s'' : State} (hs : Onward s' s'') (hq' : q ≤ s''.here) :
    Read c.pos R [.cls { c' with finish := q }] s'' := by
  obtain ⟨hpos, new, hread, hnew⟩ := hgrows
  refine (h.append hread le_rfl).close hs hpos hq hq' trivial fun n hn => ?_
  rw [Node.children_cls] at hn
  have hn := hnew (show n ∈ (Node.cls c').children by rw [Node.children_cls]; exact hn)
  exact (List.mem_append.mp hn).elim (fun hn => List.mem_append_left _ (hns hn)) (List.mem_append_right _)

theorem innerClass_reads : Reads (innerClass sub) Node.cls := by
  intro s hs
  unfold innerClass
  refine (Read.refl hs).advance fun s₁ h => h.next ident_reads fun name s₂ h => h.skip fun b s₃ h => ?_
  dsimp only
  refine h.opt extendsClause_reads b fun base s₄ h => h.skip fun _ s₅ h => h.skip fun b s₆ h => ?_
  have hhead : (Node.cls ⟨s.here, some name, base, [], false, false, .none⟩).children ⊆
      [.ofIdent name] ++ base.toList.map .base := by
    rw [Node.children_cls, List.map_nil, List.append_nil]
    exact List.Subset.refl _
  split
  · refine h.skip fun _ s₇ h => h.skip fun n s₈ h => ?_
    refine after_bind ((members_reads sub n h.sound).mono fun c' s₉ hgrows => ?_)
    obtain ⟨hpos, new, hread, -⟩ := id hgrows
    refine after_consume hread.sound fun t s₁₀ _ h₁₀ => after_pure ?_
    have hcls := Read.cls h hhead hgrows h₁₀.here.le h₁₀.toOnward (h₁₀.here ▸ h₁₀.upto)
    exact .of_start hpos le_rfl hcls
  · refine after_bind ((hsub.member false _ s₆ h.sound).mono fun c' s₇ hgrows => ?_)
    obtain ⟨hpos, new, hread, -⟩ := id hgrows
    refine after_pos hread.sound (after_pure ?_)
    have hcls := Read.cls h hhead hgrows le_rfl (.refl hread.sound) le_rfl
    exact .of_start hpos le_rfl hcls

theorem setBase_reads (hs : s.Sound) : After (setBase c) s fun c' s' => Grows c s c' s' := by
  unfold setBase
  extract_lets rest
  have hrest (hnone : c.base = none) {s₁ : State} (h₁ : Onward s s₁) :
      After (rest ()) s₁ fun c' s' => Grows c s c' s' := by
    refine extendsClause_reads.first h₁ fun e s₂ hstart h => after_pure ?_
    refine ⟨rfl, _, (Read.refl hs).append h hstart, ?_⟩
    intro n hn
    simp only [Node.children_cls, hnone, List.mem_append, Option.toList_some, List.map_singleton] at hn ⊢
    tauto
  split
  · exact after_bind fun _ _ _ => after_fail_bind _ _
  · rename_i hbase
    exact hrest (Option.not_isSome_iff_eq_none.mp hbase) (.refl hs)

theorem setName_reads (top : Bool) (hs : s.Sound) : After (setName top c) s fun c' s' => Grows c s c' s' := by
  unfold setName
  extract_lets done named fresh
  have hdone {c' : ClassDecl} {s₁ : State} (h : Grows c s c' s₁) : After (done c') s₁ fun c' s' => Grows c s c' s' := by
    obtain ⟨-, new, hread, -⟩ := id h
    exact after_skip hread.sound fun _ s₂ h₂ => after_pure (h.onward h₂)
  have hnamed (hnone : c.name = none) : After (named ()) s fun c' s' => Grows c s c' s' := by
    refine after_skip hs fun _ s₁ h₁ => ident_reads.first h₁ fun id s₂ hstart h => ?_
    extract_lets c'
    have hgrows : Grows c s c' s₂ := by
      refine ⟨rfl, _, (Read.refl hs).append h hstart, fun n hn => ?_⟩
      simp only [c', Node.children_cls, hnone, List.mem_append, Option.toList_some, List.map_singleton] at hn ⊢
      tauto
    refine after_skip h.sound fun b s₃ h₃ => ?_
    split
    · exact after_bind ((setBase_reads h₃.sound).mono fun c'' s₄ h₄ => hdone ((hgrows.onward h₃).trans h₄))
    · exact after_bind (after_pure (hdone (hgrows.onward h₃)))
  refine after_guard_here ?_
  dsimp only [fresh]
  split
  · exact after_bind fun _ _ _ => after_fail_bind _ _
  · rename_i hname
    exact hnamed (Option.not_isSome_iff_eq_none.mp hname)

/-- What a member adds to a class, and where it ends. -/
def Adds (c : ClassDecl) (s : State) (r : MemberResult) (s' : State) : Prop :=
  r.cls.pos = c.pos ∧ ∃ new, Read s.here s.ignores new s' ∧ (Node.cls r.cls).children ⊆ (Node.cls c).children ++ new ∧
    ∀ q ∈ r.finish, s.here ≤ q ∧ q ≤ s'.here ∧ ∀ n ∈ new, n.span.finish ≤ q

/-- A member that ends where its node does. -/
theorem adds_member {m : Member} {r : MemberResult} (hs : s.Sound) (hstart : s.here ≤ p)
    (h : Read p s.ignores [.ofMember m] s') (hpos : r.cls.pos = c.pos)
    (hchildren : (Node.cls r.cls).children = (Node.cls c).children ++ [.ofMember m])
    (hfinish : r.finish = some (Node.ofMember m).span.finish) : Adds c s r s' := by
  refine ⟨hpos, _, (Read.refl hs).append h hstart, hchildren ▸ List.Subset.refl _, fun q hq => ?_⟩
  obtain rfl : (Node.ofMember m).span.finish = q := Option.some.inj (hfinish.symm.trans hq)
  obtain ⟨⟨hp, hend⟩, hnested, -⟩ := h.nodes _ (List.mem_singleton_self _)
  exact ⟨hstart.trans (hp.trans hnested.span), hend, List.forall_mem_singleton.mpr le_rfl⟩

theorem Adds.onward {r : MemberResult} {s'' : State} (h : Adds c s r s') (hs : Onward s' s'') : Adds c s r s'' := by
  obtain ⟨hpos, new, hread, hnew, hfinish⟩ := h
  refine ⟨hpos, new, hread.onward hs, hnew, fun q hq => ?_⟩
  obtain ⟨hstart, hend, hnodes⟩ := hfinish q hq
  exact ⟨hstart, hend.trans hs.upto, hnodes⟩

/-- Something that is not marked. -/
theorem Grows.adds (h : Grows c s c' s') : Adds c s { cls := c' } s' := by
  obtain ⟨hpos, new, hread, hnew⟩ := h
  exact ⟨hpos, new, hread, hnew, nofun⟩

/-- An enumeration, or the elements of one without a name. -/
theorem adds_enum {d : EnumDecl} (hs : s.Sound)
    (hparts : Read s.here s.ignores (d.name.toList.map .ofIdent ++ d.values.map .enumValue) s')
    (hnode : Read s.here s.ignores [.enum d] s') (hends : ∀ v ∈ d.values, v.span.finish ≤ d.span.finish) :
    Adds c s { cls := ClassDecl.add c (if d.name.isSome then [Member.enum d]
      else (List.range d.values.length).map (Member.enumValue d)), finish := some d.span.finish } s' := by
  split
  · exact adds_member (m := .enum d) hs le_rfl hnode rfl (children_add _ _) rfl
  · refine ⟨rfl, _, hparts.sublist (List.sublist_append_right _ _), ?_, fun q hq => ?_⟩
    · rw [children_add]
      refine List.append_subset.mpr ⟨List.subset_append_left _ _, fun n hn => List.mem_append_right _ ?_⟩
      simp only [List.map_map, List.mem_map, List.mem_range, Function.comp] at hn
      obtain ⟨i, hi, rfl⟩ := hn
      exact List.mem_map.mpr ⟨d.values[i], List.getElem_mem hi, by simp [Node.ofMember, hi]⟩
    · obtain rfl : d.span.finish = q := Option.some.inj hq
      obtain ⟨⟨hstart, hend⟩, hnested, -⟩ := hnode.nodes _ (List.mem_singleton_self _)
      exact ⟨hstart.trans hnested.span, hend, List.forall_mem_map.mpr hends⟩

theorem bareMember_reads (top : Bool) (m : Markers) (hs : s.Sound) :
    After (bareMember sub top c m) s fun r s' => Adds c s r s' := by
  unfold bareMember
  refine after_current hs fun t ht => ?_
  split
  · refine after_bind ((memberVar_reads sub hs).mono fun d s₁ hread => ?_)
    obtain ⟨hvar, hpos⟩ := hread
    extract_lets d' c'
    have hvar : ReadVar s.ignores d' s₁ := ⟨hvar.parts, hvar.finish⟩
    refine after_skip hvar.node.sound fun _ s₂ h₂ => after_pure (Adds.onward ?_ h₂)
    exact adds_member (m := .var d') hs hpos.ge hvar.node rfl (children_add _ _) rfl
  · refine (constDecl_reads sub false).first (.refl hs) fun d s₁ hstart h => ?_
    refine after_skip h.sound fun _ s₂ h₂ => after_pure (Adds.onward ?_ h₂)
    exact adds_member (m := .const d) hs hstart h rfl (children_add _ _) rfl
  · refine (signalDecl_reads sub).first (.refl hs) fun d s₁ hstart h => ?_
    refine after_skip h.sound fun _ s₂ h₂ => after_pure (Adds.onward ?_ h₂)
    exact adds_member (m := .signal d) hs hstart h rfl (children_add _ _) rfl
  · refine after_bind ((enumDecl_reads sub hs).mono fun d s₁ hread => ?_)
    obtain ⟨hparts, hnode, hends⟩ := hread
    extract_lets ms
    refine after_skip hnode.sound fun _ s₂ h₂ => after_pure (Adds.onward ?_ h₂)
    exact adds_enum hs hparts hnode hends
  iterate 2 -- functions, static or not
    refine after_skip hs fun isStatic s₁ h₁ => after_consume h₁.sound fun u s₂ hu h₂ => ?_
    have hpos : s₁.here.shift 4 ≤ s₂.here := h₂.keyword hu "func" (by decide)
    rw [← h₂.here]
    refine after_bind ((ident_reads s₂ h₂.sound).mono fun name s₃ hid => ?_)
    have hname : Read s₁.here s₁.ignores ((some name).toList.map .ofIdent) s₃ :=
      (h₂.read h₁.sound).append hid.read hid.start
    have hstart : s₁.here.shift 4 ≤ s₃.here := hpos.trans (hid.start.trans hid.read.start)
    refine after_bind ((functionRest_reads sub hname hstart).mono fun f s₄ hf => after_pure ?_)
    exact adds_member (m := .func f) hs h₁.upto (h₁.ignores ▸ hf.1) rfl (children_add _ _) rfl
  · refine (innerClass_reads sub).first (.refl hs) fun d s₁ hstart h => after_pure ?_
    exact adds_member (m := .cls d) hs hstart h rfl (children_add _ _) rfl
  · refine after_bind ((setBase_reads hs).mono fun c' s₁ hgrows => ?_)
    obtain ⟨-, new, hread, -⟩ := id hgrows
    exact after_skip hread.sound fun _ s₂ h₂ => after_pure (hgrows.onward h₂).adds
  · exact after_bind ((setName_reads top hs).mono fun c' s₁ hgrows => after_pure hgrows.adds)
  · refine after_skip hs fun _ s₁ h₁ => after_skip h₁.sound fun _ s₂ h₂ => ?_
    exact after_pure (Grows.refl c (h₁.trans h₂) hs).adds
  iterate 2 exact after_skip hs fun _ s₁ h₁ => after_pure (Grows.refl c h₁ hs).adds
  · exact after_fail _ _

/-- The region of a marked member ends with the member. -/
theorem Grows.record {r : MemberResult} {s'' : State} {m : Markers} {codes : List Text} {q : Pos}
    (h : Grows c s c' s') (hm : m.Behind s.here) (hany : m.any = true) (hadds : Adds c' s' r s'')
    (hq : r.finish = some q) : After (recordIgnore m.pos q codes) s'' fun _ s' => Grows c s r.cls s' := by
  obtain ⟨hpos, new, hread, hnew⟩ := h
  obtain ⟨hpos', new', hread', hnew', hends⟩ := hadds
  obtain ⟨hstart, hend, hle⟩ := hends q hq
  refine (recordIgnore_reads (hread.append hread' le_rfl) (hm hany) hend fun n hn => .inr ?_).mono fun _ s₁ h₁ => ?_
  · rcases List.mem_append.mp hn with hn | hn
    · exact (hread.nodes n hn).1.2.trans hstart
    · exact hle n hn
  · refine ⟨hpos'.trans hpos, _, h₁, fun n hn => ?_⟩
    rw [← List.append_assoc]
    exact (List.mem_append.mp (hnew' hn)).elim (fun hn => List.mem_append_left _ (hnew hn)) (List.mem_append_right _)

theorem Adds.grows {r : MemberResult} (h : Adds c s r s') : Grows c s r.cls s' := by
  obtain ⟨hpos, new, hread, hnew, -⟩ := h
  exact ⟨hpos, new, hread, hnew⟩

theorem member_reads (top : Bool) (hs : s.Sound) : After (member sub top c) s fun c' s' => Grows c s c' s' := by
  unfold member
  refine after_skip hs fun n s₁ h₁ => ?_
  have hnone : Grows c s c s₁ := .refl c h₁ hs
  refine after_bind ((memberMarkers_reads sub n h₁.sound (m := {}) nofun le_rfl).mono fun r s₂ ⟨hgrows, hm⟩ => ?_)
  obtain ⟨c', m⟩ := r
  dsimp only at hgrows hm
  obtain ⟨-, new, hread, -⟩ := id hgrows
  refine after_kind hread.sound fun t _ => ?_
  split
  · exact after_guard_here (after_pure (hnone.trans hgrows))
  refine after_bind ((bareMember_reads sub top m hread.sound).mono fun r s₃ hadds => ?_)
  extract_lets pass done
  have hdone : After (done ()) s₃ fun c' s' => Grows c s c' s' := by
    dsimp only [done]
    split
    · rename_i codes q hcodes hq
      have hany : m.any = true := by simp [Markers.any, hcodes]
      exact after_bind ((hgrows.record hm hany hadds hq).mono fun _ s₄ h₄ => after_pure (hnone.trans h₄))
    · exact after_pure (hnone.trans (hgrows.trans hadds.grows))
  split
  · exact after_guard (after_guard hdone)
  · exact hdone

theorem fileMembers_reads (n : Nat) (hs : s.Sound) : After (fileMembers sub c n) s fun c' s' => Grows c s c' s' := by
  induction n generalizing c s with
  | zero => exact after_fail _ _
  | succ n ih =>
    unfold fileMembers
    refine after_isAt hs _ fun t _ => ?_
    split
    · exact after_pure (.refl c (.refl hs) hs)
    refine after_bind ((member_reads sub true hs).mono fun c' s₁ hgrows => ?_)
    obtain ⟨-, new, hread, -⟩ := id hgrows
    exact (ih hread.sound).mono fun c'' s₂ hgrows' => hgrows.trans hgrows'

instance begin_skips : Skips begin where
  after s hs := by
    obtain ⟨t, ts, ht⟩ := hs.nonempty
    unfold begin
    refine after_bind (after_get ?_)
    rw [ht]
    exact after_pure (.refl hs)

theorem Read.file {f : File} (h : Read p R [.cls f.cls] s) (hp : f.cls.pos = p) : Read p R [.file f] s :=
  h.last (n := .file f) (l := .cls f.cls) hp rfl rfl trivial (List.Subset.refl _)

/-- A file is read from the first token on. -/
theorem file_reads (path : Text) (hs : s.Sound) : After (file sub path) s fun f s' =>
    f.ignores = s'.ignores.reverse ∧ Read f.cls.pos s.ignores [.file f] s' := by
  unfold file
  refine after_skip hs fun _ s₁ h₁ => after_skip h₁.sound fun n s₂ h₂ => after_pos h₂.sound ?_
  have hhead : (Node.cls ⟨s₂.here, none, none, [], false, false, .none⟩).children ⊆ [] := by
    rw [Node.children_cls]
    exact List.Subset.refl _
  refine after_bind ((fileMembers_reads sub (n + 1) h₂.sound).mono fun c s₃ hgrows => ?_)
  obtain ⟨hpos, new, hread, -⟩ := id hgrows
  refine after_pos hread.sound (after_bind (after_get (after_pure ⟨rfl, ?_⟩)))
  have hcls := Read.cls (Read.refl h₂.sound) hhead hgrows le_rfl (.refl hread.sound) le_rfl
  rw [← (h₁.trans h₂).ignores]
  exact Read.file (f := ⟨path, { c with finish := s₃.here }, s₃.ignores.reverse, n⟩) (hpos ▸ hcls) rfl

end Sub

instance subparsers_nest (fuel : Nat) : (subparsers fuel).Grow := by
  induction fuel with
  | zero =>
    exact {
      expr := fun _ _ => after_fail _ _, ternary := fun _ _ => after_fail _ _, level := fun _ _ _ => after_fail _ _
      sign := fun _ _ => after_fail _ _, powerOperand := fun _ _ => after_fail _ _, await := fun _ _ => after_fail _ _
      typeSpec := fun _ _ => after_fail _ _, pattern := fun _ _ _ => after_fail _ _, stmt := fun _ _ => after_fail _ _
      smallStmt := fun _ _ => after_fail _ _, member := fun _ _ _ _ => after_fail _ _ }
  | succ fuel ih =>
    exact {
      expr := expr_reads _, ternary := ternary_reads _, level := level_reads _, sign := sign_reads _
      powerOperand := powerOperand_reads _, await := await_reads _, typeSpec := typeSpec_reads _
      pattern := pattern_reads _, stmt := stmt_reads _, smallStmt := smallStmt_reads _
      member := fun top _ _ hs => member_reads _ top hs }

/-- The state at the start of the parse of a text that has a token. -/
theorem sound_of_scan {source : Text} (h : (scan source).tokens ≠ []) :
    State.Sound { tokens := (scan source).tokens, fault := (scan source).fault, hasFile := true } := by
  obtain ⟨q, hordered⟩ := Scan.scan_ordered source
  obtain ⟨t, ts, h⟩ := List.exists_cons_of_ne_nil h
  exact ⟨hordered.before, hordered.spelled, Scan.scan_ends source, ⟨t, ts, h⟩, List.forall_mem_nil _⟩

end Parse

/-! ### Files -/

open Parse

/-- A parsed file has been read. -/
theorem File.parse_read {path source : Text} {f : File} (h : File.parse path source = .ok f) :
    ∃ s', f.ignores = s'.ignores.reverse ∧ Read f.cls.pos [] [.file f] s' := by
  obtain ⟨s', hrun⟩ := File.parse_run h
  by_cases hempty : (scan source).tokens = []
  · -- Without a token there is an error.
    obtain ⟨e, hfault⟩ : ∃ e, (scan source).fault = some e := by
      refine Option.ne_none_iff_exists'.mp fun hfault => ?_
      obtain ⟨t, ht, -⟩ := Scan.scan_ends source hfault
      rw [hempty] at ht
      cases ht
    rw [hempty, hfault] at hrun
    cases hrun
  · exact ⟨s', file_reads _ path (sound_of_scan hempty) f s' hrun⟩

/-- **Spans are nested** in a parsed file. No node ends before it starts. Each child lies within its parent, unless the
parent is a function without statements, which ends behind its first word, or the child is the name of an accessor,
which is made up. And a region without warnings covers all that starts in it and that its nodes hold. -/
theorem File.parse_nested {path source : Text} {f : File} (h : File.parse path source = .ok f) :
    (∀ n, (Node.file f).Visits n → n.span.start ≤ n.span.finish ∧
      ∀ c ∈ n.children, c.span.Within n.span ∨ n.Detached c) ∧
    ∀ r ∈ f.ignores, ∀ n, (Node.file f).Holds n → r.start < n.span.start → n.span.start < r.finish →
      n.span.finish ≤ r.finish := by
  obtain ⟨s', hignores, hread⟩ := File.parse_read h
  obtain ⟨-, hnested, hclear⟩ := hread.nodes _ (List.mem_singleton_self _)
  refine ⟨fun n hn => ?_, fun r hr n hn hstart hend => ?_⟩
  · cases hnested.visits hn with
    | mk hspan _ _ hwithin => exact ⟨hspan, hwithin⟩
  · rw [hignores] at hr
    exact hclear n hn r (List.mem_reverse.mp hr) hstart hend

/-- A function with a marker that asks for no warnings about its parameter. -/
def markedFunction : Text := "@warning_ignore(\"unused_parameter\")\nfunc f(x):\n\tpass\n"

theorem File.parse_nested_markedFunction : ∃ f, File.parse "res://test.gd" markedFunction = .ok f ∧
    (∃ r ∈ f.ignores, ∃ m ∈ f.cls.members, r.finish = m.span.finish) ∧
    (∀ n, (Node.file f).Visits n → n.span.start ≤ n.span.finish ∧
      ∀ c ∈ n.children, c.span.Within n.span ∨ n.Detached c) ∧
    ∀ r ∈ f.ignores, ∀ n, (Node.file f).Holds n → r.start < n.span.start → n.span.start < r.finish →
      n.span.finish ≤ r.finish := by
  obtain ⟨f, hparse, hregion⟩ : ∃ f, File.parse "res://test.gd" markedFunction = .ok f ∧
      decide (∃ r ∈ f.ignores, ∃ m ∈ f.cls.members, r.finish = m.span.finish) = true :=
    exists_of_toOption (by decide +kernel)
  exact ⟨f, hparse, of_decide_eq_true hregion, File.parse_nested hparse⟩

/-- A node that is visited in a file is found in its outline. -/
theorem File.exists_visited {path source : Text} {P : File → Node → Prop} [∀ f n, Decidable (P f n)]
    (h : (File.parse path source).toOption.any (fun f => f.outline.any fun e => P f e.2) = true) :
    ∃ f, File.parse path source = .ok f ∧ ∃ n, (Node.file f).Visits n ∧ P f n := by
  obtain ⟨f, hparse, hfound⟩ := exists_of_toOption h
  obtain ⟨e, he, hP⟩ := List.any_eq_true.mp hfound
  exact ⟨f, hparse, e.2, Node.visits_of_mem_outlineFrom he, of_decide_eq_true hP⟩

/-- The exceptions are needed. A function whose body is a semicolon has no statements: it ends before its parameter, and
so does the region of its marker. The name that is made up for an accessor reaches beyond the accessor. -/
theorem File.parse_not_nested :
    (∃ f, File.parse "res://test.gd" "@warning_ignore(\"unused_parameter\")\nfunc f(x):\n\t;\n" = .ok f ∧
      ∃ n, (Node.file f).Visits n ∧ ∃ c ∈ n.children, ¬ c.span.Within n.span ∧
        ∃ r ∈ f.ignores, r.finish = n.span.finish ∧ r.finish < c.span.start) ∧
    ∃ f, File.parse "res://test.gd" "var long:\n\tget: pass\n" = .ok f ∧
      ∃ n, (Node.file f).Visits n ∧ ∃ c ∈ n.children, ¬ c.span.Within n.span :=
  ⟨File.exists_visited (by decide +kernel), File.exists_visited (by decide +kernel)⟩

end GameScript
