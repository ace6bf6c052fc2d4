import GameScript.Proofs.Syntax.Parsers
import GameScript.Proofs.Syntax.Spans
import GameScript.Syntax.Outline
import Mathlib.Order.Basic

/-!
# Nodes that have been read

A node of a tree spans the text from its first token to its last one, so that its children lie within it. There are two
exceptions: a function without statements ends behind its first word, and the name of an accessor is made up.

* `Node.Nested` — every node below lies within its parent, but for these;
* `Node.Clear` — no node below starts in a region without warnings and ends behind it;
* `Parse.State.Sound` — the tokens that remain lie one behind the other, behind all regions;
* `Parse.Read` — what has been read since a place: nodes one behind the other, which are nested and clear;
* `Parse.Read.close`, `Parse.Read.last` — **a node is put together** from what has been read, and ends behind a token
  or with its last part;
* `Parse.Reads`, `Parse.ReadsAll` — parsers that read one node, or several.
-/

namespace GameScript

/-- One span lies **within** another one. -/
def Span.Within (s t : Span) : Prop := t.start ≤ s.start ∧ s.finish ≤ t.finish

instance (s t : Span) : Decidable (s.Within t) := inferInstanceAs (Decidable (_ ∧ _))

namespace Node

/-! ### Trees -/

/-- A child that is **detached** may lie outside of its parent: one of a function without statements, which ends behind
its first word, and the name of an accessor, which is made up. -/
def Detached : Node → Node → Prop
  | func f, c => f.body.stmts = [] ∨ (∃ p, f.role = .accessor p) ∧ ∃ id ∈ f.name, c = ofIdent id
  | _, _ => False

/-- A sign is apart from its operand. -/
def Signed : Node → Prop
  | expr (.unary p _ x _) => p < x.start
  | _ => True

/-- What **is visited** from a node: the node, and what is visited from its children. -/
inductive Visits : Node → Node → Prop
  | refl (n : Node) : Visits n n
  | child {n c m : Node} (hc : c ∈ n.children) (h : Visits c m) : Visits n m

/-- The nodes of a tree are **nested**: none ends before it starts, and each lies within its parent unless it is
detached. -/
inductive Nested : Node → Prop
  | mk {n : Node} (span : n.span.start ≤ n.span.finish) (signed : n.Signed) (children : ∀ c ∈ n.children, Nested c)
      (within : ∀ c ∈ n.children, c.span.Within n.span ∨ n.Detached c) : Nested n

/-- A node **holds** those that are reached from it by children that are not detached. -/
inductive Holds : Node → Node → Prop
  | refl (n : Node) : Holds n n
  | child {n c m : Node} (hc : c ∈ n.children) (hattached : ¬ n.Detached c) (h : Holds c m) : Holds n m

/-- Whatever a node holds is **clear** of the ends of regions: if it starts in one, it ends in it too. -/
def Clear (R : List WarningIgnore) (n : Node) : Prop :=
  ∀ m, n.Holds m → ∀ r ∈ R, r.start < m.span.start → m.span.start < r.finish → m.span.finish ≤ r.finish

/-! ### Children

A child that may be missing is told here by a list, so that parts can be read one behind the other. -/

@[simp] theorem children_superCall (p : Pos) (fn : Option Ident) (args : List Expr) (q : Pos) (f : CallFacts)
    (i : Info) : (expr (.superCall p fn args q f i)).children = fn.toList.map ofIdent ++ args.map expr := by
  cases fn <;> rfl

@[simp] theorem children_assert (p : Pos) (c : Expr) (m : Option Expr) (q : Pos) :
    (stmt (.assert p c m q)).children = expr c :: m.toList.map expr := by
  cases m <;> rfl

@[simp] theorem children_cls (d : ClassDecl) : (cls d).children =
    d.name.toList.map ofIdent ++ d.base.toList.map base ++ d.members.map ofMember := by
  obtain ⟨_, name, base, _, _, _, _⟩ := d
  cases name <;> cases base <;> rfl

@[simp] theorem children_base (e : Extends) : (base e).children =
    e.path.toList.map ofLiteral ++ e.names.map ofIdent := by
  obtain ⟨_, path, _⟩ := e
  cases path <;> rfl

@[simp] theorem children_var (d : VarDecl) : (var d).children =
    ofIdent d.name :: (d.spec.toList.map typeSpec ++ d.init.toList.map expr ++ d.setter.toList.map func ++
      d.getter.toList.map func ++ d.setterName.toList.map ofIdent ++ d.getterName.toList.map ofIdent) := by
  obtain ⟨_, _, spec, _, init, _, _, _, setter, getter, setterName, getterName, _⟩ := d
  cases spec <;> cases init <;> cases setter <;> cases getter <;> cases setterName <;> cases getterName <;> rfl

@[simp] theorem children_const (d : ConstDecl) : (const d).children =
    ofIdent d.name :: (d.spec.toList.map typeSpec ++ [expr d.init]) := by
  obtain ⟨_, _, spec, _, _, _⟩ := d
  cases spec <;> rfl

@[simp] theorem children_enum (d : EnumDecl) : (enum d).children =
    d.name.toList.map ofIdent ++ d.values.map enumValue := by
  obtain ⟨_, name, _, _⟩ := d
  cases name <;> rfl

@[simp] theorem children_func (f : Func) : (func f).children =
    f.name.toList.map ofIdent ++ f.params.map param ++ f.returns.toList.map typeSpec ++ [block f.body] := by
  obtain ⟨_, name, _, returns, _, _, _⟩ := f
  cases name <;> cases returns <;> rfl

@[simp] theorem children_param (p : Param) : (param p).children =
    ofIdent p.name :: (p.spec.toList.map typeSpec ++ p.default.toList.map expr) := by
  obtain ⟨_, spec, _, default⟩ := p
  cases spec <;> cases default <;> rfl

@[simp] theorem children_typeSpec (t : TypeSpec) : (typeSpec t).children =
    t.names.map ofIdent ++ t.element.toList.map typeSpec := by
  obtain ⟨_, element, _, _⟩ := t
  cases element <;> rfl

variable {m n : Node}

/-- The nodes of an outline are visited. -/
theorem visits_of_mem_outlineFrom {fuel depth : Nat} {e : Nat × Node} (he : e ∈ outlineFrom fuel depth n) :
    n.Visits e.2 := by
  induction fuel generalizing depth n with
  | zero => cases he
  | succ fuel ih =>
    rcases List.mem_cons.mp he with rfl | he
    · exact .refl n
    · obtain ⟨c, hc, he⟩ := List.mem_flatMap.mp he
      exact .child hc (ih he)

theorem Nested.span (h : n.Nested) : n.span.start ≤ n.span.finish := by
  cases h
  assumption

theorem Nested.signed (h : n.Nested) : n.Signed := by
  cases h
  assumption

theorem Nested.visits (h : n.Nested) (hm : n.Visits m) : m.Nested := by
  induction hm with
  | refl n => exact h
  | child hc _ ih =>
    cases h with
    | mk _ _ hchildren _ => exact ih (hchildren _ hc)

theorem Nested.holds (h : n.Nested) (hm : n.Holds m) : m.Nested ∧ m.span.Within n.span := by
  induction hm with
  | refl n => exact ⟨h, le_rfl, le_rfl⟩
  | child hc hattached _ ih =>
    cases h with
    | mk _ _ hchildren hwithin =>
      obtain ⟨hnested, hstart, hfinish⟩ := ih (hchildren _ hc)
      obtain ⟨hstart', hfinish'⟩ := (hwithin _ hc).resolve_right hattached
      exact ⟨hnested, hstart'.trans hstart, hfinish.trans hfinish'⟩

end Node

namespace Parse

/-! ### Places of states -/

/-- The place of the current token. -/
def State.here (s : State) : Pos := (s.tokens.head?.map Token.pos).getD .none

/-- The current token of a state. -/
def State.At (s : State) (t : Token) : Prop := ∃ rest, s.tokens = t :: rest

/-- A state is **sound** where the tokens that remain lie one behind the other up to an end, and no region without
warnings ends behind the current one. -/
structure State.Sound (s : State) : Prop where
  ordered : s.tokens.Pairwise Token.Before
  spelled : ∀ t ∈ s.tokens, t.Spelled
  ended : s.fault = none → ∃ t, s.tokens.getLast? = some t ∧ t.kind = .endOfFile
  nonempty : ∃ t, s.At t
  ignores : ∀ r ∈ s.ignores, r.finish ≤ s.here

/-- From one state to another **no region** is recorded, and parsing goes forward. -/
structure Onward (s s' : State) : Prop where
  sound : s'.Sound
  ignores : s'.ignores = s.ignores
  upto : s.here ≤ s'.here

/-- From one state to another **a token is taken**; the end of the file stays. -/
structure Takes (s : State) (t : Token) (s' : State) : Prop extends Onward s s' where
  here : s.here = t.pos
  spelled : t.Spelled
  word : t.kind.isLayout = false → t.pos < s'.here ∧ t.finish ≤ s'.here

variable {s s' s'' : State} {t : Token}

theorem State.At.here (h : s.At t) : s.here = t.pos := by
  obtain ⟨rest, h⟩ := h
  simp [State.here, h]

theorem Onward.refl (h : s.Sound) : Onward s s := ⟨h, rfl, le_rfl⟩

theorem Onward.trans (h : Onward s s') (h' : Onward s' s'') : Onward s s'' :=
  ⟨h'.sound, h'.ignores.trans h.ignores, h.upto.trans h'.upto⟩

/-- Another state of the scopes. -/
theorem State.Sound.onward (h : s.Sound) (htokens : s'.tokens = s.tokens) (hfault : s'.fault = s.fault)
    (hignores : s'.ignores = s.ignores) : Onward s s' := by
  have hhere : s'.here = s.here := by rw [State.here, htokens, State.here]
  refine ⟨⟨htokens ▸ h.ordered, htokens ▸ h.spelled, ?_, ?_, ?_⟩, hignores, hhere.ge⟩
  · rw [htokens, hfault]
    exact h.ended
  · obtain ⟨t, rest, ht⟩ := h.nonempty
    exact ⟨t, rest, htokens.trans ht⟩
  · rw [hhere, hignores]
    exact h.ignores

/-! ### Steps -/

section Steps

variable {α β : Type} {Q : β → State → Prop}

theorem after_current (hs : s.Sound) {f : Token → Parser β} (h : ∀ t, s.At t → After (f t) s Q) :
    After (current >>= f) s Q := by
  obtain ⟨t, rest, ht⟩ := hs.nonempty
  unfold current
  refine after_bind (after_bind (after_get ?_))
  rw [ht]
  exact after_pure (h t ⟨rest, ht⟩)

theorem after_kind (hs : s.Sound) {f : TokenKind → Parser β} (h : ∀ t, s.At t → After (f t.kind) s Q) :
    After (kind >>= f) s Q := by
  unfold kind
  rw [bind_assoc]
  exact after_current hs fun t ht => h t ht

theorem after_isAt (hs : s.Sound) (k : TokenKind) {f : Bool → Parser β}
    (h : ∀ t, s.At t → After (f (t.kind = k)) s Q) : After (isAt k >>= f) s Q := by
  unfold isAt
  rw [bind_assoc]
  exact after_kind hs fun t ht => h t ht

theorem after_pos (hs : s.Sound) {f : Pos → Parser β} (h : After (f s.here) s Q) : After (pos >>= f) s Q := by
  unfold pos
  rw [bind_assoc]
  exact after_current hs fun t ht => ht.here ▸ h

theorem after_advance (hs : s.Sound) (ht : s.At t) {f : Pos → Parser β}
    (h : ∀ s', Takes s t s' → After (f t.pos) s' Q) : After (advance >>= f) s Q := by
  have hhere := ht.here
  obtain ⟨rest, htokens⟩ := ht
  have hspelled := hs.spelled
  rw [htokens] at hspelled
  have ht : t.Spelled := hspelled t List.mem_cons_self
  unfold advance
  refine after_bind (after_bind (after_get ?_))
  rw [htokens]
  cases rest with
  | nil =>
    dsimp only
    split
    · unfold endOfTokens
      cases hfault : s.fault with
      | none =>
        obtain ⟨u, hu, hend⟩ := hs.ended hfault
        rw [htokens, List.getLast?_singleton, Option.some_inj] at hu
        exact absurd (hu ▸ hend) ‹_›
      | some e => exact fun _ _ h => by cases h
    · have hend : t.kind = .endOfFile := not_not.mp ‹_›
      exact after_bind (after_pure (after_pure (h s ⟨.refl hs, hhere, ht, fun hk => by rw [hend] at hk; cases hk⟩)))
  | cons u rest =>
    refine after_bind (after_set (after_pure (h _ ?_)))
    have hordered := hs.ordered
    rw [htokens] at hordered
    obtain ⟨hfirst, hrest⟩ := List.pairwise_cons.mp hordered
    have hbefore := hfirst u List.mem_cons_self
    have hupto : s.here ≤ u.pos := hhere ▸ hbefore.start
    refine ⟨⟨⟨hrest, fun v hv => hspelled v (List.mem_cons_of_mem t hv), fun hfault => ?_, ⟨u, rest, rfl⟩,
      fun r hr => (hs.ignores r hr).trans hupto⟩, rfl, hupto⟩, hhere, ht, hbefore.word⟩
    obtain ⟨v, hv, hend⟩ := hs.ended hfault
    rw [htokens, List.getLast?_cons_cons] at hv
    exact ⟨v, hv, hend⟩

theorem after_consume (hs : s.Sound) {k : TokenKind} {f : Pos → Parser β}
    (h : ∀ t s', t.kind = k → Takes s t s' → After (f t.pos) s' Q) : After (consume k >>= f) s Q := by
  unfold consume
  rw [bind_assoc]
  refine after_current hs fun t ht => ?_
  split
  · exact fun _ _ h => by cases h
  · rename_i hkind
    exact after_advance hs ht fun s' hs' => h t s' (not_not.mp hkind) hs'

theorem after_accept (hs : s.Sound) {k : TokenKind} {f : Bool → Parser β}
    (hyes : ∀ t s', t.kind = k → Takes s t s' → After (f true) s' Q) (hno : After (f false) s Q) :
    After (accept k >>= f) s Q := by
  unfold accept
  rw [bind_assoc]
  refine after_isAt hs k fun t ht => ?_
  split
  · rename_i hkind
    rw [bind_assoc]
    exact after_advance hs ht fun s' hs' => after_bind (after_pure (hyes t s' (of_decide_eq_true hkind) hs'))
  · exact after_bind (after_pure hno)

/-- A parser **idles**: it neither passes a token nor records a region. -/
class Idle (x : Parser α) : Prop where
  after : ∀ s, After x s fun _ s' => s'.tokens = s.tokens ∧ s'.fault = s.fault ∧ s'.ignores = s.ignores

instance bind_idle {x : Parser α} {f : α → Parser β} [p : Idle x] [q : ∀ a, Idle (f a)] : Idle (x >>= f) where
  after s := after_bind fun a s' h b s'' h' => by
    obtain ⟨h₁, h₂, h₃⟩ := p.after s a s' h
    obtain ⟨h₄, h₅, h₆⟩ := (q a).after s' b s'' h'
    exact ⟨h₄.trans h₁, h₅.trans h₂, h₆.trans h₃⟩

instance pure_idle (a : α) : Idle (pure a : Parser α) where
  after _ := after_pure ⟨rfl, rfl, rfl⟩

instance get_idle : Idle (get : Parser State) where
  after _ := after_get ⟨rfl, rfl, rfl⟩

instance fail_idle (p : Pos) (e : SyntaxFault) : Idle (fail p e : Parser α) where
  after _ := fun _ _ h => by cases h

instance ite_idle {c : Prop} [Decidable c] {x y : Parser α} [p : Idle x] [q : Idle y] :
    Idle (if c then x else y) := by
  split
  · exact p
  · exact q

instance modify_lineEnded_idle (b : Bool) : Idle (modify ({ · with lineEnded := b } : State → State)) where
  after _ := after_modify ⟨rfl, rfl, rfl⟩

instance forIn_idle {γ : Type} (xs : List γ) {f : γ → β → Parser (ForInStep β)} [q : ∀ x b, Idle (f x b)] (b : β) :
    Idle (forIn xs b f) := by
  induction xs generalizing b with
  | nil => exact pure_idle b
  | cons x xs ih =>
    rw [List.forIn_cons]
    refine bind_idle (q := fun r => ?_)
    cases r with
    | done b => exact pure_idle b
    | yield b => exact ih b

instance remaining_idle : Idle remaining := by unfold remaining; infer_instance

instance current_idle : Idle current := by
  unfold current
  refine bind_idle (q := fun s => ?_)
  split <;> infer_instance

instance kind_idle : Idle kind := by unfold kind; infer_instance

instance isAt_idle (k : TokenKind) : Idle (isAt k) := by unfold isAt; infer_instance

instance pos_idle : Idle pos := by unfold pos; infer_instance

instance peek_idle : Idle peek := by
  unfold peek endOfTokens
  refine bind_idle (q := fun s => ?_)
  split
  · infer_instance
  · refine ite_idle (p := bind_idle (p := ?_))
    split <;> infer_instance
  · infer_instance

instance atStmtEnd_idle : Idle atStmtEnd := by unfold atStmtEnd; infer_instance

instance isAccessorStart_idle : Idle isAccessorStart := by unfold isAccessorStart; infer_instance

instance function_idle : Idle function := by unfold function; infer_instance

instance functionScopes_idle : Idle functionScopes := by
  unfold functionScopes
  refine bind_idle (q := fun s => ?_)
  dsimp only
  split <;> infer_instance

instance warningNames_idle (xs : List Expr) : Idle (warningNames xs) := by
  induction xs with
  | nil => exact pure_idle _
  | cons x xs ih =>
    unfold warningNames
    split
    · exact pure_idle _
    · rename_i heq
      cases heq
      infer_instance
    · exact fail_idle _ _

instance ignoring_idle (m : Markers) (args : List Expr) : Idle (m.ignoring args) := by
  unfold Markers.ignoring
  infer_instance

/-- A step that leaves the current token where it is. -/
theorem after_idle {x : Parser α} [hx : Idle x] (hs : s.Sound) {f : α → Parser β}
    (h : ∀ a s', s'.tokens = s.tokens → Onward s s' → After (f a) s' Q) : After (x >>= f) s Q :=
  after_bind ((hx.after s).mono fun a s' ⟨htokens, hfault, hignores⟩ =>
    h a s' htokens (hs.onward htokens hfault hignores))

/-- A name is declared: what it is bound to changes. -/
theorem after_declare (hs : s.Sound) (id : Ident) (source : NameSource) (start : Pos) {f : Ident → Parser β}
    (h : ∀ id' s', id'.pos = id.pos → id'.name = id.name → Onward s s' → After (f id') s' Q) :
    After (declare id source start >>= f) s Q := by
  unfold declare
  rw [bind_assoc]
  refine after_idle hs fun cs s₁ _ h₁ => ?_
  rw [bind_assoc]
  refine after_bind (((forIn_idle (q := fun c _ => ?_) cs _).after s₁).mono fun _ s₂ ⟨htokens, hfault, hignores⟩ => ?_)
  · split <;> infer_instance
  have h₂ := h₁.trans (h₁.sound.onward htokens hfault hignores)
  rw [bind_assoc]
  refine after_idle h₂.sound fun p s₃ _ h₃ => ?_
  have h₃ := h₂.trans h₃
  dsimp only
  rw [bind_assoc]
  refine after_bind (after_get ?_)
  cases hscopes : s₃.scopes with
  | nil =>
    dsimp only
    rw [bind_assoc]
    exact after_current h₃.sound fun t _ _ _ hfail => by cases hfail
  | cons c cs =>
    dsimp only
    rw [bind_assoc]
    refine after_bind (after_set (after_bind (after_pure ?_)))
    exact h _ _ rfl rfl (h₃.trans (h₃.sound.onward rfl rfl rfl))

/-- A parser inside a new block. -/
theorem after_inScope (hs : s.Sound) {c : Scope} {x : Parser α} {f : α × List Local → Parser β} {P : α → State → Prop}
    (hx : ∀ s', Onward s s' → After x s' fun a s'' => s''.Sound ∧ P a s'')
    (h : ∀ a ls s' s'', P a s' → Onward s' s'' → After (f (a, ls)) s'' Q) : After (inScope c x >>= f) s Q := by
  unfold inScope
  rw [bind_assoc]
  refine after_bind (after_modify ?_)
  rw [bind_assoc]
  refine after_bind ((hx { s with scopes := c :: s.scopes } (hs.onward rfl rfl rfl)).mono
    fun a s₁ ⟨hs₁, ha⟩ => ?_)
  rw [bind_assoc]
  refine after_bind (after_get ?_)
  cases hscopes : s₁.scopes with
  | nil => exact after_bind (after_pure (h a [] s₁ s₁ ha (.refl hs₁)))
  | cons c cs =>
    dsimp only
    rw [bind_assoc]
    exact after_bind (after_set (after_bind (after_pure (h a c.locals s₁ _ ha (hs₁.onward rfl rfl rfl)))))

end Steps

/-! ### What has been read -/

/-- Since the place `p`, where `R` were the regions, these nodes **have been read**, one behind the other. -/
structure Read (p : Pos) (R : List WarningIgnore) (ns : List Node) (s : State) : Prop where
  sound : s.Sound
  start : p ≤ s.here
  before : ∀ r ∈ R, r.finish ≤ p
  regions : ∃ new, s.ignores = new ++ R ∧ ∀ r ∈ new, p ≤ r.start
  ordered : ns.Pairwise fun m n => m.span.finish ≤ n.span.start
  nodes : ∀ n ∈ ns, (p ≤ n.span.start ∧ n.span.finish ≤ s.here) ∧ n.Nested ∧ n.Clear s.ignores

section Read

variable {p q : Pos} {R : List WarningIgnore} {ms ns : List Node} {n : Node}

/-- Nothing has been read yet. -/
theorem Read.refl (h : s.Sound) : Read s.here s.ignores [] s :=
  ⟨h, le_rfl, h.ignores, ⟨[], rfl, List.forall_mem_nil _⟩, .nil, List.forall_mem_nil _⟩

theorem Read.onward (h : Read p R ns s) (hs : Onward s s') : Read p R ns s' := by
  refine ⟨hs.sound, h.start.trans hs.upto, h.before, hs.ignores ▸ h.regions, h.ordered, fun n hn => ?_⟩
  obtain ⟨⟨hstart, hfinish⟩, hnested, hclear⟩ := h.nodes n hn
  exact ⟨⟨hstart, hfinish.trans hs.upto⟩, hnested, hs.ignores ▸ hclear⟩

theorem Onward.read (h : Onward s s') (hs : s.Sound) : Read s.here s.ignores [] s' := (Read.refl hs).onward h

/-- Regions that begin behind a node do not concern it. -/
theorem clear_append (hnested : n.Nested) (h : n.Clear R) {new : List WarningIgnore}
    (hnew : ∀ r ∈ new, n.span.finish ≤ r.start) : n.Clear (new ++ R) := by
  intro m hm r hr hstart hfinish
  rcases List.mem_append.mp hr with hr | hr
  · obtain ⟨hnested', -, hwithin⟩ := hnested.holds hm
    have hbehind : m.span.start ≤ r.start := (hnested'.span.trans hwithin).trans (hnew r hr)
    exact absurd hbehind (not_le.mpr hstart)
  · exact h m hm r hr hstart hfinish

/-- What is read next is behind what has been read. -/
theorem Read.append (h : Read p R ms s) (h' : Read q s.ignores ns s') (hq : s.here ≤ q) : Read p R (ms ++ ns) s' := by
  obtain ⟨new, hnew, hstart⟩ := h.regions
  obtain ⟨new', hnew', hstart'⟩ := h'.regions
  have hpq : p ≤ q := h.start.trans hq
  refine ⟨h'.sound, hpq.trans h'.start, h.before, ⟨new' ++ new, ?_, ?_⟩, ?_, ?_⟩
  · rw [hnew', hnew, List.append_assoc]
  · exact List.forall_mem_append.mpr ⟨fun r hr => hpq.trans (hstart' r hr), hstart⟩
  · refine List.pairwise_append.mpr ⟨h.ordered, h'.ordered, fun m hm n hn => ?_⟩
    exact ((h.nodes m hm).1.2.trans hq).trans (h'.nodes n hn).1.1
  · refine List.forall_mem_append.mpr ⟨fun m hm => ?_, fun n hn => ?_⟩
    · obtain ⟨⟨hstart, hfinish⟩, hnested, hclear⟩ := h.nodes m hm
      refine ⟨⟨hstart, (hfinish.trans hq).trans h'.start⟩, hnested, ?_⟩
      rw [hnew']
      exact clear_append hnested hclear fun r hr => (hfinish.trans hq).trans (hstart' r hr)
    · obtain ⟨⟨hstart, hfinish⟩, hrest⟩ := h'.nodes n hn
      exact ⟨⟨hpq.trans hstart, hfinish⟩, hrest⟩

/-- Some of the nodes that have been read. -/
theorem Read.sublist (h : Read p R ns s) (hms : ms.Sublist ns) : Read p R ms s :=
  ⟨h.sound, h.start, h.before, h.regions, h.ordered.sublist hms, fun n hn => h.nodes n (hms.subset hn)⟩

/-- **A node is put together** from what has been read since its first place. -/
theorem Read.node (h : Read p R ns s) (hp : n.span.start = p) (hspan : n.span.start ≤ n.span.finish)
    (hfinish : n.span.finish ≤ s.here) (hsigned : n.Signed)
    (hchildren : ∀ c ∈ n.children, c ∈ ns ∧ c.span.finish ≤ n.span.finish ∨ n.Detached c ∧ c.Nested) :
    Read p R [n] s := by
  subst hp
  have hnested : n.Nested := by
    refine .mk hspan hsigned (fun c hc => ?_) fun c hc => ?_
    · exact (hchildren c hc).elim (fun h' => (h.nodes c h'.1).2.1) And.right
    · exact (hchildren c hc).imp (fun h' => ⟨(h.nodes c h'.1).1.1, h'.2⟩) And.left
  refine ⟨h.sound, h.start, h.before, h.regions, List.pairwise_singleton _ _, List.forall_mem_singleton.mpr ?_⟩
  refine ⟨⟨le_rfl, hfinish⟩, hnested, fun m hm r hr hstart hend => ?_⟩
  cases hm with
  | refl =>
    -- A region of its own starts no earlier, and one from before ends no later.
    obtain ⟨new, hnew, hregions⟩ := h.regions
    rw [hnew] at hr
    rcases List.mem_append.mp hr with hr | hr
    · exact absurd (hregions r hr) (not_le.mpr hstart)
    · exact absurd (h.before r hr) (not_le.mpr hend)
  | child hc hattached hm =>
    have hmem := ((hchildren _ hc).resolve_right fun h' => hattached h'.1).1
    exact (h.nodes _ hmem).2.2 m hm r hr hstart hend

/-- A node that ends behind what has been read. -/
theorem Read.close (h : Read p R ns s) (hs : Onward s s') (hp : n.span.start = p) (hfinish : s.here ≤ n.span.finish)
    (hfinish' : n.span.finish ≤ s'.here) (hsigned : n.Signed) (hchildren : n.children ⊆ ns) : Read p R [n] s' :=
  (h.onward hs).node hp (hp ▸ h.start.trans hfinish) hfinish' hsigned fun c hc =>
    .inl ⟨hchildren hc, (h.nodes c (hchildren hc)).1.2.trans hfinish⟩

/-- A node that ends with a bracket. -/
theorem Read.bracket (h : Read p R ns s) (ht : Takes s t s') (hk : t.kind.isLayout = false) (hp : n.span.start = p)
    (hfinish : n.span.finish = t.pos.shift 1) (hsigned : n.Signed) (hchildren : n.children ⊆ ns) : Read p R [n] s' := by
  refine h.close ht.toOnward hp ?_ ?_ hsigned hchildren
  · rw [hfinish, ht.here]
    exact Pos.le_shift _ _
  · rw [hfinish]
    exact Pos.shift_le 0 (ht.word hk).1

/-- What has been read ends with its last node. -/
theorem Read.finish_le (h : Read p R ns s) {l : Node} (hl : ns.getLast? = some l) :
    ∀ c ∈ ns, c.span.finish ≤ l.span.finish := by
  obtain ⟨ns, rfl⟩ := List.getLast?_eq_some_iff.mp hl
  refine List.forall_mem_append.mpr ⟨fun c hc => ?_, List.forall_mem_singleton.mpr le_rfl⟩
  have hordered := (List.pairwise_append.mp h.ordered).2.2 c hc l (List.mem_singleton_self l)
  exact hordered.trans (h.nodes l (List.mem_append_right ns (List.mem_singleton_self l))).2.1.span

/-- A node that ends with its last part. -/
theorem Read.last (h : Read p R ns s) (hp : n.span.start = p) {l : Node} (hl : ns.getLast? = some l)
    (hfinish : n.span.finish = l.span.finish) (hsigned : n.Signed) (hchildren : n.children ⊆ ns) : Read p R [n] s := by
  obtain ⟨⟨hstart, hend⟩, hnested, -⟩ := h.nodes l (List.mem_of_getLast? hl)
  refine h.node hp (hp ▸ hfinish ▸ hstart.trans hnested.span) (hfinish ▸ hend) hsigned fun c hc =>
    .inl ⟨hchildren hc, ?_⟩
  rw [hfinish]
  exact h.finish_le hl c (hchildren hc)

/-- A node without children is known by its span. -/
theorem Read.leaf {m m' : Node} (h : Read p R (m :: ns) s) (hspan : m'.span = m.span) (hsigned : m'.Signed)
    (hchildren : m'.children = []) : Read p R (m' :: ns) s := by
  obtain ⟨hm, hns⟩ := List.forall_mem_cons.mp h.nodes
  obtain ⟨hplace, hnested, hclear⟩ := hm
  refine ⟨h.sound, h.start, h.before, h.regions, ?_, List.forall_mem_cons.mpr ⟨⟨hspan ▸ hplace, ?_, ?_⟩, hns⟩⟩
  · rw [List.pairwise_cons, hspan]
    exact List.pairwise_cons.mp h.ordered
  · refine .mk (hspan ▸ hnested.span) hsigned ?_ ?_ <;> simp [hchildren]
  · intro c hc
    cases hc with
    | refl =>
      rw [hspan]
      exact hclear m (.refl m)
    | child hc => simp [hchildren] at hc

/-- A name is bound. -/
theorem Read.rename {id id' : Ident} (h : Read p R (.ofIdent id :: ns) s) (hpos : id'.pos = id.pos)
    (hname : id'.name = id.name) : Read p R (.ofIdent id' :: ns) s := by
  refine h.leaf ?_ trivial rfl
  show Ident.span id' = Ident.span id
  rw [Ident.span, Ident.finish, hpos, hname]
  rfl

/-- A region is recorded that cuts no node. -/
theorem Read.record (h : Read p R ns s) {r : WarningIgnore} (hp : p ≤ r.start) (hr : r.finish ≤ s.here)
    (hns : ∀ n ∈ ns, n.span.finish ≤ r.start ∨ n.span.finish ≤ r.finish) :
    Read p R ns { s with ignores := r :: s.ignores } := by
  have hsound : State.Sound { s with ignores := r :: s.ignores } :=
    ⟨h.sound.ordered, h.sound.spelled, h.sound.ended, h.sound.nonempty, List.forall_mem_cons.mpr ⟨hr, h.sound.ignores⟩⟩
  obtain ⟨new, hnew, hstart⟩ := h.regions
  refine ⟨hsound, h.start, h.before, ⟨r :: new, by rw [hnew]; rfl, List.forall_mem_cons.mpr ⟨hp, hstart⟩⟩, h.ordered,
    fun n hn => ?_⟩
  obtain ⟨hplace, hnested, hclear⟩ := h.nodes n hn
  refine ⟨hplace, hnested, fun m hm => List.forall_mem_cons.mpr ⟨fun hm₁ hm₂ => ?_, hclear m hm⟩⟩
  obtain ⟨hnested', -, hwithin⟩ := hnested.holds hm
  rcases hns n hn with hbefore | hwhole
  · exact absurd ((hnested'.span.trans hwithin).trans hbefore) (not_le.mpr hm₁)
  · exact hwithin.trans hwhole

end Read

/-! ### Parsers that read nodes -/

section Parsers

variable {α β : Type} {Q : β → State → Prop} {p : Pos} {R : List WarningIgnore} {ns : List Node} {n : Node}

/-- A parser **skips** tokens: it goes forward and records no region. -/
class Skips (x : Parser α) : Prop where
  after : ∀ s, s.Sound → After x s fun _ s' => Onward s s'

instance idle_skips {x : Parser α} [h : Idle x] : Skips x where
  after s hs := (h.after s).mono fun _ _ ⟨htokens, hfault, hignores⟩ => hs.onward htokens hfault hignores

instance bind_skips {x : Parser α} {f : α → Parser β} [h : Skips x] [h' : ∀ a, Skips (f a)] : Skips (x >>= f) where
  after s hs := after_bind fun a s' hx b s'' hb =>
    (h.after s hs a s' hx).trans ((h' a).after s' (h.after s hs a s' hx).sound b s'' hb)

instance ite_skips {c : Prop} [Decidable c] {x y : Parser α} [h : Skips x] [h' : Skips y] :
    Skips (if c then x else y) := by
  split
  · exact h
  · exact h'

theorem After.of_bind_pure {x : Parser α} {P : α → State → Prop} (h : After (x >>= pure) s P) : After x s P := by
  rwa [bind_pure] at h

instance advance_skips : Skips advance where
  after s hs := by
    obtain ⟨t, ht⟩ := hs.nonempty
    exact .of_bind_pure (after_advance hs ht fun s' h => after_pure h.toOnward)

instance consume_skips (k : TokenKind) : Skips (consume k) where
  after _ hs := .of_bind_pure (after_consume hs fun _ _ _ h => after_pure h.toOnward)

instance accept_skips (k : TokenKind) : Skips (accept k) where
  after _ hs := .of_bind_pure (after_accept hs (fun _ _ _ h => after_pure h.toOnward) (after_pure (.refl hs)))

instance skipAll_skips (k : TokenKind) (n : Nat) : Skips (skipAll k n) := by
  induction n with
  | zero => exact ⟨fun _ _ => after_fail _ _⟩
  | succ n ih => unfold skipAll; infer_instance

instance endLine_skips : Skips endLine := by
  unfold endLine
  infer_instance

theorem after_skip {x : Parser α} [hx : Skips x] (hs : s.Sound) {f : α → Parser β}
    (hf : ∀ a s', Onward s s' → After (f a) s' Q) : After (x >>= f) s Q :=
  after_bind ((hx.after s hs).mono fun a s' hs' => hf a s' hs')

/-- A parser may fail first. -/
theorem after_guard {c : Prop} [Decidable c] {q : Pos} {e : SyntaxFault} {k : Unit → Parser α} {P : α → State → Prop}
    (h : After (k ()) s P) : After (if c then fail q e >>= k else k ()) s P := by
  split
  · exact after_fail_bind _ _
  · exact h

/-- A parser may fail first, at the current token. -/
theorem after_guard_here {c : Prop} [Decidable c] {e : SyntaxFault} {k : Unit → Parser α} {P : α → State → Prop}
    (h : After (k ()) s P) : After (if c then pos >>= fun q => fail q e >>= k else k ()) s P := by
  split
  · exact after_bind fun _ _ _ => after_fail_bind _ _
  · exact h

/-- From one state to another **a node has been read**. What comes before it is skipped. -/
structure ReadNode (s : State) (n : Node) (s' : State) : Prop where
  start : s.here ≤ n.span.start
  read : Read n.span.start s.ignores [n] s'

theorem ReadNode.of_start (hp : n.span.start = p) (hstart : s.here ≤ p) (h : Read p s.ignores [n] s') :
    ReadNode s n s' := by
  subst hp
  exact ⟨hstart, h⟩

theorem Onward.node (hs : Onward s s') (h : ReadNode s' n s'') : ReadNode s n s'' :=
  ⟨hs.upto.trans h.start, hs.ignores ▸ h.read⟩

/-- A parser **reads** one node. -/
def Reads (x : Parser α) (node : α → Node) : Prop := ∀ s, s.Sound → After x s fun a s' => ReadNode s (node a) s'

/-- A parser reads nodes one behind the other. -/
def ReadsAll (x : Parser α) (nodes : α → List Node) : Prop := ∀ s, s.Sound → After x s fun a s' =>
  Read s.here s.ignores (nodes a) s'

theorem Reads.first {x : Parser α} {node : α → Node} (hx : Reads x node) {s₀ : State} (hs : Onward s₀ s)
    {f : α → Parser β}
    (h : ∀ a s', s₀.here ≤ (node a).span.start → Read (node a).span.start s₀.ignores [node a] s' → After (f a) s' Q) :
    After (x >>= f) s Q :=
  after_bind ((hx s hs.sound).mono fun a s' hnode => h a s' (hs.node hnode).start (hs.node hnode).read)

namespace Read

variable (h : Read p R ns s)

include h

theorem skip {x : Parser α} [hx : Skips x] {f : α → Parser β} (hf : ∀ a s', Read p R ns s' → After (f a) s' Q) :
    After (x >>= f) s Q :=
  after_bind ((hx.after s h.sound).mono fun a s' hs' => hf a s' (h.onward hs'))

theorem advance {f : Pos → Parser β} (hf : ∀ s', Read p R ns s' → After (f s.here) s' Q) :
    After (Parse.advance >>= f) s Q := by
  obtain ⟨t, ht⟩ := h.sound.nonempty
  exact after_advance h.sound ht fun s' h' => h'.here ▸ hf s' (h.onward h'.toOnward)

theorem next {x : Parser α} {node : α → Node} (hx : Reads x node) {f : α → Parser β}
    (hf : ∀ a s', Read p R (ns ++ [node a]) s' → After (f a) s' Q) : After (x >>= f) s Q :=
  hx.first (.refl h.sound) fun a s' hstart h' => hf a s' (h.append h' hstart)

theorem nexts {x : Parser α} {nodes : α → List Node} (hx : ReadsAll x nodes) {f : α → Parser β}
    (hf : ∀ a s', Read p R (ns ++ nodes a) s' → After (f a) s' Q) : After (x >>= f) s Q :=
  after_bind ((hx s h.sound).mono fun a s' h' => hf a s' (h.append h' le_rfl))

/-- A part that may be missing. -/
theorem opt {x : Parser α} {node : α → Node} (hx : Reads x node) (b : Bool) {f : Option α → Parser β}
    (hf : ∀ o s', Read p R (ns ++ o.toList.map node) s' → After (f o) s' Q) :
    After (if b = true then some <$> x >>= f else pure none >>= f) s Q := by
  split
  · rw [map_eq_pure_bind, bind_assoc]
    exact h.next hx fun a s' h' => after_bind (after_pure (hf (some a) s' h'))
  · exact after_bind (after_pure (hf none s (by simpa using h)))

end Read

/-! ### Names and literals -/

/-- A keyword ends behind its name. -/
theorem Takes.keyword {k : TokenKind} (h : Takes s t s') (hk : t.kind = k) (word : Text)
    (hword : k.isReserved = true ∧ k.name = word) : s.here.advance word ≤ s'.here := by
  subst hk
  rw [h.here, ← hword.2, ← h.spelled.keyword hword.1]
  exact (h.word (TokenKind.isLayout_of_isReserved hword.1)).2

/-- A token that is a node. -/
theorem Takes.node (hs : s.Sound) (h : Takes s t s') (hstart : n.span.start = t.pos)
    (hspan : n.span.start ≤ n.span.finish) (hfinish : n.span.finish ≤ s'.here) (hsigned : n.Signed)
    (hchildren : n.children = []) : ReadNode s n s' := by
  have hhere : n.span.start = s.here := hstart.trans h.here.symm
  refine .of_start hhere le_rfl ((h.read hs).node hhere hspan hfinish hsigned ?_)
  rw [hchildren]
  exact List.forall_mem_nil _

theorem Takes.ident (hs : s.Sound) (h : Takes s t s') (hk : t.kind.isLayout = false) :
    ReadNode s (.ofIdent { pos := t.pos, name := t.raw }) s' :=
  h.node hs rfl (Pos.le_advance _ _) (h.word hk).2 trivial rfl

theorem ident_reads : Reads ident Node.ofIdent := by
  intro s hs
  unfold ident
  refine after_current hs fun t ht => ?_
  split
  · exact after_fail_bind _ _
  rename_i hkind
  have hkind : t.kind = .identifier := not_not.mp hkind
  exact after_advance hs ht fun s' h => after_pure (h.ident hs (by rw [hkind]; decide))

theorem typeName_reads : Reads typeName Node.ofIdent := by
  intro s hs
  unfold typeName
  refine after_current hs fun t ht => ?_
  split
  · exact after_fail_bind _ _
  · exact ident_reads s hs

/-- A keyword is a name too behind a point. -/
theorem memberName_reads : Reads memberName Node.ofIdent := by
  intro s hs
  unfold memberName
  refine after_current hs fun t ht => ?_
  split
  · exact after_fail_bind _ _
  rename_i hkind
  have hword : t.kind.isLayout = false := by
    simp only [Bool.and_eq_true, decide_eq_true_eq, not_and] at hkind
    revert hkind
    cases t.kind
    all_goals decide
  exact after_advance hs ht fun s' h => after_pure (h.ident hs hword)

theorem literal_reads : Reads literal Node.ofLiteral := by
  intro s hs
  unfold literal
  refine after_current hs fun t ht => ?_
  cases hvalue : literalValue? t with
  | none => exact after_fail _ _
  | some value =>
    have hword : t.kind.isLayout = false := by
      unfold literalValue? at hvalue
      split at hvalue
      all_goals first
        | (cases hvalue; done)
        | simp_all [TokenKind.isLayout, TokenKind.isDent]
    refine after_advance hs ht fun s' h => after_pure ?_
    exact h.node (n := Node.ofLiteral { pos := t.pos, raw := t.raw, value }) hs rfl (Pos.le_advance _ _)
      (h.word hword).2 trivial rfl

theorem identRef_reads : Reads identRef Node.ofIdent := by
  intro s hs
  unfold identRef
  refine ident_reads.first (.refl hs) fun id s₁ hstart h => after_bind (after_get ?_)
  split
  · exact after_pure ⟨hstart, h.rename rfl rfl⟩
  · exact after_pure ⟨hstart, h⟩

/-! ### Lists -/

/-- Names behind points. -/
theorem dottedNames_reads {name : Parser Ident} (hname : Reads name Node.ofIdent) (n : Nat) :
    ReadsAll (dottedNames name n) (List.map Node.ofIdent) := by
  induction n with
  | zero => exact fun _ _ => after_fail _ _
  | succ n ih =>
    intro s hs
    unfold dottedNames
    refine (Read.refl hs).skip fun b s₁ h => ?_
    split
    · exact h.next hname fun id s₂ h => h.nexts ih fun ids s₃ h => after_pure (by simpa using h)
    · exact after_pure h

theorem commaList_reads {item : Parser α} {node : α → Node} (hitem : Reads item node) (close : TokenKind) (n : Nat) :
    ReadsAll (commaList close item n) (List.map node) := by
  induction n with
  | zero => exact fun _ _ => after_fail _ _
  | succ n ih =>
    intro s hs
    unfold commaList
    refine (Read.refl hs).skip fun b s₁ h => ?_
    split
    · exact after_pure h
    refine h.next hitem fun x s₂ h => h.skip fun b' s₃ h => ?_
    split
    · exact h.nexts ih fun xs s₃ h => after_pure (by simpa using h)
    · exact after_pure h

theorem untilOutdent_reads {item : Parser α} {nodes : α → List Node} (hitem : ReadsAll item nodes) (n : Nat) :
    ReadsAll (untilOutdent item n) (List.flatMap nodes) := by
  induction n with
  | zero => exact fun _ _ => after_fail _ _
  | succ n ih =>
    intro s hs
    unfold untilOutdent
    refine (Read.refl hs).skip fun k s₁ h => ?_
    split
    · exact after_pure h
    · exact h.nexts hitem fun x s₂ h => h.nexts ih fun xs s₃ h => after_pure (by simpa using h)

end Parsers

end Parse

end GameScript
