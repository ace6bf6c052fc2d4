import GameScript.Proofs.Syntax.Parsers

/-!
# Lexical scoping

What a name in a function means: the declaration in the innermost block around it that has been completed before it.
The blocks of a lambda are inside of those of the function around it.

* `OpenBlock` — a block around a place, with what it has declared before;
* `Selects` — the declaration that a name refers to;
* `Expr.Scoped`, `Stmt.Scoped` and so on — the names of a tree are bound by lexical scoping;
* `Parse.Scopes` — what a parser does where some blocks are open.
-/

-- The parsers are long sequences of steps.
set_option synthInstance.maxSize 20000

namespace GameScript

/-! ### Blocks -/

/-- A block that is open: the place of the function that it belongs to, and the names that it has declared so far. -/
structure OpenBlock where
  function : Pos
  locals : List Local := []

namespace OpenBlock

/-- Whether a name has been declared in a block. -/
def Declares (b : OpenBlock) (n : Text) : Prop := ∃ l ∈ b.locals, l.name = n

/-- The function that the innermost block belongs to. -/
def innermost (Γ : List OpenBlock) : Pos := (Γ.head?.map function).getD .none

/-- A new block of the innermost function. -/
def inner (Γ : List OpenBlock) (locals : List Local := []) : List OpenBlock := ⟨innermost Γ, locals⟩ :: Γ

/-- The innermost block has one more name. -/
def declare (l : Local) : List OpenBlock → List OpenBlock
  | [] => []
  | b :: Γ => { b with locals := b.locals ++ [l] } :: Γ

end OpenBlock

open OpenBlock

/-- Where the blocks of `Γ` are open, the innermost one first, the name `n` **selects** the declaration `l`: it is the
last one of that name in the innermost block that has any. -/
inductive Selects (n : Text) (l : Local) : List OpenBlock → Prop
  | here {f before after Γ} : l.name = n → (∀ k ∈ after, k.name ≠ n) → Selects n l (⟨f, before ++ l :: after⟩ :: Γ)
  | outer {b Γ} : ¬ b.Declares n → Selects n l Γ → Selects n l (b :: Γ)

/-- A name in an expression is **bound** to the declaration that it selects, and to nothing if there is none. -/
inductive Ident.Bound (Γ : List OpenBlock) (id : Ident) : Prop
  | toLocal {l} : Selects id.name l Γ → id.source = l.source → id.binding = .toLocal l.ref → Bound Γ id
  | unbound : (∀ b ∈ Γ, ¬ b.Declares id.name) → id.source = .undefined → id.binding = .unbound → Bound Γ id

/-- The declaration of a name in the innermost block. -/
def Ident.declaration (id : Ident) (Γ : List OpenBlock) (source : NameSource) (start : Pos) : Local :=
  ⟨id.name, source, ⟨id.pos, start, innermost Γ⟩⟩

/-- A name is **declared** in the innermost block: it is bound to its own declaration, and no open block of the
innermost function has declared it before. -/
structure Ident.Declared (Γ : List OpenBlock) (id : Ident) (source : NameSource) (start : Pos) : Prop where
  source : id.source = source
  binding : id.binding = .toLocal ⟨id.pos, start, innermost Γ⟩
  fresh : ∀ b ∈ Γ.takeWhile (·.function = innermost Γ), ¬ b.Declares id.name

/-! ### Trees -/

mutual

/-- The names of an expression are bound by lexical scoping. -/
inductive Expr.Scoped : List OpenBlock → Expr → Prop
  | ident {Γ id} : id.Bound Γ → Expr.Scoped Γ (.ident id)
  | literal {Γ l} : Expr.Scoped Γ (.literal l)
  | self {Γ p i} : Expr.Scoped Γ (.self p i)
  | call {Γ fn args p f i} : Expr.Scoped Γ fn → (∀ x ∈ args, Expr.Scoped Γ x) → Expr.Scoped Γ (.call fn args p f i)
  | superCall {Γ p fn args q f i} : (∀ x ∈ args, Expr.Scoped Γ x) → Expr.Scoped Γ (.superCall p fn args q f i)
  | dot {Γ x n i} : Expr.Scoped Γ x → Expr.Scoped Γ (.dot x n i)
  | index {Γ x y p i} : Expr.Scoped Γ x → Expr.Scoped Γ y → Expr.Scoped Γ (.index x y p i)
  | unary {Γ p op x i} : Expr.Scoped Γ x → Expr.Scoped Γ (.unary p op x i)
  | binary {Γ x op y i} : Expr.Scoped Γ x → Expr.Scoped Γ y → Expr.Scoped Γ (.binary x op y i)
  | cond {Γ x c y i} : Expr.Scoped Γ x → Expr.Scoped Γ c → Expr.Scoped Γ y → Expr.Scoped Γ (.cond x c y i)
  | typeTest {Γ x b t i} : Expr.Scoped Γ x → Expr.Scoped Γ (.typeTest x b t i)
  | cast {Γ x t i} : Expr.Scoped Γ x → Expr.Scoped Γ (.cast x t i)
  | list {Γ p xs q i} : (∀ x ∈ xs, Expr.Scoped Γ x) → Expr.Scoped Γ (.list p xs q i)
  | dict {Γ p es s q i} : (∀ e ∈ es, Expr.Scoped Γ e.key) → (∀ e ∈ es, Expr.Scoped Γ e.value) →
    Expr.Scoped Γ (.dict p es s q i)
  | lambda {Γ fn cs b i} : Func.Scoped Γ fn → Expr.Scoped Γ (.lambda fn cs b i)
  | await {Γ p x i} : Expr.Scoped Γ x → Expr.Scoped Γ (.await p x i)
  | preload {Γ p l q r i} : Expr.Scoped Γ (.preload p l q r i)

/-- A function opens a block for its parameters and the statements of its body. -/
inductive Func.Scoped : List OpenBlock → Func → Prop
  | mk {Γ Γ' fn} : Param.Scoped (⟨fn.pos, []⟩ :: Γ) fn.params Γ' →
    Stmt.AllScoped Γ' fn.body.stmts (⟨fn.pos, fn.body.locals⟩ :: Γ) → Func.Scoped Γ fn

/-- Parameters, and the blocks with them. A parameter is visible in the defaults behind it. -/
inductive Param.Scoped : List OpenBlock → List Param → List OpenBlock → Prop
  | nil {Γ} : Param.Scoped Γ [] Γ
  | cons {Γ Γ' p ps} : (∀ x ∈ p.default, Expr.Scoped Γ x) → p.name.Declared Γ .parameter p.name.pos →
    Param.Scoped (declare (p.name.declaration Γ .parameter p.name.pos) Γ) ps Γ' → Param.Scoped Γ (p :: ps) Γ'

/-- A block of its own. An `elif` is a conditional in the place of the block of an `else`. -/
inductive Block.Scoped : List OpenBlock → Block → Prop
  | mk {Γ b} : Stmt.AllScoped (inner Γ) b.stmts (inner Γ b.locals) → Block.Scoped Γ b
  | elif {Γ b p c yes no} : b.stmts = [.cond p c yes no] → b.locals = [] → Stmt.Scoped Γ (.cond p c yes no) Γ →
    Block.Scoped Γ b

/-- A statement, and the blocks with the name that it declares. A variable is visible behind its initial value, a loop
variable in the body of the loop. -/
inductive Stmt.Scoped : List OpenBlock → Stmt → List OpenBlock → Prop
  | assign {Γ op x y f b} : Expr.Scoped Γ x → Expr.Scoped Γ y → Stmt.Scoped Γ (.assign op x y f b) Γ
  | expr {Γ x} : Expr.Scoped Γ x → Stmt.Scoped Γ (.expr x) Γ
  | cond {Γ p c yes no} : Expr.Scoped Γ c → Block.Scoped Γ yes → (∀ b ∈ no, Block.Scoped Γ b) →
    Stmt.Scoped Γ (.cond p c yes no) Γ
  | loop {Γ p id spec x body} : Expr.Scoped Γ x → id.Declared (inner Γ) .iterator p →
    Stmt.AllScoped (declare (id.declaration (inner Γ) .iterator p) (inner Γ)) body.stmts (inner Γ body.locals) →
    Stmt.Scoped Γ (.loop p id spec x body) Γ
  | while {Γ p c body} : Expr.Scoped Γ c → Block.Scoped Γ body → Stmt.Scoped Γ (.while p c body) Γ
  | match {Γ p x bs} : Expr.Scoped Γ x → (∀ b ∈ bs, Branch.Scoped Γ b) → Stmt.Scoped Γ (.match p x bs) Γ
  | jump {Γ p j} : Stmt.Scoped Γ (.jump p j) Γ
  | return {Γ p result b} : (∀ x ∈ result, Expr.Scoped Γ x) → Stmt.Scoped Γ (.return p result b) Γ
  | assert {Γ p c message q} : Expr.Scoped Γ c → (∀ x ∈ message, Expr.Scoped Γ x) →
    Stmt.Scoped Γ (.assert p c message q) Γ
  | var {Γ d} : (∀ x ∈ d.init, Expr.Scoped Γ x) → d.name.Declared Γ .localVariable d.pos →
    Stmt.Scoped Γ (.var d) (declare (d.name.declaration Γ .localVariable d.pos) Γ)
  | const {Γ d} : Expr.Scoped Γ d.init → d.name.Declared Γ .localConstant d.pos →
    Stmt.Scoped Γ (.const d) (declare (d.name.declaration Γ .localConstant d.pos) Γ)

inductive Stmt.AllScoped : List OpenBlock → List Stmt → List OpenBlock → Prop
  | nil {Γ} : Stmt.AllScoped Γ [] Γ
  | cons {Γ Γ₁ Γ₂ s ss} : Stmt.Scoped Γ s Γ₁ → Stmt.AllScoped Γ₁ ss Γ₂ → Stmt.AllScoped Γ (s :: ss) Γ₂

/-- The names that the patterns of a branch bind are visible in the branch. -/
inductive Branch.Scoped : List OpenBlock → Branch → Prop
  | mk {Γ Γ' b} : Pattern.AllScoped (inner Γ) b.patterns Γ' →
    Stmt.AllScoped Γ' b.body.stmts (inner Γ b.body.locals) → Branch.Scoped Γ b

/-- A pattern, and the blocks with the names that it binds. -/
inductive Pattern.Scoped : List OpenBlock → Pattern → List OpenBlock → Prop
  | literal {Γ l} : Pattern.Scoped Γ (.literal l) Γ
  | expr {Γ x} : Expr.Scoped Γ x → Pattern.Scoped Γ (.expr x) Γ
  | bind {Γ p id} : id.Declared Γ .bind p → Pattern.Scoped Γ (.bind p id) (declare (id.declaration Γ .bind p) Γ)
  | array {Γ Γ' p ps q} : Pattern.AllScoped Γ ps Γ' → Pattern.Scoped Γ (.array p ps q) Γ'
  | dict {Γ Γ' p es b q} : PatternEntry.AllScoped Γ es Γ' → Pattern.Scoped Γ (.dict p es b q) Γ'
  | wildcard {Γ p} : Pattern.Scoped Γ (.wildcard p) Γ
  | rest {Γ p} : Pattern.Scoped Γ (.rest p) Γ

inductive Pattern.AllScoped : List OpenBlock → List Pattern → List OpenBlock → Prop
  | nil {Γ} : Pattern.AllScoped Γ [] Γ
  | cons {Γ Γ₁ Γ₂ p ps} : Pattern.Scoped Γ p Γ₁ → Pattern.AllScoped Γ₁ ps Γ₂ → Pattern.AllScoped Γ (p :: ps) Γ₂

inductive PatternEntry.AllScoped : List OpenBlock → List PatternEntry → List OpenBlock → Prop
  | nil {Γ} : PatternEntry.AllScoped Γ [] Γ
  | key {Γ Γ₁ x es} : Expr.Scoped Γ x → PatternEntry.AllScoped Γ es Γ₁ → PatternEntry.AllScoped Γ (⟨x, none⟩ :: es) Γ₁
  | entry {Γ Γ₁ Γ₂ x p es} : Expr.Scoped Γ x → Pattern.Scoped Γ p Γ₁ → PatternEntry.AllScoped Γ₁ es Γ₂ →
    PatternEntry.AllScoped Γ (⟨x, some p⟩ :: es) Γ₂

end

/-- The names in the default of a parameter, in the initial value of a variable and in its accessors. -/
structure VarDecl.Scoped (d : VarDecl) : Prop where
  init : ∀ x ∈ d.init, x.Scoped []
  setter : ∀ f ∈ d.setter, f.Scoped []
  getter : ∀ f ∈ d.getter, f.Scoped []

mutual

/-- The names of a class are bound by lexical scoping. No block is open around a member. -/
inductive ClassDecl.Scoped : ClassDecl → Prop
  | mk {c} : (∀ m ∈ c.members, Member.Scoped m) → ClassDecl.Scoped c

inductive Member.Scoped : Member → Prop
  | var {d} : d.Scoped → Member.Scoped (.var d)
  | const {d} : Expr.Scoped [] d.init → Member.Scoped (.const d)
  | signal {d} : (∀ p ∈ d.params, p.default = none) → Member.Scoped (.signal d)
  | enum {d} : (∀ v ∈ d.values, ∀ x ∈ v.init, Expr.Scoped [] x) → Member.Scoped (.enum d)
  | enumValue {d i} : (∀ v ∈ d.values, ∀ x ∈ v.init, Expr.Scoped [] x) → Member.Scoped (.enumValue d i)
  | func {f} : Func.Scoped [] f → Member.Scoped (.func f)
  | cls {c} : ClassDecl.Scoped c → Member.Scoped (.cls c)
  | group {d} : Member.Scoped (.group d)

end

/-! ### What is declared -/

/-- Only the innermost block gets more names. -/
def OpenBlock.Keeps (Γ Γ' : List OpenBlock) : Prop := ∀ b Γ₀, Γ = b :: Γ₀ → ∃ ls, Γ' = { b with locals := ls } :: Γ₀

namespace OpenBlock

variable {Γ Γ₁ Γ₂ : List OpenBlock}

theorem Keeps.refl (Γ : List OpenBlock) : Keeps Γ Γ := fun b _ h => ⟨b.locals, h⟩

theorem Keeps.trans (h : Keeps Γ Γ₁) (h₁ : Keeps Γ₁ Γ₂) : Keeps Γ Γ₂ := by
  intro b Γ₀ hΓ
  obtain ⟨ls, hls⟩ := h b Γ₀ hΓ
  exact h₁ { b with locals := ls } Γ₀ hls

theorem keeps_declare (l : Local) (Γ : List OpenBlock) : Keeps Γ (declare l Γ) := by
  rintro b Γ₀ rfl
  exact ⟨_, rfl⟩

end OpenBlock

variable {Γ Γ' : List OpenBlock}

theorem Param.Scoped.keeps {ps : List Param} (h : Param.Scoped Γ ps Γ') : Keeps Γ Γ' := by
  induction ps generalizing Γ with
  | nil =>
    cases h
    exact .refl _
  | cons p ps ih =>
    cases h with
    | cons _ _ h => exact (keeps_declare _ _).trans (ih h)

theorem Stmt.Scoped.keeps {s : Stmt} (h : Stmt.Scoped Γ s Γ') : Keeps Γ Γ' := by
  cases h with
  | var | const => exact keeps_declare _ _
  | _ => exact .refl _

theorem Stmt.AllScoped.keeps {ss : List Stmt} (h : Stmt.AllScoped Γ ss Γ') : Keeps Γ Γ' := by
  induction ss generalizing Γ with
  | nil =>
    cases h
    exact .refl _
  | cons s ss ih =>
    cases h with
    | cons h hs => exact h.keeps.trans (ih hs)

mutual

theorem Pattern.Scoped.keeps : ∀ {p : Pattern} {Γ Γ' : List OpenBlock}, Pattern.Scoped Γ p Γ' → Keeps Γ Γ'
  | _, _, _, .literal | _, _, _, .expr _ | _, _, _, .wildcard | _, _, _, .rest => .refl _
  | _, _, _, .bind _ => keeps_declare _ _
  | _, _, _, .array h => h.keeps
  | _, _, _, .dict h => h.keeps

theorem Pattern.AllScoped.keeps : ∀ {ps : List Pattern} {Γ Γ' : List OpenBlock}, Pattern.AllScoped Γ ps Γ' → Keeps Γ Γ'
  | _, _, _, .nil => .refl _
  | _, _, _, .cons h hs => h.keeps.trans hs.keeps

theorem PatternEntry.AllScoped.keeps :
    ∀ {es : List PatternEntry} {Γ Γ' : List OpenBlock}, PatternEntry.AllScoped Γ es Γ' → Keeps Γ Γ'
  | _, _, _, .nil => .refl _
  | _, _, _, .key _ hs => hs.keeps
  | _, _, _, .entry _ h hs => h.keeps.trans hs.keeps

end

namespace Parse

/-! ### Parsers where blocks are open -/

/-- The open blocks. -/
def State.blocks (s : State) : List OpenBlock := s.scopes.map fun c => ⟨c.function, c.locals⟩

variable {α β : Type} {Q : α → List OpenBlock → Prop}

/-- How a parser **scopes** names where the blocks of `Γ` are open: what it gives, if it does not fail, and the
blocks that are open then. -/
def Scopes (x : Parser α) (Γ : List OpenBlock) (Q : α → List OpenBlock → Prop) : Prop :=
  ∀ s : State, s.blocks = Γ → After x s fun a s' => Q a s'.blocks

theorem scopes_bind {x : Parser α} {f : α → Parser β} {Q : β → List OpenBlock → Prop}
    (h : Scopes x Γ fun a Γ' => Scopes (f a) Γ' Q) : Scopes (x >>= f) Γ Q :=
  fun s hs => after_bind ((h s hs).mono fun _ s' ha => ha s' rfl)

theorem scopes_pure {a : α} (h : Q a Γ) : Scopes (pure a) Γ Q := fun _ hs => after_pure (hs ▸ h)

theorem scopes_fail (p : Pos) (f : SyntaxFault) : Scopes (fail p f) Γ Q := fun _ _ _ _ h => by cases h

theorem scopes_fail_bind (p : Pos) (f : SyntaxFault) {k : β → Parser α} : Scopes (fail p f >>= k) Γ Q :=
  fun _ _ _ _ h => by cases h

theorem Scopes.mono {x : Parser α} {Q' : α → List OpenBlock → Prop} (h : Scopes x Γ Q)
    (hQ : ∀ a Γ', Q a Γ' → Q' a Γ') : Scopes x Γ Q' := fun s hs => (h s hs).mono fun a _ => hQ a _

theorem scopes_map {x : Parser β} {f : β → α} (h : Scopes x Γ fun b Γ' => Q (f b) Γ') : Scopes (f <$> x) Γ Q := by
  rw [map_eq_pure_bind]
  exact scopes_bind (h.mono fun _ _ hb => scopes_pure hb)

/-! ### Parsers that open no blocks -/

/-- A parser **stays** in its blocks: it leaves them as they are. -/
class Stays (x : Parser α) : Prop where
  after : ∀ s, After x s fun _ s' => s'.scopes = s.scopes

theorem Stays.scopes (x : Parser α) [hx : Stays x] : Scopes x Γ fun _ Γ' => Γ' = Γ :=
  fun s hs => (hx.after s).mono fun _ s' h => by
    show s'.blocks = Γ
    rw [← hs, State.blocks, h]
    rfl

/-- A step that stays in its blocks. -/
theorem scopes_stay {x : Parser β} [Stays x] {f : β → Parser α} (h : ∀ b, Scopes (f b) Γ Q) : Scopes (x >>= f) Γ Q :=
  scopes_bind ((Stays.scopes x).mono fun b _ hΓ => hΓ ▸ h b)

instance bind_stays {x : Parser α} {f : α → Parser β} [p : Stays x] [q : ∀ a, Stays (f a)] : Stays (x >>= f) where
  after s := after_bind fun a s' h b s'' h' => ((q a).after s' b s'' h').trans (p.after s a s' h)

instance pure_stays (a : α) : Stays (pure a : Parser α) where
  after _ := after_pure rfl

instance get_stays : Stays (get : Parser State) where
  after _ := after_get rfl

instance fail_stays (p : Pos) (f : SyntaxFault) : Stays (fail p f : Parser α) where
  after _ := fun _ _ h => by cases h

instance fail_bind_stays (p : Pos) (f : SyntaxFault) (k : α → Parser β) : Stays (fail p f >>= k) where
  after _ := fun _ _ h => by cases h

instance ite_stays {c : Prop} [Decidable c] {x y : Parser α} [p : Stays x] [q : Stays y] :
    Stays (if c then x else y) := by
  split
  · exact p
  · exact q

instance map_stays {x : Parser α} [Stays x] (f : α → β) : Stays (f <$> x) := by
  rw [map_eq_pure_bind]
  infer_instance

instance modify_lineEnded_stays (b : Bool) : Stays (modify ({ · with lineEnded := b } : State → State)) where
  after _ := after_modify rfl

instance current_stays : Stays current := by
  unfold current
  refine bind_stays (q := fun s => ?_)
  split <;> infer_instance

instance kind_stays : Stays kind := by unfold kind; infer_instance

instance isAt_stays (k : TokenKind) : Stays (isAt k) := by unfold isAt; infer_instance

instance pos_stays : Stays pos := by unfold pos; infer_instance

instance endOfTokens_stays (s : State) : Stays (endOfTokens s) := by unfold endOfTokens; split <;> infer_instance

instance begin_stays : Stays begin := by unfold begin; infer_instance

instance peek_stays : Stays peek := by
  unfold peek
  refine bind_stays (q := fun s => ?_)
  split <;> infer_instance

instance advance_stays : Stays advance where
  after s := by
    unfold advance
    refine after_bind (after_get ?_)
    split
    · exact after_pure rfl
    · rename_i t _
      refine Stays.after (x := do
        if t.kind ≠ .endOfFile then endOfTokens s
        return t.pos) s
    · exact after_bind (after_set (after_pure rfl))

instance consume_stays (k : TokenKind) : Stays (consume k) := by unfold consume; infer_instance

instance accept_stays (k : TokenKind) : Stays (accept k) := by unfold accept; infer_instance

instance skipAll_stays (k : TokenKind) (n : Nat) : Stays (skipAll k n) := by
  induction n with
  | zero => exact fail_stays _ _
  | succ n ih => unfold skipAll; infer_instance

instance remaining_stays : Stays remaining := by unfold remaining; infer_instance

instance endLine_stays : Stays endLine := by unfold endLine; infer_instance

instance ident_stays : Stays ident := by unfold ident; infer_instance

instance memberName_stays : Stays memberName := by unfold memberName; infer_instance

instance functionScopes_stays : Stays functionScopes := by
  unfold functionScopes
  refine bind_stays (q := fun s => ?_)
  dsimp only
  split <;> infer_instance

instance literal_stays : Stays literal := by
  unfold literal
  refine bind_stays (q := fun t => ?_)
  split <;> infer_instance

instance typeName_stays : Stays typeName := by unfold typeName; infer_instance

instance dottedNames_stays (name : Parser Ident) [Stays name] (n : Nat) : Stays (dottedNames name n) := by
  induction n with
  | zero => exact fail_stays _ _
  | succ n ih => unfold dottedNames; infer_instance

instance joinNotIn_stays : Stays joinNotIn := by
  unfold joinNotIn
  refine bind_stays (q := fun t => ite_stays (p := bind_stays (q := fun k => ?_)))
  dsimp only
  split
  · exact fail_bind_stays _ _ _
  · refine bind_stays (q := fun _ => ⟨fun s => after_modify ?_⟩)
    split <;> rfl

instance atStmtEnd_stays : Stays atStmtEnd := by unfold atStmtEnd; infer_instance

instance warningNames_stays (xs : List Expr) : Stays (warningNames xs) := by
  induction xs with
  | nil => exact pure_stays _
  | cons x xs ih =>
    unfold warningNames
    split
    · exact pure_stays _
    · rename_i heq
      cases heq
      infer_instance
    · exact fail_stays _ _

instance ignoring_stays (m : Markers) (args : List Expr) : Stays (m.ignoring args) := by
  unfold Markers.ignoring
  infer_instance

instance isAccessorStart_stays : Stays isAccessorStart := by unfold isAccessorStart; infer_instance

instance extendsClause_stays : Stays extendsClause := by
  unfold extendsClause
  dsimp only
  infer_instance

instance recordIgnore_stays (start finish : Pos) (codes : List Text) : Stays (recordIgnore start finish codes) where
  after s := by
    unfold recordIgnore
    refine after_bind (after_get ?_)
    split
    · exact after_set rfl
    · exact Stays.after (x := do fail (← current).after .noFile) s

/-! ### Names -/

theorem function_scopes : Scopes function Γ fun p Γ' => p = innermost Γ ∧ Γ' = Γ := by
  intro s hs
  unfold function
  refine after_bind (after_get (after_pure ⟨?_, hs⟩))
  subst hs
  unfold innermost State.blocks
  cases s.scopes <;> rfl

theorem lookup?_selects {n : Text} {cs : List Scope} {l : Local} (h : lookup? n cs = some l) :
    Selects n l (cs.map fun c => ⟨c.function, c.locals⟩) := by
  induction cs with
  | nil => cases h
  | cons c cs ih =>
    unfold lookup? at h
    cases hfind : c.locals.reverse.find? (·.name = n) with
    | some k =>
      rw [hfind] at h
      obtain rfl := Option.some.inj h
      obtain ⟨hname, before, after, hsplit, hbefore⟩ := List.find?_eq_some_iff_append.mp hfind
      have hlocals : c.locals = after.reverse ++ k :: before.reverse := by
        rw [← List.reverse_reverse c.locals, hsplit]
        simp
      rw [List.map_cons, hlocals]
      exact .here (by simpa using hname) fun j hj => by simpa using hbefore j (List.mem_reverse.mp hj)
    | none =>
      rw [hfind] at h
      refine .outer ?_ (ih h)
      rintro ⟨k, hk, hname⟩
      exact absurd hname (by simpa using List.find?_eq_none.mp hfind k (List.mem_reverse.mpr hk))

theorem lookup?_none {n : Text} {cs : List Scope} (h : lookup? n cs = none) :
    ∀ b ∈ cs.map (fun c => (⟨c.function, c.locals⟩ : OpenBlock)), ¬ b.Declares n := by
  induction cs with
  | nil => exact fun _ hb => nomatch hb
  | cons c cs ih =>
    unfold lookup? at h
    cases hfind : c.locals.reverse.find? (·.name = n) with
    | some k =>
      rw [hfind] at h
      cases h
    | none =>
      rw [hfind] at h
      intro b hb
      rcases List.mem_cons.mp hb with rfl | hb
      · rintro ⟨k, hk, hname⟩
        exact absurd hname (by simpa using List.find?_eq_none.mp hfind k (List.mem_reverse.mpr hk))
      · exact ih h b hb

theorem ident_scopes : Scopes ident Γ fun id Γ' => (id.source = .undefined ∧ id.binding = .unbound) ∧ Γ' = Γ := by
  unfold ident
  refine scopes_stay fun t => ?_
  split
  · exact scopes_fail_bind _ _
  · exact scopes_stay fun _ => scopes_pure ⟨⟨rfl, rfl⟩, rfl⟩

/-- **A name in an expression is bound** by lexical scoping. -/
theorem identRef_scopes : Scopes identRef Γ fun id Γ' => id.Bound Γ ∧ Γ' = Γ := by
  intro s hs
  unfold identRef
  refine after_bind ((ident_scopes s hs).mono fun id s₁ ⟨⟨hsource, hbinding⟩, hs₁⟩ => after_bind (after_get ?_))
  subst hs₁
  cases hlookup : lookup? id.name s₁.scopes with
  | some l => exact after_pure ⟨.toLocal (lookup?_selects hlookup) rfl rfl, rfl⟩
  | none => exact after_pure ⟨.unbound (lookup?_none hlookup) hsource hbinding, rfl⟩

/-- A check that is made of each of some things. -/
theorem after_forIn {γ : Type} {cs : List γ} {f : γ → PUnit → Parser (ForInStep PUnit)} {P : γ → Prop}
    (h : ∀ c s, After (f c ⟨⟩) s fun r s' => r = .yield ⟨⟩ ∧ s' = s ∧ P c) (s : State) :
    After (forIn cs ⟨⟩ f) s fun _ s' => s' = s ∧ ∀ c ∈ cs, P c := by
  induction cs with
  | nil => exact after_pure ⟨rfl, nofun⟩
  | cons c cs ih =>
    rw [List.forIn_cons]
    refine after_bind ((h c s).mono fun r s₁ ⟨hr, hs₁, hc⟩ => ?_)
    subst hr hs₁
    exact ih.mono fun _ _ ⟨hs, hcs⟩ => ⟨hs, List.forall_mem_cons.mpr ⟨hc, hcs⟩⟩

theorem functionScopes_after (s : State) : After functionScopes s fun cs s' => s' = s ∧
    s.blocks.takeWhile (·.function = innermost s.blocks) = cs.map fun c => ⟨c.function, c.locals⟩ := by
  unfold functionScopes
  refine after_bind (after_get ?_)
  dsimp only
  cases hscopes : s.scopes with
  | nil => exact after_pure ⟨rfl, by simp [State.blocks, hscopes]⟩
  | cons c cs =>
    refine after_pure ⟨rfl, ?_⟩
    rw [State.blocks, hscopes, List.takeWhile_map]
    rfl

/-- **A name is declared** in the innermost block. -/
theorem declare_scopes (id : Ident) (source : NameSource) (start : Pos) :
    Scopes (declare id source start) Γ fun id' Γ' => (id'.Declared Γ source start ∧ id'.pos = id.pos) ∧ Γ' = OpenBlock.declare (id'.declaration Γ source start) Γ := by
  intro s hs
  unfold declare
  refine after_bind ((functionScopes_after s).mono fun cs s₁ hscopes => ?_)
  obtain ⟨rfl, hcs⟩ := hscopes
  refine after_bind ((after_forIn (P := fun c : Scope => c.locals.find? (·.name = id.name) = none) ?_ s₁).mono
    fun _ s₂ hsearch => ?_)
  · intro c s
    split
    · exact fun _ _ h => by cases h
    · rename_i hc
      exact after_bind (after_pure (after_pure ⟨rfl, rfl, hc⟩))
  obtain ⟨rfl, hnone⟩ := hsearch
  refine after_bind ((function_scopes s₂ hs).mono fun p s₃ hfunction => after_bind (after_get ?_))
  obtain ⟨rfl, hs₃⟩ := hfunction
  have hfresh : ∀ b ∈ Γ.takeWhile (·.function = innermost Γ), ¬ b.Declares id.name := by
    intro b hb
    rw [← hs, hcs] at hb
    obtain ⟨c, hc, rfl⟩ := List.mem_map.mp hb
    rintro ⟨l, hl, hname⟩
    exact absurd hname (by simpa using List.find?_eq_none.mp (hnone c hc) l hl)
  dsimp only
  cases hscopes : s₃.scopes with
  | nil => exact after_bind ((current_stays.after s₃).mono fun t s₄ _ _ _ h => by cases h)
  | cons c cs =>
    refine after_bind (after_set (after_pure ⟨⟨⟨rfl, rfl, hfresh⟩, rfl⟩, ?_⟩))
    rw [← hs₃, State.blocks, State.blocks, hscopes]
    rfl

/-- **A block is opened** for a parser and closed behind it. -/
theorem inScope_scopes {x : Parser α} {c : Scope} {R : α → List Local → Prop}
    (h : Scopes x (⟨c.function, c.locals⟩ :: Γ) fun a Γ' => ∃ ls, Γ' = ⟨c.function, ls⟩ :: Γ ∧ R a ls) :
    Scopes (inScope c x) Γ fun r Γ' => R r.1 r.2 ∧ Γ' = Γ := by
  intro s hs
  unfold inScope
  refine after_bind (after_modify (after_bind ?_))
  refine (h { s with scopes := c :: s.scopes } (by rw [← hs]; rfl)).mono fun a s₁ ⟨ls, hblocks, hR⟩ => ?_
  refine after_bind (after_get ?_)
  unfold State.blocks at hblocks
  cases hscopes : s₁.scopes with
  | nil =>
    rw [hscopes] at hblocks
    cases hblocks
  | cons c₁ cs =>
    rw [hscopes, List.map_cons] at hblocks
    obtain ⟨hc, hcs⟩ := List.cons.inj hblocks
    obtain ⟨-, rfl⟩ := OpenBlock.mk.inj hc
    exact after_bind (after_set (after_pure ⟨hR, hcs⟩))

end Parse

end GameScript
