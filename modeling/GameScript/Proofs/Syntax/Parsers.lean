import GameScript.Syntax.Parse.Decl

/-!
# Parsers pass tokens

The parsers go forward: what remains of the tokens after a parser has been there before. This is told here of
names alone, since two keywords can be joined to an operator.

* `Parse.places` — the places of the names among tokens;
* `Parse.Passes` — a parser after which there are no new names;
* `Subparsers.Pass` — the parsers of the parts of a construct do so.
-/

-- The parsers are long sequences of steps.
set_option synthInstance.maxSize 20000

namespace GameScript.Parse

/-- The places of the names among tokens. -/
def places (ts : List Token) : List Pos := (ts.filter (·.kind = .identifier)).map Token.pos

variable {α β : Type}

/-! ### What holds after a parser -/

/-- What holds after a parser, if it does not fail. -/
def After (x : Parser α) (s : State) (Q : α → State → Prop) : Prop := ∀ a s', x.run s = .ok (a, s') → Q a s'

theorem after_bind {x : Parser α} {f : α → Parser β} {s : State} {Q : β → State → Prop}
    (h : After x s fun a s' => After (f a) s' Q) : After (x >>= f) s Q := by
  intro b s'' hb
  rw [StateT.run_bind] at hb
  rcases hx : x.run s with e | ⟨a, s'⟩
  · rw [hx] at hb
    cases hb
  · rw [hx] at hb
    exact h a s' hx b s'' hb

theorem after_pure {a : α} {s : State} {Q : α → State → Prop} (h : Q a s) : After (pure a) s Q := by
  intro b s' hb
  cases hb
  exact h

theorem after_get {s : State} {Q : State → State → Prop} (h : Q s s) : After get s Q := by
  intro b s' hb
  cases hb
  exact h

theorem after_set {s s' : State} {Q : PUnit → State → Prop} (h : Q () s') : After (set s') s Q := by
  intro b s'' hb
  cases hb
  exact h

theorem after_modify {f : State → State} {s : State} {Q : PUnit → State → Prop} (h : Q () (f s)) :
    After (modify f) s Q := by
  intro b s' hb
  cases hb
  exact h

theorem After.mono {x : Parser α} {s : State} {P Q : α → State → Prop} (h : After x s P)
    (hPQ : ∀ a s', P a s' → Q a s') : After x s Q := fun a s' hr => hPQ a s' (h a s' hr)

theorem after_fail (p : Pos) (f : SyntaxFault) {s : State} {Q : α → State → Prop} : After (fail p f) s Q :=
  fun _ _ h => by cases h

theorem after_fail_bind (p : Pos) (f : SyntaxFault) {k : α → Parser β} {s : State} {Q : β → State → Prop} :
    After (fail p f >>= k) s Q :=
  fun _ _ h => by cases h

/-! ### Parsers that pass tokens -/

/-- A parser **passes** tokens: no names remain but some that have been there. -/
class Passes (x : Parser α) : Prop where
  after : ∀ s, After x s fun _ s' => (places s'.tokens).Sublist (places s.tokens)

instance bind_passes {x : Parser α} {f : α → Parser β} [p : Passes x] [q : ∀ a, Passes (f a)] :
    Passes (x >>= f) where
  after s := after_bind fun a s' h b s'' h' => ((q a).after s' b s'' h').trans (p.after s a s' h)

instance pure_passes (a : α) : Passes (pure a : Parser α) where
  after _ := after_pure (.refl _)

instance get_passes : Passes (get : Parser State) where
  after _ := after_get (.refl _)

instance throw_passes (e : SyntaxError) : Passes (throw e : Parser α) where
  after s := fun b s' h => by cases h

instance fail_passes (p : Pos) (f : SyntaxFault) : Passes (fail p f : Parser α) := throw_passes _

/-- Nothing comes after a failure. -/
instance fail_bind_passes (p : Pos) (f : SyntaxFault) (k : α → Parser β) : Passes (fail p f >>= k) where
  after s := fun b s' h => by cases h

instance ite_passes {c : Prop} [Decidable c] {x y : Parser α} [p : Passes x] [q : Passes y] :
    Passes (if c then x else y) := by
  split
  · exact p
  · exact q

instance map_passes {x : Parser α} [hx : Passes x] (f : α → β) : Passes (f <$> x) where
  after s := by
    intro b s' h
    rw [StateT.run_map] at h
    rcases hr : x.run s with e | ⟨a, s₁⟩
    · rw [hr] at h
      cases h
    · rw [hr] at h
      cases h
      exact hx.after s a s₁ hr

instance forIn_passes {γ : Type} (xs : List γ) {f : γ → β → Parser (ForInStep β)} [q : ∀ x b, Passes (f x b)] (b : β) :
    Passes (forIn xs b f) := by
  induction xs generalizing b with
  | nil => exact pure_passes b
  | cons x xs ih =>
    rw [List.forIn_cons]
    refine bind_passes (q := fun r => ?_)
    cases r with
    | done b => exact pure_passes b
    | yield b => exact ih b

instance modify_lineEnded_passes (b : Bool) : Passes (modify ({ · with lineEnded := b } : State → State)) where
  after _ := after_modify (.refl _)

/-! ### Tokens -/

theorem places_tail {t : Token} {ts : List Token} : (places ts).Sublist (places (t :: ts)) :=
  ((List.sublist_cons_self t ts).filter _).map _

instance current_passes : Passes current := by
  unfold current
  refine bind_passes (q := fun s => ?_)
  split <;> infer_instance

instance kind_passes : Passes kind := by unfold kind; infer_instance

instance isAt_passes (k : TokenKind) : Passes (isAt k) := by unfold isAt; infer_instance

instance pos_passes : Passes pos := by unfold pos; infer_instance

instance endOfTokens_passes (s : State) : Passes (endOfTokens s) := by unfold endOfTokens; split <;> infer_instance

instance begin_passes : Passes begin := by unfold begin; infer_instance

instance peek_passes : Passes peek := by
  unfold peek
  refine bind_passes (q := fun s => ?_)
  split <;> infer_instance

instance advance_passes : Passes advance where
  after s := by
    unfold advance
    refine after_bind (after_get ?_)
    split
    · exact after_pure (.refl _)
    · rename_i t _
      refine Passes.after (x := do
        if t.kind ≠ .endOfFile then endOfTokens s
        return t.pos) s
    · rename_i t rest _ htokens
      refine after_bind (after_set (after_pure ?_))
      rw [htokens]
      exact places_tail

instance consume_passes (k : TokenKind) : Passes (consume k) := by unfold consume; infer_instance

instance accept_passes (k : TokenKind) : Passes (accept k) := by unfold accept; infer_instance

instance skipAll_passes (k : TokenKind) (n : Nat) : Passes (skipAll k n) := by
  induction n with
  | zero => exact fail_passes _ _
  | succ n ih => unfold skipAll; infer_instance

instance remaining_passes : Passes remaining := by unfold remaining; infer_instance

instance endLine_passes : Passes endLine := by unfold endLine; infer_instance

instance commaList_passes (close : TokenKind) (item : Parser α) [Passes item] (n : Nat) :
    Passes (commaList close item n) := by
  induction n with
  | zero => exact fail_passes _ _
  | succ n ih => unfold commaList; infer_instance

instance untilOutdent_passes (item : Parser α) [Passes item] (n : Nat) : Passes (untilOutdent item n) := by
  induction n with
  | zero => exact fail_passes _ _
  | succ n ih => unfold untilOutdent; infer_instance

/-! ### Names and scopes -/

instance ident_passes : Passes ident := by unfold ident; infer_instance

instance memberName_passes : Passes memberName := by unfold memberName; infer_instance

instance identRef_passes : Passes identRef := by
  unfold identRef
  refine bind_passes (q := fun id => bind_passes (q := fun s => ?_))
  split <;> infer_instance

instance function_passes : Passes function := by unfold function; infer_instance

instance functionScopes_passes : Passes functionScopes := by
  unfold functionScopes
  refine bind_passes (q := fun s => ?_)
  dsimp only
  split <;> infer_instance

instance declare_passes (id : Ident) (source : NameSource) (start : Pos) : Passes (declare id source start) := by
  unfold declare
  refine bind_passes (q := fun scopes => ?_)
  refine bind_passes (p := ?_) (q := fun _ => bind_passes (q := fun _ => ?_))
  · refine forIn_passes scopes (q := fun s _ => ?_) _
    split <;> infer_instance
  · refine ⟨fun s => after_bind (after_get ?_)⟩
    split
    · exact after_bind (after_set (after_pure (.refl _)))
    · exact Passes.after (x := do fail (← current).after .noBlock) s

instance inScope_passes (scope : Scope) (x : Parser α) [p : Passes x] : Passes (inScope scope x) where
  after s := by
    unfold inScope
    refine after_bind (after_modify (after_bind fun a s' h => after_bind (after_get ?_)))
    have hsub : (places s'.tokens).Sublist (places s.tokens) := p.after { s with scopes := scope :: s.scopes } a s' h
    split
    · exact after_bind (after_set (after_pure hsub))
    · exact after_pure hsub

instance literal_passes : Passes literal := by
  unfold literal
  refine bind_passes (q := fun t => ?_)
  split <;> infer_instance

/-! ### Expressions -/

/-- The parsers of the parts of a construct **pass** tokens. Members are told of apart. -/
class Subparsers.Pass (sub : Subparsers) : Prop where
  expr : Passes sub.expr
  ternary : Passes sub.ternary
  level : ∀ l, Passes (sub.level l)
  sign : Passes sub.sign
  powerOperand : Passes sub.powerOperand
  await : Passes sub.await
  typeSpec : Passes sub.typeSpec
  pattern : ∀ top, Passes (sub.pattern top)
  stmt : Passes sub.stmt
  smallStmt : Passes sub.smallStmt

attribute [instance] Subparsers.Pass.expr Subparsers.Pass.ternary Subparsers.Pass.level Subparsers.Pass.sign
  Subparsers.Pass.powerOperand Subparsers.Pass.await Subparsers.Pass.typeSpec Subparsers.Pass.pattern
  Subparsers.Pass.stmt Subparsers.Pass.smallStmt

instance typeName_passes : Passes typeName := by unfold typeName; infer_instance

instance dottedNames_passes (name : Parser Ident) [Passes name] (n : Nat) : Passes (dottedNames name n) := by
  induction n with
  | zero => exact fail_passes _ _
  | succ n ih => unfold dottedNames; infer_instance

section Sub

variable (sub : Subparsers) [sub.Pass]

instance typeSpec_passes : Passes (typeSpec sub) := by unfold typeSpec; infer_instance

instance param_passes : Passes (param sub) := by
  unfold param
  dsimp only
  infer_instance

instance params_passes (declared : Bool) (before : List Param) (n : Nat) : Passes (params sub declared before n) := by
  induction n generalizing before with
  | zero => exact fail_passes _ _
  | succ n ih =>
    unfold params
    dsimp only
    refine bind_passes (q := fun _ => ite_passes (q := bind_passes (q := fun p => ?_)))
    split <;> infer_instance

instance lambdaStmts_passes (n : Nat) : Passes (lambdaStmts sub n) := by
  induction n with
  | zero => exact fail_passes _ _
  | succ n ih => unfold lambdaStmts; infer_instance

instance lineStmts_passes (n : Nat) : Passes (lineStmts sub n) := by
  induction n with
  | zero => exact fail_passes _ _
  | succ n ih => unfold lineStmts; infer_instance

instance simpleStmts_passes : Passes (simpleStmts sub) := by unfold simpleStmts; infer_instance

instance suite_passes : Passes (suite sub) := by unfold suite; infer_instance

instance functionRest_passes (pos : Pos) (name : Option Ident) (isStatic : Bool) (role : FuncRole) :
    Passes (functionRest sub pos name isStatic role) := by
  unfold functionRest
  dsimp only
  refine bind_passes (p := inScope_passes _ _ (p := ?_)) (q := fun x => pure_passes _)
  infer_instance

instance arguments_passes : Passes (arguments sub) := by unfold arguments; infer_instance

instance dictEntry_passes (style : DictStyle) : Passes (dictEntry sub style) := by
  unfold dictEntry
  dsimp only
  infer_instance

instance dict_passes : Passes (dict sub) := by
  unfold dict
  dsimp only
  infer_instance

instance primary_passes : Passes (primary sub) := by
  unfold primary
  refine bind_passes (q := fun t => ?_)
  dsimp only
  split <;> infer_instance

instance suffixes_passes (x : Expr) (n : Nat) : Passes (suffixes sub x n) := by
  induction n generalizing x with
  | zero => exact fail_passes _ _
  | succ n ih =>
    unfold suffixes
    refine bind_passes (q := fun k => ?_)
    split <;> infer_instance

instance await_passes : Passes (await sub) := by unfold await; infer_instance

instance typeTests_passes (x : Expr) (n : Nat) : Passes (typeTests sub x n) := by
  induction n generalizing x with
  | zero => exact fail_passes _ _
  | succ n ih => unfold typeTests; infer_instance

instance typeTest_passes : Passes (typeTest sub) := by unfold typeTest; infer_instance

instance powerOperand_passes : Passes (powerOperand sub) := by
  unfold powerOperand
  refine bind_passes (q := fun k => ?_)
  split <;> infer_instance

instance powers_passes (x : Expr) (n : Nat) : Passes (powers sub x n) := by
  induction n generalizing x with
  | zero => exact fail_passes _ _
  | succ n ih => unfold powers; infer_instance

instance sign_passes : Passes (sign sub) := by
  unfold sign
  refine bind_passes (q := fun k => ?_)
  split <;> infer_instance

/-- The joined token is no name, nor has either of the two been one. -/
instance joinNotIn_passes : Passes joinNotIn := by
  unfold joinNotIn
  refine bind_passes (q := fun t => ite_passes (p := bind_passes (q := fun k => ?_)))
  dsimp only
  split
  · exact fail_bind_passes _ _ _
  · refine bind_passes (q := fun _ => ⟨fun s => after_modify ?_⟩)
    split
    · rename_i t rest htokens
      rw [htokens]
      exact places_tail
    · exact .refl _

instance operators_passes (l : Nat) (x : Expr) (n : Nat) : Passes (operators sub l x n) := by
  induction n generalizing x with
  | zero => exact fail_passes _ _
  | succ n ih =>
    unfold operators
    refine bind_passes (q := fun _ => bind_passes (q := fun k => ?_))
    split <;> infer_instance

instance levels_passes (n : Nat) : Passes (levels sub n) := by
  induction n with
  | zero => exact sign_passes sub
  | succ n ih =>
    unfold levels
    refine bind_passes (q := fun k => ?_)
    split <;> infer_instance

instance level_passes (l : Nat) : Passes (level sub l) := levels_passes sub _

instance ternary_passes : Passes (ternary sub) := by unfold ternary; infer_instance

instance casts_passes (x : Expr) (n : Nat) : Passes (casts sub x n) := by
  induction n generalizing x with
  | zero => exact fail_passes _ _
  | succ n ih => unfold casts; infer_instance

instance expr_passes : Passes (expr sub) := by unfold expr; infer_instance


/-! ### Statements -/

instance marker_passes : Passes (marker sub) := by unfold marker; infer_instance

instance warningNames_passes (xs : List Expr) : Passes (warningNames xs) := by
  induction xs with
  | nil => exact pure_passes _
  | cons x xs ih =>
    unfold warningNames
    split
    · exact pure_passes _
    · rename_i heq
      cases heq
      infer_instance
    · exact fail_passes _ _

instance ignoring_passes (m : Markers) (args : List Expr) : Passes (m.ignoring args) := by
  unfold Markers.ignoring
  infer_instance

instance stmtMarkers_passes (m : Markers) (n : Nat) : Passes (stmtMarkers sub m n) := by
  induction n generalizing m with
  | zero => exact fail_passes _ _
  | succ n ih =>
    unfold stmtMarkers
    refine bind_passes (q := fun _ => ite_passes (p := bind_passes (q := fun x => ?_)))
    dsimp only
    infer_instance

instance varHead_passes (isLocal : Bool) (start : Pos) (name : Ident) (spec : Option TypeSpec) :
    Passes (varHead sub isLocal start name spec) := by
  unfold varHead
  dsimp only
  infer_instance

instance localVar_passes : Passes (localVar sub) := by
  unfold localVar
  dsimp only
  infer_instance

instance constDecl_passes (isLocal : Bool) : Passes (constDecl sub isLocal) := by
  unfold constDecl
  dsimp only
  infer_instance

instance atStmtEnd_passes : Passes atStmtEnd := by unfold atStmtEnd; infer_instance

instance exprStmt_passes : Passes (exprStmt sub) := by
  unfold exprStmt
  dsimp only
  infer_instance

instance smallStmt_passes : Passes (smallStmt sub) := by
  unfold smallStmt
  dsimp only
  refine bind_passes (q := fun t => ?_)
  split
  all_goals try infer_instance
  refine bind_passes (q := fun scopes => ?_)
  split <;> infer_instance

instance patternEntries_passes (isOpen : Bool) (n : Nat) : Passes (patternEntries sub isOpen n) := by
  induction n generalizing isOpen with
  | zero => exact fail_passes _ _
  | succ n ih =>
    unfold patternEntries
    dsimp only
    infer_instance

instance pattern_passes (top : Bool) : Passes (pattern sub top) := by
  unfold pattern
  dsimp only
  refine bind_passes (q := fun t => ?_)
  split
  all_goals try infer_instance
  refine bind_passes (q := fun p => bind_passes (q := fun n => bind_passes (q := fun items =>
    bind_passes (q := fun close => ?_))))
  split <;> infer_instance

instance block_passes (isLoop : Bool) : Passes (block sub isLoop) := by
  unfold block
  dsimp only
  infer_instance

instance elseBlock_passes (n : Nat) : Passes (elseBlock sub n) := by
  induction n with
  | zero => exact fail_passes _ _
  | succ n ih => unfold elseBlock; infer_instance

instance patterns_passes (n : Nat) : Passes (patterns sub n) := by
  induction n with
  | zero => exact fail_passes _ _
  | succ n ih => unfold patterns; infer_instance

instance branch_passes : Passes (branch sub) := by
  unfold branch
  dsimp only
  refine bind_passes (q := fun f => bind_passes (p := inScope_passes _ _ (p := ?_)) (q := fun x => ?_))
  · refine bind_passes (q := fun n => bind_passes (q := fun ps => bind_passes (q := fun s => ?_)))
    split <;> infer_instance
  · exact pure_passes _

instance forStmt_passes : Passes (forStmt sub) := by
  unfold forStmt
  dsimp only
  infer_instance

instance bareStmt_passes : Passes (bareStmt sub) := by
  unfold bareStmt
  refine bind_passes (q := fun k => ?_)
  split <;> infer_instance

instance recordIgnore_passes (start finish : Pos) (codes : List Text) : Passes (recordIgnore start finish codes) where
  after s := by
    unfold recordIgnore
    refine after_bind (after_get ?_)
    split
    · exact after_set (.refl _)
    · exact Passes.after (x := do fail (← current).after .noFile) s

instance stmt_passes : Passes (stmt sub) := by
  unfold stmt
  refine bind_passes (q := fun n => bind_passes (q := fun m => bind_passes (q := fun ss => ?_)))
  split <;> infer_instance

/-! ### Properties and other members -/

instance isAccessorStart_passes : Passes isAccessorStart := by unfold isAccessorStart; infer_instance

instance setterParam_passes : Passes (setterParam sub) := by
  unfold setterParam
  dsimp only
  infer_instance

instance accessorBody_passes (property : Text) (word : Ident) (isSet : Bool) :
    Passes (accessorBody sub property word isSet) := by
  unfold accessorBody
  dsimp only
  infer_instance

instance accessor_passes (d : VarDecl) (inBlock : Bool) : Passes (accessor sub d inBlock) := by
  unfold accessor
  dsimp only
  infer_instance

instance blockAccessors_passes (d : VarDecl) (n : Nat) : Passes (blockAccessors sub d n) := by
  induction n generalizing d with
  | zero => exact fail_passes _ _
  | succ n ih => unfold blockAccessors; infer_instance

instance lineAccessors_passes (d : VarDecl) (n : Nat) : Passes (lineAccessors sub d n) := by
  induction n generalizing d with
  | zero => exact fail_passes _ _
  | succ n ih => unfold lineAccessors; infer_instance

instance accessors_passes (d : VarDecl) : Passes (accessors sub d) := by unfold accessors; infer_instance

instance memberVar_passes : Passes (memberVar sub) := by
  unfold memberVar
  dsimp only
  infer_instance

instance extendsClause_passes : Passes extendsClause := by
  unfold extendsClause
  dsimp only
  infer_instance

instance enumElement_passes : Passes (enumElement sub) := by
  unfold enumElement
  dsimp only
  infer_instance

instance enumDecl_passes : Passes (enumDecl sub) := by
  unfold enumDecl
  dsimp only
  infer_instance

instance signalDecl_passes : Passes (signalDecl sub) := by unfold signalDecl; infer_instance

end Sub

instance subparsers_pass (fuel : Nat) : (subparsers fuel).Pass := by
  induction fuel with
  | zero =>
    have hroom : ∀ {γ : Type}, Passes (outOfRoom : Parser γ) := fail_passes _ _
    exact ⟨hroom, hroom, fun _ => hroom, hroom, hroom, hroom, hroom, fun _ => hroom, hroom, hroom⟩
  | succ fuel ih =>
    exact ⟨expr_passes _, ternary_passes _, level_passes _, sign_passes _, powerOperand_passes _, await_passes _,
      typeSpec_passes _, pattern_passes _, stmt_passes _, smallStmt_passes _⟩

/-! ### Files -/

theorem file_path (sub : Subparsers) (path : Text) (s : State) : After (file sub path) s fun f _ => f.path = path := by
  unfold file
  refine after_bind fun _ _ _ => after_bind fun _ _ _ => after_bind fun _ _ _ => after_bind fun _ _ _ => ?_
  exact after_bind fun _ _ _ => after_bind fun _ _ _ => after_pure rfl

end GameScript.Parse

namespace GameScript

open Parse

/-- What is parsed is found by computing it. -/
theorem exists_of_toOption {ε α : Type} {x : Except ε α} {p : α → Bool} (h : x.toOption.any p = true) :
    ∃ a, x = .ok a ∧ p a = true := by
  cases x with
  | error e => cases h
  | ok a => exact ⟨a, rfl, h⟩

/-- A parsed file is what the parser of files gives for the tokens of the text. -/
theorem File.parse_run {path source : Text} {f : File} (h : File.parse path source = .ok f) :
    ∃ s', (file (subparsers ((scan source).tokens.length + 1)) path).run
      { tokens := (scan source).tokens, fault := (scan source).fault, hasFile := true } = .ok (f, s') := by
  unfold File.parse onText at h
  dsimp only at h
  cases hrun : (file (subparsers ((scan source).tokens.length + 1)) path).run
      { tokens := (scan source).tokens, fault := (scan source).fault, hasFile := true } with
  | error e =>
    rw [hrun] at h
    cases h
  | ok r =>
    rw [hrun] at h
    cases h
    exact ⟨r.2, rfl⟩

theorem File.parse_path {path source : Text} {f : File} (h : File.parse path source = .ok f) : f.path = path := by
  obtain ⟨s', hrun⟩ := File.parse_run h
  exact file_path _ path _ f s' hrun

end GameScript
