import GameScript.Proofs.Syntax.Steps

/-!
# Parsers make progress
-/

namespace GameScript

namespace Parse

variable {α β : Type} {b : Bool} {n d fuel k : Nat} {κ : TokenKind}

/-! ### Lists and names -/

theorem moves_commaList {item : Parser α} (close : TokenKind) (hitem : Moves b n 1 item) (hfuel : n ≤ fuel) :
    Moves b n 0 (commaList close item fuel) := by
  induction fuel generalizing n with
  | zero => exact moves_of_no_room (by omega)
  | succ fuel ih =>
    refine moves_isAt.bind fun _ => .ite (fun _ => moves_pure _) fun _ => (hitem.within (by omega)).bind fun x => ?_
    exact .acceptIf rfl ((ih (hitem.within (by omega)) (by omega)).bind fun _ => moves_pure _) (moves_pure _)

theorem moves_ident : Moves b n 1 ident := by
  refine .current fun t => ?_
  dsimp only
  split
  · exact Moves.movesAt (moves_fail_bind rfl)
  · rename_i ht
    have ht : t.kind = .identifier := by simpa using ht
    exact ht ▸ .advance rfl fun _ => moves_pure _

/-- A keyword after a point is no layout. -/
theorem isInner_of_number_le (h : κ.number > TokenKind.notIn.number) : κ.isInner = true := by
  revert h
  cases κ <;> decide

theorem moves_memberName : Moves b n 1 memberName := by
  refine .current fun t => ?_
  dsimp only
  split
  · exact Moves.movesAt (moves_fail_bind rfl)
  · rename_i ht
    refine .advance ?_ fun _ => moves_pure _
    by_cases hname : t.kind = .identifier
    · rw [hname]
      rfl
    · exact isInner_of_number_le (by simpa [hname] using ht)

theorem moves_identRef : Moves b n 1 identRef := by
  refine moves_ident.bind fun id => .get fun s => ?_
  split <;> exact moves_pure _

theorem moves_literal : Moves b n 1 literal := by
  refine .current fun t => ?_
  split
  · rename_i v hv
    refine .advance ?_ fun _ => moves_pure _
    unfold literalValue? at hv
    split at hv
    all_goals simp_all [TokenKind.isInner, TokenKind.isDent]
  · exact Moves.movesAt (moves_fail rfl)

/-- The end of a statement may have been passed before. -/
theorem moves_endLine : Moves b n 0 endLine := by
  refine .get fun s => .ite (fun _ => ?_) fun _ => .current fun t => ?_
  · exact fun s hs => yields_modify (.of_tokens hs.ended rfl rfl rfl rfl)
  split
  · rename_i ht
    exact ht ▸ .advance rfl fun _ => (moves_accept .newline rfl).bind fun _ => moves_pure _
  split
  · rename_i ht
    exact ht ▸ .advance rfl fun _ => moves_pure _
  · refine Moves.movesAt ?_
    split
    · exact moves_fail rfl
    · exact moves_pure _

/-! ### Blocks -/

theorem moves_function : Moves b n 0 function := .get fun _ => moves_pure _

theorem yields_functionScopes {s : State} {E : SyntaxError → Prop} {Q : List Scope → State → Prop}
    (h : ∀ scopes, Q scopes s) : Yields functionScopes s E Q := by
  refine yields_bind (yields_get ?_)
  dsimp only
  split <;> exact yields_pure (h _)

theorem moves_functionScopes : Moves b n 0 functionScopes :=
  fun _ hs => yields_functionScopes fun _ => .refl hs.ended

theorem MovesAt.functionScopes {f : List Scope → Parser β} (h : ∀ scopes, MovesAt κ b n k (f scopes)) :
    MovesAt κ b n k (functionScopes >>= f) :=
  fun s hs hκ => yields_bind (yields_functionScopes fun scopes => h scopes s hs hκ)

theorem moves_forIn {γ : Type} (xs : List γ) {f : γ → β → Parser (ForInStep β)} (h : ∀ x r, Moves b n 0 (f x r))
    (r : β) : Moves b n 0 (forIn xs r f) := by
  induction xs generalizing r with
  | nil => exact moves_pure r
  | cons x xs ih =>
    rw [List.forIn_cons]
    refine (h x r).bind fun step => ?_
    cases step with
    | done r => exact moves_pure r
    | yield r => exact ih r

/-- Names are declared inside of blocks only. -/
theorem moves_declare (id : Ident) (source : NameSource) (start : Pos) : Moves true n 0 (declare id source start) := by
  refine moves_functionScopes.bind fun scopes => ?_
  refine (moves_forIn scopes (fun scope _ => ?_) _).bind fun _ => moves_function.bind fun _ => ?_
  · split
    · exact moves_fail_bind rfl
    · exact moves_pure _
  · intro s hs
    refine yields_bind (yields_get ?_)
    split
    · rename_i scope scopes hscopes
      refine yields_bind (yields_set (yields_pure ?_))
      exact Passed.of_tokens hs.ended rfl rfl (by rw [hscopes]; rfl) rfl
    · exact absurd ‹_› (hs.scopes rfl)

theorem moves_inScope {x : Parser α} (scope : Scope) (hx : Moves true n k x) : Moves b n k (inScope scope x) := by
  intro s hs
  refine yields_bind (yields_modify ?_)
  have hready : Ready true n { s with scopes := scope :: s.scopes } :=
    ⟨⟨hs.ended.tokens, hs.ended.last⟩, hs.room, fun _ => List.cons_ne_nil _ _⟩
  refine Yields.bind (hx _ hready) fun a s' hp => yields_bind (yields_get ?_)
  have hscopes := hp.scopes
  split
  · rename_i top scopes htop
    refine yields_bind (yields_set (yields_pure ?_))
    refine ⟨⟨hp.ended.tokens, hp.ended.last⟩, hp.length, hp.opens, hp.closes, ?_, hp.hasFile, hp.marked⟩
    rw [htop] at hscopes
    exact Nat.succ.inj hscopes
  · rename_i htop
    rw [htop] at hscopes
    cases hscopes

theorem moves_untilOutdent {item : Parser α} (hitem : Moves b n 1 item) (hfuel : n ≤ fuel) :
    Moves b n 0 (untilOutdent item fuel) := by
  induction fuel generalizing n with
  | zero => exact moves_of_no_room (by omega)
  | succ fuel ih =>
    refine moves_kind.bind fun κ => .ite (fun _ => moves_pure _) fun _ => (hitem.within (by omega)).bind fun x => ?_
    exact (ih (hitem.within (by omega)) (by omega)).bind fun _ => moves_pure _

/-- What stands between the beginning and the end of a block. -/
theorem moves_indented {γ : Type} {x : Nat → Parser α} {f : α → Pos → Parser γ}
    (hx : ∀ m, Moves b (min (n - 1) m) 0 (x m)) (hf : ∀ a p, Moves b (n - 2) (k - 2) (f a p)) :
    Moves b n k (consume .indent >>= fun _ => remaining >>= fun m => x m >>= fun a => consume .outdent >>= f a) := by
  intro s hs
  have hne : TokenKind.indent ≠ .endOfFile ∧ TokenKind.outdent ≠ .endOfFile := by decide
  refine Yields.bind (yields_consume hs.ended hne.1) fun _ s₁ h₁ => ?_
  refine yields_bind (yields_remaining ?_)
  have hready : Ready b (min (n - 1) s₁.tokens.length) s₁ :=
    { hs.after h₁ with room := Nat.le_min.2 ⟨(hs.after h₁).room, Nat.le_refl _⟩ }
  refine Yields.bind ((hx _).on hready h₁) fun a s₂ h₂ => ?_
  refine Yields.bind ((yields_consume h₂.ended hne.2).mono (fun _ he => he.before h₂) fun _ _ hp =>
    hp) fun p s₃ h₃ => ?_
  exact (hf a p).after hs (h₂.trans h₃)

/-! ### Types and functions -/

/-- The parsers of the parts of a construct **make progress** if at most `d` tokens remain, or somewhat fewer. -/
structure Subparsers.Progress (d : Nat) (sub : Subparsers) : Prop where
  expr : ∀ b, Moves b d 1 sub.expr
  ternary : ∀ b, Moves b d 1 sub.ternary
  level : ∀ b l, Moves b d 1 (sub.level l)
  sign : ∀ b, Moves b d 1 sub.sign
  powerOperand : ∀ b, Moves b d 1 sub.powerOperand
  await : ∀ b, Moves b d 1 sub.await
  typeSpec : ∀ b, Moves b d 1 sub.typeSpec
  pattern : ∀ top, Moves true (d - 1) 1 (sub.pattern top)
  stmt : Moves true (d - 2) 1 sub.stmt
  smallStmt : Moves true (d - 1) 1 sub.smallStmt
  member : ∀ b top c, Moves b d 0 (sub.member top c)
  memberAt : ∀ b top c κ, κ ≠ .endOfFile → κ ≠ .outdent → MovesAt κ b d 1 (sub.member top c)

theorem moves_typeName : Moves b n 1 typeName := by
  refine .current fun t => Moves.movesAt ?_
  dsimp only
  split
  · exact moves_fail_bind rfl
  · exact moves_ident

/-- What only some tokens stand for, none of which belongs to the layout. -/
theorem isInner_of_some {γ : Type} {f : TokenKind → Option γ} {a : γ} (h : f κ = some a)
    (hf : f .indent = none ∧ f .outdent = none ∧ f .endOfFile = none) :
    κ.isInner = true := by
  obtain ⟨hi, ho, he⟩ := hf
  cases κ <;> first | rfl | simp_all

/-- A token whose kind has been changed, where the one before it is gone. -/
theorem passed_join {s : State} {t u : Token} {ts : List Token} (h : s.Ended) (htokens : s.tokens = t :: u :: ts)
    (ht : s.kind = .notKw) (hu : u.kind = .inKw) :
    Passed 0 0 s { s with tokens := { u with kind := .notIn } :: ts } where
  ended := ⟨List.cons_ne_nil _ _, fun hfault => by
    obtain ⟨v, hv, hkind⟩ := h.last hfault
    rw [htokens] at hv
    cases ts with
    | nil =>
      cases hv
      exact absurd (hu.symm.trans hkind) nofun
    | cons w ws => exact ⟨v, by simpa using hv, hkind⟩⟩
  length := by simp [htokens]
  opens := by
    rw [kind_of_tokens htokens] at ht
    simp [opens, htokens, count_cons, ht, hu]
  closes := fun m hm vs hvs => by
    rw [State.Closes, htokens] at hm
    rcases List.suffix_cons_iff.1 hvs with rfl | hvs
    · have hopens := hm _ (List.suffix_cons t (u :: ts))
      simpa [opens, count_cons, hu] using hopens
    · exact hm vs (hvs.trans ((List.suffix_cons _ _).trans (List.suffix_cons _ _)))
  scopes := rfl
  hasFile := rfl
  marked := fun ⟨v, hv, hkind, hm⟩ => by
    rcases List.mem_cons.1 hv with rfl | hv
    · cases hkind
    · exact ⟨v, by simp [htokens, hv], hkind, hm⟩

/-- Two tokens become one that is no layout either. -/
theorem moves_joinNotIn : Moves b n 0 joinNotIn := by
  intro s hs
  refine yields_bind (yields_current ?_)
  split
  · rename_i hnot
    have hkind : s.kind = .notKw := hnot
    refine yields_bind (yields_peek hs.ended (fun t u ts htokens => ?_) (by rw [hkind]; exact nofun))
    by_cases hu : u.kind = .inKw
    · rw [if_neg (not_not_intro hu)]
      exact yields_bind (yields_advance_cons htokens (yields_modify (passed_join hs.ended htokens hkind hu)))
    · rw [if_pos hu]
      exact yields_bind (yields_fail (.inl rfl))
  · exact yields_pure (.refl hs.ended)

theorem moves_dottedNames {name : Parser Ident} (hname : Moves b n 1 name) (hfuel : n ≤ fuel) :
    Moves b n 0 (dottedNames name fuel) := by
  induction fuel generalizing n with
  | zero => exact moves_of_no_room (by omega)
  | succ fuel ih =>
    refine .acceptIf rfl ((hname.within (by omega)).bind fun x => ?_) (moves_pure _)
    exact (ih (hname.within (by omega)) (by omega)).bind fun _ => moves_pure _

section Sub

variable {sub : Subparsers} (hsub : sub.Progress d)

include hsub

theorem moves_typeSpec : Moves b (d + 1) 1 (typeSpec sub) := by
  refine moves_typeName.bind fun first => .remaining fun m => ?_
  refine (moves_dottedNames moves_typeName (Nat.min_le_right ..)).bind fun names => ?_
  refine .acceptIf rfl (((hsub.typeSpec b).within (by omega)).bind fun t => ?_) (moves_pure _)
  exact (moves_consume .closeBracket rfl).bind fun _ => moves_pure _

theorem moves_param : Moves b (d + 1) 1 (param sub) := by
  refine moves_ident.bind fun name => .kind fun κ => ?_
  dsimp only
  split
  · rename_i hκ
    exact hκ ▸ .advance rfl fun _ => ((hsub.expr b).within (by omega)).bind fun _ => moves_pure _
  · refine Moves.movesAt ?_
    refine .optional rfl ((hsub.typeSpec b).map.of_le (by omega) (by omega)) fun spec => ?_
    exact .optional rfl ((hsub.expr b).map.of_le (by omega) (by omega)) fun _ => moves_pure _

/-- The parameters of functions are declared, those of signals are not. -/
theorem moves_params (declared : Bool) (before : List Param) (hb : declared = true → b = true) (hn : n ≤ d + 1)
    (hfuel : n ≤ fuel) : Moves b n 0 (params sub declared before fuel) := by
  induction fuel generalizing n before with
  | zero => exact moves_of_no_room (by omega)
  | succ fuel ih =>
    refine moves_isAt.bind fun _ => .ite (fun _ => moves_pure _) fun _ => ?_
    refine ((moves_param hsub).within (by omega)).bind fun p => ?_
    extract_lets named plain start
    have hstart : Moves b (n - 0 - 1) (0 - 0 - 1) (start ()) := by
      have hnext : ∀ ps, Moves b (n - 1) 0 (do if ← accept .comma then params sub declared ps fuel else return ps) :=
        fun ps => .acceptIf rfl (ih ps (by omega) (by omega)) (moves_pure _)
      dsimp only [start, plain, named]
      split
      · obtain rfl := hb ‹_›
        exact (moves_declare _ _ _).bind fun name => hnext _
      · split
        · exact moves_fail_bind rfl
        · exact (moves_pure _).bind fun name => hnext _
    split <;> split <;> first | exact hstart | exact moves_fail_bind rfl

theorem moves_lambdaStmts (hn : n ≤ d - 1) (hfuel : n ≤ fuel) : Moves true n 1 (lambdaStmts sub fuel) := by
  induction fuel generalizing n with
  | zero => exact moves_of_no_room (by omega)
  | succ fuel ih =>
    refine (hsub.smallStmt.within (by omega)).bind fun s => ?_
    refine .get fun st => .isAt ?_ ?_
    · split
      · exact .advance rfl fun _ => (ih (by omega) (by omega)).bind fun _ => moves_pure _
      · exact (moves_pure _).movesAt
    · simpa using moves_pure (b := true) _

theorem moves_lineStmts (hn : n ≤ d - 1) (hfuel : n ≤ fuel) : Moves true n 1 (lineStmts sub fuel) := by
  induction fuel generalizing n with
  | zero => exact moves_of_no_room (by omega)
  | succ fuel ih =>
    refine (hsub.smallStmt.within (by omega)).bind fun s => .get fun st => .isAt ?_ ?_
    · split
      · refine .advance rfl fun _ => moves_kind.bind fun κ => .ite (fun _ => moves_pure _) fun _ => ?_
        exact (ih (by omega) (by omega)).bind fun _ => moves_pure _
      · exact (moves_pure _).movesAt
    · simpa using moves_pure (b := true) _

theorem moves_simpleStmts : Moves true (d - 1) 1 (simpleStmts sub) := by
  refine .remaining fun m => (moves_lineStmts hsub (Nat.min_le_left ..) (Nat.min_le_right ..)).bind fun ss => ?_
  exact moves_endLine.bind fun _ => moves_pure _

theorem moves_suite : Moves true (d - 1) 1 (suite sub) := by
  refine .isAtIf (.advance rfl fun _ => moves_indented (fun m => ?_) fun ss _ => moves_pure _) (moves_simpleStmts hsub)
  exact moves_untilOutdent (hsub.stmt.within (by omega)) (Nat.min_le_right ..)

theorem moves_functionRest (pos : Pos) (name : Option Ident) (isStatic : Bool) (role : FuncRole) :
    Moves b (d + 1) 1 (functionRest sub pos name isStatic role) := by
  unfold functionRest
  dsimp only
  refine (moves_inScope (k := 1) _ ?_).bind fun r => moves_pure _
  refine (moves_consume .openParen rfl).bind fun _ => .remaining fun m => ?_
  refine (moves_params hsub true [] (fun _ => rfl) (by omega) (Nat.min_le_right ..)).bind fun ps => ?_
  refine (moves_consume .closeParen rfl).bind fun _ => .optional rfl
    ((hsub.typeSpec true).map.of_le (by omega) (by omega)) fun returns => ?_
  refine (moves_consume .colon rfl).bind fun _ => moves_pos.bind fun start => .ite (fun _ => ?_) fun _ => ?_
  · refine moves_isAt.bind fun _ => .ite (fun _ => ?_) fun _ => .remaining fun m => ?_
    · refine ((moves_suite hsub).within (by omega)).bind fun ss => Moves.bind (j := 0) ?_ fun _ => moves_pure _
      exact fun s hs => yields_modify (.of_tokens hs.ended rfl rfl rfl rfl)
    · exact (moves_lambdaStmts hsub (by omega) (Nat.min_le_right ..)).bind fun _ => moves_pure _
  · exact ((moves_suite hsub).within (by omega)).bind fun ss => moves_pure _

/-! ### Expressions -/

theorem moves_arguments : Moves b (d + 1) 1 (arguments sub) := by
  refine (moves_consume .openParen rfl).bind fun _ => .remaining fun m => ?_
  refine (moves_commaList _ ((hsub.expr b).within (by omega)) (Nat.min_le_right ..)).bind fun args => ?_
  exact (moves_consume .closeParen rfl).bind fun _ => moves_pure _

theorem moves_dictEntry (style : DictStyle) : Moves b d 1 (dictEntry sub style) := by
  have hvalue : ∀ κ key, κ.isInner = true → MovesAt κ b (d - 1) 0 (do
      let _ ← advance
      return (⟨key, ← sub.expr⟩ : DictEntry)) :=
    fun κ key h => .advance h fun _ => ((hsub.expr b).within (by omega)).bind fun _ => moves_pure _
  unfold dictEntry
  simp only [pure_bind]
  refine .ite (fun _ => ?_) fun _ => ?_
  · exact .require rfl (moves_ident.bind fun id => .require rfl (hvalue _ _ rfl)).movesAt
  · exact ((hsub.expr b).within (by omega)).bind fun key => .require rfl (hvalue _ _ rfl)

theorem movesAt_dict : MovesAt .openBrace b (d + 1) 1 (dict sub) := by
  refine .advance rfl fun start => ?_
  have hrest : ∀ style, Moves b d 0 (do
      let entries ← commaList .closeBrace (dictEntry sub style) (← remaining)
      let close ← consume .closeBrace
      return Expr.dict start entries style close {}) := fun style =>
    .remaining fun m =>
      (moves_commaList _ ((moves_dictEntry hsub style).within (by omega)) (Nat.min_le_right ..)).bind fun _ =>
      (moves_consume .closeBrace rfl).bind fun _ => moves_pure _
  refine .isAtIf (.peek fun _ => Moves.movesAt ?_) ((moves_pure _).bind fun _ => hrest _)
  split <;> exact (moves_pure _).bind fun _ => hrest _

theorem moves_primary : Moves b (d + 1) 1 (primary sub) := by
  unfold primary
  refine .current fun t => ?_
  split
  · exact (moves_identRef.bind fun _ => moves_pure _).movesAt
  all_goals try exact (moves_literal.bind fun _ => moves_pure _).movesAt
  all_goals rename_i ht
  · exact ht ▸ .advance rfl fun _ => moves_pure _
  · rw [ht]
    refine .advance rfl fun start => ?_
    have hargs : Moves b d 0 (arguments sub) := (moves_arguments hsub).of_le (by omega) (by omega)
    refine .acceptIf rfl (moves_memberName.map.bind fun _ => (hargs.within (by omega)).bind fun _ => moves_pure _) ?_
    exact .require rfl ((moves_pure _).bind fun _ => hargs.bind fun _ => moves_pure _).movesAt
  · rw [ht]
    refine .advance rfl fun _ => ((hsub.expr b).within (by omega)).bind fun x => ?_
    exact (moves_consume .closeParen rfl).bind fun _ => moves_pure _
  · rw [ht]
    refine .advance rfl fun start => .remaining fun m => ?_
    refine (moves_commaList _ ((hsub.expr b).within (by omega)) (Nat.min_le_right ..)).bind fun items => ?_
    exact (moves_consume .closeBracket rfl).bind fun _ => moves_pure _
  · exact ht ▸ movesAt_dict hsub
  · rw [ht]
    have hrest : ∀ start name, Moves b d 0 (do
        return Expr.lambda (← functionRest sub start name false .lambda) [] false {}) := fun start name =>
      ((moves_functionRest hsub start name false .lambda).within (by omega)).bind fun _ => moves_pure _
    refine .advance rfl fun start => moves_isAt.bind fun _ => .ite (fun _ => ?_) fun _ => ?_
    · exact moves_ident.map.bind fun name => (hrest start _).of_le (by omega) (by omega)
    · exact (moves_pure _).bind fun name => hrest start _
  · rw [ht]
    refine .advance rfl fun start => (moves_consume .openParen rfl).bind fun _ => .require rfl (Moves.movesAt ?_)
    exact moves_literal.bind fun path => (moves_consume .closeParen rfl).bind fun _ => moves_pure _
  · exact Moves.movesAt (moves_fail rfl)

theorem moves_suffixes (x : Expr) (hn : n ≤ d + 1) (hfuel : n ≤ fuel) : Moves b n 0 (suffixes sub x fuel) := by
  induction fuel generalizing n x with
  | zero => exact moves_of_no_room (by omega)
  | succ fuel ih =>
    refine .kind fun κ => ?_
    split
    · exact .advance rfl fun _ => moves_memberName.bind fun _ => ih _ (by omega) (by omega)
    · refine .advance rfl fun _ => ((hsub.expr b).within (by omega)).bind fun y => ?_
      exact (moves_consume .closeBracket rfl).bind fun _ => ih _ (by omega) (by omega)
    · exact (((moves_arguments hsub).within (by omega)).bind fun _ => ih _ (by omega) (by omega)).movesAt
    · exact (moves_pure _).movesAt

theorem moves_await : Moves b (d + 1) 1 (await sub) := by
  refine .isAtIf (.advance rfl fun _ => ((hsub.await b).within (by omega)).bind fun _ => moves_pure _) ?_
  refine (moves_primary hsub).bind fun x => .remaining fun m => ?_
  exact moves_suffixes hsub x (by omega) (Nat.min_le_right ..)

theorem moves_typeTests (x : Expr) (hn : n ≤ d + 1) (hfuel : n ≤ fuel) : Moves b n 0 (typeTests sub x fuel) := by
  induction fuel generalizing n x with
  | zero => exact moves_of_no_room (by omega)
  | succ fuel ih =>
    refine .acceptIf rfl ((moves_accept .notKw rfl).bind fun negated => ?_) (moves_pure _)
    exact ((hsub.typeSpec b).within (by omega)).bind fun _ => ih _ (by omega) (by omega)

theorem moves_typeTest : Moves b (d + 1) 1 (typeTest sub) :=
  (moves_await hsub).bind fun x => .remaining fun _ => moves_typeTests hsub x (by omega) (Nat.min_le_right ..)

/-! ### Operators -/

theorem moves_powerOperand : Moves b (d + 1) 1 (powerOperand sub) := by
  refine .kind fun κ => ?_
  split
  · rename_i op hop
    exact .advance (isInner_of_some hop ⟨rfl, rfl, rfl⟩) fun _ =>
      ((hsub.powerOperand b).within (by omega)).bind fun _ => moves_pure _
  · exact (moves_typeTest hsub).movesAt

theorem moves_powers (x : Expr) (hn : n ≤ d + 1) (hfuel : n ≤ fuel) : Moves b n 0 (powers sub x fuel) := by
  induction fuel generalizing n x with
  | zero => exact moves_of_no_room (by omega)
  | succ fuel ih =>
    refine .acceptIf rfl (((moves_powerOperand hsub).within (by omega)).bind fun _ => ?_) (moves_pure _)
    exact ih _ (by omega) (by omega)

theorem moves_sign : Moves b (d + 1) 1 (sign sub) := by
  refine .kind fun κ => ?_
  split
  · rename_i op hop
    exact .advance (isInner_of_some ‹_› ⟨rfl, rfl, rfl⟩) fun _ => ((hsub.sign b).within (by omega)).bind fun _ =>
      moves_pure _
  · rename_i op hop
    exact .advance (isInner_of_some ‹_› ⟨rfl, rfl, rfl⟩) fun _ => ((hsub.level b _).within (by omega)).bind fun _ =>
      moves_pure _
  · refine Moves.movesAt ((moves_typeTest hsub).bind fun x => .remaining fun _ => ?_)
    exact moves_powers hsub x (by omega) (Nat.min_le_right ..)

theorem moves_operators (l : Nat) (x : Expr) (hn : n ≤ d + 1) (hfuel : n ≤ fuel) :
    Moves b n 0 (operators sub l x fuel) := by
  induction fuel generalizing n x with
  | zero => exact moves_of_no_room (by omega)
  | succ fuel ih =>
    refine moves_joinNotIn.bind fun _ => .kind fun κ => ?_
    split
    · rename_i op hop
      split
      · exact (moves_pure _).movesAt
      · refine .advance (isInner_of_some hop ⟨rfl, rfl, rfl⟩) fun _ =>
          ((hsub.level b _).within (by omega)).bind fun y => ?_
        exact ih _ (by omega) (by omega)
    · exact (moves_pure _).movesAt

theorem moves_levels (l : Nat) : Moves b (d + 1) 1 (levels sub l) := by
  induction l with
  | zero => exact moves_sign hsub
  | succ l ih =>
    have hlevels : Moves b (d + 1) 1 (do operators sub (BinaryOp.signLevel - (l + 1)) (← levels sub l) (← remaining)) :=
      ih.bind fun x => .remaining fun _ => moves_operators hsub _ x (by omega) (Nat.min_le_right ..)
    refine .kind fun κ => ?_
    split
    · rename_i op hop
      split
      · exact .advance (isInner_of_some hop ⟨rfl, rfl, rfl⟩) fun _ =>
          ((hsub.level b _).within (by omega)).bind fun _ => moves_pure _
      · exact hlevels.movesAt
    · exact hlevels.movesAt

theorem moves_level (l : Nat) : Moves b (d + 1) 1 (level sub l) := moves_levels hsub _

theorem moves_ternary : Moves b (d + 1) 1 (ternary sub) := by
  refine (moves_level hsub 0).bind fun x => .acceptIf rfl ?_ (moves_pure _)
  refine ((moves_level hsub 0).within (by omega)).bind fun cond => .require rfl (.advance rfl fun _ => ?_)
  exact ((hsub.ternary b).within (by omega)).bind fun _ => moves_pure _

theorem moves_casts (x : Expr) (hn : n ≤ d + 1) (hfuel : n ≤ fuel) : Moves b n 0 (casts sub x fuel) := by
  induction fuel generalizing n x with
  | zero => exact moves_of_no_room (by omega)
  | succ fuel ih =>
    refine .acceptIf rfl (((hsub.typeSpec b).within (by omega)).bind fun _ => ?_) (moves_pure _)
    exact ih _ (by omega) (by omega)

theorem moves_expr : Moves b (d + 1) 1 (expr sub) :=
  (moves_ternary hsub).bind fun x => .remaining fun _ => moves_casts hsub x (by omega) (Nat.min_le_right ..)

end Sub

end Parse

end GameScript
