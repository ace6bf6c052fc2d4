import GameScript.Proofs.Syntax.Progress

/-!
# Statements and members make progress

A parser of a statement or a member passes the token that it begins with, and fails only for a reason that is in the
text.
-/

namespace GameScript

namespace Parse

variable {α β : Type} {b : Bool} {n d fuel k : Nat} {κ : TokenKind}

/-! ### Regions without warnings -/

theorem moves_warningNames (args : List Expr) : Moves b n 0 (warningNames args) := by
  fun_induction warningNames args with
  | case1 => exact moves_pure _
  | case2 _ _ _ _ _ ih => exact ih.bind fun _ => moves_pure _
  | case3 => exact moves_fail rfl

theorem moves_ignoring (m : Markers) (args : List Expr) : Moves b n 0 (m.ignoring args) :=
  (moves_warningNames args).bind fun _ => moves_pure _

/-- A region is recorded in a file only; if there is none, a marker must have asked for it. -/
theorem yields_recordIgnore {s s' : State} {δ : Int} (hp : Passed k δ s s') (hm : s.Marked) (start finish : Pos)
    (codes : List Text) : Yields (recordIgnore start finish codes) s' (Genuine s) fun _ s'' => Passed k δ s s'' := by
  refine yields_bind (yields_get ?_)
  split
  · refine yields_set ?_
    exact hp.andThen (.of_tokens hp.ended rfl rfl rfl rfl)
  · rename_i hfile
    refine yields_bind (yields_current (yields_fail (.inr ⟨rfl, ?_, hm⟩)))
    rw [← hp.hasFile]
    exact eq_false_of_ne_true hfile

theorem moves_atStmtEnd : Moves b n 0 atStmtEnd := moves_kind.bind fun _ => .get fun _ => moves_pure _

theorem isInner_of_ofAssignment (h : κ = .assign ∨ (BinaryOp.ofAssignment? κ).isSome) : κ.isInner = true := by
  rcases h with rfl | h
  · rfl
  · obtain ⟨op, hop⟩ := Option.isSome_iff_exists.1 h
    exact isInner_of_some hop ⟨rfl, rfl, rfl⟩

section Sub

variable {sub : Subparsers} (hsub : sub.Progress d)

include hsub

theorem movesAt_marker (hn : n ≤ d + 1) : MovesAt .marker b n 1 (marker sub) := by
  refine .current fun t => .advance rfl fun _ => .acceptIf rfl (.remaining fun m => ?_) (moves_pure _)
  refine (moves_commaList _ ((hsub.expr b).within (by omega)) (Nat.min_le_right ..)).bind fun args => ?_
  exact (moves_consume .closeParen rfl).bind fun _ => moves_pure _

omit hsub in
theorem marker_text (s : State) :
    Yields (marker sub) s (fun _ => True) fun r _ => r.1 = (s.tokens.headD default).text := by
  refine yields_bind (yields_current ?_)
  refine yields_any.bind fun _ _ _ => yields_any.bind fun _ _ _ => ?_
  split
  · exact yields_any.bind fun _ _ _ => yields_any.bind fun _ _ _ => yields_any.bind fun _ _ _ => yields_pure rfl
  · exact yields_pure rfl

theorem yields_marker {s : State} (hs : Ready b n s) (hn : n ≤ d + 1) (hκ : s.kind = .marker) :
    Yields (marker sub) s (Genuine s) fun r s' => Passed 1 0 s s' ∧ (r.1 = "warning_ignore" → s.Marked) := by
  refine ((movesAt_marker hsub hn s hs hκ).and (marker_text s)).mono (fun _ he => he) fun r s' ⟨hp, hr⟩ => ⟨hp, ?_⟩
  cases htokens : s.tokens with
  | nil => exact absurd htokens hs.ended.tokens
  | cons t ts =>
    rw [htokens] at hr
    exact fun hname => ⟨t, htokens ▸ List.mem_cons_self, (kind_of_tokens htokens).symm.trans hκ, hr.symm.trans hname⟩

/-- The markers in front of a statement. -/
theorem yields_stmtMarkers {s : State} (m : Markers) (hs : Ready b n s) (hn : n ≤ d + 1) (hfuel : n ≤ fuel) :
    Yields (stmtMarkers sub m fuel) s (Genuine s) fun m' s' =>
      Passed 0 0 s s' ∧ (m'.ignore.isSome → m.ignore.isSome ∨ s.Marked) := by
  induction fuel generalizing n m s with
  | zero => exact absurd hs.ended.tokens (by simpa using Nat.le_trans hs.room hfuel)
  | succ fuel ih =>
    refine yields_bind (yields_isAt ?_)
    split
    · rename_i hκ
      refine (yields_marker hsub hs hn (of_decide_eq_true hκ)).bind fun ⟨name, args, p⟩ s₁ ⟨h₁, hname⟩ => ?_
      dsimp only at hname ⊢
      split
      · exact yields_bind (yields_fail (.inl rfl))
      have hmarked := hname (Classical.not_not.1 ‹_›)
      refine Yields.bind ((moves_ignoring _ args).on (hs.after h₁) h₁) fun m₁ s₂ h₂ => ?_
      refine yields_bind (yields_remaining ?_)
      refine Yields.bind ((moves_skipAll _ _ (Nat.le_refl _) rfl).on (hs.after h₂).self h₂) fun _ s₃ h₃ => ?_
      refine (ih m₁ (hs.after h₃) (by omega) (by omega)).mono (fun _ he => he.before h₃) fun m₂ s₄ ⟨h₄, _⟩ => ?_
      exact ⟨(h₃.andThen h₄).of_le (Nat.zero_le _), fun _ => .inr hmarked⟩
    · exact yields_pure ⟨.refl hs.ended, .inl⟩

/-! ### Simple statements -/

theorem moves_varHead (isLocal : Bool) (start : Pos) (name : Ident) (spec : Option TypeSpec) :
    Moves b (d + 1) 0 (varHead sub isLocal start name spec) := by
  refine .kind fun κ => ?_
  split
  · rename_i hκ
    have hinner : κ.isInner = true := by
      simp only [Bool.or_eq_true, Bool.and_eq_true, decide_eq_true_eq] at hκ
      rcases hκ with rfl | ⟨rfl, -⟩ <;> rfl
    exact .advance hinner fun _ => ((hsub.expr b).within (by omega)).bind fun _ => moves_pure _
  · exact (moves_pure _).movesAt

theorem movesAt_localVar : MovesAt .varKw true (d + 1) 1 (localVar sub) := by
  refine .advance rfl fun start => moves_ident.bind fun name => .optional rfl
    ((hsub.typeSpec true).map.of_le (by omega) (by omega)) fun spec => ?_
  refine ((moves_varHead hsub true start name spec).within (by omega)).bind fun v => ?_
  exact (moves_declare _ _ _).bind fun _ => moves_pure _

theorem movesAt_constDecl (isLocal : Bool) (hb : isLocal = true → b = true) :
    MovesAt .constKw b (d + 1) 1 (constDecl sub isLocal) := by
  refine .advance rfl fun start => moves_ident.bind fun name => ?_
  have hrest : ∀ n ≤ d, ∀ spec infer, Moves b n 0 (do
      let init ← sub.expr
      let name ← if isLocal then declare name .localConstant start else pure name
      return (⟨start, name, spec, infer, init, isLocal⟩ : ConstDecl)) := by
    intro n hn spec infer
    refine ((hsub.expr b).within (by omega)).bind fun init => ?_
    split
    · obtain rfl := hb ‹_›
      exact (moves_declare _ _ _).bind fun _ => moves_pure _
    · exact moves_pure _
  refine .kind fun κ => ?_
  extract_lets rest
  split
  · rename_i hκ
    refine hκ ▸ .advance rfl fun _ => ((hsub.typeSpec b).within (by omega)).bind fun t =>
      (moves_consume .assign rfl).bind fun _ => ?_
    exact (moves_pure _).bind fun _ => hrest _ (by omega) _ _
  split
  · rename_i hκ
    exact hκ ▸ .advance rfl fun _ => (moves_pure _).bind fun _ => hrest _ (by omega) _ _
  · refine Moves.movesAt ((moves_consume .assign rfl).bind fun _ => ?_)
    exact (moves_pure _).bind fun _ => hrest _ (by omega) _ _

theorem moves_exprStmt : Moves b d 1 (exprStmt sub) := by
  refine (hsub.expr b).bind fun x => .kind fun κ => ?_
  dsimp only
  have hassign : ∀ y op, κ.isInner = true → MovesAt κ b (d - 1) 0 (do
      let _ ← advance
      return Stmt.assign op y (← sub.expr) none false) :=
    fun y op h => .advance h fun _ => ((hsub.expr b).within (by omega)).bind fun _ => moves_pure _
  split
  · rename_i hκ
    have hinner : κ.isInner = true := isInner_of_ofAssignment (by simpa using hκ)
    split
    · exact Moves.movesAt (moves_fail_bind rfl)
    · exact hassign x _ hinner
  · exact (moves_pure _).movesAt

theorem moves_smallStmt : Moves true d 1 (smallStmt sub) := by
  refine .current fun t => ?_
  split
  all_goals rename_i ht
  · rw [ht]
    exact ((movesAt_localVar hsub).within (by omega)).bind fun _ => moves_pure _
  · rw [ht]
    exact ((movesAt_constDecl hsub true fun _ => rfl).within (by omega)).bind fun _ => moves_pure _
  · rw [ht]
    refine .advance rfl fun p => moves_atStmtEnd.bind fun done => .ite (fun _ => moves_pure _) fun _ => ?_
    exact ((hsub.expr true).within (by omega)).bind fun _ => moves_pure _
  · rw [ht]
    refine .functionScopes fun scopes => ?_
    dsimp only
    split
    · exact Moves.movesAt (moves_fail_bind rfl)
    · exact .advance rfl fun p => moves_pure _
  · rw [ht]
    refine .functionScopes fun scopes => ?_
    split
    · exact Moves.movesAt (moves_fail rfl)
    · exact .advance rfl fun p => moves_pure _
  · exact ht ▸ .advance rfl fun p => moves_pure _
  · exact ht ▸ .advance rfl fun p => moves_pure _
  · rw [ht]
    refine .advance rfl fun p => (moves_consume .openParen rfl).bind fun _ =>
      ((hsub.expr true).within (by omega)).bind fun cond => ?_
    have hclose : ∀ message, Moves true (d - 1 - 1) 0 (do return Stmt.assert p cond message (← consume .closeParen)) :=
      fun message => (moves_consume .closeParen rfl).bind fun _ => moves_pure _
    refine .acceptIf rfl (moves_isAt.bind fun _ => .ite (fun _ => ?_) fun _ => ?_) ((hclose none).within (by omega))
    · exact (hclose none).within (by omega)
    · refine ((hsub.expr true).within (by omega)).bind fun m => (moves_accept .comma rfl).bind fun _ => ?_
      exact (hclose (some m)).within (by omega)
  · exact (moves_exprStmt hsub).movesAt

/-! ### Patterns -/

theorem moves_patternEntries (isOpen : Bool) (hn : n ≤ d - 1) (hfuel : n ≤ fuel) :
    Moves true n 0 (patternEntries sub isOpen fuel) := by
  induction fuel generalizing n isOpen with
  | zero => exact moves_of_no_room (by omega)
  | succ fuel ih =>
    refine moves_isAt.bind fun _ => .ite (fun _ => moves_pure _) fun _ => ?_
    dsimp only
    split
    · exact moves_pos.bind fun _ => (moves_fail_bind rfl)
    have hnext : ∀ r : List PatternEntry × Bool, Moves true (n - 1) 0 (accept .comma >>= fun more =>
        if more = true then patternEntries sub r.2 fuel >>= fun p => pure (r.1 ++ p.1, p.2) else pure r) := fun r =>
      .acceptIf rfl ((ih _ (by omega) (by omega)).bind fun _ => moves_pure _) (moves_pure _)
    refine .acceptIf rfl (hnext ([], true)) ?_
    refine ((hsub.expr true).within (by omega)).bind fun key => ?_
    refine .optional rfl ((hsub.pattern false).map.of_le (by omega) (by omega)) fun value => ?_
    exact (moves_pure _).bind fun r => ((hnext r).within (by omega))

theorem moves_pattern (top : Bool) : Moves true d 1 (pattern sub top) := by
  refine .current fun t => ?_
  split
  all_goals rename_i ht
  · rw [ht]
    exact .advance rfl fun p => moves_ident.bind fun name => (moves_declare _ _ _).bind fun _ => moves_pure _
  · rw [ht]
    dsimp only
    split
    · exact Moves.movesAt (moves_fail_bind rfl)
    · exact .advance rfl fun p => moves_pure _
  · rw [ht]
    refine .advance rfl fun p => .remaining fun m => ?_
    refine (moves_commaList _ ((hsub.pattern false).within (by omega)) (Nat.min_le_right ..)).bind fun items => ?_
    refine (moves_consume .closeBracket rfl).bind fun _ => ?_
    split
    · exact moves_fail rfl
    · exact moves_pure _
  · rw [ht]
    refine .advance rfl fun p => .remaining fun m => ?_
    refine (moves_patternEntries hsub false (by omega) (Nat.min_le_right ..)).bind fun r => ?_
    exact (moves_consume .closeBrace rfl).bind fun _ => moves_pure _
  · exact ((hsub.expr true).bind fun _ => moves_pure _).movesAt

/-! ### Compound statements -/

theorem moves_block (isLoop : Bool) : Moves b (d - 1) 1 (block sub isLoop) := by
  refine moves_pos.bind fun start => moves_function.bind fun f => ?_
  exact (moves_inScope _ (moves_suite hsub)).bind fun _ => moves_pure _

theorem moves_elseBlock (hn : n ≤ d - 1) (hfuel : n ≤ fuel) : Moves b n 0 (elseBlock sub fuel) := by
  induction fuel generalizing n with
  | zero => exact moves_of_no_room (by omega)
  | succ fuel ih =>
    refine .isAtIf (.advance rfl fun p => ((hsub.expr b).within (by omega)).bind fun cond => ?_) ?_
    · refine (moves_consume .colon rfl).bind fun _ => ((moves_block hsub false).within (by omega)).bind fun yes => ?_
      exact (ih (by omega) (by omega)).bind fun no => moves_pure _
    · refine .acceptIf rfl ((moves_consume .colon rfl).bind fun _ => ?_) (moves_pure _)
      exact ((moves_block hsub false).within (by omega)).bind fun _ => moves_pure _

theorem moves_patterns (hn : n ≤ d - 1) (hfuel : n ≤ fuel) : Moves true n 1 (patterns sub fuel) := by
  induction fuel generalizing n with
  | zero => exact moves_of_no_room (by omega)
  | succ fuel ih =>
    refine ((hsub.pattern true).within (by omega)).bind fun p => .acceptIf rfl ?_ (moves_pure _)
    exact (ih (by omega) (by omega)).bind fun _ => moves_pure _

theorem moves_branch : Moves b (d - 1) 1 (branch sub) := by
  refine moves_function.bind fun f => (moves_inScope (k := 1) _ ?_).bind fun r => moves_pure _
  refine .remaining fun m => ?_
  refine (moves_patterns hsub (by omega) (Nat.min_le_right ..)).bind fun ps => .get fun s => ?_
  extract_lets bound rest
  have hrest : Moves true (d - 1 - 1) 0 (rest ()) :=
    (moves_consume .colon rfl).bind fun _ => moves_pos.bind fun start =>
      ((moves_suite hsub).within (by omega)).bind fun _ => moves_pure _
  clear_value bound rest
  split
  · exact moves_fail_bind rfl
  · exact hrest.within (by omega)

theorem movesAt_forStmt : MovesAt .forKw b (d + 1) 1 (forStmt sub) := by
  refine .advance rfl fun p => moves_ident.bind fun var => .optional rfl
    ((hsub.typeSpec b).map.of_le (by omega) (by omega)) fun spec => ?_
  refine (moves_consume .inKw rfl).bind fun _ => ((hsub.expr b).within (by omega)).bind fun x => ?_
  refine (moves_consume .colon rfl).bind fun _ => moves_pos.bind fun start => moves_function.bind fun f => ?_
  refine (moves_inScope (k := 0) _ ?_).bind fun r => moves_pure _
  exact (moves_declare _ _ _).bind fun var => ((moves_suite hsub).within (by omega)).bind fun _ => moves_pure _

theorem moves_bareStmt : Moves true (d - 1) 1 (bareStmt sub) := by
  refine .kind fun κ => ?_
  split
  · refine .advance rfl fun p => ((hsub.expr true).within (by omega)).bind fun cond => (moves_consume .colon rfl).bind
      fun _ => ?_
    refine ((moves_block hsub false).within (by omega)).bind fun yes => .remaining fun m => ?_
    exact (moves_elseBlock hsub (by omega) (Nat.min_le_right ..)).bind fun no => moves_pure _
  · exact ((movesAt_forStmt hsub).within (by omega)).bind fun _ => moves_pure _
  · refine .advance rfl fun p => ((hsub.expr true).within (by omega)).bind fun cond => (moves_consume .colon rfl).bind
      fun _ => ?_
    exact ((moves_block hsub true).within (by omega)).bind fun _ => moves_pure _
  · refine .advance rfl fun p => ((hsub.expr true).within (by omega)).bind fun x => (moves_consume .colon rfl).bind
      fun _ => ?_
    refine (moves_consume .newline rfl).bind fun _ => moves_indented (fun m => ?_) fun branches _ => moves_pure _
    exact moves_untilOutdent ((moves_branch hsub).within (by omega)) (Nat.min_le_right ..)
  · exact .advance rfl fun _ => moves_pure _
  · exact .advance rfl fun _ => moves_pure _
  · exact (moves_simpleStmts hsub).movesAt

theorem moves_stmt : Moves true (d - 1) 1 (stmt sub) := by
  intro s hs
  refine yields_bind (yields_remaining ?_)
  refine (yields_stmtMarkers hsub {} hs.self (by have := hs.room; omega) (Nat.le_refl _)).bind fun m s₁ hmarkers => ?_
  obtain ⟨h₁, hm⟩ := hmarkers
  refine Yields.bind (Moves.after (j := 0) (k := 1) (moves_bareStmt hsub) hs h₁) fun ss s₂ h₂ => ?_
  cases hcodes : m.ignore with
  | none => exact yields_pure h₂
  | some codes =>
    cases ss.getLast? with
    | none => exact yields_pure h₂
    | some last =>
      have hmarked : s.Marked := (hm (by rw [hcodes]; rfl)).resolve_left Bool.false_ne_true
      exact (yields_recordIgnore h₂ hmarked _ _ _).bind fun _ _ h₃ => yields_pure h₃

end Sub

end Parse

/-! ### Accessors, bases and names -/

namespace Parse

variable {α β : Type} {b : Bool} {n d fuel k : Nat} {κ : TokenKind}

theorem moves_isAccessorStart : Moves b n 0 isAccessorStart := by
  refine .current fun t => ?_
  split
  · exact (moves_pure _).movesAt
  split
  · exact (moves_pure _).movesAt
  · exact .peek fun _ => (moves_pure _).movesAt

theorem movesAt_extendsClause : MovesAt .extendsKw b n 1 extendsClause := by
  refine .advance rfl fun p => ?_
  have hnames : ∀ path, Moves b (n - 1) 0 (do
      let first ← ident
      return ({ pos := p, path, names := first :: (← dottedNames ident (← remaining)) } : Extends)) := fun path =>
    moves_ident.bind fun first => .remaining fun m =>
      (moves_dottedNames moves_ident (Nat.min_le_right ..)).bind fun _ => moves_pure _
  have hrest : ∀ path : Option Literal, Moves b (n - 1) 0 (do
      if path.isSome then
        if !(← accept .dot) then return ({ pos := p, path, names := [] } : Extends)
      let first ← ident
      return { pos := p, path, names := first :: (← dottedNames ident (← remaining)) }) := by
    intro path
    split
    · refine (moves_accept .dot rfl).bind fun r => ?_
      dsimp only
      split
      · exact moves_pure _
      · exact hnames path
    · exact hnames path
  refine moves_isAt.bind fun _ => .ite (fun _ => moves_literal.map.bind fun path => ?_) fun _ => ?_
  · exact (hrest path).of_le (by omega) (by omega)
  · exact (moves_pure _).bind fun path => hrest path

theorem movesAt_setBase (c : ClassDecl) : MovesAt .extendsKw b n 1 (setBase c) := by
  unfold setBase
  exact .reject rfl (movesAt_extendsClause.bind fun _ => moves_pure _)

theorem movesAt_setName (top : Bool) (c : ClassDecl) : MovesAt .classNameKw b n 1 (setName top c) := by
  unfold setName
  refine .reject rfl (.reject rfl (.advance rfl fun _ => moves_ident.bind fun name => ?_))
  refine .isAtIf ((movesAt_setBase _).bind fun c => ?_) ((moves_pure _).bind fun c => ?_)
  · exact moves_endLine.bind fun _ => moves_pure _
  · exact moves_endLine.bind fun _ => moves_pure _

section Sub

variable {sub : Subparsers} (hsub : sub.Progress d)

include hsub

/-! ### Properties -/

theorem moves_setterParam : Moves true d 1 (setterParam sub) := by
  refine (moves_consume .openParen rfl).bind fun _ => moves_ident.bind fun name => ?_
  refine .optional rfl ((hsub.typeSpec true).map.of_le (by omega) (by omega)) fun spec =>
    (moves_declare _ _ _).bind fun name => ?_
  exact (moves_consume .closeParen rfl).bind fun _ => moves_pure _

theorem moves_accessorBody (property : Text) (word : Ident) (isSet : Bool) :
    Moves b d 1 (accessorBody sub property word isSet) := by
  refine (moves_inScope (k := 1) _ ?_).bind fun r => moves_pure _
  have hrest : ∀ ps : List Param, Moves true d 1 (do
      let _ ← consume .colon
      let start ← pos
      return (ps, start, ← suite sub)) := fun ps =>
    (moves_consume .colon rfl).bind fun _ => moves_pos.bind fun start =>
      ((moves_suite hsub).within (by omega)).bind fun _ => moves_pure _
  split
  · refine (moves_setterParam hsub).bind fun p => ?_
    exact (moves_pure _).bind fun ps => (hrest ps).of_le (by omega) (by omega)
  · exact .acceptIf rfl ((moves_consume .closeParen rfl).bind fun _ =>
      (hrest []).of_le (by omega) (by omega)) (hrest [])

theorem moves_accessor (v : VarDecl) (inBlock : Bool) : Moves b (d + 1) 1 (accessor sub v inBlock) := by
  refine moves_ident.bind fun word => .reject rfl (.reject rfl (.reject rfl (.acceptIf rfl ?_ ?_)))
  · refine moves_ident.bind fun name => .ite (fun _ => ?_) fun _ => moves_pure _
    exact moves_endLine.bind fun _ => moves_pure _
  · refine .ite (fun _ => moves_pos.bind fun _ => (moves_fail_bind rfl)) fun _ => ?_
    exact ((moves_accessorBody hsub _ word _).within (by omega)).bind fun f => moves_pure _

theorem moves_blockAccessors (v : VarDecl) (hn : n ≤ d + 1) (hfuel : n ≤ fuel) :
    Moves b n 0 (blockAccessors sub v fuel) := by
  induction fuel generalizing n v with
  | zero => exact moves_of_no_room (by omega)
  | succ fuel ih =>
    refine moves_kind.bind fun κ => .ite (fun _ => moves_pure _) fun _ => ?_
    exact ((moves_accessor hsub v true).within (by omega)).bind fun v => ih v (by omega) (by omega)

theorem moves_lineAccessors (v : VarDecl) (hn : n ≤ d + 1) (hfuel : n ≤ fuel) :
    Moves b n 0 (lineAccessors sub v fuel) := by
  induction fuel generalizing n v with
  | zero => exact moves_of_no_room (by omega)
  | succ fuel ih =>
    refine ((moves_accessor hsub v false).within (by omega)).bind fun v => ?_
    exact .acceptIf rfl (ih v (by omega) (by omega)) (moves_pure _)

theorem moves_accessors (v : VarDecl) : Moves b (d + 1) 0 (accessors sub v) := by
  refine .acceptIf rfl (moves_indented (fun m => ?_) fun v _ => ?_) (.remaining fun m => ?_)
  · exact moves_blockAccessors hsub v (by omega) (Nat.min_le_right ..)
  · refine Moves.bind (j := 0) (fun s hs => ?_) fun _ => moves_pure _
    exact yields_modify (.of_tokens hs.ended rfl rfl rfl rfl)
  · exact moves_lineAccessors hsub v (by omega) (Nat.min_le_right ..)

theorem movesAt_memberVar : MovesAt .varKw b (d + 1) 1 (memberVar sub) := by
  refine .advance rfl fun start => moves_ident.bind fun name => ?_
  have hrest : ∀ spec, Moves b (d - 1) 0 (do
      let v ← varHead sub false start name spec
      if !(← get).lineEnded then
        if ← accept .colon then return ← accessors sub v
      return v) := by
    intro spec
    refine ((moves_varHead hsub false start name spec).within (by omega)).bind fun v => .get fun s => ?_
    refine .ite (fun _ => ?_) fun _ => moves_pure _
    exact .acceptIf rfl ((moves_accessors hsub v).within (by omega)) (moves_pure _)
  refine .acceptIf rfl (moves_isAccessorStart.bind fun r => .ite (fun _ => ?_) fun _ => ?_) ?_
  · exact (moves_accessors hsub _).within (by omega)
  · exact ((hsub.typeSpec b).map.within (by omega)).bind fun spec => ((hrest spec).within (by omega))
  · exact (moves_pure _).bind fun spec => ((hrest spec).within (by omega))

/-! ### Other members -/

theorem moves_enumElement : Moves b (d + 1) 1 (enumElement sub) :=
  moves_ident.bind fun name => .optional rfl ((hsub.expr b).map.of_le (by omega) (by omega)) fun _ => moves_pure _

theorem movesAt_enumDecl : MovesAt .enumKw b (d + 1) 1 (enumDecl sub) := by
  refine .advance rfl fun p => ?_
  have hrest : ∀ name, Moves b d 0 (do
      let _ ← consume .openBrace
      let values ← commaList .closeBrace (enumElement sub) (← remaining)
      return ({ pos := p, name, values, close := ← consume .closeBrace } : EnumDecl)) := fun name =>
    (moves_consume .openBrace rfl).bind fun _ => .remaining fun m =>
      (moves_commaList _ ((moves_enumElement hsub).within (by omega)) (Nat.min_le_right ..)).bind fun _ =>
        (moves_consume .closeBrace rfl).bind fun _ => moves_pure _
  refine moves_isAt.bind fun _ => .ite (fun _ => moves_ident.map.bind fun name => ?_) fun _ => hrest none
  exact (hrest name).of_le (by omega) (by omega)

theorem movesAt_signalDecl : MovesAt .signalKw b (d + 1) 1 (signalDecl sub) := by
  refine .advance rfl fun p => moves_ident.bind fun name => .acceptIf rfl (.remaining fun m => ?_) (moves_pure _)
  refine (moves_params hsub false [] nofun (by omega) (Nat.min_le_right ..)).bind fun ps => ?_
  exact (moves_consume .closeParen rfl).bind fun _ => moves_pure _

/-! ### Members and their markers -/

theorem yields_memberMarker {s : State} (c : ClassDecl) (m : Markers) (hs : Ready b n s) (hn : n ≤ d + 1)
    (hκ : s.kind = .marker) :
    Yields (memberMarker sub c m) s (Genuine s) fun r s' =>
      Passed 1 0 s s' ∧ (r.2.ignore.isSome → m.ignore.isSome ∨ s.Marked) := by
  refine (yields_marker hsub hs hn hκ).bind fun ⟨name, args, p⟩ s₁ ⟨h₁, hname⟩ => ?_
  have hat : (m.at p).ignore = m.ignore := by
    unfold Markers.at
    split <;> rfl
  have hkept : (m.at p).ignore.isSome → m.ignore.isSome ∨ s.Marked := fun h => .inl (hat ▸ h)
  dsimp only at hname ⊢
  split
  · exact yields_pure ⟨h₁, hkept⟩
  split
  · exact yields_pure ⟨h₁, hkept⟩
  split
  · exact yields_pure ⟨h₁, hkept⟩
  split
  · split
    · exact yields_fail (.inl rfl)
    · exact yields_pure ⟨h₁, hkept⟩
    · exact yields_fail (.inl rfl)
  split
  · refine Yields.bind ((moves_ignoring _ args).on (hs.after h₁) h₁) fun m₁ s₂ h₂ => ?_
    exact yields_pure ⟨h₂, fun _ => .inr (hname ‹_›)⟩
  split
  · exact yields_pure ⟨h₁, hkept⟩
  · exact yields_fail (.inl rfl)

/-- The markers in front of a member: either there is none, or some tokens are passed. -/
theorem yields_memberMarkers {s : State} (c : ClassDecl) (m : Markers) (hs : Ready b n s) (hn : n ≤ d + 1)
    (hfuel : n ≤ fuel) :
    Yields (memberMarkers sub c m fuel) s (Genuine s) fun r s' =>
      (Passed 1 0 s s' ∨ s' = s) ∧ (r.2.ignore.isSome → m.ignore.isSome ∨ s.Marked) := by
  induction fuel generalizing n c m s with
  | zero => exact absurd hs.ended.tokens (by simpa using Nat.le_trans hs.room hfuel)
  | succ fuel ih =>
    refine yields_bind (yields_isAt ?_)
    split
    · rename_i hκ
      refine (yields_memberMarker hsub c m hs hn (of_decide_eq_true hκ)).bind fun ⟨c₁, m₁⟩ s₁ ⟨h₁, hm₁⟩ => ?_
      refine yields_bind (yields_remaining ?_)
      refine Yields.bind ((moves_skipAll _ _ (Nat.le_refl _) rfl).on (hs.after h₁).self h₁) fun _ s₂ h₂ => ?_
      refine (ih c₁ m₁ (hs.after h₂) (by omega) (by omega)).mono (fun _ he => he.before h₂) fun r s₃ ⟨h₃, hm₃⟩ => ?_
      refine ⟨.inl ?_, fun hr => (hm₃ hr).elim hm₁ fun hmarked => .inr (h₂.marked hmarked)⟩
      rcases h₃ with h₃ | rfl
      · exact (h₂.andThen h₃).of_le (Nat.le_refl _)
      · exact h₂
    · exact yields_pure ⟨.inr rfl, .inl⟩

/-! ### Classes inside of classes -/

theorem moves_members (c : ClassDecl) (hn : n ≤ d) (hfuel : n ≤ fuel) : Moves b n 0 (members sub c fuel) := by
  induction fuel generalizing n c with
  | zero => exact moves_of_no_room (by omega)
  | succ fuel ih =>
    refine .kind fun κ => ?_
    split
    · exact (moves_pure _).movesAt
    · rename_i hκ
      simp only [Bool.or_eq_true, decide_eq_true_eq, not_or] at hκ
      exact ((hsub.memberAt b false c κ hκ.2 hκ.1).within (by omega)).bind fun c => ih c (by omega) (by omega)

theorem movesAt_innerClass : MovesAt .classKw b (d + 1) 1 (innerClass sub) := by
  refine .advance rfl fun start => moves_ident.bind fun name => ?_
  have hrest : ∀ base : Option Extends, Moves b (d - 1) 0 (do
      let _ ← consume .colon
      let c : ClassDecl := ⟨start, some name, base, [], false, false, .none⟩
      if ← accept .newline then
        let _ ← consume .indent
        let c ← members sub c (← remaining)
        return { c with finish := ← consume .outdent }
      else
        let c ← sub.member false c
        return { c with finish := ← pos }) := by
    intro base
    refine (moves_consume .colon rfl).bind fun _ => .acceptIf rfl (moves_indented (fun m => ?_) fun c p =>
      moves_pure _) ?_
    · exact moves_members hsub _ (by omega) (Nat.min_le_right ..)
    · exact ((hsub.member b false _).within (by omega)).bind fun c => moves_pos.bind fun p => moves_pure _
  refine .isAtIf (movesAt_extendsClause.map.bind fun base => ?_) ((moves_pure _).bind fun base => ?_)
  · exact (hrest base).within (by omega)
  · exact (hrest base).within (by omega)

theorem moves_bareMember (top : Bool) (c : ClassDecl) (m : Markers) : Moves b (d + 1) 1 (bareMember sub top c m) := by
  refine .current fun t => ?_
  split
  all_goals rename_i ht
  · rw [ht]
    refine (movesAt_memberVar hsub).bind fun v => ?_
    exact moves_endLine.bind fun _ => moves_pure _
  · rw [ht]
    refine (movesAt_constDecl hsub false nofun).bind fun v => ?_
    exact moves_endLine.bind fun _ => moves_pure _
  · rw [ht]
    refine (movesAt_signalDecl hsub).bind fun v => ?_
    exact moves_endLine.bind fun _ => moves_pure _
  · rw [ht]
    refine (movesAt_enumDecl hsub).bind fun v => ?_
    exact moves_endLine.bind fun _ => moves_pure _
  · refine Moves.movesAt ((moves_accept .staticKw rfl).bind fun isStatic => (moves_consume .funcKw rfl).bind
      fun p => ?_)
    exact moves_ident.bind fun name => ((moves_functionRest hsub p _ isStatic _).within (by omega)).bind fun f =>
      moves_pure _
  · refine Moves.movesAt ((moves_accept .staticKw rfl).bind fun isStatic => (moves_consume .funcKw rfl).bind
      fun p => ?_)
    exact moves_ident.bind fun name => ((moves_functionRest hsub p _ isStatic _).within (by omega)).bind fun f =>
      moves_pure _
  · exact ht ▸ (movesAt_innerClass hsub).bind fun c => moves_pure _
  · exact ht ▸ (movesAt_setBase c).bind fun c => moves_endLine.bind fun _ => moves_pure _
  · exact ht ▸ (movesAt_setName top c).bind fun c => moves_pure _
  · exact ht ▸ .advance rfl fun _ => moves_endLine.bind fun _ => moves_pure _
  · exact ht ▸ .advance rfl fun _ => moves_pure _
  · exact ht ▸ .advance rfl fun _ => moves_pure _
  · exact Moves.movesAt (moves_fail rfl)

/-- **A member**: only where a block or the file ends may nothing be passed. -/
theorem yields_member {s : State} (top : Bool) (c : ClassDecl) (hs : Ready b (d + 1) s) :
    Yields (member sub top c) s (Genuine s) fun _ s' =>
      Passed 0 0 s s' ∧ (s.kind ≠ .endOfFile → s.kind ≠ .outdent → Passed 1 0 s s') := by
  refine yields_bind (yields_remaining ?_)
  refine (yields_memberMarkers hsub c {} hs.self hs.room (Nat.le_refl _)).bind fun ⟨c₁, m⟩ s₁ ⟨h₁, hm⟩ => ?_
  have h₀ : Passed 0 0 s s₁ := h₁.elim (fun h => h.of_le (Nat.zero_le _)) fun h => by rw [h]; exact .refl hs.ended
  refine yields_bind (yields_kind ?_)
  split
  · rename_i hend
    simp only [Bool.or_eq_true, decide_eq_true_eq] at hend
    split
    · exact yields_bind (yields_bind (yields_current (yields_pure (yields_bind (yields_fail (.inl rfl))))))
    · refine yields_pure ⟨h₀, fun hfile hdent => h₁.resolve_right ?_⟩
      rintro rfl
      exact hend.elim hfile hdent
  · refine Yields.bind (Moves.after (j := 0) (k := 1) (moves_bareMember hsub top c₁ m) hs h₀) fun r s₂ h₂ => ?_
    refine Yields.mono (P := fun _ s' => Passed 1 0 s s') ?_ (fun _ he => he) fun _ s' h =>
      ⟨h.of_le (Nat.zero_le _), fun _ _ => h⟩
    extract_lets result rest unlessExport
    have hrest : Yields (rest ()) s₂ (Genuine s) fun _ s' => Passed 1 0 s s' := by
      dsimp only [rest, result]
      split
      · rename_i codes finish hcodes hfinish
        have hmarked : s.Marked := (hm (by rw [hcodes]; rfl)).resolve_left nofun
        exact (yields_recordIgnore h₂ hmarked _ _ _).bind fun _ _ h₃ => yields_pure h₃
      · exact yields_pure h₂
    split
    · split
      · exact yields_bind (yields_fail (.inl rfl))
      dsimp only [unlessExport]
      split
      · exact yields_bind (yields_fail (.inl rfl))
      · exact hrest
    · exact hrest

end Sub

/-- **The parsers of the parts of a construct make progress**, however many levels there is room for. -/
theorem subparsers_progress (d : Nat) : (subparsers d).Progress d := by
  induction d with
  | zero =>
    have hnone {α : Type} {b : Bool} {k : Nat} {x : Parser α} : Moves b 0 k x := moves_of_no_room rfl
    exact ⟨fun _ => hnone, fun _ => hnone, fun _ _ => hnone, fun _ => hnone, fun _ => hnone, fun _ => hnone,
      fun _ => hnone, fun _ => hnone, hnone, hnone, fun _ _ _ => hnone, fun _ _ _ _ _ _ => hnone.movesAt⟩
  | succ d ih =>
    exact {
      expr := fun _ => moves_expr ih
      ternary := fun _ => moves_ternary ih
      level := fun _ l => moves_level ih l
      sign := fun _ => moves_sign ih
      powerOperand := fun _ => moves_powerOperand ih
      await := fun _ => moves_await ih
      typeSpec := fun _ => moves_typeSpec ih
      pattern := fun top => moves_pattern ih top
      stmt := moves_stmt ih
      smallStmt := moves_smallStmt ih
      member := fun _ top c s hs => (yields_member ih top c hs).mono (fun _ he => he) fun _ _ h => h.1
      memberAt := fun _ top c κ hfile hdent s hs hκ =>
        (yields_member ih top c hs).mono (fun _ he => he) fun _ _ h => h.2 (hκ ▸ hfile) (hκ ▸ hdent) }

end Parse

end GameScript
