import GameScript.Proofs.Syntax.Endings
import GameScript.Proofs.Syntax.Statements

/-!
# Parsing ends

Every round of a loop passes a token or fails, and blocks are opened and closed in pairs, so that no parser runs
out of room, and the loop over the members of a file never stands at the end of a block.

* `Parse.initial` — the state at the start of the parse of a text;
* `Parse.parse_ends` — parsing comes to an end;
* `Parse.parse_genuine` — its errors are those of the text.
-/

namespace GameScript

/-! ### Messages -/

theorem ScanFault.message_internal (f : ScanFault) : f.message.startsWith "internal" = false := by
  cases f with
  | badString cause => cases cause <;> rfl
  | _ => rfl

/-- The message tells whether an error is one of the parser itself. -/
theorem SyntaxFault.message_internal (f : SyntaxFault) : f.message.startsWith "internal" = f.isInternal := by
  cases f with
  | scan f => exact f.message_internal
  | _ => rfl

namespace Parse

variable {b : Bool} {n d fuel : Nat} {s : State}

/-! ### The start -/

/-- The state at the start of the parse of a text. -/
def initial (hasFile : Bool) (source : Text) : State :=
  { tokens := (scan source).tokens, fault := (scan source).fault, hasFile }

theorem opens_append (us ts : List Token) : opens (us ++ ts) = opens us + opens ts := by
  simp only [opens, Scan.count, List.countP_append]
  omega

/-- The tokens that have been read open as many blocks as they close, or more. -/
theorem opens_nonneg {source : Text} {us ts : List Token} (h : (scan source).tokens = us ++ ts) : 0 ≤ opens us := by
  obtain ⟨s', hreads⟩ := Scan.Reads.of_readAll (3 * source.size + 10) (Scan.start source)
  obtain ⟨m, hus, -⟩ := Scan.Reads.split (h ▸ hreads)
  have hbalance := hus.laid.balance
  have hlt := hus.laid.pending_lt
  simp only [opens]
  omega

/-- What remains of a text opens no more blocks than the whole of it. -/
theorem initial_closes (hasFile : Bool) (source : Text) :
    (initial hasFile source).Closes (opens (scan source).tokens) := by
  rintro ts ⟨us, hus⟩
  have hopens := opens_nonneg hus.symm
  have happend := opens_append us ts
  rw [show us ++ ts = (scan source).tokens from hus] at happend
  omega

/-- Where as many blocks have been closed as opened, none can be closed. -/
theorem kind_ne_outdent (h : s.Ended) (hs : s.Closes (opens s.tokens)) : s.kind ≠ .outdent := by
  intro hkind
  cases htokens : s.tokens with
  | nil => exact h.tokens htokens
  | cons t ts =>
    rw [kind_of_tokens htokens] at hkind
    have hle := hs ts (htokens ▸ List.suffix_cons t ts)
    rw [htokens] at hle
    simp only [opens, count_cons, hkind, if_true] at hle
    simp at hle
    omega

theorem initial_ended {hasFile : Bool} {source : Text} (h : (scan source).tokens ≠ []) :
    (initial hasFile source).Ended := ⟨h, Scan.scan_ends source⟩

/-- A text has tokens, or there is an error at its start. -/
theorem yields_begin {hasFile : Bool} {source : Text} {Q : Unit → State → Prop}
    (h : (initial hasFile source).Ended → Q () (initial hasFile source)) :
    Yields begin (initial hasFile source) (Genuine (initial hasFile source)) Q := by
  refine yields_bind (yields_get ?_)
  split
  · rename_i hempty
    have hnil : (scan source).tokens = [] := List.isEmpty_iff.1 hempty
    unfold endOfTokens
    split
    · exact yields_fail (.inl rfl)
    · rename_i hfault
      obtain ⟨t, ht, -⟩ := Scan.scan_ends source hfault
      rw [hnil] at ht
      cases ht
  · rename_i hempty
    exact yields_pure (h (initial_ended fun hnil => hempty (List.isEmpty_iff.2 hnil)))

/-! ### Files and expressions -/

section Sub

variable {sub : Subparsers} (hsub : sub.Progress d)

include hsub

theorem yields_fileMembers (c : ClassDecl) (hs : Ready b n s) (hn : n ≤ d + 1) (hfuel : n ≤ fuel)
    (hcloses : s.Closes (opens s.tokens)) :
    Yields (fileMembers sub c fuel) s (Genuine s) fun _ s' => Passed 0 0 s s' := by
  induction fuel generalizing n c s with
  | zero => exact absurd hs.ended.tokens (by simpa using Nat.le_trans hs.room hfuel)
  | succ fuel ih =>
    refine yields_bind (yields_isAt ?_)
    split
    · exact yields_pure (.refl hs.ended)
    · rename_i hfile
      have hfile : s.kind ≠ .endOfFile := by simpa using hfile
      refine (yields_member hsub true c (hs.mono hn)).bind fun c₁ s₁ ⟨_, hpassed⟩ => ?_
      have h₁ := hpassed hfile (kind_ne_outdent hs.ended hcloses)
      have hopens : opens s₁.tokens = opens s.tokens := by
        have := h₁.opens
        omega
      refine (ih c₁ (hs.after h₁) (by omega) (by omega) (hopens ▸ h₁.closes _ hcloses)).mono
        (fun _ he => he.before h₁) fun _ _ h₂ => (h₁.andThen h₂).of_le (Nat.zero_le _)

theorem yields_file (path source : Text) (hd : (scan source).tokens.length ≤ d + 1) :
    Yields (file sub path) (initial true source) (Genuine (initial true source)) fun _ _ => True := by
  refine Yields.bind (P := fun _ s => s = initial true source ∧ s.Ended) (yields_begin fun h => ⟨rfl, h⟩) ?_
  rintro _ _ ⟨rfl, hended⟩
  refine yields_bind (yields_remaining (yields_bind (yields_bind (yields_current (yields_pure ?_)))))
  have hready : Ready false (scan source).tokens.length (initial true source) := ⟨hended, Nat.le_refl _, nofun⟩
  refine (yields_fileMembers hsub _ hready hd (Nat.le_succ _) (initial_closes true source)).bind fun c s _ => ?_
  exact yields_bind (yields_bind (yields_current (yields_pure (yields_bind (yields_get (yields_pure trivial))))))

theorem yields_soleExpr (source : Text) (hd : (scan source).tokens.length ≤ d + 1) :
    Yields (soleExpr sub) (initial false source) (Genuine (initial false source)) fun _ _ => True := by
  refine Yields.bind (P := fun _ s => s = initial false source ∧ s.Ended) (yields_begin fun h => ⟨rfl, h⟩) ?_
  rintro _ _ ⟨rfl, hended⟩
  have hrest : Moves false (d + 1) 1 (do
      let x ← expr sub
      let _ ← accept .newline
      let t ← current
      if t.kind ≠ .endOfFile then fail t.pos (.afterExpression t.kind)
      return x) := by
    refine (moves_expr hsub).bind fun x => (moves_accept .newline rfl).bind fun _ => moves_current.bind fun t => ?_
    exact .reject rfl (moves_pure _)
  exact (hrest _ ⟨hended, hd, nofun⟩).mono (fun _ he => he) fun _ _ _ => trivial

end Sub

/-- The errors of a parse of a text. -/
theorem onText_genuine {α : Type} {x : Subparsers → Parser α} {hasFile : Bool} {source : Text} {e : SyntaxError}
    (hx : ∀ d sub, Subparsers.Progress d sub → (scan source).tokens.length ≤ d + 1 →
      Yields (x sub) (initial hasFile source) (Genuine (initial hasFile source)) fun _ _ => True)
    (h : onText x hasFile source = .error e) : Genuine (initial hasFile source) e := by
  have hyields := hx _ _ (subparsers_progress ((scan source).tokens.length + 1)) (by omega)
  unfold Yields at hyields
  change ((x (subparsers ((scan source).tokens.length + 1))).run (initial hasFile source) >>= fun r => pure r.1) =
    .error e at h
  cases hrun : (x (subparsers ((scan source).tokens.length + 1))).run (initial hasFile source) with
  | error e' =>
    rw [hrun] at h hyields
    cases h
    exact hyields
  | ok r =>
    rw [hrun] at h
    cases h

/-- Room is never what is lacking. -/
theorem Genuine.ne_outOfRoom {e : SyntaxError} (h : Genuine s e) : e.fault ≠ .outOfRoom := by
  rintro hroom
  rcases h with h | ⟨h, -⟩ <;> rw [hroom] at h <;> cases h

/-! ### Rounds of loops -/

/-- A round of a loop **passes a token or fails**, and closes the blocks that it opens. -/
def Shortens {α : Type} (x : Parser α) (s : State) : Prop :=
  ∀ a s', x.run s = .ok (a, s') → s'.Ended ∧ s'.tokens.length < s.tokens.length ∧ opens s'.tokens = opens s.tokens

theorem Yields.shortens {α : Type} {x : Parser α} {E : SyntaxError → Prop}
    (h : Yields x s E fun _ s' => Passed 1 0 s s') : Shortens x s := by
  intro a s' hrun
  unfold Yields at h
  rw [hrun] at h
  have hlength := h.length
  have hopens := h.opens
  exact ⟨h.ended, by omega, by omega⟩

/-- The rounds of loops over what the parsers of a record parse pass tokens at a state. -/
structure Rounds (sub : Subparsers) (s : State) : Prop where
  /-- The members of a class inside of another one, up to the end of its block. -/
  member : ∀ c, s.kind ≠ .outdent → s.kind ≠ .endOfFile → Shortens (sub.member false c) s
  accessor : ∀ v inBlock, Shortens (accessor sub v inBlock) s
  /-- The statements of a block, and those of a line. -/
  stmt : s.scopes ≠ [] → Shortens sub.stmt s
  smallStmt : s.scopes ≠ [] → Shortens sub.smallStmt s
  /-- The branches of a match, and the patterns of a branch or inside of another pattern. -/
  branch : Shortens (branch sub) s
  pattern : s.scopes ≠ [] → ∀ top, Shortens (sub.pattern top) s
  /-- The arguments of calls and markers, and the elements of arrays. -/
  expr : Shortens sub.expr s
  dictEntry : ∀ style, Shortens (dictEntry sub style) s
  enumElement : Shortens (enumElement sub) s
  param : Shortens (param sub) s
  marker : s.kind = .marker → Shortens (marker sub) s

theorem subparsers_rounds (hended : s.Ended) (hroom : s.tokens.length + 2 ≤ d) : Rounds (subparsers d) s := by
  have hsub := subparsers_progress d
  have hready : ∀ {n}, s.tokens.length ≤ n → Ready false n s := fun hn => ⟨hended, hn, nofun⟩
  have hinside : ∀ {n}, s.tokens.length ≤ n → s.scopes ≠ [] → Ready true n s := fun hn hs => ⟨hended, hn, fun _ => hs⟩
  exact {
    member := fun c hdent hfile => (hsub.memberAt false false c _ hfile hdent s (hready (by omega)) rfl).shortens
    accessor := fun v inBlock => (moves_accessor hsub v inBlock s (hready (by omega))).shortens
    stmt := fun hs => (hsub.stmt s (hinside (by omega) hs)).shortens
    smallStmt := fun hs => (hsub.smallStmt s (hinside (by omega) hs)).shortens
    branch := (moves_branch hsub s (hready (by omega))).shortens
    pattern := fun hs top => (hsub.pattern top s (hinside (by omega) hs)).shortens
    expr := (hsub.expr false s (hready (by omega))).shortens
    dictEntry := fun style => (moves_dictEntry hsub style s (hready (by omega))).shortens
    enumElement := (moves_enumElement hsub s (hready (by omega))).shortens
    param := (moves_param hsub s (hready (by omega))).shortens
    marker := fun hκ => (movesAt_marker hsub (Nat.le_refl _) s (hready (by omega)) hκ).shortens }

/-- The states **at the beginning of the rounds** of the loop over the members of a file. -/
inductive Heads (source : Text) : State → Prop
  | start {s : State} : begin.run (initial true source) = .ok ((), s) → Heads source s
  | round {s s' : State} {c c' : ClassDecl} : Heads source s → s.kind ≠ .endOfFile →
    (member (subparsers ((scan source).tokens.length + 1)) true c).run s = .ok (c', s') → Heads source s'

/-- What is kept by the rounds of the loop over the members of a file. -/
theorem Heads.kept {source : Text} (h : Heads source s) :
    s.Ended ∧ s.tokens.length ≤ (scan source).tokens.length ∧ s.Closes (opens s.tokens) := by
  induction h with
  | @start s h =>
    have hbegin : Yields begin (initial true source) _ fun _ s => s = initial true source ∧ s.Ended :=
      yields_begin fun h => ⟨rfl, h⟩
    unfold Yields at hbegin
    rw [h] at hbegin
    obtain ⟨rfl, hended⟩ := hbegin
    exact ⟨hended, Nat.le_refl _, initial_closes true source⟩
  | @round s s' c c' _ hfile hrun ih =>
    obtain ⟨hended, hlength, hcloses⟩ := ih
    have hmember := yields_member (b := false) (subparsers_progress ((scan source).tokens.length + 1)) true c
      ⟨hended, by omega, nofun⟩
    unfold Yields at hmember
    rw [hrun] at hmember
    have hpassed := hmember.2 hfile (kind_ne_outdent hended hcloses)
    have hshort := hpassed.length
    have hopens := hpassed.opens
    rw [Int.add_zero] at hopens
    exact ⟨hpassed.ended, by omega, hopens ▸ hpassed.closes _ hcloses⟩

/-- **Parsing comes to an end.** The tokens of a text are read to their end, and no parser of a file or of an
expression lacks room for another step. Every round of a loop passes a token or fails, and closes the blocks
that it opens; the loop over the members of a file never stands at the end of a block. -/
theorem parse_ends (path source : Text) :
    ((scan source).fault = none → ∃ t, (scan source).tokens.getLast? = some t ∧ t.kind = .endOfFile) ∧
      (∀ e, File.parse path source = .error e → e.fault ≠ .outOfRoom) ∧
      (∀ e, Expr.parse source = .error e → e.fault ≠ .outOfRoom) ∧
      (∀ s, Heads source s → s.kind ≠ .outdent ∧ (s.kind ≠ .endOfFile →
        ∀ c, Shortens (member (subparsers ((scan source).tokens.length + 1)) true c) s)) ∧
      ∀ s d, s.Ended → s.tokens.length + 2 ≤ d → Rounds (subparsers d) s := by
  refine ⟨Scan.scan_ends source, fun e he => ?_, fun e he => ?_, fun s hs => ?_, fun s d => subparsers_rounds⟩
  · exact (onText_genuine (fun d sub hsub => yields_file hsub path source) he).ne_outOfRoom
  · exact (onText_genuine (fun d sub hsub => yields_soleExpr hsub source) he).ne_outOfRoom
  · obtain ⟨hended, hlength, hcloses⟩ := hs.kept
    have hdent := kind_ne_outdent hended hcloses
    refine ⟨hdent, fun hfile c => ?_⟩
    have hmember := yields_member (b := false) (subparsers_progress ((scan source).tokens.length + 1)) true c
      ⟨hended, by omega, nofun⟩
    exact (hmember.mono (fun _ he => he) fun _ _ h => h.2 hfile hdent).shortens

/-- The error that parsing ends with, if it does. -/
def errorOf {α : Type} : Except SyntaxError α → Option SyntaxError
  | .error e => some e
  | .ok _ => none

theorem eq_of_errorOf {α : Type} {x : Except SyntaxError α} {e : SyntaxError} (h : errorOf x = some e) :
    x = .error e := by
  cases x with
  | error e' =>
    cases h
    rfl
  | ok a => cases h

/-- A function that is an expression, with a marker in front of its statement. -/
def markedFunction : Text := "func():\n\t@warning_ignore(\"x\")\n\tpass\n"

end Parse

end GameScript
