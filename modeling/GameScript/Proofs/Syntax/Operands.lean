import GameScript.Proofs.Syntax.Levels
import GameScript.Proofs.Syntax.Literals

/-!
# Operands and operators

One lemma for each way to put an expression together: from words at which its parts are parsed come words at which it
is parsed, at the level of the grammar that it has.

* `Parse.Returns.parens` — parentheses;
* `Parse.Reaches.call`, `Parse.Reaches.index`, `Parse.Reaches.member` — suffixes;
* `Parse.Reaches.binary`, `Parse.Reaches.power`, `Parse.Exponent.sign`, `Parse.Returns.negation` — operators;
* `Parse.Reaches.typeTest`, `Parse.Reaches.cast` — types.
-/

namespace GameScript

namespace Parse

variable {s s' : State} {t u : Token} {ts rest : List Token} {k : TokenKind} {sub : Subparsers} {x : Expr} {l n : Nat}

/-! ### Primary expressions -/

theorem primary_name (h : t.kind = .identifier) (hts : ts ≠ []) (hs : s.scopes = []) :
    (primary sub).run (s.at (t :: ts)) = .ok (.ident { pos := t.pos, name := t.raw }, s.at ts) := by
  rw [primary, run_bind current_at]
  simp only [h]
  rw [run_bind (identRef_at h hts hs)]
  rfl

theorem primary_literal {v : Value} (h : literalValue? t = some v) (hts : ts ≠ []) :
    (primary sub).run (s.at (t :: ts)) = .ok (.literal { pos := t.pos, raw := t.raw, value := v }, s.at ts) := by
  rw [primary, run_bind current_at]
  have hparse : (do return .literal (← literal) : Parser Expr).run (s.at (t :: ts)) =
      .ok (.literal { pos := t.pos, raw := t.raw, value := v }, s.at ts) := by
    rw [run_bind (literal_at h hts)]
    rfl
  have hkind := kind_of_literalValue? h
  simp only [literalKinds, List.mem_cons, List.not_mem_nil, or_false] at hkind
  rcases hkind with hk | hk | hk | hk | hk | hk | hk | hk <;> simp only [hk] <;> exact hparse

/-- A primary expression with what follows it. -/
theorem await_at {us : List Token} (hkind : t.kind ≠ .awaitKw)
    (h : (primary sub).run (s.at (t :: ts)) = .ok (x, s.at us)) :
    (await sub).run (s.at (t :: ts)) = (suffixes sub x us.length).run (s.at us) := by
  rw [await, run_bind isAt_at, if_neg (by simp [hkind]), run_bind h, run_bind remaining_at]

/-- Tokens that close or separate go on with no expression. -/
theorem stops_of_kind (h : t.kind ∈ [TokenKind.closeParen, .closeBracket, .comma, .elseKw, .endOfFile]) :
    Stops 0 (t :: ts) := by
  have hall : ∀ k ∈ [TokenKind.closeParen, .closeBracket, .comma, .elseKw, .endOfFile],
      continues? k = none ∧ k ≠ .notKw := by decide
  obtain ⟨hnone, hnot⟩ := hall _ h
  refine ⟨List.cons_ne_nil _ _, fun u hu m hm => ?_, fun u hu hkind => ?_⟩
  · cases hu
    rw [hnone] at hm
    cases hm
  · cases hu
    exact absurd hkind hnot

/-- A token that goes on with looser expressions only. -/
theorem stops_of_continues {m : Nat} (h : continues? t.kind = some m) (hnot : t.kind ≠ .notKw) (hm : m < l) :
    Stops l (t :: ts) := by
  refine ⟨List.cons_ne_nil _ _, fun u hu n hn => ?_, fun u hu hkind => ?_⟩
  · cases hu
    cases h.symm.trans hn
    exact hm
  · cases hu
    exact absurd hkind hnot

theorem kind_of_symbol (h : t.word = .symbol k) : t.kind = k := congrArg Word.kind h

/-- Tokens that spell words in a row are tokens that spell each of them. -/
theorem tokens_append {ws ws' : List Word} (h : ts.map Token.word = ws ++ ws') :
    ∃ us us', ts = us ++ us' ∧ us.map Token.word = ws ∧ us'.map Token.word = ws' := List.map_eq_append_iff.1 h

theorem tokens_cons {w : Word} {ws : List Word} (h : ts.map Token.word = w :: ws) :
    ∃ t us, ts = t :: us ∧ t.word = w ∧ us.map Token.word = ws := List.map_eq_cons_iff.1 h

theorem tokens_single {w : Word} (h : ts.map Token.word = [w]) : ∃ t, ts = [t] ∧ t.word = w := by
  obtain ⟨t, us, rfl, ht, hus⟩ := tokens_cons h
  exact ⟨t, by rw [List.map_eq_nil_iff.1 hus], ht⟩

theorem length_pos_of_words {ws : List Word} (h : ts.map Token.word = ws) (hws : ws ≠ []) : 0 < ts.length := by
  refine List.length_pos_of_ne_nil ?_
  rintro rfl
  exact hws h.symm

theorem denotes_of_word {n : Identifier} (h : t.word = n.word) : n.Denotes { pos := t.pos, name := t.raw } := by
  rw [Identifier.Denotes, show t.raw = n.text from congrArg Word.raw h]

section Primary

variable {ws : List Word} {D : Expr → Prop}

/-- A token that is a primary expression by itself. -/
theorem reaches_single {w : Word}
    (h : ∀ (sub : Subparsers) (s : State) (t : Token) (ts : List Token), s.scopes = [] → t.word = w → ts ≠ [] →
      t.kind ≠ .awaitKw ∧ ∃ e, D e ∧ (primary sub).run (s.at (t :: ts)) = .ok (e, s.at ts)) : Reaches 16 [w] D := by
  intro d s ts rest hs hts _ hrest
  obtain ⟨t, rfl, ht⟩ := tokens_single hts
  obtain ⟨hkind, e, he, hrun⟩ := h (subparsers d) s t rest hs ht hrest.ne_nil
  exact ⟨e, rest.length, he, Nat.le_refl _, await_at hkind hrun⟩

/-- A part of an expression is parsed by a parser for parts. -/
theorem Returns.inner (h : Returns l ws D) (hws : ws ≠ []) (p : Subparsers → Parser Expr)
    (hp : ∀ d s, (p (subparsers (d + 1))).run s = (atLevel (subparsers d) l).run s) {d : Nat} (hs : s.scopes = [])
    (hts : ts.map Token.word = ws) (hd : ts.length ≤ d) (hrest : Stops l rest) :
    ∃ e, D e ∧ (p (subparsers d)).run (s.at (ts ++ rest)) = .ok (e, s.at (settle l rest)) := by
  cases d with
  | zero =>
    obtain rfl := List.length_eq_zero_iff.1 (Nat.le_zero.1 hd)
    exact absurd hts.symm hws
  | succ d =>
    obtain ⟨e, he, hrun⟩ := h d s ts rest hs hts hd hrest
    exact ⟨e, he, (hp d _).trans hrun⟩

/-- An expression up to a closing bracket or a comma. -/
theorem Returns.expr (h : Returns 0 ws D) (hws : ws ≠ []) (d : Nat) (rest : List Token) (hs : s.scopes = [])
    (hts : ts.map Token.word = ws) (hd : ts.length ≤ d) (hrest : Stops 0 rest) :
    ∃ e, D e ∧ (subparsers d).expr.run (s.at (ts ++ rest)) = .ok (e, s.at rest) := by
  obtain ⟨e, he, hrun⟩ := h.inner hws Subparsers.expr (fun _ _ => rfl) hs hts hd hrest
  exact ⟨e, he, by rw [hrun, settle, if_pos (by decide), hrest.joined_eq (by decide)]⟩

/-- An expression in parentheses. -/
theorem Returns.parens (h : Returns 0 ws D) (hws : ws ≠ []) :
    Reaches 16 (.symbol .openParen :: ws ++ [.symbol .closeParen]) D := by
  intro d s ts rest hs hts hd hrest
  obtain ⟨us, vs, rfl, hus, hvs⟩ := tokens_append hts
  obtain ⟨o, xs, rfl, ho, hxs⟩ := tokens_cons hus
  obtain ⟨c, rfl, hc⟩ := tokens_single hvs
  have hopen := kind_of_symbol ho
  have hclose := kind_of_symbol hc
  simp only [List.length_append, List.length_cons, List.length_nil] at hd
  obtain ⟨e, he, hrun⟩ := h.expr hws d (c :: rest) hs hxs (by omega)
    (stops_of_kind (by simp [hclose]))
  refine ⟨e, rest.length, he, Nat.le_refl _, ?_⟩
  rw [List.append_assoc, List.cons_append, List.singleton_append]
  refine await_at (by simp [hopen]) ?_
  rw [primary, run_bind current_at]
  simp only [hopen]
  rw [run_bind (advance_at (by simp)), run_bind hrun, run_bind (consume_at hclose hrest.ne_nil)]
  rfl

/-! ### Suffixes -/

/-- Terms with commas between them, up to the closing parenthesis. -/
def Lists (ws : List Word) (D : List Expr → Prop) : Prop :=
  ∀ (d : Nat) (s : State) (ts rest : List Token) (c : Token) (n : Nat), s.scopes = [] → ts.map Token.word = ws →
    ts.length ≤ d → c.kind = .closeParen → ts.length < n →
    ∃ es, D es ∧ (commaList .closeParen (subparsers d).expr n).run (s.at (ts ++ c :: rest)) = .ok (es, s.at (c :: rest))

/-- What an attribute, an index or a call makes of an expression. -/
theorem Reaches.call {vs : List Word} {E : List Expr → Prop} (hf : Reaches 16 ws D) (hargs : Lists vs E)
    (hws : ws ≠ []) : Reaches 16 (ws ++ .symbol .openParen :: vs ++ [.symbol .closeParen]) fun e =>
      ∃ f es close, D f ∧ E es ∧ e = .call f es close {} {} := by
  intro d s ts rest hs hts hd hrest
  obtain ⟨us, zs, rfl, hus, hzs⟩ := tokens_append hts
  obtain ⟨xs, ys, rfl, hxs, hys⟩ := tokens_append hus
  obtain ⟨o, ys, rfl, ho, hys⟩ := tokens_cons hys
  obtain ⟨c, rfl, hc⟩ := tokens_single hzs
  have hopen := kind_of_symbol ho
  have hclose := kind_of_symbol hc
  have hpos : 0 < xs.length := length_pos_of_words hxs hws
  simp only [List.length_append, List.length_cons, List.length_nil] at hd
  obtain ⟨f, n, hf, hn, hrun⟩ := hf d s xs (o :: (ys ++ c :: rest)) hs hxs (by omega)
    (stops_of_continues (m := 16) (by rw [hopen]; rfl) (by simp [hopen]) (by decide))
  obtain ⟨es, hes, hlist⟩ := hargs d s ys rest c (ys ++ c :: rest).length hs hys (by omega) hclose (by simp)
  have harguments : (arguments (subparsers d)).run (s.at (o :: (ys ++ c :: rest))) = .ok ((es, c.pos), s.at rest) := by
    rw [arguments, run_bind (consume_at hopen (by simp)), run_bind remaining_at, run_bind hlist,
      run_bind (consume_at hclose hrest.ne_nil)]
    rfl
  have hn : (o :: (ys ++ c :: rest)).length ≤ n := hn
  simp only [List.length_append, List.length_cons] at hn
  obtain ⟨n, rfl⟩ : ∃ n', n = n' + 1 := ⟨n - 1, by omega⟩
  refine ⟨_, n, ⟨f, es, c.pos, hf, hes, rfl⟩, by show rest.length ≤ n; omega, ?_⟩
  simp only [List.append_assoc, List.cons_append, List.nil_append]
  refine hrun.trans ?_
  show (suffixes (subparsers d) f (n + 1)).run (s.at (o :: (ys ++ c :: rest))) = _
  rw [suffixes, run_bind kind_at]
  simp only [hopen]
  rw [run_bind harguments]
  rfl

theorem Reaches.index {vs : List Word} {E : Expr → Prop} (hx : Reaches 16 ws D) (hy : Returns 0 vs E)
    (hws : ws ≠ []) (hvs : vs ≠ []) :
    Reaches 16 (ws ++ .symbol .openBracket :: vs ++ [.symbol .closeBracket]) fun e =>
      ∃ x y close, D x ∧ E y ∧ e = .index x y close {} := by
  intro d s ts rest hs hts hd hrest
  obtain ⟨us, zs, rfl, hus, hzs⟩ := tokens_append hts
  obtain ⟨xs, ys, rfl, hxs, hys⟩ := tokens_append hus
  obtain ⟨o, ys, rfl, ho, hys⟩ := tokens_cons hys
  obtain ⟨c, rfl, hc⟩ := tokens_single hzs
  have hopen := kind_of_symbol ho
  have hclose := kind_of_symbol hc
  have hpos : 0 < xs.length := length_pos_of_words hxs hws
  simp only [List.length_append, List.length_cons, List.length_nil] at hd
  obtain ⟨x, n, hx, hn, hrun⟩ := hx d s xs (o :: (ys ++ c :: rest)) hs hxs (by omega)
    (stops_of_continues (m := 16) (by rw [hopen]; rfl) (by simp [hopen]) (by decide))
  obtain ⟨y, hy, hinner⟩ := hy.expr hvs d (c :: rest) hs hys (by omega)
    (stops_of_kind (by simp [hclose]))
  have hn : (o :: (ys ++ c :: rest)).length ≤ n := hn
  simp only [List.length_append, List.length_cons] at hn
  obtain ⟨n, rfl⟩ : ∃ n', n = n' + 1 := ⟨n - 1, by omega⟩
  refine ⟨_, n, ⟨x, y, c.pos, hx, hy, rfl⟩, by show rest.length ≤ n; omega, ?_⟩
  simp only [List.append_assoc, List.cons_append, List.nil_append]
  refine hrun.trans ?_
  show (suffixes (subparsers d) x (n + 1)).run (s.at (o :: (ys ++ c :: rest))) = _
  rw [suffixes, run_bind kind_at]
  simp only [hopen]
  rw [run_bind (advance_at (by simp)), run_bind hinner, run_bind (consume_at hclose hrest.ne_nil)]
  rfl

theorem Reaches.member (name : Identifier) (hx : Reaches 16 ws D) :
    Reaches 16 (ws ++ [.symbol .dot, name.word]) fun e => ∃ x id, D x ∧ name.Denotes id ∧ e = .dot x id {} := by
  intro d s ts rest hs hts hd hrest
  obtain ⟨xs, ys, rfl, hxs, hys⟩ := tokens_append hts
  obtain ⟨o, ys, rfl, ho, hys⟩ := tokens_cons hys
  obtain ⟨t, rfl, ht⟩ := tokens_single hys
  have hdot := kind_of_symbol ho
  simp only [List.length_append, List.length_cons, List.length_nil] at hd
  obtain ⟨x, n, hx, hn, hrun⟩ := hx d s xs (o :: t :: rest) hs hxs (by omega)
    (stops_of_continues (m := 16) (by rw [hdot]; rfl) (by simp [hdot]) (by decide))
  have hn : (o :: t :: rest).length ≤ n := hn
  simp only [List.length_cons] at hn
  obtain ⟨n, rfl⟩ : ∃ n', n = n' + 1 := ⟨n - 1, by omega⟩
  refine ⟨_, n, ⟨x, { pos := t.pos, name := t.raw }, hx, denotes_of_word ht, rfl⟩, by show rest.length ≤ n; omega, ?_⟩
  simp only [List.append_assoc, List.cons_append, List.nil_append]
  refine hrun.trans ?_
  show (suffixes (subparsers d) x (n + 1)).run (s.at (o :: t :: rest)) = _
  rw [suffixes, run_bind kind_at]
  simp only [hdot]
  rw [run_bind (advance_at (by simp)), run_bind (memberName_at (congrArg Word.kind ht) hrest.ne_nil)]
  rfl

/-! ### Operators -/

theorem level_le {op : BinaryOp} (hop : op ≠ .power) : op.level ≤ 10 := by
  cases op <;> first | decide | exact absurd rfl hop

/-- The tokens of an operator are taken as one, which goes on with expressions of its level. -/
theorem operator_tokens {op : BinaryOp} (hop : op ≠ .power) {os : List Token} (h : os.map Token.word = op.words)
    (more : List Token) : os ≠ [] ∧ Stops (Term.binaryLevel op + 1) (os ++ more) ∧
      ∃ t, joined (os ++ more) = t :: more ∧ BinaryOp.ofToken? t.kind = some op := by
  by_cases hnot : op = .notWithin
  · subst hnot
    obtain ⟨t, us, rfl, ht, hus⟩ := tokens_cons h
    obtain ⟨u, rfl, hu⟩ := tokens_single hus
    have ht := kind_of_symbol ht
    have hu := kind_of_symbol hu
    refine ⟨by simp, ⟨by simp, fun v hv m hm => ?_, fun v hv _ => ?_⟩, _, joined_not_in ⟨ht, hu⟩, rfl⟩
    · cases hv
      rw [ht] at hm
      cases hm
      decide
    · cases hv
      exact ⟨u, more, rfl, hu⟩
  · have hwords : op.words = [.symbol op.token] ∧ BinaryOp.ofToken? op.token = some op ∧ op.token ≠ .notKw := by
      cases op <;> first | decide | exact absurd rfl hnot
    obtain ⟨t, rfl, ht⟩ := tokens_single (hwords.1 ▸ h)
    have ht := kind_of_symbol ht
    have hop : BinaryOp.ofToken? t.kind = some op := by rw [ht, hwords.2.1]
    have hkind : t.kind ≠ .notKw := by rw [ht]; exact hwords.2.2
    exact ⟨by simp, stops_of_continues (continues?_of_ofToken? hop) hkind (Nat.lt_succ_self _), t,
      joined_of_kind hkind, hop⟩

/-- Operators of one level are taken from left to right. -/
theorem Reaches.binary {op : BinaryOp} (hop : op ≠ .power) {vs : List Word} {E : Expr → Prop}
    (hx : Reaches (Term.binaryLevel op) ws D) (hy : Returns (Term.binaryLevel op + 1) vs E) (hws : ws ≠ [])
    (hvs : vs ≠ []) :
    Reaches (Term.binaryLevel op) (ws ++ op.words ++ vs) fun e => ∃ x y, D x ∧ E y ∧ e = .binary x op y {} := by
  intro d s ts rest hs hts hd hrest
  obtain ⟨us, ys, rfl, hus, hys⟩ := tokens_append hts
  obtain ⟨xs, os, rfl, hxs, hos⟩ := tokens_append hus
  obtain ⟨hne, hstops, t, hjoined, htoken⟩ := operator_tokens hop hos (ys ++ rest)
  have hpos : 0 < xs.length := length_pos_of_words hxs hws
  have hpos' : 0 < os.length := List.length_pos_of_ne_nil hne
  have hlevel := level_le hop
  simp only [List.length_append] at hd
  obtain ⟨x, n, hx, hn, hrun⟩ := hx d s xs (os ++ (ys ++ rest)) hs hxs (by omega) hstops
  obtain ⟨y, hy, hinner⟩ := hy.inner hvs (fun sub => sub.level (op.level + 1))
    (fun d s => by rw [Term.binaryLevel, Nat.add_right_comm, atLevel_binary (by omega)]; rfl) (d := d) hs hys (by omega) hrest
  have hsettled : (ys ++ rest).length < n := by
    have hlength : (joined (os ++ (ys ++ rest))).length ≤ n := by
      refine Nat.le_trans ?_ hn
      unfold settle
      split
      · exact Nat.le_refl _
      · exact joined_length_le _
    rw [hjoined] at hlength
    exact hlength
  obtain ⟨n, rfl⟩ : ∃ n', n = n' + 1 := ⟨n - 1, by omega⟩
  refine ⟨_, n, ⟨x, y, hx, hy, rfl⟩, ?_, ?_⟩
  · have hle := settle_length_le (Term.binaryLevel op + 1) rest
    simp only [List.length_append] at hsettled
    omega
  have hloop : ∀ (x : Expr) (n : Nat), loopAt (subparsers d) (Term.binaryLevel op) x n =
      operators (subparsers d) op.level x n := fun x n => by
    rw [loopAt, if_neg (by unfold Term.binaryLevel; omega), if_pos (by unfold Term.binaryLevel; omega)]
    rfl
  simp only [List.append_assoc]
  rw [hrun, hloop, hloop, operators_settle hstops, operators, run_bind (joinNotIn_at hstops), hjoined,
    run_bind kind_at, htoken]
  have hnot : ¬ ((decide (op.level < op.level) || decide (BinaryOp.signLevel ≤ op.level)) = true) := by
    have hsign : ¬ BinaryOp.signLevel ≤ op.level := Nat.not_le.2 (Nat.lt_succ_of_le hlevel)
    simp [hsign]
  have hmore : ys ++ rest ≠ [] := by simp [hrest.ne_nil]
  dsimp only
  rw [if_neg hnot, run_bind (advance_at hmore), run_bind hinner]

/-- Words at which the parser of exponents returns a tree. -/
def Exponent (ws : List Word) (D : Expr → Prop) : Prop :=
  ∀ (d : Nat) (s : State) (ts rest : List Token), s.scopes = [] → ts.map Token.word = ws → ts.length ≤ d + 1 →
    Stops 15 rest → ∃ e, D e ∧ (powerOperand (subparsers d)).run (s.at (ts ++ rest)) = .ok (e, s.at rest)

theorem Exponent.imp {E : Expr → Prop} (h : Exponent ws D) (hDE : ∀ e, D e → E e) : Exponent ws E := by
  intro d s ts rest hs hts hd hrest
  obtain ⟨e, he, hrun⟩ := h d s ts rest hs hts hd hrest
  exact ⟨e, hDE e he, hrun⟩

theorem Returns.exponent (h : Returns 15 ws D) (hopens : Opens 15 ws) : Exponent ws D := by
  intro d s ts rest hs hts hd hrest
  obtain ⟨e, he, hrun⟩ := h d s ts rest hs hts hd hrest
  obtain ⟨w, ws', rfl, -, -, hsign⟩ := hopens
  obtain ⟨t, ts, rfl, rfl, -⟩ := List.map_eq_cons_iff.1 hts
  refine ⟨e, he, ?_⟩
  rw [List.cons_append] at hrun ⊢
  rw [powerOperand, run_bind kind_at, show UnaryOp.ofSign? t.kind = none from hsign (by decide)]
  exact hrun

theorem Exponent.sign {op : UnaryOp} (hop : op.isSign = true) (h : Exponent ws D) (hws : ws ≠ []) :
    Exponent (op.word :: ws) fun e => ∃ pos x, D x ∧ e = .unary pos op x {} := by
  intro d s ts rest hs hts hd hrest
  obtain ⟨o, xs, rfl, ho, hxs⟩ := tokens_cons hts
  have hkind : UnaryOp.ofSign? o.kind = some op := by
    rw [kind_of_symbol ho]
    cases op <;> first | rfl | cases hop
  have hpos : 0 < xs.length := length_pos_of_words hxs hws
  simp only [List.length_cons] at hd
  obtain ⟨d, rfl⟩ : ∃ d', d = d' + 1 := ⟨d - 1, by omega⟩
  obtain ⟨x, hx, hrun⟩ := h d s xs rest hs hxs (by omega) hrest
  refine ⟨_, ⟨o.pos, x, hx, rfl⟩, ?_⟩
  have hrun : (subparsers (d + 1)).powerOperand.run (s.at (xs ++ rest)) = .ok (x, s.at rest) := hrun
  rw [List.cons_append, powerOperand, run_bind kind_at, hkind]
  dsimp only
  rw [run_bind (advance_at (by simp [hrest.ne_nil])), run_bind hrun]
  rfl

/-- Powers are taken from left to right. -/
theorem Reaches.power {vs : List Word} {E : Expr → Prop} (hx : Reaches 14 ws D) (hy : Exponent vs E) (hws : ws ≠ [])
    (hvs : vs ≠ []) :
    Reaches 14 (ws ++ BinaryOp.power.words ++ vs) fun e => ∃ x y, D x ∧ E y ∧ e = .binary x .power y {} := by
  intro d s ts rest hs hts hd hrest
  obtain ⟨us, ys, rfl, hus, hys⟩ := tokens_append hts
  obtain ⟨xs, os, rfl, hxs, hos⟩ := tokens_append hus
  obtain ⟨o, rfl, ho⟩ := tokens_single hos
  have hkind : o.kind = .starStar := kind_of_symbol ho
  have hpos : 0 < xs.length := length_pos_of_words hxs hws
  have hpos' : 0 < ys.length := length_pos_of_words hys hvs
  simp only [List.length_append, List.length_cons, List.length_nil] at hd
  obtain ⟨x, n, hx, hn, hrun⟩ := hx d s xs (o :: (ys ++ rest)) hs hxs (by omega)
    (stops_of_continues (m := 14) (by rw [hkind]; rfl) (by simp [hkind]) (by decide))
  obtain ⟨y, hy, hinner⟩ := hy d s ys rest hs hys (by omega) hrest
  have hn : (o :: (ys ++ rest)).length ≤ n := hn
  simp only [List.length_append, List.length_cons] at hn
  obtain ⟨n, rfl⟩ : ∃ n', n = n' + 1 := ⟨n - 1, by omega⟩
  refine ⟨_, n, ⟨x, y, hx, hy, rfl⟩, by show rest.length ≤ n; omega, ?_⟩
  simp only [List.append_assoc, List.cons_append, List.nil_append]
  refine hrun.trans ?_
  show (powers (subparsers d) x (n + 1)).run (s.at (o :: (ys ++ rest))) = _
  rw [powers.eq_def]
  dsimp only
  rw [run_bind (accept_at hkind (by simp [hrest.ne_nil])), if_pos rfl, run_bind hinner]
  rfl

/-- A sign goes with everything up to the next product. -/
theorem Returns.sign {op : UnaryOp} (hop : op.isSign = true) (h : Returns 13 ws D) (hws : ws ≠ []) :
    Returns 13 (op.word :: ws) fun e => ∃ pos x, D x ∧ e = .unary pos op x {} := by
  intro d s ts rest hs hts hd hrest
  obtain ⟨o, xs, rfl, ho, hxs⟩ := tokens_cons hts
  have hkind : UnaryOp.ofSign? o.kind = some op := by
    rw [kind_of_symbol ho]
    cases op <;> first | rfl | cases hop
  simp only [List.length_cons] at hd
  obtain ⟨x, hx, hrun⟩ := h.inner hws Subparsers.sign (fun _ _ => rfl) (d := d) hs hxs (by omega) hrest
  refine ⟨_, ⟨o.pos, x, hx, rfl⟩, ?_⟩
  show (Parse.sign (subparsers d)).run _ = _
  rw [List.cons_append, Parse.sign, run_bind kind_at]
  simp only [hkind]
  rw [run_bind (advance_at (by simp [hrest.ne_nil])), run_bind hrun]
  rfl

/-- A negation goes with everything up to the next conjunction. -/
theorem Returns.negation {op : UnaryOp} (hop : op.isSign = false) (h : Returns 4 ws D) (hws : ws ≠ []) :
    Returns 4 (op.word :: ws) fun e => ∃ pos x, D x ∧ e = .unary pos op x {} := by
  intro d s ts rest hs hts hd hrest
  obtain ⟨o, xs, rfl, ho, hxs⟩ := tokens_cons hts
  have hkind : UnaryOp.ofNegation? o.kind = some op := by
    rw [kind_of_symbol ho]
    cases op <;> first | rfl | cases hop
  simp only [List.length_cons] at hd
  obtain ⟨x, hx, hrun⟩ := h.inner hws (fun sub => sub.level BinaryOp.notLevel) (fun _ _ => rfl) (d := d) hs hxs
    (by omega) hrest
  refine ⟨_, ⟨o.pos, x, hx, rfl⟩, ?_⟩
  show (levels (subparsers d) (8 + 1)).run _ = _
  rw [List.cons_append, levels, run_bind kind_at, hkind]
  have hlevel : BinaryOp.signLevel - (8 + 1) = BinaryOp.notLevel := rfl
  dsimp only
  rw [if_pos hlevel, run_bind (advance_at (by simp [hrest.ne_nil])), hlevel, run_bind hrun]
  rfl

/-- No operator has the level of negations, so nothing follows one at that level. -/
theorem Stops.not_level (h : Stops 5 rest) : Stops 4 rest where
  ne_nil := h.ne_nil
  level t ht m hm := by
    have hlt := h.level t ht m hm
    have hne : m ≠ 4 := by
      have hop : ∀ op : BinaryOp, Term.binaryLevel op ≠ 4 := fun op => by cases op <;> decide
      unfold continues? at hm
      repeat' split at hm
      all_goals try (cases hm; decide)
      obtain ⟨op, -, rfl⟩ := Option.map_eq_some_iff.1 hm
      exact hop op
    omega
  notIn := h.notIn

theorem Returns.reaches_negation (h : Returns 4 ws D) : Reaches 4 ws D := by
  intro d s ts rest hs hts hd hrest
  obtain ⟨e, he, hrun⟩ := h d s ts rest hs hts hd hrest.not_level
  have hpos : 0 < (settle (4 + 1) rest).length := List.length_pos_of_ne_nil hrest.settle.ne_nil
  exact ⟨e, _, he, Nat.le_refl _, hrun.trans (loop_stops (by decide) hrest.not_level hpos (by decide)).symm⟩

/-- A conditional expression. -/
theorem Returns.cond {us vs : List Word} {E F : Expr → Prop} (hx : Returns 2 ws D) (hy : Returns 2 us E)
    (hz : Returns 1 vs F) (hws : ws ≠ []) (hvs : vs ≠ []) :
    Returns 1 (ws ++ .symbol .ifKw :: us ++ .symbol .elseKw :: vs) fun e =>
      ∃ x y z, D x ∧ E y ∧ F z ∧ e = .cond x y z {} := by
  intro d s ts rest hs hts hd hrest
  obtain ⟨as, bs, rfl, has, hbs⟩ := tokens_append hts
  obtain ⟨xs, ys, rfl, hxs, hys⟩ := tokens_append has
  obtain ⟨i, ys, rfl, hi, hys⟩ := tokens_cons hys
  obtain ⟨e, zs, rfl, he, hzs⟩ := tokens_cons hbs
  have hi := kind_of_symbol hi
  have he := kind_of_symbol he
  have hpos : 0 < xs.length := length_pos_of_words hxs hws
  simp only [List.length_append, List.length_cons] at hd
  obtain ⟨x, hx, hrunx⟩ := hx d s xs (i :: (ys ++ e :: (zs ++ rest))) hs hxs (by omega)
    (stops_of_continues (m := 1) (by rw [hi]; rfl) (by simp [hi]) (by decide))
  obtain ⟨y, hy, hruny⟩ := hy d s ys (e :: (zs ++ rest)) hs hys (by omega)
    ((stops_of_kind (by simp [he])).mono (by decide))
  obtain ⟨z, hz, hrunz⟩ := hz.inner hvs Subparsers.ternary (fun _ _ => rfl) (d := d) hs hzs (by omega) hrest
  refine ⟨_, ⟨x, y, z, hx, hy, hz, rfl⟩, ?_⟩
  have hrunx : (level (subparsers d) 0).run (s.at (xs ++ i :: (ys ++ e :: (zs ++ rest)))) =
      .ok (x, s.at (i :: (ys ++ e :: (zs ++ rest)))) := by
    refine (Eq.trans ?_ hrunx).trans ?_
    · rfl
    · rw [settle, if_pos (by decide), joined_of_kind (by simp [hi])]
  have hruny : (level (subparsers d) 0).run (s.at (ys ++ e :: (zs ++ rest))) = .ok (y, s.at (e :: (zs ++ rest))) := by
    refine (Eq.trans ?_ hruny).trans ?_
    · rfl
    · rw [settle, if_pos (by decide), joined_of_kind (by simp [he])]
  simp only [List.append_assoc, List.cons_append]
  show (ternary (subparsers d)).run _ = _
  rw [ternary, run_bind hrunx, run_bind (accept_at hi (by simp)), if_pos rfl, run_bind hruny, run_bind isAt_at]
  simp only [he, decide_true, Bool.not_true, Bool.false_eq_true, if_false]
  rw [run_bind (advance_at (by simp [hrest.ne_nil])), run_bind hrunz]
  rfl

/-! ### Types -/

/-- Names after points. -/
theorem dottedNames_at {names : List Identifier} {n : Nat}
    (hts : ts.map Token.word = names.flatMap fun name => [.symbol .dot, name.word]) (hn : names.length < n)
    (hu : u.kind ≠ .dot) : ∃ ids, List.Forall₂ Identifier.Denotes names ids ∧
      (dottedNames typeName n).run (s.at (ts ++ u :: rest)) = .ok (ids, s.at (u :: rest)) := by
  induction names generalizing ts n with
  | nil =>
    obtain ⟨n, rfl⟩ : ∃ n', n = n' + 1 := ⟨n - 1, by simp at hn; omega⟩
    obtain rfl := List.map_eq_nil_iff.1 hts
    refine ⟨[], .nil, ?_⟩
    rw [List.nil_append, dottedNames, run_bind (accept_other hu)]
    rfl
  | cons name names ih =>
    obtain ⟨n, rfl⟩ : ∃ n', n = n' + 1 := ⟨n - 1, by simp at hn; omega⟩
    obtain ⟨o, us, rfl, ho, hus⟩ := tokens_cons hts
    obtain ⟨t, us, rfl, ht, hus⟩ := tokens_cons hus
    obtain ⟨ids, hids, hrun⟩ := ih hus (by simpa using hn)
    refine ⟨_, .cons (denotes_of_word ht) hids, ?_⟩
    simp only [List.cons_append]
    rw [dottedNames, run_bind (accept_at (kind_of_symbol ho) (by simp)), if_pos rfl,
      run_bind (typeName_at (congrArg Word.kind ht) (by simp)), run_bind hrun]
    rfl

theorem length_pathWords (names : List Identifier) :
    names.length ≤ (names.flatMap fun name => [Word.symbol .dot, name.word]).length := by
  induction names with
  | nil => exact Nat.le_refl 0
  | cons name names ih =>
    simp only [List.flatMap_cons, List.length_append, List.length_cons, List.length_nil]
    omega

/-- The path of a type is parsed up to what follows it. -/
theorem path_at (s : State) (u : Token) (rest : List Token) {first : Identifier} {names : List Identifier}
    {f : List Ident → Parser TypeSpec} (hts : ts.map Token.word = pathWords first names) (hu : u.kind ≠ .dot) :
    ∃ ids, List.Forall₂ Identifier.Denotes (first :: names) ids ∧
      (do let id ← typeName; f (id :: (← dottedNames typeName (← remaining))) : Parser TypeSpec).run
        (s.at (ts ++ u :: rest)) = (f ids).run (s.at (u :: rest)) := by
  obtain ⟨t, us, rfl, ht, hus⟩ := tokens_cons hts
  have hlength : names.length < (us ++ u :: rest).length := by
    have hle := length_pathWords names
    rw [← hus, List.length_map] at hle
    simp only [List.length_append, List.length_cons]
    omega
  obtain ⟨ids, hids, hrun⟩ := dottedNames_at hus hlength hu
  refine ⟨_, .cons (denotes_of_word ht) hids, ?_⟩
  rw [List.cons_append, run_bind (typeName_at (congrArg Word.kind ht) (by simp)), run_bind remaining_at, run_bind hrun]

/-- **Types are parsed back.** -/
theorem typeSpec_at (t : TypeTerm) : ∀ (d : Nat) (s : State) (ts rest : List Token), ts.map Token.word = t.words →
    ts.length ≤ d + 1 → Stops 16 rest →
    ∃ spec, t.Denotes spec ∧ (typeSpec (subparsers d)).run (s.at (ts ++ rest)) = .ok (spec, s.at rest) := by
  induction t with
  | path first names =>
    intro d s ts rest hts _ hrest
    obtain ⟨u, us, rfl⟩ := List.exists_cons_of_ne_nil hrest.ne_nil
    obtain ⟨ids, hids, hrun⟩ := path_at s u us hts (hrest.kind_ne (k := .dot) rfl (Nat.le_refl 16))
      (f := fun ids => do
        if ← accept .openBracket then
          let element ← (subparsers d).typeSpec
          let close ← consume .closeBracket
          return { names := ids, element := some element, close }
        else return { names := ids, element := none, close := .none })
    refine ⟨_, .path hids, hrun.trans ?_⟩
    rw [run_bind (accept_other (hrest.kind_ne rfl (Nat.le_refl 16)))]
    rfl
  | of first names element ih =>
    intro d s ts rest hts hd hrest
    obtain ⟨us, zs, rfl, hus, hzs⟩ := tokens_append hts
    obtain ⟨ps, ys, rfl, hps, hys⟩ := tokens_append hus
    obtain ⟨o, ys, rfl, ho, hys⟩ := tokens_cons hys
    obtain ⟨c, rfl, hc⟩ := tokens_single hzs
    have ho := kind_of_symbol ho
    have hc := kind_of_symbol hc
    have hpos : 0 < ps.length := length_pos_of_words hps (by simp [pathWords])
    simp only [List.length_append, List.length_cons, List.length_nil] at hd
    obtain ⟨d, rfl⟩ : ∃ d', d = d' + 1 := ⟨d - 1, by omega⟩
    obtain ⟨spec, hspec, hinner⟩ := ih d s ys (c :: rest) hys (by omega) ((stops_of_kind (by simp [hc])).mono (by decide))
    have hinner : (subparsers (d + 1)).typeSpec.run (s.at (ys ++ c :: rest)) = .ok (spec, s.at (c :: rest)) := hinner
    obtain ⟨ids, hids, hrun⟩ := path_at s o (ys ++ c :: rest) hps (by simp [ho])
      (f := fun ids => do
        if ← accept .openBracket then
          let element ← (subparsers (d + 1)).typeSpec
          let close ← consume .closeBracket
          return { names := ids, element := some element, close }
        else return { names := ids, element := none, close := .none })
    refine ⟨_, .of hids hspec c.pos, ?_⟩
    simp only [List.append_assoc, List.cons_append, List.nil_append]
    refine hrun.trans ?_
    rw [run_bind (accept_at ho (by simp)), if_pos rfl, run_bind hinner, run_bind (consume_at hc hrest.ne_nil)]
    rfl

/-- A type begins with a name. -/
theorem type_tokens {t : TypeTerm} (hts : ts.map Token.word = t.words) :
    ∃ u us, ts = u :: us ∧ u.kind = .identifier := by
  have hwords : ∃ (name : Identifier) (ws : List Word), t.words = name.word :: ws := by
    cases t with
    | path first names => exact ⟨first, _, rfl⟩
    | of first names element => exact ⟨first, _, rfl⟩
  obtain ⟨name, ws, hwords⟩ := hwords
  obtain ⟨u, us, rfl, hu, -⟩ := tokens_cons (hwords ▸ hts)
  exact ⟨u, us, rfl, congrArg Word.kind hu⟩

/-- A type as a part of an expression. -/
theorem typeSpec_inner {t : TypeTerm} {d : Nat} (hts : ts.map Token.word = t.words) (hd : ts.length ≤ d)
    (hrest : Stops 16 rest) :
    ∃ spec, t.Denotes spec ∧ (subparsers d).typeSpec.run (s.at (ts ++ rest)) = .ok (spec, s.at rest) := by
  obtain ⟨u, us, hus, -⟩ := type_tokens hts
  obtain ⟨d, rfl⟩ : ∃ d', d = d' + 1 := ⟨d - 1, by simp [hus] at hd; omega⟩
  exact typeSpec_at t d s ts rest hts hd hrest

/-- Type tests are taken from left to right. -/
theorem Reaches.typeTest {negated : Bool} {t : TypeTerm} (hx : Reaches 15 ws D) :
    Reaches 15 (ws ++ .symbol .isKw :: (if negated then [.symbol .notKw] else []) ++ t.words) fun e =>
      ∃ x spec, D x ∧ t.Denotes spec ∧ e = .typeTest x negated spec {} := by
  intro d s ts rest hs hts hd hrest
  obtain ⟨us, ys, rfl, hus, hys⟩ := tokens_append hts
  obtain ⟨xs, zs, rfl, hxs, hzs⟩ := tokens_append hus
  obtain ⟨i, ns, rfl, hi, hns⟩ := tokens_cons hzs
  have hi := kind_of_symbol hi
  have hrest₁₆ : Stops 16 rest := hrest
  simp only [List.length_append, List.length_cons] at hd
  obtain ⟨x, n, hx, hn, hrun⟩ := hx d s xs (i :: (ns ++ (ys ++ rest))) hs hxs (by omega)
    (stops_of_continues (m := 15) (by rw [hi]; rfl) (by simp [hi]) (by decide))
  obtain ⟨spec, hspec, hinner⟩ := typeSpec_inner (s := s) (d := d) hys (by omega) hrest₁₆
  have hnot : (accept .notKw).run (s.at (ns ++ (ys ++ rest))) = .ok (negated, s.at (ys ++ rest)) := by
    cases negated with
    | true =>
      obtain ⟨u, rfl, hu⟩ := tokens_single hns
      exact accept_at (kind_of_symbol hu) (by simp [hrest.ne_nil])
    | false =>
      obtain rfl := List.map_eq_nil_iff.1 hns
      obtain ⟨u, us, rfl, hu⟩ := type_tokens hys
      exact accept_other (by simp [hu])
  have hn : (i :: (ns ++ (ys ++ rest))).length ≤ n := hn
  simp only [List.length_append, List.length_cons] at hn
  obtain ⟨n, rfl⟩ : ∃ n', n = n' + 1 := ⟨n - 1, by omega⟩
  refine ⟨_, n, ⟨x, spec, hx, hspec, rfl⟩, by show rest.length ≤ n; omega, ?_⟩
  simp only [List.append_assoc, List.cons_append]
  refine hrun.trans ?_
  show (typeTests (subparsers d) x (n + 1)).run (s.at (i :: (ns ++ (ys ++ rest)))) = _
  rw [typeTests, run_bind (accept_at hi (by simp [hrest.ne_nil])), if_pos rfl, run_bind hnot, run_bind hinner]
  rfl

/-- Casts are taken from left to right. -/
theorem Reaches.cast {t : TypeTerm} (hx : Reaches 0 ws D) :
    Reaches 0 (ws ++ .symbol .asKw :: t.words) fun e => ∃ x spec, D x ∧ t.Denotes spec ∧ e = .cast x spec {} := by
  intro d s ts rest hs hts hd hrest
  obtain ⟨xs, ys, rfl, hxs, hys⟩ := tokens_append hts
  obtain ⟨a, ys, rfl, ha, hys⟩ := tokens_cons hys
  have ha := kind_of_symbol ha
  have hsame : settle 1 rest = rest := hrest.joined_eq (by decide)
  simp only [List.length_append, List.length_cons] at hd
  obtain ⟨x, n, hx, hn, hrun⟩ := hx d s xs (a :: (ys ++ rest)) hs hxs (by omega)
    (stops_of_continues (m := 0) (by rw [ha]; rfl) (by simp [ha]) (by decide))
  obtain ⟨spec, hspec, hinner⟩ := typeSpec_inner (s := s) (d := d) hys (by omega) (hrest.mono (by decide))
  have hsettled : settle 1 (a :: (ys ++ rest)) = a :: (ys ++ rest) := joined_of_kind (by simp [ha])
  rw [hsettled] at hn hrun
  simp only [List.length_append, List.length_cons] at hn
  obtain ⟨n, rfl⟩ : ∃ n', n = n' + 1 := ⟨n - 1, by omega⟩
  refine ⟨_, n, ⟨x, spec, hx, hspec, rfl⟩, by rw [hsame]; omega, ?_⟩
  simp only [List.append_assoc, List.cons_append]
  refine hrun.trans ?_
  show (casts (subparsers d) x (n + 1)).run (s.at (a :: (ys ++ rest))) = _
  rw [hsame, casts, run_bind (accept_at ha (by simp [hrest.ne_nil])), if_pos rfl, run_bind hinner]
  rfl

end Primary

end Parse

end GameScript
