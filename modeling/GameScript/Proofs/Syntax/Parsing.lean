import GameScript.Proofs.Syntax.Operands
import GameScript.Proofs.Syntax.Rendering

/-!
# Parsing terms back

* `Term.operand_of_core` — a term is parsed at every level, in parentheses where they are required;
* `Term.parsed` — **the words of a term are parsed back**, whatever comes behind them;
* `Expr.parse_text` — so is its text.
-/

namespace GameScript

/-! ### Terms -/

namespace Term

open Parse

/-- What is known of a term as an operand. -/
structure Operand (x : Term) : Prop where
  opens : ∀ l ≤ 16, Opens l (x.words (.level l))
  returns : ∀ l ≤ 16, Returns l (x.words (.level l)) x.Denotes
  reaches : ∀ l ≤ 16, IsLoop l → Reaches l (x.words (.level l)) x.Denotes

/-- A term whose words are **parsed back** at each position. -/
structure Parsed (x : Term) : Prop extends Operand x where
  exponent_ne : x.words .exponent ≠ []
  exponent : Exponent (x.words .exponent) x.Denotes

theorem opens_ne_nil {l : Nat} {ws : List Word} (h : Opens l ws) : ws ≠ [] := by
  obtain ⟨w, ws', rfl, -⟩ := h
  exact List.cons_ne_nil _ _

theorem opens_parens {l : Nat} (ws : List Word) : Opens l (.symbol .openParen :: ws ++ [.symbol .closeParen]) :=
  ⟨.symbol .openParen, _, rfl, nofun, fun _ => rfl, fun _ => rfl⟩

theorem opens_append {l : Nat} {ws : List Word} (h : Opens l ws) (ws' : List Word) : Opens l (ws ++ ws') := by
  obtain ⟨w, rest, rfl, hw⟩ := h
  exact ⟨w, rest ++ ws', rfl, hw⟩

/-- **An operand is parsed at every level**: as it is where it is tight enough, and in parentheses elsewhere. -/
theorem operand_of_core {x : Term} {m : Nat} {ws : List Word} (hm : m ≤ 16)
    (hwords : ∀ l ≤ 16, x.words (.level l) = (Position.level l).enclose m ws) (hopens : Opens m ws)
    (hreturns : Returns m ws x.Denotes) (hreaches : IsLoop m → Reaches m ws x.Denotes) : Operand x := by
  have hparens : Reaches 16 (.symbol .openParen :: ws ++ [.symbol .closeParen]) x.Denotes :=
    (hreturns.below hopens hm (Nat.zero_le m)).parens (opens_ne_nil hopens)
  have hclosed := hparens.returns (by decide) (Nat.le_refl 16)
  have henclose : ∀ l ≤ 16, x.words (.level l) =
      if m < l then .symbol .openParen :: ws ++ [.symbol .closeParen] else ws := fun l hl => by
    rw [hwords l hl]
    rfl
  refine ⟨fun l hl => ?_, fun l hl => ?_, fun l hl hloop => ?_⟩ <;> rw [henclose l hl]
  · split
    · exact opens_parens ws
    · exact hopens.mono (by omega)
  · split
    · exact hclosed.below (opens_parens ws) (Nat.le_refl 16) hl
    · exact hreturns.below hopens hm (by omega)
  · split
    · rcases Nat.lt_or_eq_of_le hl with hlt | rfl
      · exact hclosed.reaches_below (opens_parens ws) (Nat.le_refl 16) hlt hloop
      · exact hparens
    · rcases Nat.lt_or_eq_of_le (show l ≤ m by omega) with hlt | rfl
      · exact hreturns.reaches_below hopens hm hlt hloop
      · exact hreaches hloop

theorem Operand.parsed {x : Term} (h : Operand x) (hexponent : x.words .exponent = x.words (.level 15)) : Parsed x where
  toOperand := h
  exponent_ne := hexponent ▸ opens_ne_nil (h.opens 15 (by decide))
  exponent := hexponent ▸ (h.returns 15 (by decide)).exponent (h.opens 15 (by decide))

/-- An operator with loops. -/
theorem parsed_of_reaches {x : Term} {m : Nat} {ws : List Word} (hm : m ≤ 16 ∧ IsLoop m)
    (hwords : ∀ l ≤ 16, x.words (.level l) = (Position.level l).enclose m ws)
    (hexponent : x.words .exponent = x.words (.level 15)) (hopens : Opens m ws) (h : Reaches m ws x.Denotes) :
    Parsed x :=
  (operand_of_core hm.1 hwords hopens (h.returns hm.2 hm.1) fun _ => h).parsed hexponent

/-- A term without operators. -/
theorem parsed_of_primary {x : Term} (ws : List Word) (hwords : ∀ p, x.words p = ws) (hopens : Opens 16 ws)
    (h : Reaches 16 ws x.Denotes) : Parsed x := by
  refine parsed_of_reaches (by decide) (fun l hl => ?_) ((hwords _).trans (hwords _).symm) hopens h
  rw [hwords, Position.enclose, Position.least, if_neg (by omega)]

section Parts

variable {x y z : Term}

theorem Parsed.ne_nil (h : Parsed x) {l : Nat} (hl : l ≤ 16) : x.words (.level l) ≠ [] := opens_ne_nil (h.opens l hl)

theorem parsed_name (n : Identifier) : Parsed (name n) := by
  refine parsed_of_primary [n.word] (fun _ => rfl) ⟨n.word, [], rfl, nofun, fun _ => rfl, fun _ => rfl⟩ ?_
  refine reaches_single fun sub s t ts hs ht hts => ?_
  have hkind : t.kind = .identifier := congrArg Word.kind ht
  exact ⟨by simp [hkind], _, .name (denotes_of_word ht), primary_name hkind hts hs⟩

theorem parsed_literal (w : LiteralWord) : Parsed (literal w) := by
  have hall : ∀ k ∈ literalKinds, k ≠ .closeParen ∧ k ≠ .awaitKw ∧ UnaryOp.ofNegation? k = none ∧
      UnaryOp.ofSign? k = none := by decide
  obtain ⟨hclose, hawait, hnegation, hsign⟩ := hall _ (kind_of_literalValue? w.isValue)
  refine parsed_of_primary [w.word] (fun _ => rfl) ⟨w.word, [], rfl, hclose, fun _ => hnegation, fun _ => hsign⟩ ?_
  refine reaches_single fun sub s t ts hs ht hts => ?_
  have hvalue : literalValue? t = some w.value := by
    rw [← w.isValue, ← ht]
    rfl
  have hdenotes : w.Denotes { pos := t.pos, raw := t.raw, value := w.value } := by
    rw [LiteralWord.Denotes, show t.raw = w.word.raw from congrArg Word.raw ht]
  refine ⟨?_, _, .literal hdenotes, primary_literal hvalue hts⟩
  rw [show t.kind = w.word.kind from congrArg Word.kind ht]
  exact hawait

theorem Parsed.group (h : Parsed x) : Parsed (group x) := by
  refine parsed_of_primary _ (fun _ => rfl) (opens_parens _) ?_
  exact ((h.returns 0 (by decide)).parens (h.ne_nil (by decide))).imp fun _ => .group

theorem Parsed.call {args : List Term} (h : Parsed x) (hargs : Lists (listWords args) (DenoteAll args)) :
    Parsed (call x args) := by
  refine parsed_of_primary _ (fun _ => rfl) (opens_append (opens_append (h.opens 16 (by decide)) _) _) ?_
  refine ((h.reaches 16 (by decide) (by decide)).call hargs (h.ne_nil (by decide))).imp ?_
  rintro _ ⟨f, es, close, hf, hes, rfl⟩
  exact .call hf hes close

theorem Parsed.index (hx : Parsed x) (hy : Parsed y) : Parsed (index x y) := by
  refine parsed_of_primary _ (fun _ => rfl) (opens_append (opens_append (hx.opens 16 (by decide)) _) _) ?_
  refine ((hx.reaches 16 (by decide) (by decide)).index (hy.returns 0 (by decide)) (hx.ne_nil (by decide))
    (hy.ne_nil (by decide))).imp ?_
  rintro _ ⟨e, i, close, he, hi, rfl⟩
  exact .index he hi close

theorem Parsed.member (h : Parsed x) (n : Identifier) : Parsed (member x n) := by
  refine parsed_of_primary _ (fun _ => rfl) (opens_append (h.opens 16 (by decide)) _) ?_
  refine ((h.reaches 16 (by decide) (by decide)).member n).imp ?_
  rintro _ ⟨e, id, he, hid, rfl⟩
  exact .member he hid

theorem Parsed.unary (op : UnaryOp) (h : Parsed x) : Parsed (unary op x) := by
  cases hsign : op.isSign with
  | true =>
    have hlevel : unaryLevel op = 13 := by simp [unaryLevel, hsign, BinaryOp.signLevel]
    have hdenotes : ∀ e, (∃ pos y, x.Denotes y ∧ e = .unary pos op y {}) → (Term.unary op x).Denotes e := by
      rintro _ ⟨pos, e, he, rfl⟩
      exact .unary pos he
    have hreturns := ((h.returns 13 (by decide)).sign hsign (h.ne_nil (by decide))).imp hdenotes
    have hopens : Opens 13 (op.word :: x.words (.level 13)) := by
      refine ⟨op.word, _, rfl, ?_, fun _ => ?_, nofun⟩
      · cases op <;> nofun
      · cases op <;> first | rfl | cases hsign
    have hoperand : Operand (Term.unary op x) := by
      refine operand_of_core (m := 13) (by decide) (fun l _ => ?_) hopens hreturns fun hloop => absurd rfl hloop.2
      rw [words, hlevel, if_neg (by simp)]
    have hwords : (Term.unary op x).words .exponent = op.word :: x.words .exponent := by
      rw [words, hsign, if_pos (by simp)]
    refine { toOperand := hoperand, exponent_ne := by simp [hwords], exponent := ?_ }
    rw [hwords]
    exact (h.exponent.sign hsign h.exponent_ne).imp hdenotes
  | false =>
    have hlevel : unaryLevel op = 4 := by simp [unaryLevel, hsign, BinaryOp.notLevel]
    have hreturns : Returns 4 (op.word :: x.words (.level 4)) (Term.unary op x).Denotes := by
      refine ((h.returns 4 (by decide)).negation hsign (h.ne_nil (by decide))).imp ?_
      rintro _ ⟨pos, e, he, rfl⟩
      exact .unary pos he
    have hopens : Opens 4 (op.word :: x.words (.level 4)) := by
      refine ⟨op.word, _, rfl, ?_, nofun, nofun⟩
      cases op <;> nofun
    have hwords : ∀ p, (Term.unary op x).words p = p.enclose 4 (op.word :: x.words (.level 4)) := fun p => by
      rw [words, hsign, hlevel, if_neg (by simp)]
    refine (operand_of_core (by decide) (fun l _ => hwords _) hopens hreturns
      fun _ => hreturns.reaches_negation).parsed ?_
    rw [hwords, hwords]
    rfl

theorem Parsed.binary (op : BinaryOp) (hx : Parsed x) (hy : Parsed y) : Parsed (binary op x y) := by
  have hdenotes : ∀ e, (∃ a b, x.Denotes a ∧ y.Denotes b ∧ e = .binary a op b {}) → (Term.binary op x y).Denotes e := by
    rintro _ ⟨a, b, ha, hb, rfl⟩
    exact .binary ha hb
  by_cases hop : op = .power
  · subst hop
    have hreaches := ((hx.reaches 14 (by decide) (by decide)).power hy.exponent (hx.ne_nil (by decide))
      hy.exponent_ne).imp hdenotes
    exact parsed_of_reaches (by decide) (fun l _ => rfl) rfl
      (opens_append (opens_append (hx.opens 14 (by decide)) _) _) hreaches
  · have hlevel := level_le hop
    have hle : binaryLevel op + 1 ≤ 16 := by unfold binaryLevel; omega
    have hloop : IsLoop (binaryLevel op) := by constructor <;> unfold binaryLevel <;> omega
    have hreaches := ((hx.reaches _ (by omega) hloop).binary hop (hy.returns _ hle) (hx.ne_nil (by omega))
      (hy.ne_nil hle)).imp hdenotes
    have hwords : ∀ p, (Term.binary op x y).words p =
        p.enclose (binaryLevel op) (x.words (.level (binaryLevel op)) ++ op.words ++ y.words (.level (binaryLevel op + 1))) :=
      fun p => by rw [words, if_neg hop]
    refine parsed_of_reaches ⟨by omega, hloop⟩ (fun l _ => hwords _) ?_
      (opens_append (opens_append (hx.opens _ (by omega)) _) _) hreaches
    rw [hwords, hwords]
    rfl

theorem Parsed.typeTest (h : Parsed x) (negated : Bool) (t : TypeTerm) : Parsed (typeTest x negated t) := by
  refine parsed_of_reaches (m := 15) (by decide) (fun l _ => rfl) rfl
    (opens_append (opens_append (h.opens 15 (by decide)) _) _) ?_
  refine ((h.reaches 15 (by decide) (by decide)).typeTest).imp ?_
  rintro _ ⟨e, spec, he, hspec, rfl⟩
  exact .typeTest he hspec

theorem Parsed.cond (hx : Parsed x) (hy : Parsed y) (hz : Parsed z) : Parsed (cond x y z) := by
  have hopens := opens_append (opens_append (hx.opens 2 (by decide)) (.symbol .ifKw :: y.words (.level 2)))
    (.symbol .elseKw :: z.words (.level 1))
  have hreturns := (hx.returns 2 (by decide)).cond (hy.returns 2 (by decide)) (hz.returns 1 (by decide))
    (hx.ne_nil (by decide)) (hz.ne_nil (by decide))
  refine (operand_of_core (m := 1) (by decide) (fun l _ => rfl) (hopens.mono (by decide)) (hreturns.imp ?_)
    fun hloop => absurd rfl hloop.1).parsed rfl
  rintro _ ⟨a, b, c, ha, hb, hc, rfl⟩
  exact .cond ha hb hc

theorem Parsed.cast (h : Parsed x) (t : TypeTerm) : Parsed (cast x t) := by
  refine parsed_of_reaches (m := 0) (by decide) (fun l _ => rfl) rfl (opens_append (h.opens 0 (by decide)) _) ?_
  refine ((h.reaches 0 (by decide) (by decide)).cast).imp ?_
  rintro _ ⟨e, spec, he, hspec, rfl⟩
  exact .cast he hspec

theorem lists_nil : Lists (listWords []) (DenoteAll []) := by
  intro d s ts rest c n _ hts _ hc hn
  obtain rfl := List.map_eq_nil_iff.1 hts
  obtain ⟨n, rfl⟩ : ∃ n', n = n' + 1 := ⟨n - 1, by simp at hn; omega⟩
  refine ⟨[], .nil, ?_⟩
  rw [List.nil_append, commaList, run_bind isAt_at, if_pos (by simp [hc])]
  rfl

theorem lists_cons {xs : List Term} (hx : Parsed x) (hxs : Lists (listWords xs) (DenoteAll xs)) :
    Lists (listWords (x :: xs)) (DenoteAll (x :: xs)) := by
  intro d s ts rest c n hs hts hd hc hn
  obtain ⟨us, vs, rfl, hus, hvs⟩ := tokens_append hts
  obtain ⟨w, ws, hws, hclose, -⟩ := hx.opens 0 (by decide)
  obtain ⟨t, us', hus', ht, -⟩ := tokens_cons (hws ▸ hus)
  have hkind : t.kind ≠ .closeParen := by
    rw [show t.kind = w.kind from congrArg Word.kind ht]
    exact hclose
  obtain ⟨n, rfl⟩ : ∃ n', n = n' + 1 := ⟨n - 1, by omega⟩
  simp only [List.length_append] at hd hn
  have hat : (isAt .closeParen).run (s.at (us ++ vs ++ c :: rest)) = .ok (false, s.at (us ++ vs ++ c :: rest)) := by
    rw [hus']
    simp only [List.cons_append]
    rw [isAt_at, decide_eq_false hkind]
  cases xs with
  | nil =>
    obtain rfl := List.map_eq_nil_iff.1 hvs
    obtain ⟨e, he, hrun⟩ := (hx.returns 0 (by decide)).expr (hx.ne_nil (by decide)) d (c :: rest) hs hus
      (by omega) (stops_of_kind (by simp [hc]))
    refine ⟨[e], .cons he .nil, ?_⟩
    rw [List.append_nil] at hat ⊢
    rw [commaList, run_bind hat, if_neg (by simp), run_bind hrun, run_bind (accept_other (by simp [hc]))]
    rfl
  | cons y ys =>
    obtain ⟨o, vs, rfl, ho, hvs⟩ := tokens_cons hvs
    have ho := kind_of_symbol ho
    simp only [List.length_cons] at hd hn
    obtain ⟨e, he, hrun⟩ := (hx.returns 0 (by decide)).expr (hx.ne_nil (by decide)) d
      (o :: (vs ++ c :: rest)) hs hus (by omega) (stops_of_kind (by simp [ho]))
    obtain ⟨es, hes, hlist⟩ := hxs d s vs rest c n hs hvs (by omega) hc (by omega)
    refine ⟨e :: es, .cons he hes, ?_⟩
    rw [List.append_assoc, List.cons_append] at hat ⊢
    rw [commaList, run_bind hat, if_neg (by simp), run_bind hrun, run_bind (accept_at ho (by simp)), if_pos rfl,
      run_bind hlist]
    rfl

end Parts

mutual

/-- **The words of a term are parsed back** at each position. -/
theorem parsed : ∀ x : Term, Parsed x
  | name n => parsed_name n
  | literal w => parsed_literal w
  | group x => (parsed x).group
  | call f args => (parsed f).call (lists_parsed args)
  | index x y => (parsed x).index (parsed y)
  | member x n => (parsed x).member n
  | unary op x => (parsed x).unary op
  | binary op x y => (parsed x).binary op (parsed y)
  | typeTest x negated t => (parsed x).typeTest negated t
  | cond x y z => (parsed x).cond (parsed y) (parsed z)
  | cast x t => (parsed x).cast t

theorem lists_parsed : ∀ xs : List Term, Lists (listWords xs) (DenoteAll xs)
  | [] => lists_nil
  | x :: xs => lists_cons (parsed x) (lists_parsed xs)

end

end Term

namespace Parse

/-- A sole expression up to the end of its text. -/
theorem soleExpr_at {sub : Subparsers} {s : State} {ts : List Token} {t : Token} {e : Expr} (ht : t.kind = .endOfFile)
    (h : (expr sub).run (s.at (ts ++ [t])) = .ok (e, s.at [t])) :
    (soleExpr sub).run (s.at (ts ++ [t])) = .ok (e, s.at [t]) := by
  have hbegin : begin.run (s.at (ts ++ [t])) = .ok ((), s.at (ts ++ [t])) := by
    show (if (ts ++ [t]).isEmpty = true then _ else _ : Parser Unit).run (s.at (ts ++ [t])) = _
    rw [if_neg (by simp)]
    rfl
  rw [soleExpr, run_bind hbegin, run_bind h, run_bind (accept_other (by simp [ht])), run_bind current_at,
    if_neg (by simp [ht])]
  rfl

end Parse

/-- **The text of an expression is parsed back** to a tree of it: a syntax tree that differs in its places only. -/
theorem Expr.parse_text (x : Term) : ∃ e, Expr.parse x.text = .ok e ∧ x.Denotes e := by
  obtain ⟨w, ws, hws, -⟩ := (Term.parsed x).opens 0 (by decide)
  have hbalanced := x.words_balanced (.level 0)
  have hreturns := (Term.parsed x).returns 0 (by decide)
  rw [hws] at hbalanced hreturns
  obtain ⟨ts, t, hscan, hts, hend⟩ := Scan.scan_words hbalanced
  have hstops : Parse.Stops 0 [t] := Parse.stops_of_kind (by simp [hend])
  obtain ⟨e, he, hrun⟩ := hreturns ((ts ++ [t]).length + 1) { tokens := ts ++ [t], fault := none, hasFile := false } ts [t]
    rfl hts (by rw [List.length_append]; omega) hstops
  rw [Parse.settle, if_pos (by decide), hstops.joined_eq (by decide)] at hrun
  refine ⟨e, ?_, he⟩
  have hsole : (Parse.soleExpr (Parse.subparsers ((ts ++ [t]).length + 1))).run
      { tokens := ts ++ [t], fault := none, hasFile := false } = .ok (e, _) := Parse.soleExpr_at hend hrun
  rw [Expr.parse, Parse.onText, Term.text, hws, hscan]
  dsimp only
  rw [hsole]
  rfl

end GameScript
