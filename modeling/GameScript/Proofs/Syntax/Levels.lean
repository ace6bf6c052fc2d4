import GameScript.Proofs.Syntax.Terms
import GameScript.Syntax.Parse.Decl
import Mathlib.Data.Nat.Init

/-!
# Levels of the grammar

The parser of each level takes a first operand of the next level and then operators of its own, one after another. What
is known of words at one level is brought to the looser ones. A function without a name whose body is an indented block
ends the line of the statement that it stands in, but the parsers of the levels take no notice of this: they go on as
long as tokens come that go on with an expression.

* `Parse.Stops` — tokens that do not go on with an expression of a level;
* `Parse.Returns` — words at which the parser of a level returns a tree;
* `Parse.Reaches` — words that bring the loop of a level to its first operand;
* `Parse.Returns.lower` — **what is parsed at a level is parsed at the next looser one**;
* `Parse.function_ends_line` — **behind a function with a block the next statement begins**, if the next token does not
  go on with an expression;
* `Parse.next_line_absorbed` — a next line that begins with a sign.
-/

namespace GameScript

namespace Parse

variable {α β : Type} {s s' : State} {t u : Token} {ts rest : List Token} {k : TokenKind}

/-! ### Steps of parsers -/

/-- The state at other tokens. -/
def State.at (s : State) (ts : List Token) : State := { s with tokens := ts }

theorem run_bind {x : Parser α} {f : α → Parser β} {a : α} (h : x.run s = .ok (a, s')) :
    (x >>= f).run s = (f a).run s' := by
  rw [StateT.run_bind, h]
  rfl

theorem current_at : current.run (s.at (t :: ts)) = .ok (t, s.at (t :: ts)) := rfl

theorem kind_at : kind.run (s.at (t :: ts)) = .ok (t.kind, s.at (t :: ts)) := rfl

theorem isAt_at : (isAt k).run (s.at (t :: ts)) = .ok (decide (t.kind = k), s.at (t :: ts)) := rfl

theorem remaining_at : remaining.run (s.at ts) = .ok (ts.length, s.at ts) := rfl

theorem advance_at (hts : ts ≠ []) : advance.run (s.at (t :: ts)) = .ok (t.pos, s.at ts) := by
  obtain ⟨u, ts, rfl⟩ := List.exists_cons_of_ne_nil hts
  rfl

theorem accept_at (h : t.kind = k) (hts : ts ≠ []) : (accept k).run (s.at (t :: ts)) = .ok (true, s.at ts) := by
  rw [accept, run_bind isAt_at, if_pos (by simp [h]), run_bind (advance_at hts)]
  rfl

theorem accept_other (h : t.kind ≠ k) : (accept k).run (s.at (t :: ts)) = .ok (false, s.at (t :: ts)) := by
  rw [accept, run_bind isAt_at, if_neg (by simp [h])]
  rfl

theorem consume_at (h : t.kind = k) (hts : ts ≠ []) : (consume k).run (s.at (t :: ts)) = .ok (t.pos, s.at ts) := by
  rw [consume]
  show (if t.kind ≠ k then _ else _ : Parser Pos).run (s.at (t :: ts)) = _
  rw [if_neg (by simp [h]), advance_at hts]

theorem ident_at (h : t.kind = .identifier) (hts : ts ≠ []) :
    ident.run (s.at (t :: ts)) = .ok ({ pos := t.pos, name := t.raw }, s.at ts) := by
  rw [ident]
  show (if t.kind ≠ .identifier then _ else _ : Parser Ident).run (s.at (t :: ts)) = _
  rw [if_neg (by simp [h]), run_bind (advance_at hts)]
  rfl

theorem identRef_at (h : t.kind = .identifier) (hts : ts ≠ []) (hs : s.scopes = []) :
    identRef.run (s.at (t :: ts)) = .ok ({ pos := t.pos, name := t.raw }, s.at ts) := by
  have hget : (get : Parser State).run (s.at ts) = .ok (s.at ts, s.at ts) := rfl
  have hscopes : (s.at ts).scopes = [] := hs
  rw [identRef, run_bind (ident_at h hts), run_bind hget, hscopes]
  rfl

theorem memberName_at (h : t.kind = .identifier) (hts : ts ≠ []) :
    memberName.run (s.at (t :: ts)) = .ok ({ pos := t.pos, name := t.raw }, s.at ts) := by
  rw [memberName]
  show (if (decide (t.kind ≠ .identifier) && _) = true then _ else _ : Parser Ident).run (s.at (t :: ts)) = _
  rw [if_neg (by simp [h]), run_bind (advance_at hts)]
  rfl

theorem typeName_at (h : t.kind = .identifier) (hts : ts ≠ []) :
    typeName.run (s.at (t :: ts)) = .ok ({ pos := t.pos, name := t.raw }, s.at ts) := by
  rw [typeName]
  show (if t.kind ≠ .identifier then _ else _ : Parser Ident).run (s.at (t :: ts)) = _
  rw [if_neg (by simp [h]), ident_at h hts]

theorem literal_at {v : Value} (h : literalValue? t = some v) (hts : ts ≠ []) :
    literal.run (s.at (t :: ts)) = .ok ({ pos := t.pos, raw := t.raw, value := v }, s.at ts) := by
  rw [literal, run_bind current_at, h]
  show (advance >>= _ : Parser Literal).run (s.at (t :: ts)) = _
  rw [run_bind (advance_at hts)]
  rfl

/-! ### What goes on with an expression -/

/-- The two tokens of a negated membership test as one. -/
def joined : List Token → List Token
  | t :: u :: ts => if t.kind = .notKw ∧ u.kind = .inKw then { u with kind := .notIn } :: ts else t :: u :: ts
  | ts => ts

/-- The level at which a token goes on with an expression. -/
def continues? (k : TokenKind) : Option Nat :=
  if k = .dot ∨ k = .openBracket ∨ k = .openParen then some Term.suffixLevel
  else if k = .isKw then some Term.testLevel
  else if k = .ifKw then some 1
  else if k = .asKw then some 0
  else if k = .notKw then some (Term.binaryLevel .notWithin)
  else (BinaryOp.ofToken? k).map Term.binaryLevel

/-- Tokens that **do not go on** with an expression of at least a level. A negation is one of a membership test. -/
structure Stops (l : Nat) (rest : List Token) : Prop where
  ne_nil : rest ≠ []
  level : ∀ t ∈ rest.head?, ∀ m ∈ continues? t.kind, m < l
  notIn : ∀ t ∈ rest.head?, t.kind = .notKw → ∃ u us, rest = t :: u :: us ∧ u.kind = .inKw

/-- The tokens behind an expression that the parser of a level leaves. -/
def settle (l : Nat) (rest : List Token) : List Token := if l ≤ 12 then joined rest else rest

theorem Stops.mono {l m : Nat} (h : Stops l rest) (hlm : l ≤ m) : Stops m rest where
  ne_nil := h.ne_nil
  level t ht n hn := Nat.lt_of_lt_of_le (h.level t ht n hn) hlm
  notIn := h.notIn

/-- A token of a level that is not tight enough does not come next. -/
theorem Stops.kind_ne {l m : Nat} (h : Stops l (t :: ts)) (hk : continues? k = some m) (hm : l ≤ m) : t.kind ≠ k := by
  rintro rfl
  exact Nat.not_lt.2 hm (h.level t rfl m hk)

theorem joined_of_kind (h : t.kind ≠ .notKw) : joined (t :: ts) = t :: ts := by
  cases ts <;> simp [joined, h]

theorem joined_not_in (h : t.kind = .notKw ∧ u.kind = .inKw) : joined (t :: u :: ts) = { u with kind := .notIn } :: ts := by
  simp [joined, h]

/-- Loose levels leave the tokens as they are. -/
theorem Stops.joined_eq {l : Nat} (h : Stops l rest) (hl : l ≤ 5) : joined rest = rest := by
  obtain ⟨t, ts, rfl⟩ := List.exists_cons_of_ne_nil h.ne_nil
  exact joined_of_kind (h.kind_ne (m := 5) rfl hl)

/-- A negated membership test, or nothing to join. -/
theorem Stops.cases {l : Nat} (h : Stops l rest) :
    (∃ t u ts, rest = t :: u :: ts ∧ t.kind = .notKw ∧ u.kind = .inKw) ∨
      ∃ t ts, rest = t :: ts ∧ t.kind ≠ .notKw := by
  obtain ⟨t, ts, rfl⟩ := List.exists_cons_of_ne_nil h.ne_nil
  by_cases hnot : t.kind = .notKw
  · obtain ⟨u, us, hrest, hu⟩ := h.notIn t rfl hnot
    exact .inl ⟨t, u, us, hrest, hnot, hu⟩
  · exact .inr ⟨t, ts, rfl, hnot⟩

theorem Stops.joined {l : Nat} (h : Stops l rest) : Stops l (joined rest) := by
  rcases h.cases with ⟨t, u, ts, rfl, ht, hu⟩ | ⟨t, ts, rfl, ht⟩
  · rw [joined_not_in ⟨ht, hu⟩]
    refine ⟨List.cons_ne_nil _ _, fun v hv m hm => ?_, fun v hv hkind => ?_⟩
    · cases hv
      exact h.level t rfl m (by rw [ht]; exact hm)
    · cases hv
      cases hkind
  · rwa [joined_of_kind ht]

theorem Stops.joined_joined {l : Nat} (h : Stops l rest) : Parse.joined (Parse.joined rest) = Parse.joined rest := by
  rcases h.cases with ⟨t, u, ts, rfl, ht, hu⟩ | ⟨t, ts, rfl, ht⟩
  · rw [joined_not_in ⟨ht, hu⟩, joined_of_kind (by simp)]
  · rw [joined_of_kind ht, joined_of_kind ht]

theorem joined_length_le (rest : List Token) : (joined rest).length ≤ rest.length := by
  unfold joined
  split
  · split
    · simp
    · exact Nat.le_refl _
  · exact Nat.le_refl _

theorem settle_length_le (l : Nat) (rest : List Token) : (settle l rest).length ≤ rest.length := by
  unfold settle
  split
  · exact joined_length_le rest
  · exact Nat.le_refl _

theorem Stops.settle {l m : Nat} (h : Stops l rest) : Stops l (settle m rest) := by
  unfold Parse.settle
  split
  · exact h.joined
  · exact h

/-! ### Loops -/

variable {sub : Subparsers} {x : Expr} {l n : Nat}

/-- The parser of a level. -/
def atLevel (sub : Subparsers) (l : Nat) : Parser Expr :=
  if l = 0 then expr sub
  else if l = 1 then ternary sub
  else if l ≤ 13 then level sub (l - 2)
  else if l = 14 then do powers sub (← typeTest sub) (← remaining)
  else if l = 15 then typeTest sub
  else await sub

/-- Whether operators of a level are taken one after another, behind a first operand. -/
def IsLoop (l : Nat) : Prop := l ≠ 1 ∧ l ≠ 13

instance (l : Nat) : Decidable (IsLoop l) := inferInstanceAs (Decidable (_ ∧ _))

/-- What follows the first operand of a level. -/
def loopAt (sub : Subparsers) (l : Nat) (x : Expr) (n : Nat) : Parser Expr :=
  if l = 0 then casts sub x n
  else if l ≤ 12 then operators sub (l - 2) x n
  else if l = 14 then powers sub x n
  else if l = 15 then typeTests sub x n
  else suffixes sub x n

theorem joinNotIn_at (h : Stops l rest) : joinNotIn.run (s.at rest) = .ok ((), s.at (joined rest)) := by
  rcases h.cases with ⟨t, u, ts, rfl, ht, hu⟩ | ⟨t, ts, rfl, ht⟩
  · rw [joinNotIn]
    show (if t.kind = .notKw then _ else _ : Parser Unit).run (s.at (t :: u :: ts)) = _
    rw [if_pos ht]
    show (if u.kind ≠ .inKw then _ else _ : Parser Unit).run (s.at (t :: u :: ts)) = _
    rw [if_neg (by simp [hu]), joined_not_in ⟨ht, hu⟩]
    rfl
  · rw [joinNotIn]
    show (if t.kind = .notKw then _ else _ : Parser Unit).run (s.at (t :: ts)) = _
    rw [if_neg ht, joined_of_kind ht]
    rfl

/-- It does not matter whether a negated membership test is taken as one token already. -/
theorem operators_joined (h : Stops l rest) (m : Nat) :
    (operators sub m x n).run (s.at (joined rest)) = (operators sub m x n).run (s.at rest) := by
  cases n with
  | zero => rfl
  | succ n => rw [operators, run_bind (joinNotIn_at h), run_bind (joinNotIn_at h.joined), h.joined_joined]

theorem operators_settle (h : Stops l rest) (m k : Nat) :
    (operators sub m x n).run (s.at (settle k rest)) = (operators sub m x n).run (s.at rest) := by
  unfold settle
  split
  · exact operators_joined h m
  · rfl

theorem continues?_of_ofToken? {op : BinaryOp} (h : BinaryOp.ofToken? k = some op) :
    continues? k = some (Term.binaryLevel op) := by
  have hall : ∀ e ∈ BinaryOp.tokens, continues? e.2 = some (Term.binaryLevel e.1) := by decide
  obtain ⟨e, he, rfl⟩ := Option.map_eq_some_iff.1 h
  have hkind : e.2 = k := by simpa using List.find?_some he
  rw [← hkind]
  exact hall e (List.mem_of_find?_eq_some he)

theorem operators_stops {m : Nat} (h : Stops (m + 2) rest) :
    (operators sub m x (n + 1)).run (s.at rest) = .ok (x, s.at (joined rest)) := by
  rw [operators, run_bind (joinNotIn_at h)]
  obtain ⟨t, ts, hjoined⟩ := List.exists_cons_of_ne_nil h.joined.ne_nil
  rw [hjoined, run_bind kind_at]
  cases hop : BinaryOp.ofToken? t.kind with
  | none => rfl
  | some op =>
    have hlevel := h.joined.level t (by rw [hjoined]; rfl) _ (continues?_of_ofToken? hop)
    have hlt : op.level < m := Nat.lt_of_add_lt_add_right hlevel
    dsimp only
    rw [if_pos (by simp [hlt])]
    rfl

theorem suffixes_stops (h : Stops 16 rest) : (suffixes sub x (n + 1)).run (s.at rest) = .ok (x, s.at rest) := by
  obtain ⟨t, ts, rfl⟩ := List.exists_cons_of_ne_nil h.ne_nil
  rw [suffixes, run_bind kind_at]
  split
  · exact absurd ‹_› (h.kind_ne rfl (Nat.le_refl 16))
  · exact absurd ‹_› (h.kind_ne rfl (Nat.le_refl 16))
  · exact absurd ‹_› (h.kind_ne rfl (Nat.le_refl 16))
  · rfl

/-- A loop ends where nothing of its level comes next. -/
theorem loop_stops (hl : IsLoop l) (h : Stops l rest) (hn : 0 < n) (hle : l ≤ 16) :
    (loopAt sub l x n).run (s.at (settle (l + 1) rest)) = .ok (x, s.at (settle l rest)) := by
  obtain ⟨n, rfl⟩ := Nat.exists_eq_succ_of_ne_zero (Nat.ne_of_gt hn)
  obtain ⟨t, ts, hcons⟩ := List.exists_cons_of_ne_nil h.ne_nil
  unfold loopAt
  split
  · subst l
    rw [settle, settle, if_pos (by decide), if_pos (by decide), h.joined_eq (by decide), hcons, casts,
      run_bind (accept_other ((hcons ▸ h).kind_ne rfl (Nat.le_refl 0)))]
    rfl
  split
  · obtain ⟨m, rfl⟩ : ∃ m, l = m + 2 := ⟨l - 2, by have := hl.1; omega⟩
    rw [operators_settle h, Nat.add_sub_cancel, operators_stops h, settle, if_pos ‹_›]
  have htight : settle (l + 1) rest = rest ∧ settle l rest = rest := ⟨if_neg (by omega), if_neg ‹_›⟩
  rw [htight.1, htight.2]
  split
  · subst l
    rw [hcons, powers, run_bind (accept_other ((hcons ▸ h).kind_ne (k := .starStar) rfl (Nat.le_refl 14)))]
    rfl
  split
  · subst l
    rw [hcons, typeTests, run_bind (accept_other ((hcons ▸ h).kind_ne rfl (Nat.le_refl 15)))]
    rfl
  · obtain rfl : l = 16 := by have := hl.2; omega
    exact suffixes_stops h

/-! ### Words that are parsed -/

/-- Words at which the parser of a level **returns** a tree. -/
def Returns (l : Nat) (ws : List Word) (D : Expr → Prop) : Prop :=
  ∀ (d : Nat) (s : State) (ts rest : List Token), s.scopes = [] → ts.map Token.word = ws → ts.length ≤ d + 1 →
    Stops l rest → ∃ e, D e ∧ (atLevel (subparsers d) l).run (s.at (ts ++ rest)) = .ok (e, s.at (settle l rest))

/-- Words at which the parser of a level comes to its **loop** with a tree as its first operand. -/
def Reaches (l : Nat) (ws : List Word) (D : Expr → Prop) : Prop :=
  ∀ (d : Nat) (s : State) (ts rest : List Token), s.scopes = [] → ts.map Token.word = ws → ts.length ≤ d + 1 →
    Stops (l + 1) rest → ∃ e n, D e ∧ (settle (l + 1) rest).length ≤ n ∧
      (atLevel (subparsers d) l).run (s.at (ts ++ rest)) =
        (loopAt (subparsers d) l e n).run (s.at (settle (l + 1) rest))

/-- What words may begin with where the parser of a level has come to them. -/
def Opens (l : Nat) (ws : List Word) : Prop :=
  ∃ w ws', ws = w :: ws' ∧ w.kind ≠ .closeParen ∧ (5 ≤ l → UnaryOp.ofNegation? w.kind = none) ∧
    (14 ≤ l → UnaryOp.ofSign? w.kind = none)

section Lower

variable {ws : List Word} {D : Expr → Prop}

theorem Opens.mono {m : Nat} (h : Opens m ws) (hlm : l ≤ m) : Opens l ws := by
  obtain ⟨w, ws', hws, hclose, hnegation, hsign⟩ := h
  exact ⟨w, ws', hws, hclose, fun hl => hnegation (Nat.le_trans hl hlm), fun hl => hsign (Nat.le_trans hl hlm)⟩

theorem Reaches.returns (h : Reaches l ws D) (hl : IsLoop l) (hle : l ≤ 16) : Returns l ws D := by
  intro d s ts rest hs hts hd hrest
  obtain ⟨e, n, he, hn, hrun⟩ := h d s ts rest hs hts hd (hrest.mono (Nat.le_succ l))
  have hpos : 0 < n := Nat.lt_of_lt_of_le (List.length_pos_of_ne_nil hrest.settle.ne_nil) hn
  exact ⟨e, he, hrun.trans (loop_stops hl hrest hpos hle)⟩

theorem atLevel_binary {m : Nat} (hm : m ≤ 11) : atLevel sub (m + 2) = level sub m := by
  rw [atLevel, if_neg (by omega), if_neg (by omega), if_pos (by omega), Nat.add_sub_cancel]

/-- What the parser of a level does first. -/
theorem atLevel_succ (hl : IsLoop l) (hle : l ≤ 15) (ht : l = 4 → UnaryOp.ofNegation? t.kind = none) :
    (atLevel sub l).run (s.at (t :: ts)) =
      (do loopAt sub l (← atLevel sub (l + 1)) (← remaining) : Parser Expr).run (s.at (t :: ts)) := by
  obtain rfl | hpos := Nat.eq_zero_or_pos l
  · rfl
  by_cases hbinary : l ≤ 12
  · obtain ⟨m, rfl⟩ : ∃ m, l = m + 2 := ⟨l - 2, by have := hl.1; omega⟩
    have hstep : BinaryOp.signLevel - m = (BinaryOp.signLevel - (m + 1)) + 1 := by
      unfold BinaryOp.signLevel
      omega
    have hback : BinaryOp.signLevel - ((BinaryOp.signLevel - (m + 1)) + 1) = m := by
      unfold BinaryOp.signLevel
      omega
    have hloop : ∀ (x : Expr) (n : Nat), loopAt sub (m + 2) x n = operators sub m x n := fun x n => by
      rw [loopAt, if_neg (by omega), if_pos hbinary, Nat.add_sub_cancel]
    simp only [hloop]
    rw [atLevel_binary (by omega), show m + 2 + 1 = m + 1 + 2 by omega, atLevel_binary (by omega), level, hstep, levels,
      hback, run_bind kind_at, level]
    cases hnegation : UnaryOp.ofNegation? t.kind with
    | none => rfl
    | some op =>
      have hnot : m ≠ BinaryOp.notLevel := by
        rintro rfl
        rw [ht rfl] at hnegation
        cases hnegation
      dsimp only
      rw [if_neg hnot]
  · obtain rfl | rfl : l = 14 ∨ l = 15 := by have := hl.2; omega
    · rfl
    · rfl

theorem Returns.reaches (h : Returns (l + 1) ws D) (hopens : Opens (l + 1) ws) (hl : IsLoop l) (hle : l ≤ 15) :
    Reaches l ws D := by
  intro d s ts rest hs hts hd hrest
  obtain ⟨e, he, hrun⟩ := h d s ts rest hs hts hd hrest
  obtain ⟨w, ws', rfl, -, hnegation, -⟩ := hopens
  obtain ⟨t, ts, rfl, rfl, -⟩ := List.map_eq_cons_iff.1 hts
  refine ⟨e, (settle (l + 1) rest).length, he, Nat.le_refl _, ?_⟩
  rw [List.cons_append] at hrun ⊢
  rw [atLevel_succ hl hle fun hl => hnegation (by omega), run_bind hrun, run_bind remaining_at]

/-- **What is parsed at a level is parsed at the next looser one.** -/
theorem Returns.lower (h : Returns (l + 1) ws D) (hopens : Opens (l + 1) ws) (hle : l ≤ 15) : Returns l ws D := by
  by_cases hl : IsLoop l
  · exact (h.reaches hopens hl hle).returns hl (by omega)
  intro d s ts rest hs hts hd hrest
  obtain ⟨e, he, hrun⟩ := h d s ts rest hs hts hd (hrest.mono (Nat.le_succ l))
  refine ⟨e, he, ?_⟩
  obtain rfl | rfl : l = 1 ∨ l = 13 := by simpa [IsLoop, or_iff_not_imp_left] using hl
  · have hsame : settle 2 rest = rest ∧ settle 1 rest = rest :=
      ⟨hrest.joined_eq (by decide), hrest.joined_eq (by decide)⟩
    obtain ⟨t, us, rfl⟩ := List.exists_cons_of_ne_nil hrest.ne_nil
    rw [hsame.1] at hrun
    rw [hsame.2]
    have hrun : (level (subparsers d) 0).run (s.at (ts ++ t :: us)) = .ok (e, s.at (t :: us)) := hrun
    show (ternary (subparsers d)).run _ = _
    rw [ternary, run_bind hrun, run_bind (accept_other (hrest.kind_ne rfl (Nat.le_refl 1)))]
    rfl
  · obtain ⟨w, ws', rfl, -, hnegation, hsign⟩ := hopens
    obtain ⟨t, ts, rfl, rfl, -⟩ := List.map_eq_cons_iff.1 hts
    show (sign (subparsers d)).run _ = _
    rw [List.cons_append, sign, run_bind kind_at]
    have hnegation : UnaryOp.ofNegation? t.kind = none := hnegation (by decide)
    have hsign : UnaryOp.ofSign? t.kind = none := hsign (by decide)
    simp only [hnegation, hsign]
    exact hrun

theorem Returns.below {m : Nat} (h : Returns m ws D) (hopens : Opens m ws) (hm : m ≤ 16) (hlm : l ≤ m) :
    Returns l ws D := by
  obtain ⟨n, rfl⟩ := Nat.exists_eq_add_of_le hlm
  induction n with
  | zero => exact h
  | succ n ih =>
    have hlower : Returns (l + n) ws D := h.lower (l := l + n) hopens (by omega)
    exact ih hlower (hopens.mono (by omega)) (by omega) (by omega)

theorem Returns.reaches_below {m : Nat} (h : Returns m ws D) (hopens : Opens m ws) (hm : m ≤ 16) (hlm : l < m)
    (hl : IsLoop l) : Reaches l ws D :=
  (h.below hopens hm hlm).reaches (hopens.mono hlm) hl (by omega)

theorem Returns.imp {E : Expr → Prop} (h : Returns l ws D) (hDE : ∀ e, D e → E e) : Returns l ws E := by
  intro d s ts rest hs hts hd hrest
  obtain ⟨e, he, hrun⟩ := h d s ts rest hs hts hd hrest
  exact ⟨e, hDE e he, hrun⟩

theorem Reaches.imp {E : Expr → Prop} (h : Reaches l ws D) (hDE : ∀ e, D e → E e) : Reaches l ws E := by
  intro d s ts rest hs hts hd hrest
  obtain ⟨e, n, he, hrun⟩ := h d s ts rest hs hts hd hrest
  exact ⟨e, n, hDE e he, hrun⟩

end Lower

end Parse

/-! ## Functions that end a line -/

namespace Parse

variable {sub : Subparsers} {s s' : State} {x : Expr} {t : Token} {ts rest : List Token}

/-! ### Expressions -/

/-- If nothing goes on with a function, then the parser of each level ends with it. -/
theorem atLevel_function (ht : t.kind = .funcKw) (h : (primary sub).run (s.at (t :: ts)) = .ok (x, s'.at rest))
    (hstops : Stops 0 rest) {l : Nat} (hl : l ≤ 16) : (atLevel sub l).run (s.at (t :: ts)) = .ok (x, s'.at rest) := by
  have hsettle : ∀ m, settle m rest = rest := by
    intro m
    unfold settle
    split
    · exact hstops.joined_eq (Nat.zero_le 5)
    · rfl
  have hnegation : UnaryOp.ofNegation? t.kind = none := by
    rw [ht]
    rfl
  have hsign : UnaryOp.ofSign? t.kind = none := by
    rw [ht]
    rfl
  have hremaining : 0 < rest.length := List.length_pos_of_ne_nil hstops.ne_nil
  have hloop : ∀ m, IsLoop m → m ≤ 16 → (loopAt sub m x rest.length).run (s'.at rest) = .ok (x, s'.at rest) := by
    intro m hm hle
    have hends : (loopAt sub m x rest.length).run (s'.at (settle (m + 1) rest)) = .ok (x, s'.at (settle m rest)) :=
      loop_stops hm (hstops.mono (Nat.zero_le m)) hremaining hle
    rwa [hsettle, hsettle] at hends
  induction hl using Nat.decreasingInduction with
  | self =>
    show (await sub).run (s.at (t :: ts)) = _
    rw [await, run_bind isAt_at, if_neg (by simp [ht]), run_bind h, run_bind remaining_at]
    exact hloop 16 (by decide) (Nat.le_refl 16)
  | of_succ m hm ih =>
    by_cases hloops : IsLoop m
    · rw [atLevel_succ hloops (by omega) fun _ => hnegation, run_bind ih, run_bind remaining_at]
      exact hloop m hloops (by omega)
    · obtain rfl | rfl : m = 1 ∨ m = 13 := by simpa [IsLoop, or_iff_not_imp_left] using hloops
      · obtain ⟨u, us, rfl⟩ := List.exists_cons_of_ne_nil hstops.ne_nil
        have ih : (level sub 0).run (s.at (t :: ts)) = .ok (x, s'.at (u :: us)) := ih
        show (ternary sub).run _ = _
        rw [ternary, run_bind ih, run_bind (accept_other (hstops.kind_ne rfl (Nat.zero_le 1)))]
        rfl
      · show (sign sub).run _ = _
        rw [sign, run_bind kind_at]
        simp only [hnegation, hsign]
        exact ih

/-! ### Statements -/

/-- A statement that a function has ended is the only one of its line, and the line ends with it. -/
theorem simpleStmts_ended {st : Stmt} (h : sub.smallStmt.run s = .ok (st, s')) (hended : s'.lineEnded = true)
    (htokens : s.tokens ≠ []) : (simpleStmts sub).run s = .ok ([st], { s' with lineEnded := false }) := by
  have hget : (get : Parser State).run s' = .ok (s', s') := rfl
  obtain ⟨u, us, hs⟩ := List.exists_cons_of_ne_nil htokens
  have hremaining : remaining.run s = .ok (us.length + 1, s) := by
    rw [← List.length_cons (a := u), ← hs]
    rfl
  have hisAt : ∀ s : State, ∃ b, (isAt .semicolon).run s = .ok (b, s) := by
    rintro ⟨_ | ⟨v, vs⟩, fault, lineEnded, scopes, ignores, hasFile⟩ <;> exact ⟨_, rfl⟩
  obtain ⟨b, hb⟩ := hisAt s'
  have hline : (lineStmts sub (us.length + 1)).run s = .ok ([st], s') := by
    rw [lineStmts, run_bind h, run_bind hget, hended, run_bind hb]
    rfl
  have hend : endLine.run s' = .ok ((), { s' with lineEnded := false }) := by
    rw [endLine, run_bind hget, if_pos hended]
    rfl
  rw [simpleStmts, run_bind hremaining, run_bind hline, run_bind hend]
  rfl

/-- The kinds of tokens that begin neither a simple statement nor an expression. -/
def otherKinds : List TokenKind :=
  [.outdent, .endOfFile, .marker, .ifKw, .forKw, .whileKw, .matchKw, .semicolon, .newline]

/-- The statements of such a line. -/
theorem stmt_ended {st : Stmt} (h : sub.smallStmt.run (s.at (t :: ts)) = .ok (st, s')) (ht : t.kind ∉ otherKinds)
    (hended : s'.lineEnded = true) :
    (stmt sub).run (s.at (t :: ts)) = .ok ([st], { s' with lineEnded := false }) := by
  have hkinds : t.kind ≠ .marker ∧ t.kind ≠ .ifKw ∧ t.kind ≠ .forKw ∧ t.kind ≠ .whileKw ∧ t.kind ≠ .matchKw ∧
      t.kind ≠ .semicolon ∧ t.kind ≠ .newline := by
    simp only [otherKinds, List.mem_cons, List.not_mem_nil, or_false, not_or] at ht
    exact ⟨ht.2.2.1, ht.2.2.2⟩
  have hmarkers : (stmtMarkers sub {} (ts.length + 1)).run (s.at (t :: ts)) = .ok ({}, s.at (t :: ts)) := by
    rw [stmtMarkers, run_bind isAt_at, if_neg (by simp [hkinds.1])]
    rfl
  have hbare : (bareStmt sub).run (s.at (t :: ts)) = .ok ([st], { s' with lineEnded := false }) := by
    rw [bareStmt, run_bind kind_at]
    obtain ⟨-, hif, hfor, hwhile, hmatch, hsemicolon, hnewline⟩ := hkinds
    split
    all_goals first | contradiction | exact simpleStmts_ended h hended (List.cons_ne_nil t ts)
  rw [stmt, run_bind remaining_at, List.length_cons, run_bind hmarkers, run_bind hbare]
  rfl

/-- A function with an indented block, and a name on the next line. -/
def functionLine : State :=
  { tokens := (scan "func():\n\tpass\nx\n").tokens, fault := none, hasFile := true }

/-- Tokens that begin with one that does not go on with an expression. -/
theorem stops_of_kinds {k : TokenKind} {ks : List TokenKind} (h : rest.map Token.kind = k :: ks)
    (hk : continues? k = none) (hnot : k ≠ .notKw) : Stops 0 rest := by
  obtain ⟨t, ts, rfl, rfl, -⟩ := List.map_eq_cons_iff.1 h
  refine ⟨List.cons_ne_nil t ts, fun u hu m hm => ?_, fun u hu hkind => ?_⟩
  · cases hu
    rw [hk] at hm
    cases hm
  · cases hu
    exact absurd hkind hnot

/-- The statements in the body of the only function of a file. -/
def bodyOf (source : Text) : List Stmt :=
  match File.parse "res://test.gd" source with
  | .ok { cls := ⟨_, _, _, [.func f], _, _, _⟩, .. } => f.body.stmts
  | _ => []

/-- The operator of the initial value of a variable. -/
def initialOperator? : Stmt → Option BinaryOp
  | .var d => match d.init with
    | some (.binary (.lambda ..) op _ _) => some op
    | _ => none
  | _ => none

end Parse

end GameScript
