import GameScript.Proofs.Syntax.Literals

/-!
# Reading terms back word by word

* `Scan.Balanced` — words that are read back one after another, with every bracket closed;
* `Term.words_balanced` — the words of a term are such words;
* `Scan.scan_words` — **the tokens of words** that are written with blanks between them.
-/

namespace GameScript

namespace Scan

/-! ### Symbols -/

theorem lexes_keyword {k : TokenKind} (h : TokenKind.keyword? k.name = some k) : Lexes (.symbol k) := by
  have hall : TokenKind.keywords.all (fun e => e.2.bytes.head?.any (fun b => isNameStart b.toNat) &&
      e.2.bytes.all fun b => isNamePart b.toNat && b < 128) = true := by
    decide
  obtain ⟨e, he, hkind⟩ := Option.map_eq_some_iff.1 h
  have hname : e.2 = k.name := by simpa using List.find?_some he
  obtain ⟨hfirst, hparts⟩ := Bool.and_eq_true_iff.1 (List.all_eq_true.1 hall e (List.mem_of_find?_eq_some he))
  rw [hname] at hfirst hparts
  cases hbs : k.name.bytes with
  | nil =>
    rw [hbs] at hfirst
    cases hfirst
  | cons b bs =>
    rw [hbs] at hfirst hparts
    have hpart : ∀ c ∈ b :: bs, isNamePart c.toNat = true ∧ c < 128 := fun c hc => by
      simpa using List.all_eq_true.1 hparts c hc
    have htext : k.name = ⟨b :: bs⟩ := by rw [← hbs]
    unfold Word.symbol
    rw [htext] at h ⊢
    exact lexes_name ⟨hfirst, (hpart b List.mem_cons_self).2⟩ (fun c hc => hpart c (List.mem_cons_of_mem b hc))
      (by rw [h]; rfl)

/-- The kinds of tokens with only one spelling. -/
def IsSymbol (k : TokenKind) : Prop :=
  TokenKind.keyword? k.name = some k ∨ (k.name.bytes, k) ∈ punctuation ∨
    (k.name.bytes, k) ∈ brackets.map (fun e => ([e.1], e.2)) ∨ k = .comma ∨ k = .dot

instance (k : TokenKind) : Decidable (IsSymbol k) := inferInstanceAs (Decidable (_ ∨ _))

theorem lexes_symbol {k : TokenKind} (h : IsSymbol k) : Lexes (.symbol k) := by
  rcases h with h | h | h | rfl | rfl
  · exact lexes_keyword h
  · exact lexes_mark h
  · obtain ⟨⟨b, k'⟩, hb, heq⟩ := List.mem_map.1 h
    obtain ⟨hname, rfl⟩ := Prod.mk.inj heq
    have htext : k'.name = ⟨[b]⟩ := by rw [show [b] = k'.name.bytes from hname]
    unfold Word.symbol
    rw [htext]
    exact lexes_bracket hb
  · exact lexes_comma
  · exact lexes_dot

/-! ### Balanced words -/

/-- Words that are read back one after another, where every bracket is closed. -/
structure Balanced (ws : List Word) : Prop where
  lexes : ∀ w ∈ ws, Lexes w
  nest : ∀ depth, ws.foldlM nest depth = some depth

section Balanced

variable {ws ws' : List Word} {w : Word}

theorem balanced_nil : Balanced [] := ⟨nofun, fun _ => rfl⟩

theorem Balanced.append (h : Balanced ws) (h' : Balanced ws') : Balanced (ws ++ ws') where
  lexes w hw := (List.mem_append.1 hw).elim (h.lexes w) (h'.lexes w)
  nest depth := by rw [List.foldlM_append, h.nest]; exact h'.nest depth

theorem balanced_plain (hw : Lexes w) (hplain : w.kind.isPlain = true) : Balanced [w] where
  lexes w' hw' := List.mem_singleton.1 hw' ▸ hw
  nest depth := by
    simp only [TokenKind.isPlain, Bool.not_eq_true', Bool.or_eq_false_iff] at hplain
    simp [Scan.nest, hplain]

theorem balanced_symbol {k : TokenKind} (h : IsSymbol k ∧ k.isPlain = true) : Balanced [.symbol k] :=
  balanced_plain (lexes_symbol h.1) h.2

/-- Brackets around balanced words. -/
theorem Balanced.enclose (h : Balanced ws) {k k' : TokenKind} (hk : IsSymbol k ∧ IsSymbol k')
    (hbrackets : k.isOpening = true ∧ k'.isOpening = false ∧ k'.isClosing = true) :
    Balanced (.symbol k :: ws ++ [.symbol k']) where
  lexes w hw := by
    rcases List.mem_append.1 hw with hw | hw
    · rcases List.mem_cons.1 hw with rfl | hw
      · exact lexes_symbol hk.1
      · exact h.lexes w hw
    · exact List.mem_singleton.1 hw ▸ lexes_symbol hk.2
  nest depth := by
    have hopen : Scan.nest depth (.symbol k) = some (depth + 1) := by simp [Scan.nest, Word.symbol, hbrackets.1]
    have hclose : Scan.nest (depth + 1) (.symbol k') = some depth := by
      simp [Scan.nest, Word.symbol, hbrackets.2.1, hbrackets.2.2]
    simp only [List.cons_append, List.foldlM_cons, List.foldlM_append, List.foldlM_nil, hopen, h.nest, hclose,
      Option.bind_eq_bind, Option.bind_some, Option.pure_def]

theorem Balanced.parens (h : Balanced ws) : Balanced (.symbol .openParen :: ws ++ [.symbol .closeParen]) :=
  h.enclose (by decide) (by decide)

theorem Balanced.brackets (h : Balanced ws) : Balanced (.symbol .openBracket :: ws ++ [.symbol .closeBracket]) :=
  h.enclose (by decide) (by decide)

end Balanced

/-! ### Words in a text -/

/-- The bytes of words with a blank in front of each. -/
def spaced (ws : List Word) : List UInt8 := ws.flatMap fun w => 32 :: w.raw.bytes

theorem join_bytes (w : Word) (ws : List Word) :
    (Text.join " " ((w :: ws).map Word.raw)).bytes = w.raw.bytes ++ spaced ws := by
  induction ws generalizing w with
  | nil => simp [Text.join, spaced]
  | cons w' ws ih =>
    have hblank : (" " : Text).bytes = [32] := by decide
    have hjoin := ih w'
    rw [List.map_cons] at hjoin
    simp only [List.map_cons, Text.join, Text.bytes_append, hjoin, hblank, spaced, List.flatMap_cons, List.append_assoc,
      List.cons_append, List.nil_append]

theorem spaced_breaks (ws : List Word) : Breaks (spaced ws) := by
  cases ws with
  | nil => exact .inl rfl
  | cons w ws => exact .inr ⟨_, rfl⟩

theorem length_le_spaced (ws : List Word) : ws.length ≤ (spaced ws).length := by
  induction ws with
  | nil => exact Nat.le_refl 0
  | cons w ws ih =>
    rw [spaced, List.flatMap_cons, List.length_append]
    rw [spaced] at ih
    simp only [List.length_cons]
    omega

section Reading

variable {s : State}

theorem skip_of_starts {c : Cursor} (h : Starts c) : c.skip isBlank = c := by
  refine Cursor.skip_of_peek (eq_false_of_ne_true fun hblank => h ?_)
  simp only [isBlank, Bool.or_eq_true, decide_eq_true_eq] at hblank
  rcases hblank with hblank | hblank <;> simp [hblank]

theorem beyond_of_starts {c : Cursor} (h : Starts c) : beyond c = c := by
  have hcomment : c.peek ≠ 35 := fun hpeek => h (by simp [hpeek])
  simp [beyond, skip_of_starts h, hcomment]

/-- A token that starts at the cursor is the next one. -/
theorem onward_of_starts (fuel : Nat) (atStart blank : Bool) (h : Starts s.cursor) :
    onward fuel atStart blank s = token s := by
  simp only [Starts, List.mem_cons, List.not_mem_nil, or_false, not_or] at h
  unfold onward
  rw [if_neg h.2.2.1, if_neg h.1, if_neg h.2.2.2.2.2]

/-- The first token of a text, where it begins without blanks. -/
theorem next_first (fuel : Nat) (h : s.lineStart = true ∧ s.pending = 0 ∧ s.depth = 0 ∧ s.indents = [0])
    (hstarts : Starts s.cursor) : next (fuel + 1) s = token { s with lineStart := false } := by
  obtain ⟨hline, hpending, hdepth, hindents⟩ := h
  have hnot := hstarts
  simp only [Starts, List.mem_cons, List.not_mem_nil, or_false, not_or] at hnot
  have hindentation : indentation s = .ok ({ s with lineStart := false }, false) := by
    have hblanks : s.cursor.until s.cursor = ⟨[]⟩ := (Cursor.Passes.refl s.cursor).until_eq
    simp only [indentation, skip_of_starts hstarts, hblanks, hnot, hdepth, hindents, hpending, column, closeBlocks]
    rfl
  rw [next_succ, if_pos hline, hindentation]
  show (if s.pending < 0 then _ else if 0 < s.pending then _ else _) = _
  rw [hpending, if_neg (by decide), if_neg (by decide)]
  have hbeyond : beyond s.cursor = s.cursor := beyond_of_starts hstarts
  simp only [hbeyond]
  exact onward_of_starts _ _ _ hstarts

/-- A token behind a blank. -/
theorem next_spaced (fuel : Nat) (h : s.lineStart = false ∧ s.pending = 0) {bs : List UInt8}
    (hrest : s.cursor.rest = 32 :: bs) (hstarts : Starts s.cursor.next) :
    next (fuel + 1) s = token { s with cursor := s.cursor.next } := by
  obtain ⟨hline, hpending⟩ := h
  have hpeek : s.cursor.peek = 32 := Cursor.peek_ascii hrest (by decide)
  have hskip : s.cursor.skip isBlank = s.cursor.next := by
    have hstop : s.cursor.next.skip isBlank = s.cursor.next := skip_of_starts hstarts
    unfold Cursor.skip at hstop ⊢
    rw [(Cursor.next_ascii hrest (by decide)).rest, List.length_append, List.length_singleton, Nat.add_comm,
      Cursor.skipFrom, if_pos (by simp [hrest, hpeek, isBlank]), hstop]
  have hcomment : s.cursor.next.peek ≠ 35 := fun hpeek => hstarts (by simp [hpeek])
  have hbeyond : beyond s.cursor = s.cursor.next := by simp [beyond, hskip, hcomment]
  rw [next_succ, if_neg (by simp [hline])]
  show (if s.pending < 0 then _ else if 0 < s.pending then _ else _) = _
  rw [if_neg (by omega), if_neg (by omega), hbeyond]
  exact @onward_of_starts { s with cursor := s.cursor.next } _ _ _ hstarts

theorem next_last (fuel : Nat) (h : s.lineStart = false ∧ s.pending = 0 ∧ s.indents = [0])
    (hrest : s.cursor.rest = []) : next (fuel + 1) s = .ok (layout .endOfFile s.cursor s.cursor, s) := by
  obtain ⟨hline, hpending, hindents⟩ := h
  have hpeek : s.cursor.peek = 0 := by simp [Cursor.peek, hrest]
  rw [next_succ, if_neg (by simp [hline])]
  show (if s.pending < 0 then _ else if 0 < s.pending then _ else _) = _
  rw [hpending, if_neg (by decide), if_neg (by decide), beyond_of_peek hpeek]
  unfold onward
  rw [if_neg (by simp [hpeek]), if_pos hpeek, if_neg (by simp [hindents])]
  rfl

end Reading

/-- Words behind blanks are read one after another, up to the end of the text. -/
theorem readAll_spaced (ws : List Word) : ∀ (fuel : Nat) (s : State) (depth : Nat), (∀ w ∈ ws, Lexes w) →
    ws.foldlM nest s.depth = some depth → s.lineStart = false ∧ s.pending = 0 ∧ s.indents = [0] →
    s.cursor.rest = spaced ws → ws.length < fuel → ∃ ts e, readAll fuel s = ⟨ts ++ [e], none⟩ ∧
      ts.map Token.word = ws ∧ e.kind = .endOfFile := by
  induction ws with
  | nil =>
    intro fuel s depth _ _ hs hrest hfuel
    cases fuel with
    | zero => omega
    | succ fuel => exact ⟨[], _, by rw [readAll, next_last _ hs hrest]; rfl, rfl, rfl⟩
  | cons w ws ih =>
    intro fuel s depth hlexes hnest hs hrest hfuel
    cases fuel with
    | zero => omega
    | succ fuel =>
      have hw := hlexes w List.mem_cons_self
      obtain ⟨depth', hdepth', hnest'⟩ := Option.bind_eq_some_iff.1 (by simpa using hnest)
      have hrest' : s.cursor.rest = 32 :: (w.raw.bytes ++ spaced ws) := by
        rw [hrest, spaced, List.flatMap_cons, List.cons_append, spaced]
      have hnext : s.cursor.next.rest = w.raw.bytes ++ spaced ws := by
        simpa [hrest'] using (Cursor.next_ascii hrest' (by decide)).rest.symm
      have hstarts : Starts s.cursor.next := hw.first _ _ hnext (spaced_breaks ws)
      obtain ⟨t, c, htoken, hword, hc⟩ := hw.token { s with cursor := s.cursor.next } _ _ hnext (spaced_breaks ws) hdepth'
      obtain ⟨ts, e, hread, hwords, hend⟩ := ih fuel { s with cursor := c, depth := depth' } depth
        (fun w hw => hlexes w (List.mem_cons_of_mem _ hw)) hnest' hs hc (by simpa using hfuel)
      have hkind : t.kind ≠ .endOfFile := (token_isWord _ _ htoken).2.1
      refine ⟨t :: ts, e, ?_, by rw [List.map_cons, hword, hwords], hend⟩
      rw [readAll, next_spaced _ ⟨hs.1, hs.2.1⟩ hrest' hstarts, htoken]
      dsimp only
      rw [if_neg hkind, hread]
      rfl

/-- **The tokens of words** that are written with blanks between them are these words. -/
theorem scan_words {w : Word} {ws : List Word} (h : Balanced (w :: ws)) :
    ∃ ts e, scan (.join " " ((w :: ws).map Word.raw)) = ⟨ts ++ [e], none⟩ ∧ ts.map Token.word = w :: ws ∧
      e.kind = .endOfFile := by
  have hbytes := join_bytes w ws
  generalize Text.join " " ((w :: ws).map Word.raw) = source at hbytes ⊢
  have hw := h.lexes w List.mem_cons_self
  obtain ⟨depth, hdepth, hnest⟩ := Option.bind_eq_some_iff.1 (by simpa using h.nest 0)
  have hstarts : Starts { rest := source.bytes } := hw.first _ _ hbytes (spaced_breaks ws)
  obtain ⟨t, c, htoken, hword, hc⟩ := hw.token { cursor := { rest := source.bytes }, lineStart := false } _ _ hbytes
    (spaced_breaks ws) hdepth
  have hlength := length_le_spaced ws
  have hsize : source.size = w.raw.bytes.length + (spaced ws).length := by
    rw [Text.size, hbytes, List.length_append]
  obtain ⟨ts, e, hread, hwords, hend⟩ := readAll_spaced ws (3 * source.size + 9)
    { cursor := c, depth, lineStart := false } 0 (fun w hw => h.lexes w (List.mem_cons_of_mem _ hw)) hnest
    ⟨rfl, rfl, rfl⟩ hc (by omega)
  have hkind : t.kind ≠ .endOfFile := (token_isWord _ _ htoken).2.1
  refine ⟨t :: ts, e, ?_, by rw [List.map_cons, hword, hwords], hend⟩
  rw [scan, readAll, next_first _ ⟨rfl, rfl, rfl, rfl⟩ hstarts, htoken]
  dsimp only
  rw [if_neg hkind, hread]
  rfl

end Scan

/-! ### The words of terms -/

open Scan

theorem Identifier.balanced (n : Identifier) : Balanced [n.word] := balanced_plain (lexes_identifier n) rfl

theorem pathWords_balanced (first : Identifier) (rest : List Identifier) : Balanced (pathWords first rest) := by
  refine first.balanced.append ?_
  induction rest with
  | nil => exact balanced_nil
  | cons n rest ih =>
    exact ((balanced_symbol (by decide)).append n.balanced).append ih

theorem TypeTerm.words_balanced (t : TypeTerm) : Balanced t.words := by
  induction t with
  | path first rest => exact pathWords_balanced first rest
  | of first rest element ih =>
    unfold TypeTerm.words
    rw [List.append_assoc]
    exact (pathWords_balanced first rest).append ih.brackets

theorem BinaryOp.words_balanced (op : BinaryOp) : Balanced op.words := by
  cases op
  case notWithin => exact (balanced_symbol (by decide)).append (balanced_symbol (by decide))
  all_goals exact balanced_symbol (by decide)

theorem UnaryOp.word_balanced (op : UnaryOp) : Balanced [op.word] := by
  cases op <;> exact balanced_symbol (by decide)

namespace Term

theorem Position.enclose_balanced (p : Position) (l : Nat) {ws : List Word} (h : Balanced ws) :
    Balanced (p.enclose l ws) := by
  unfold Position.enclose
  split
  · exact h.parens
  · exact h

mutual

/-- **The words of a term** are read back one after another. -/
theorem words_balanced : ∀ (x : Term) (p : Position), Balanced (x.words p)
  | name n, _ => n.balanced
  | literal w, _ => balanced_plain w.lexes w.isPlain
  | group x, _ => (words_balanced x _).parens
  | call f args, _ => by
    rw [words, List.append_assoc]
    exact (words_balanced f _).append (listWords_balanced args).parens
  | index x y, _ => by
    rw [words, List.append_assoc]
    exact (words_balanced x _).append (words_balanced y _).brackets
  | member x n, _ =>
    (words_balanced x _).append ((balanced_symbol (by decide)).append n.balanced)
  | unary op x, p => by
    rw [words]
    split
    · exact op.word_balanced.append (words_balanced x _)
    · exact p.enclose_balanced _ (op.word_balanced.append (words_balanced x _))
  | binary op x y, p =>
    p.enclose_balanced _ (((words_balanced x _).append op.words_balanced).append (words_balanced y _))
  | typeTest x negated t, p => by
    refine p.enclose_balanced _ ?_
    rw [List.append_assoc]
    refine (words_balanced x _).append (((balanced_symbol (by decide)).append ?_).append t.words_balanced)
    cases negated
    · exact balanced_nil
    · exact balanced_symbol (by decide)
  | cond x y z, p => by
    refine p.enclose_balanced _ (.append (.append (words_balanced x _) ?_) ?_)
    · exact (balanced_symbol (by decide)).append (words_balanced y _)
    · exact (balanced_symbol (by decide)).append (words_balanced z _)
  | cast x t, p => by
    refine p.enclose_balanced _ (.append (words_balanced x _) ?_)
    exact (balanced_symbol (by decide)).append t.words_balanced

theorem listWords_balanced : ∀ xs : List Term, Balanced (listWords xs)
  | [] => balanced_nil
  | x :: xs => (words_balanced x _).append (restWords_balanced xs)

theorem restWords_balanced : ∀ xs : List Term, Balanced (restWords xs)
  | [] => balanced_nil
  | x :: xs => by
    rw [restWords, List.cons_append]
    exact (balanced_symbol (by decide)).append ((words_balanced x _).append (restWords_balanced xs))

end

end Term

end GameScript
