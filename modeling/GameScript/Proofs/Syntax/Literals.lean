import GameScript.Proofs.Syntax.Extents
import GameScript.Proofs.Syntax.Likeness
import GameScript.Proofs.Syntax.Spelling

/-!
# Literals in a text

A literal that is read where it stands alone is read in front of a blank too.

* `Scan.Appended` — a cursor in a text and one in the same text with more behind it;
* `Scan.appended_likeness` — they are read alike if a blank comes first;
* `LiteralWord.lexes` — **literals are read back**.
-/

namespace GameScript

namespace Scan

/-! ### A text with more behind it -/

/-- A cursor with `rest` behind it, `k` bytes further on. -/
structure Appended (rest : List UInt8) (k : Nat) (c c' : Cursor) : Prop where
  rest : c'.rest = c.rest ++ rest
  offset : c'.offset = c.offset + k

section Appended

variable {rest : List UInt8} {k : Nat} {c c' d d' : Cursor}

/-- A blank is no part of a code point. -/
theorem readRune_append (hrest : Breaks rest) (b : UInt8) (bs : List UInt8) :
    Text.readRune b (bs ++ rest) = Text.readRune b bs := by
  have hblank : rest.takeWhile (128 ≤ ·) = [] := by
    rcases hrest with rfl | ⟨more, rfl⟩
    · rfl
    · exact List.takeWhile_cons_of_neg (by decide)
  have hbytes : (bs ++ rest).takeWhile (128 ≤ ·) = bs.takeWhile (128 ≤ ·) := by
    induction bs with
    | nil => exact hblank
    | cons c bs ih => rw [List.cons_append, List.takeWhile_cons, List.takeWhile_cons, ih]
  rw [← readRune_takeWhile b (bs ++ rest), hbytes, readRune_takeWhile]

theorem Appended.peek (h : Appended rest k c c') (hrest : Breaks rest) :
    c'.peek = c.peek ∨ c.rest = [] ∧ c'.peek = 32 := by
  cases hc : c.rest with
  | nil =>
    have hc' : c'.rest = rest := by rw [h.rest, hc, List.nil_append]
    rcases Breaks.peek (hc' ▸ hrest) with hpeek | hpeek
    · exact .inl (by rw [hpeek, Cursor.peek, hc])
    · exact .inr ⟨rfl, hpeek⟩
  | cons b bs =>
    have hc' : c'.rest = b :: (bs ++ rest) := by rw [h.rest, hc, List.cons_append]
    exact .inl (by rw [Cursor.peek, Cursor.peek, hc, hc']; simp only [readRune_append hrest])

theorem Appended.byte (h : Appended rest k c c') (hrest : Breaks rest) : Blur (c.byteAt 0) (c'.byteAt 0) := by
  cases hc : c.rest with
  | nil =>
    have hc' : c'.rest = rest := by rw [h.rest, hc, List.nil_append]
    have hzero : c.byteAt 0 = 0 := by simp [Cursor.byteAt, hc]
    rcases Breaks.byteAt (hc' ▸ hrest) with hbyte | hbyte
    · exact .inl (by rw [hbyte, hzero])
    · exact .inr (.inl ⟨hzero, hbyte⟩)
  | cons b bs => exact .inl (by simp [Cursor.byteAt, h.rest, hc])

theorem Appended.next (h : Appended rest k c c') (hrest : Breaks rest) (hc : c.rest ≠ []) :
    Appended rest k c.next c'.next := by
  obtain ⟨b, bs, hc⟩ := List.exists_cons_of_ne_nil hc
  have hc' : c'.rest = b :: (bs ++ rest) := by rw [h.rest, hc, List.cons_append]
  have hfeed : (bs ++ rest).head? = some 10 ↔ bs.head? = some 10 := by
    cases bs with
    | nil => rcases hrest with rfl | ⟨more, rfl⟩ <;> simp
    | cons => rfl
  obtain ⟨bs', hpasses⟩ := c.next_passes
  -- As many bytes are passed in both texts.
  have hextra : (if b = 13 then (if (bs ++ rest).head? = some 10 then 1 else 0) else (Text.readRune b (bs ++ rest)).2) =
      if b = 13 then (if bs.head? = some 10 then 1 else 0) else (Text.readRune b bs).2 := by
    simp only [hfeed, readRune_append hrest]
  have hle : (if b = 13 then (if bs.head? = some 10 then 1 else 0) else (Text.readRune b bs).2) ≤ bs.length := by
    have hlength := congrArg List.length hpasses.rest
    have hoffset := hpasses.offset
    simp only [Cursor.next, hc, List.length_append, List.length_cons, List.length_drop] at hlength hoffset
    omega
  constructor
  · simp only [Cursor.next, hc, hc', hextra]
    exact List.drop_append_of_le_length hle
  · simp only [Cursor.next, hc, hc', hextra, h.offset]
    omega

theorem Appended.until_eq (h : Appended rest k c c') (hd : Appended rest k d d') (hreaches : c.Reaches d) :
    c'.until d' = c.until d := by
  obtain ⟨bs, hpasses⟩ := hreaches.passes
  have hpasses' : c'.Passes bs d' :=
    ⟨by rw [h.rest, hd.rest, hpasses.rest, List.append_assoc], by rw [hd.offset, h.offset, hpasses.offset]; omega⟩
  rw [hpasses.until_eq, hpasses'.until_eq]

/-- A text is read alike with a blank behind it. -/
theorem appended_likeness (hrest : Breaks rest) : Likeness False (Appended rest k) where
  nonempty h hc := by simp [h.rest, hc]
  empty hfalse := hfalse.elim
  pos hfalse := hfalse.elim
  peek h := h.peek hrest
  byte h := h.byte hrest
  next h hc := h.next hrest hc
  text h hd halong := h.until_eq hd halong.reaches
  punctuation h := by rw [h.rest, punctuation?_append hrest]

theorem Appended.valueAlike (h : Appended rest k c c') (start : Pos) :
    ValueAlike False (Appended rest k) start c c' := by
  refine fun _ d d' hd hreaches => ⟨fun t hstring => ?_, False.elim⟩
  obtain ⟨-, b, hvalue⟩ := string_value hstring
  exact ⟨b, by rw [h.until_eq hd hreaches, hvalue]⟩

end Appended

/-! ### Where a token begins -/

/-- No token begins with a blank, a line break, a comment, a backslash or the end of a text. -/
theorem token_starts (s : State) : Gives (token s) fun _ => Starts s.cursor := by
  unfold token
  extract_lets c ch finish word sign stop mark
  have hstarts : ∀ {n : Nat}, ch = n → n ∉ [0, 9, 10, 32, 35, 92] → Starts s.cursor := fun h hn => by
    rw [Starts, show s.cursor.peek = _ from h]
    exact hn
  split
  · exact gives_pure (hstarts ‹_› (by decide))
  split
  · rename_i hquote
    refine gives_bind fun _ _ => gives_pure ?_
    rcases (by simpa using hquote : ch = 34 ∨ ch = 39) with h | h <;> exact hstarts h (by decide)
  split
  · rename_i hname
    have hne := ne_of_isNameStart hname
    refine gives_pure ?_
    simp only [Starts, List.mem_cons, List.not_mem_nil, or_false, not_or] at hne ⊢
    exact ⟨hne.1, hne.2.1, hne.2.2.1, hne.2.2.2.2.1, hne.2.2.2.2.2.2.1, hne.2.2.2.2.2.2.2.2.2⟩
  have hbracket : ∀ {r : TokenKind × Bool}, bracket? ch = some r → Starts s.cursor := by
    intro r hr hmem
    have hall : ∀ n ∈ [0, 9, 10, 32, 35, 92], bracket? n = none := by decide
    rw [show bracket? ch = none from hall _ hmem] at hr
    cases hr
  split
  · exact gives_pure (hbracket ‹_›)
  · exact gives_unless fun _ => gives_pure (hbracket ‹_›)
  split
  · rename_i hnumber
    refine gives_bind fun _ _ => gives_pure fun hmem => ?_
    have hall : ∀ n ∈ [0, 9, 10, 32, 35, 92], (isDigit n || decide (n = 46)) = false := by decide
    rw [show (isDigit ch || decide (ch = 46)) = false from hall _ hmem] at hnumber
    cases hnumber
  split
  · rename_i hlead
    refine gives_bind fun _ _ => gives_pure ?_
    simp only [Bool.and_eq_true, Bool.or_eq_true, decide_eq_true_eq] at hlead
    rcases hlead.1 with h | h <;> exact hstarts h (by decide)
  split
  · exact gives_unless fun _ => gives_pure (hstarts ‹_› (by decide))
  split
  · rename_i hmark
    refine gives_pure ?_
    obtain ⟨e, he, heq⟩ := Option.map_eq_some_iff.1 hmark
    have hfits : e.1.isPrefixOf c.rest = true := by simpa using List.find?_some he
    obtain ⟨rest, hrest⟩ := List.isPrefixOf_iff_prefix.1 hfits
    obtain ⟨b, bs, hbs⟩ := List.exists_cons_of_ne_nil (punctuation_longest e (List.mem_of_find?_eq_some he)).2.2.1
    have hfirst := (punctuation_first e (List.mem_of_find?_eq_some he) b (by rw [hbs]; rfl)).1
    exact hfirst.starts (show c.rest = b :: (bs ++ rest) by rw [← List.cons_append, ← hbs, hrest])
  · exact gives_throw

/-- A token that is no bracket is **read alike at any depth**. -/
theorem token_anywhere {s s' : State} {t : Token} (h : token s = .ok (t, s')) (hplain : t.kind.isPlain = true)
    {s₂ : State} (hcursor : s₂.cursor = s.cursor) : token s₂ = .ok (t, { s₂ with cursor := s'.cursor }) := by
  have hbind : ∀ {α : Type} {x : Except Fault α} {f g : α → Except Fault (Token × State)},
      (∀ a, f a = .ok (t, s') → g a = .ok (t, { s₂ with cursor := s'.cursor })) →
      x >>= f = .ok (t, s') → x >>= g = .ok (t, { s₂ with cursor := s'.cursor }) := by
    intro α x f g hfg hx
    cases x with
    | error e => cases hx
    | ok a => exact hfg a hx
  have hpure : ∀ {t₀ : Token} {c : Cursor},
      (pure (t₀, { s with cursor := c }) : Except Fault (Token × State)) = .ok (t, s') →
      (pure (t₀, { s₂ with cursor := c }) : Except Fault (Token × State)) =
        .ok (t, { s₂ with cursor := s'.cursor }) := by
    intro t₀ c h
    cases h
    rfl
  unfold token at h ⊢
  dsimp only at h ⊢
  rw [hcursor]
  split at h
  · rw [if_pos ‹_›]
    exact hpure h
  rw [if_neg ‹_›]
  split at h
  · rw [if_pos ‹_›]
    exact hbind (fun _ => hpure) h
  rw [if_neg ‹_›]
  split at h
  · rw [if_pos ‹_›]
    exact hpure h
  rw [if_neg ‹_›]
  cases hbracket : bracket? s.cursor.peek with
  | some r =>
    obtain ⟨kind, opening⟩ := r
    obtain ⟨-, -, hopening, hclosing⟩ := bracket?_eq hbracket
    have hnot : kind.isPlain = false := by
      cases opening <;> simp [TokenKind.isPlain, hopening, hclosing]
    rw [hbracket] at h
    cases opening with
    | true =>
      cases h
      rw [hnot] at hplain
      cases hplain
    | false =>
      dsimp only at h
      split at h
      · cases h
      · cases h
        rw [hnot] at hplain
        cases hplain
  | none =>
    rw [hbracket] at h
    dsimp only at h ⊢
    split at h
    · rw [if_pos ‹_›]
      exact hbind (fun _ => hpure) h
    rw [if_neg ‹_›]
    split at h
    · rw [if_pos ‹_›]
      exact hbind (fun _ => hpure) h
    rw [if_neg ‹_›]
    split at h
    · rw [if_pos ‹_›]
      split at h
      · cases h
      · rw [if_neg ‹_›]
        exact hpure h
    rw [if_neg ‹_›]
    cases hmark : punctuation? s.cursor.rest with
    | none =>
      rw [hmark] at h
      cases h
    | some r =>
      rw [hmark] at h
      exact hpure h

end Scan

/-! ### Literals -/

/-- The kinds of tokens that are literals. -/
def Parse.literalKinds : List TokenKind := [.int, .float, .string, .stringName, .nodePath, .trueKw, .falseKw, .nullKw]

theorem Parse.kind_of_literalValue? {t : Token} {v : Value} (h : Parse.literalValue? t = some v) :
    t.kind ∈ Parse.literalKinds := by
  unfold Parse.literalValue? at h
  split at h
  case h_9 => cases h
  all_goals simp [Parse.literalKinds, *]

namespace LiteralWord

open Scan

theorem isPlain (w : LiteralWord) : w.word.kind.isPlain = true := by
  have hall : ∀ k ∈ Parse.literalKinds, k.isPlain = true := by decide
  exact hall _ (Parse.kind_of_literalValue? w.isValue)

/-- What is read where the literal stands alone. -/
theorem alone (w : LiteralWord) (s : State) : ∃ t c,
    token { s with cursor := { rest := w.word.raw.bytes } } =
      .ok (t, { s with cursor := c }) ∧ t.word = w.word ∧ c.rest = [] := by
  have hread := w.isRead
  unfold Word.isRead at hread
  split at hread
  · rename_i t s' htoken
    rw [Bool.and_eq_true, decide_eq_true_eq, List.isEmpty_iff] at hread
    have hplain : t.kind.isPlain = true := by
      rw [show t.kind = w.word.kind from congrArg Word.kind hread.1]
      exact w.isPlain
    exact ⟨t, s'.cursor, token_anywhere htoken hplain rfl, hread⟩
  · cases hread

/-- **A literal is read back** in front of a blank. -/
theorem lexes (w : LiteralWord) : Lexes w.word where
  first := by
    intro c rest h hrest hmem
    obtain ⟨t, d, htoken, -, hend⟩ := w.alone { cursor := c }
    have hstarts := token_starts _ _ htoken
    have hne : w.word.raw.bytes ≠ [] := by
      rintro hnil
      exact hstarts (by simp [Cursor.peek, hnil])
    have halike : Appended rest c.offset { rest := w.word.raw.bytes } c := ⟨h, by simp⟩
    rw [(appended_likeness hrest).peek_eq halike hne] at hmem
    exact hstarts hmem
  token := by
    intro s rest depth h hrest hdepth
    obtain rfl := eq_of_nest hdepth w.isPlain
    obtain ⟨t, d, htoken, hword, hend⟩ := w.alone s
    have hstarts := token_starts _ _ htoken
    have hpeek : Cursor.peek { rest := w.word.raw.bytes } ≠ 0 ∧ Cursor.peek { rest := w.word.raw.bytes } ≠ 10 := by
      constructor <;> exact fun hpeek => hstarts (by simp [hpeek])
    have hlike := appended_likeness (k := s.cursor.offset) hrest
    have halike : Appended rest s.cursor.offset { rest := w.word.raw.bytes } s.cursor := ⟨h, by simp⟩
    have hnext := hlike.next halike (Cursor.rest_ne_nil_of_peek hpeek.1)
    have htwins : Twins (Appended rest s.cursor.offset) { s with cursor := { rest := w.word.raw.bytes } } s :=
      ⟨halike, rfl, rfl, rfl, rfl⟩
    obtain ⟨⟨t', s'⟩, htoken', ⟨hkind, hpayload⟩, htwins'⟩ :=
      (hlike.token htwins hpeek (halike.valueAlike _) fun _ => hnext.valueAlike _).ok _ htoken
    have hraw : t'.raw = t.raw := by
      have hreaches := Cursor.next_reaches _ |>.trans (token_reaches _ _ htoken).1
      rw [(token_cut _ _ htoken').raw, (token_cut _ _ htoken).raw]
      exact halike.until_eq htwins'.cursor hreaches
    refine ⟨t', s'.cursor, ?_, ?_, ?_⟩
    · obtain ⟨c', depth', indents', pending', lineStart'⟩ := s'
      obtain ⟨-, rfl, rfl, rfl, rfl⟩ := htwins'
      exact htoken'
    · rw [← hword, Token.word, hraw, show t'.kind = t.kind from hkind, show t'.payload = t.payload from hpayload]
      rfl
    · have hrest' := htwins'.cursor.rest
      rwa [show d.rest = [] from hend, List.nil_append] at hrest'

/-- The decimal literal of a number. -/
def ofNat (n : Fin (twoTo 63)) : LiteralWord where
  word := ⟨.int, .ofNat n, .int (Int64.ofInt n)⟩
  value := .int (Int64.ofInt n)
  isRead := by
    obtain ⟨t, c, htoken, hword, hrest⟩ := (lexes_int n).token { cursor := { rest := (Text.ofNat n).bytes } } [] 0
      (by simp) (.inl rfl) rfl
    simp [Word.isRead, htoken, hword, hrest]
  isValue := rfl

end LiteralWord

end GameScript
