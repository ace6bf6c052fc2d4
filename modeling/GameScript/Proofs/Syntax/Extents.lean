import GameScript.Proofs.Syntax.Endings

/-!
# What tokens are made of

The tokens of a text are written in it one after the other, and nothing but blanks, comments, continued lines and
line breaks is between them. A token stands where a walk over the text from its first place on comes to it.

* `Scan.Walk` — walking over bytes, by line breaks and code points;
* `Scan.Filler` — what may be between tokens;
* `Scan.Covers` — some tokens are those of some bytes;
* `Scan.next_stands` — where the next token stands;
* `Scan.scan_covers` — **the tokens of a text cover it**.
-/

namespace GameScript

/-- Whether a token is no part of the text: a change of indentation, the end of a line or of the file. -/
def TokenKind.isLayout (k : TokenKind) : Bool := k.isDent || k = newline || k = endOfFile

namespace Scan

/-! ### Walking -/

/-- Bytes that begin with a **line break**: a line feed, a carriage return, or both. -/
inductive LineBreak : List UInt8 → List UInt8 → Prop
  | feed (rest : List UInt8) : LineBreak (10 :: rest) rest
  | both (rest : List UInt8) : LineBreak (13 :: 10 :: rest) rest
  | carriage {rest : List UInt8} (h : rest.head? ≠ some 10) : LineBreak (13 :: rest) rest

/-- The end of a line, or of the file. -/
def LineEnd (bs : List UInt8) : Prop := bs = [] ∨ ∃ rest, LineBreak bs rest

/-- **Walking** over bytes. After a line break comes the first column of the next line, and after any other code
point, or a byte that is no UTF-8, the next column. -/
inductive Walk : List UInt8 → Pos → List UInt8 → Pos → Prop
  | stay (bs : List UInt8) (p : Pos) : Walk bs p bs p
  | line {bs bs' rest : List UInt8} {p q : Pos} (h : LineBreak bs bs') (hw : Walk bs' ⟨p.line + 1, 1⟩ rest q) :
      Walk bs p rest q
  | column {b : UInt8} {bs rest : List UInt8} {p q : Pos} (hb : b ≠ 10 ∧ b ≠ 13)
      (hw : Walk (bs.drop (Text.readRune b bs).2) ⟨p.line, p.col + 1⟩ rest q) : Walk (b :: bs) p rest q

/-- **Filler** in front of `rest`: blanks, comments up to the end of their line, line breaks, and line breaks after
a backslash. -/
inductive Filler : List UInt8 → List UInt8 → Prop
  | none (bs : List UInt8) : Filler bs bs
  | blank {b : UInt8} {bs rest : List UInt8} (hb : b = 32 ∨ b = 9) (h : Filler bs rest) : Filler (b :: bs) rest
  | comment {text bs rest : List UInt8} (htext : ∀ b ∈ text, b ≠ 10 ∧ b ≠ 13)
      (hend : LineEnd bs) (h : Filler bs rest) : Filler (35 :: text ++ bs) rest
  | line {bs bs' rest : List UInt8} (hb : LineBreak bs bs') (h : Filler bs' rest) : Filler bs rest
  | continued {bs bs' rest : List UInt8} (hb : LineBreak bs bs') (h : Filler bs' rest) : Filler (92 :: bs) rest

/-- **The tokens of bytes** that begin at a place. A token that is no layout is written there after some filler, and
one of layout has its place after some filler, at the end of a line if that is what it tells. The last one is the end
of the file; only filler is before it. -/
inductive Covers : List UInt8 → Pos → List Token → Prop
  | last {bs : List UInt8} {p : Pos} {t : Token} (hkind : t.kind = .endOfFile) (hgap : Filler bs [])
      (hpos : Walk bs p [] t.pos) : Covers bs p [t]
  | layout {bs rest : List UInt8} {p : Pos} {t : Token} {ts : List Token}
      (hkind : t.kind.isLayout = true ∧ t.kind ≠ .endOfFile) (hgap : Filler bs rest) (hpos : Walk bs p rest t.pos)
      (hline : t.kind = .newline → LineEnd rest) (h : Covers rest t.pos ts) : Covers bs p (t :: ts)
  | word {bs rest : List UInt8} {p : Pos} {t : Token} {ts : List Token} (hkind : t.kind.isLayout = false)
      (hgap : Filler bs (t.raw.bytes ++ rest)) (hpos : Walk bs p (t.raw.bytes ++ rest) t.pos)
      (hraw : t.raw.bytes ≠ []) (hafter : Walk (t.raw.bytes ++ rest) t.pos rest t.after)
      (h : Covers rest t.after ts) : Covers bs p (t :: ts)

section Relations

variable {bs bs' rest : List UInt8} {p p' q : Pos}

theorem LineBreak.suffix (h : LineBreak bs rest) : rest <:+ bs := by
  cases h with
  | feed => exact List.suffix_cons _ _
  | both => exact (List.suffix_cons _ _).trans (List.suffix_cons _ _)
  | carriage => exact List.suffix_cons _ _

theorem Walk.suffix (h : Walk bs p rest q) : rest <:+ bs := by
  induction h with
  | stay => exact List.suffix_refl _
  | line hb _ ih => exact ih.trans hb.suffix
  | column _ _ ih => exact (ih.trans (List.drop_suffix _ _)).trans (List.suffix_cons _ _)

theorem LineBreak.length_lt (h : LineBreak bs rest) : rest.length < bs.length := by
  cases h <;> simp only [List.length_cons] <;> omega

theorem LineBreak.unique (h : LineBreak bs rest) (h' : LineBreak bs bs') : bs' = rest := by
  cases h with
  | feed => cases h'; rfl
  | both =>
    cases h' with
    | both => rfl
    | carriage hne => exact absurd rfl hne
  | carriage hne =>
    cases h' with
    | both => exact absurd rfl hne
    | carriage => rfl

theorem LineBreak.head_eq (h : LineBreak bs rest) : bs.head? = some 10 ∨ bs.head? = some 13 := by
  cases h <;> simp

theorem drop_length_lt (b : UInt8) (bs : List UInt8) (n : Nat) : (bs.drop n).length < (b :: bs).length := by
  rw [List.length_drop, List.length_cons]
  omega

/-- A walk has **one place** for what remains. -/
theorem Walk.unique (h : Walk bs p rest q) {q' : Pos} (h' : Walk bs p rest q') : q' = q := by
  induction h with
  | stay bs p =>
    cases h' with
    | stay => rfl
    | line hb hw => exact absurd hw.suffix.length_le (Nat.not_le.2 hb.length_lt)
    | @column b bs _ _ _ hb hw => exact absurd hw.suffix.length_le (Nat.not_le.2 (drop_length_lt b bs _))
  | line hb hw ih =>
    cases h' with
    | stay => exact absurd hw.suffix.length_le (Nat.not_le.2 hb.length_lt)
    | line hb' hw' => exact ih (hb.unique hb' ▸ hw')
    | column hne _ => simpa [hne] using hb.head_eq
  | @column b bs _ p _ hne hw ih =>
    cases h' with
    | stay => exact absurd hw.suffix.length_le (Nat.not_le.2 (drop_length_lt b bs _))
    | line hb' _ => simpa [hne] using hb'.head_eq
    | column _ hw' => exact ih hw'

theorem Walk.trans (h : Walk bs p bs' p') (h' : Walk bs' p' rest q) : Walk bs p rest q := by
  induction h with
  | stay => exact h'
  | line hb _ ih => exact .line hb (ih h')
  | column hb _ ih => exact .column hb (ih h')

theorem Filler.trans (h : Filler bs bs') (h' : Filler bs' rest) : Filler bs rest := by
  induction h with
  | none => exact h'
  | blank hb _ ih => exact .blank hb (ih h')
  | comment htext hend _ ih => exact .comment htext hend (ih h')
  | line hb _ ih => exact .line hb (ih h')
  | continued hb _ ih => exact .continued hb (ih h')

/-- Filler in front of tokens. -/
theorem Covers.after {ts : List Token} (h : Covers bs' p' ts) (hgap : Filler bs bs') (hwalk : Walk bs p bs' p') :
    Covers bs p ts := by
  cases h with
  | last hkind hgap' hpos => exact .last hkind (hgap.trans hgap') (hwalk.trans hpos)
  | layout hkind hgap' hpos hline h => exact .layout hkind (hgap.trans hgap') (hwalk.trans hpos) hline h
  | word hkind hgap' hpos hraw hafter h => exact .word hkind (hgap.trans hgap') (hwalk.trans hpos) hraw hafter h

end Relations

/-! ### What is passed between tokens -/

/-- Between two cursors there is only filler. -/
structure Gap (c c' : Cursor) : Prop where
  filler : Filler c.rest c'.rest
  walk : Walk c.rest c.pos c'.rest c'.pos

section Gaps

variable {c c' c'' : Cursor}

theorem Gap.refl (c : Cursor) : Gap c c := ⟨.none _, .stay _ _⟩

theorem Gap.trans (h : Gap c c') (h' : Gap c' c'') : Gap c c'' :=
  ⟨h.filler.trans h'.filler, h.walk.trans h'.walk⟩

/-- Without zero bytes in front of a gap, there are none behind it. -/
theorem Gap.nonzero (h : Gap c c') (hzero : 0 ∉ c.rest) : 0 ∉ c'.rest :=
  fun hmem => hzero (h.walk.suffix.subset hmem)

theorem lineBreak_next (h : c.peek = 10) : LineBreak c.rest c.next.rest := by
  cases hrest : c.rest with
  | nil => simp [Cursor.peek, hrest] at h
  | cons b bs =>
    rcases Cursor.next_cases hrest with ⟨rfl, -, hnext⟩ | ⟨-, -, hpeek, hnext⟩ | ⟨-, hpeek, -⟩
    · have hnext := hrest.symm.trans hnext.rest
      by_cases hfeed : bs.head? = some 10
      · obtain ⟨bs, rfl⟩ := List.head?_eq_some_iff.1 hfeed
        obtain rfl : bs = c.next.rest := by simpa using hnext
        exact .both _
      · obtain rfl : bs = c.next.rest := by simpa [hfeed] using hnext
        exact .carriage hfeed
    · obtain rfl : b = 10 := UInt8.toNat_inj.1 (hpeek.symm.trans h)
      obtain rfl : bs = c.next.rest := by simpa using hrest.symm.trans hnext.rest
      exact .feed _
    · rw [h] at hpeek
      exact absurd hpeek (by decide)

/-- A walk comes past the next code point. -/
theorem walk_next (c : Cursor) : Walk c.rest c.pos c.next.rest c.next.pos := by
  by_cases hline : c.peek = 10
  · have hpos : c.next.pos = ⟨c.pos.line + 1, 1⟩ := by
      have hrest : c.rest ≠ [] := c.rest_ne_nil_of_peek (by simp [hline])
      obtain ⟨b, bs, hrest⟩ := List.exists_cons_of_ne_nil hrest
      have hnext : c.next.pos = c.pos.afterCode c.peek := by simp [Cursor.next, hrest]
      rw [hnext, hline]
      rfl
    exact .line (lineBreak_next hline) (hpos ▸ .stay _ _)
  cases hrest : c.rest with
  | nil =>
    have hnext : c.next = c := by simp [Cursor.next, hrest]
    rw [hnext, hrest]
    exact .stay _ _
  | cons b bs =>
    have hreturn : b ≠ 13 := by
      rintro rfl
      exact hline (by simp [Cursor.peek, hrest])
    have hfeed : b ≠ 10 := by
      rintro rfl
      exact hline (by simp [Cursor.peek, hrest, Text.readRune])
    have hpos : c.next.pos = ⟨c.pos.line, c.pos.col + 1⟩ := by
      simp only [Cursor.next, hrest]
      exact if_neg hline
    have hnext : c.next.rest = bs.drop (Text.readRune b bs).2 := by simp [Cursor.next, hrest, hreturn]
    rw [hpos, hnext]
    exact .column ⟨hfeed, hreturn⟩ (.stay _ _)

theorem Cursor.Reaches.walk (h : c.Reaches c') : Walk c.rest c.pos c'.rest c'.pos := by
  induction h with
  | refl => exact .stay _ _
  | next _ ih => exact ih.trans (walk_next _)

theorem gap_blanks (c : Cursor) : Gap c (c.skip isBlank) := by
  suffices h : ∀ fuel (c : Cursor), Gap c (c.skipFrom isBlank fuel) from h _ c
  intro fuel
  induction fuel with
  | zero => exact .refl
  | succ fuel ih =>
    intro c
    unfold Cursor.skipFrom
    split
    · rename_i h
      have hblank : c.peek = 32 ∨ c.peek = 9 := by simpa [isBlank] using (Bool.and_eq_true_iff.1 h).2
      have hrest : ∃ b, (b = 32 ∨ b = 9) ∧ c.rest = b :: c.next.rest := by
        rcases hblank with h | h
        · exact ⟨32, .inl rfl, Cursor.rest_of_peek h (by decide)⟩
        · exact ⟨9, .inr rfl, Cursor.rest_of_peek h (by decide)⟩
      obtain ⟨b, hb, hrest⟩ := hrest
      exact .trans ⟨hrest ▸ .blank hb (.none _), walk_next c⟩ (ih c.next)
    · exact .refl c

theorem gap_comment (h : c.peek = 35) (hzero : 0 ∉ c.rest) : Gap c (c.skip fun ch => ch ≠ 0 && ch ≠ 10) := by
  have hmark : c.rest = 35 :: c.next.rest := Cursor.rest_of_peek h (by decide)
  have hstops := c.skip_stops fun ch => ch ≠ 0 && ch ≠ 10
  refine ⟨?_, (Cursor.Reaches.refl.skip _).walk⟩
  generalize hend : c.skip (fun ch => ch ≠ 0 && ch ≠ 10) = c' at hstops ⊢
  obtain ⟨text, hpasses, htext⟩ : ∃ text, c.next.Passes text c' ∧ ∀ b ∈ text, b ≠ 10 ∧ b ≠ 13 := by
    rw [← hend, Cursor.skip, hmark, List.length_cons, Cursor.skipFrom, if_pos (by simp [hmark, h])]
    exact (Cursor.skipFrom_along (by decide) _ _).passes
  have hrest : c.rest = 35 :: text ++ c'.rest := by rw [hmark, hpasses.rest]; rfl
  rw [hrest]
  refine .comment htext ?_ (.none _)
  rcases hstops with hstops | hstops
  · exact .inl hstops
  · rw [Bool.and_eq_false_iff, decide_eq_false_iff_not, decide_eq_false_iff_not, not_not, not_not] at hstops
    rcases hstops with hpeek | hpeek
    · refine .inl (Cursor.rest_of_peek_eq_zero hpeek fun hmem => hzero ?_)
      rw [hrest]
      exact List.mem_append_right _ hmem
    · exact .inr ⟨_, lineBreak_next hpeek⟩

/-- Blanks and a comment are passed. -/
theorem gap_beyond (c : Cursor) (hzero : 0 ∉ c.rest) : Gap c (beyond c) := by
  have hblanks := gap_blanks c
  unfold beyond
  dsimp only
  split
  · exact hblanks.trans (gap_comment ‹_› (hblanks.nonzero hzero))
  · exact hblanks

end Gaps

/-! ### What tokens are cut from -/

theorem isLayout_of_isPlain {k : TokenKind} (h : k.isPlain = true) : k.isLayout = false := by
  simp only [TokenKind.isPlain, Bool.not_eq_true', Bool.or_eq_false_iff] at h
  simp [TokenKind.isLayout, h]

theorem isLayout_of_bracket {c : Nat} {k : TokenKind} {opening : Bool} (h : bracket? c = some (k, opening)) :
    k.isLayout = false := by
  unfold bracket? at h
  repeat' split at h
  all_goals cases h
  all_goals decide

/-- A token that is no layout is **cut from the text** between two states. -/
structure Cut (s : State) (r : Token × State) : Prop where
  kind : r.1.kind.isLayout = false
  pos : r.1.pos = s.cursor.pos
  raw : r.1.raw = s.cursor.until r.2.cursor
  after : r.1.after = r.2.cursor.pos

theorem token_cut (s : State) : Gives (token s) (Cut s) := by
  have hplain : ∀ {k : TokenKind} {payload : Payload} {c : Cursor}, k.isPlain = true →
      Cut s (⟨k, s.cursor.pos, s.cursor.until c, payload, c.pos⟩, { s with cursor := c }) :=
    fun hk => ⟨isLayout_of_isPlain hk, rfl, rfl, rfl⟩
  unfold token
  extract_lets c ch finish word sign stop mark
  split
  · exact gives_pure (hplain rfl)
  split
  · exact gives_bind fun _ _ => gives_pure (hplain rfl)
  split
  · refine gives_pure (hplain ?_)
    cases hk : TokenKind.keyword? (c.until (c.skip isNamePart)) with
    | none => rfl
    | some k => exact TokenKind.keyword?_isPlain hk
  split
  · exact gives_pure ⟨isLayout_of_bracket ‹_›, rfl, rfl, rfl⟩
  · extract_lets close
    exact gives_unless fun _ => gives_pure ⟨isLayout_of_bracket ‹_›, rfl, rfl, rfl⟩
  split
  · exact gives_bind fun r hr => gives_pure (hplain (number_isPlain c r hr))
  split
  · refine gives_bind fun _ _ => gives_pure (hplain ?_)
    split <;> rfl
  split
  · exact gives_unless fun _ => gives_pure (hplain rfl)
  split
  · exact gives_pure (hplain (punctuation?_isPlain ‹_›))
  · exact gives_throw

/-! ### Where tokens stand -/

section Stands

variable {s s' : State} {t : Token}

/-- Where a token stands: after filler, or, if it is layout, in front of filler as well. -/
inductive Stands (s : State) (r : Token × State) : Prop
  | layout {c : Cursor} (hkind : r.1.kind.isLayout = true) (hgap : Gap s.cursor c) (hpos : r.1.pos = c.pos)
      (hafter : Gap c r.2.cursor) (hend : r.1.kind = .endOfFile → r.2.cursor = c)
      (hline : r.1.kind = .newline → LineEnd c.rest)
  | word {c : Cursor} (hkind : r.1.kind.isLayout = false) (hgap : Gap s.cursor c) (hpos : r.1.pos = c.pos)
      (hrest : c.rest = r.1.raw.bytes ++ r.2.cursor.rest) (hraw : r.1.raw.bytes ≠ [])
      (hafter : r.1.after = r.2.cursor.pos) (hwalk : Walk c.rest c.pos r.2.cursor.rest r.2.cursor.pos)

theorem Stands.of_gap {s' : State} {r : Token × State} (hr : Stands s' r) (h : Gap s.cursor s'.cursor) :
    Stands s r := by
  cases hr with
  | layout hkind hgap hpos hafter hend hline => exact .layout hkind (h.trans hgap) hpos hafter hend hline
  | word hkind hgap hpos hrest hraw hafter hwalk => exact .word hkind (h.trans hgap) hpos hrest hraw hafter hwalk

/-- A token of layout at the cursor. -/
theorem stands_layout {k : TokenKind} {c : Cursor} (hk : k.isLayout = true) (h : Gap s.cursor s'.cursor)
    (hend : k = .endOfFile → s'.cursor = s.cursor) (hline : k = .newline → LineEnd s.cursor.rest) :
    Stands s (layout k s.cursor c, s') := .layout hk (.refl _) rfl h hend hline

theorem gap_line {c : Cursor} (h : c.peek = 10) : Gap c c.next := ⟨.line (lineBreak_next h) (.none _), walk_next c⟩

theorem token_stands (hpeek : s.cursor.peek ≠ 0) : Gives (token s) (Stands s) := by
  intro r hr
  have hcut := token_cut s r hr
  have hreaches := s.cursor.next_reaches.trans (token_reaches s r hr).1
  obtain ⟨bs, hpasses⟩ := hreaches.passes
  have hraw : r.1.raw.bytes = bs := by rw [hcut.raw, hpasses.until_eq]
  refine .word hcut.kind (.refl _) hcut.pos (hraw ▸ hpasses.rest) ?_ hcut.after hreaches.walk
  have hlt := token_shorter hpeek r hr
  rintro hnil
  rw [hpasses.rest, ← hraw, hnil] at hlt
  exact Nat.lt_irrefl _ hlt

theorem onward_stands {fuel : Nat} (ih : ∀ s, 0 ∉ s.cursor.rest → Gives (next fuel s) (Stands s))
    (atStart blank : Bool) (hzero : 0 ∉ s.cursor.rest) : Gives (onward fuel atStart blank s) (Stands s) := by
  unfold onward
  split
  · have hgap := gap_line ‹_›
    split
    · exact fun r hr => (ih _ (hgap.nonzero hzero) r hr).of_gap hgap
    · exact gives_pure (stands_layout rfl hgap nofun fun _ => .inr ⟨_, lineBreak_next ‹_›⟩)
  split
  · split
    · split
      · -- The cursor stays where it is.
        intro r hr
        have hclosed := ih { s with pending := 1 - (s.indents.length : Int), indents := [0] } hzero r hr
        exact hclosed.of_gap (.refl _)
      · refine gives_pure (stands_layout rfl (.refl _) nofun fun _ => .inl ?_)
        exact Cursor.rest_of_peek_eq_zero ‹_› hzero
    · exact gives_pure (stands_layout rfl (.refl _) (fun _ => rfl) nofun)
  split
  · rename_i hpeek
    refine gives_unless fun hline r hr => ?_
    have hrest : s.cursor.rest = 92 :: s.cursor.next.rest := Cursor.rest_of_peek hpeek (by decide)
    have hgap : Gap s.cursor s.cursor.next.next :=
      ⟨hrest ▸ .continued (lineBreak_next (not_not.1 hline)) (.none _), s.cursor.next_reaches.next.walk⟩
    exact (ih _ (hgap.nonzero hzero) r hr).of_gap hgap
  · exact token_stands ‹_›

theorem indentation_gap (s : State) : Gives (indentation s) fun r => Gap s.cursor r.1.cursor := by
  have hgap := gap_blanks s.cursor
  unfold indentation
  extract_lets c blanks s' blank col top rest
  split
  · exact gives_pure hgap
  · refine gives_unless fun _ => ?_
    dsimp only [rest]
    split
    · exact gives_pure hgap
    · exact gives_unless fun _ => gives_pure hgap

/-- **Where the next token stands.** -/
theorem next_stands (fuel : Nat) (hzero : 0 ∉ s.cursor.rest) : Gives (next fuel s) (Stands s) := by
  induction fuel generalizing s with
  | zero => exact gives_pure (stands_layout rfl (.refl _) (fun _ => rfl) nofun)
  | succ fuel ih =>
    rw [next_succ]
    refine gives_bind fun r hr => ?_
    have hgap : Gap s.cursor r.1.cursor := by
      cases hstart : s.lineStart with
      | true => exact indentation_gap s r (by simpa [hstart] using hr)
      | false =>
        rw [hstart] at hr
        cases hr
        exact .refl _
    have hbeyond := gap_beyond r.1.cursor (hgap.nonzero hzero)
    split
    · refine gives_pure (Stands.of_gap ?_ hgap)
      exact stands_layout rfl (.refl _) nofun nofun
    split
    · refine gives_pure (Stands.of_gap ?_ hgap)
      exact stands_layout rfl (.refl _) nofun nofun
    · refine fun r' hr' => (onward_stands (fun _ => ih) _ _ ?_ r' hr').of_gap (hgap.trans hbeyond)
      exact (hgap.trans hbeyond).nonzero hzero

end Stands

/-! ### What a text is made of -/

theorem readAll_covers (fuel : Nat) {ts : List Token} {s : State} (hlaid : Laid ts s) (hsize : size s < fuel)
    (hzero : 0 ∉ s.cursor.rest) (hfault : (readAll fuel s).fault = none) :
    Covers s.cursor.rest s.cursor.pos (readAll fuel s).tokens := by
  induction fuel generalizing ts s with
  | zero => cases hsize
  | succ fuel ih =>
    unfold readAll at hfault ⊢
    cases hnext : next (s.cursor.rest.length + 3) s with
    | error f =>
      rw [hnext] at hfault
      cases hfault
    | ok r =>
      obtain ⟨t, s'⟩ := r
      rw [hnext] at hfault
      obtain ⟨hlaid', hplaced⟩ := next_told _ hlaid (.inl (by omega)) _ hnext
      have hstands := next_stands _ hzero _ hnext
      dsimp only at hfault hlaid' hplaced ⊢
      by_cases hkind : t.kind = .endOfFile
      · rw [if_pos hkind]
        obtain ⟨-, hend, -⟩ := hplaced.finish hkind
        cases hstands with
        | word hword => simp [hkind, TokenKind.isLayout] at hword
        | @layout c _ hgap hpos _ hsame =>
          obtain rfl : s'.cursor = c := hsame hkind
          have hnil : s'.cursor.rest = [] := Cursor.rest_of_peek_eq_zero hend.peek (hgap.nonzero hzero)
          have hpos : t.pos = s'.cursor.pos := hpos
          exact .last hkind (hnil ▸ hgap.filler) (hpos ▸ hnil ▸ hgap.walk)
      · rw [if_neg hkind] at hfault ⊢
        have hfalls := next_falls _ s _ hnext hkind
        have hrest : 0 ∉ s'.cursor.rest → Covers s'.cursor.rest s'.cursor.pos (readAll fuel s').tokens :=
          fun hzero' => ih hlaid' (by dsimp only at hfalls; omega) hzero' hfault
        cases hstands with
        | layout hlayout hgap hpos hafter _ hline =>
          have hrest := (hrest ((hgap.trans hafter).nonzero hzero)).after hafter.filler
            hafter.walk
          exact .layout ⟨hlayout, hkind⟩ hgap.filler (hpos ▸ hgap.walk) hline (hpos ▸ hrest)
        | word hword hgap hpos hcut hraw hafter hwalk =>
          have hrest := hrest fun hmem => hzero ((hgap.walk.trans hwalk).suffix.subset hmem)
          exact .word hword (hcut ▸ hgap.filler) (hpos ▸ hcut ▸ hgap.walk) hraw
            (hpos ▸ hafter ▸ hcut ▸ hwalk) (hafter ▸ hrest)

/-- **The tokens of a text cover it.** Where nothing is wrong, what is written of the tokens is written in the text
one after the other, only filler is between them and after the last of them, and each stands where a walk over the
text from its first place on comes to it. -/
theorem scan_covers (source : Text) (hzero : 0 ∉ source.bytes) (hfault : (scan source).fault = none) :
    Covers source.bytes .start (scan source).tokens := by
  refine readAll_covers _ (laid_start source) ?_ hzero hfault
  have hsize := size_le (start source)
  simp only [bulk, start, List.length_singleton, if_true] at hsize
  show _ < 3 * source.bytes.length + 10
  simp only [start]
  omega

/-- A text with line breaks of three kinds, comments, a continued line and a string of two lines. -/
def mixedText : Text := "# a\r\nif x: # b\n\ty = [1.5,\n 2..\\\r\n3] \n\n\tz = \"\"\"é\r\n\"\"\" + &\"s\"\r\tw"

theorem covers_mixedText : 0 ∉ mixedText.bytes ∧ (scan mixedText).fault = none ∧
    Covers mixedText.bytes .start (scan mixedText).tokens := by
  have hzero : 0 ∉ mixedText.bytes := by decide
  have hfault : (scan mixedText).fault = none := by decide
  exact ⟨hzero, hfault, scan_covers mixedText hzero hfault⟩

end Scan

end GameScript
