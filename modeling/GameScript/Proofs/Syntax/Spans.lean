import GameScript.Proofs.Syntax.Extents
import Mathlib.Order.Defs.LinearOrder

/-!
# Spans of tokens

Reading goes forward: a token ends where the next one starts, or before.

* `Pos.le_def`, `Pos.lt_def` — the order of places in a file;
* `Token.finish` — where the text of a token ends;
* `Scan.next_forward` — what is read starts behind what has been read;
* `Token.Before`, `Token.Spelled` — how two tokens lie, and how keywords are written;
* `Scan.scan_ordered` — **the tokens of a text** lie one behind the other.
-/

namespace GameScript

/-! ### The order of places -/

namespace Pos

variable {p q r : Pos}

instance : LE Pos := ⟨fun p q => p.line < q.line ∨ p.line = q.line ∧ p.col ≤ q.col⟩

instance : LT Pos := ⟨fun p q => p.line < q.line ∨ p.line = q.line ∧ p.col < q.col⟩

theorem le_def : p ≤ q ↔ p.line < q.line ∨ p.line = q.line ∧ p.col ≤ q.col := Iff.rfl

theorem lt_def : p < q ↔ p.line < q.line ∨ p.line = q.line ∧ p.col < q.col := Iff.rfl

instance : DecidableLE Pos :=
  fun p q => inferInstanceAs (Decidable (p.line < q.line ∨ p.line = q.line ∧ p.col ≤ q.col))

instance : LinearOrder Pos where
  le_refl p := by rw [le_def]; omega
  le_trans p q r h h' := by rw [le_def] at *; omega
  lt_iff_le_not_ge p q := by rw [le_def, le_def, lt_def]; omega
  le_antisymm p q h h' := by
    rw [le_def] at h h'
    cases p
    cases q
    congr <;> dsimp only at h h' <;> omega
  le_total p q := by rw [le_def, le_def]; omega
  toDecidableLE := inferInstance

theorem lt_afterCode (p : Pos) (c : Nat) : p < p.afterCode c := by
  unfold afterCode
  split <;> simp [lt_def]

theorem afterCode_mono (h : p ≤ q) (c : Nat) : p.afterCode c ≤ q.afterCode c := by
  rw [le_def] at h
  unfold afterCode
  split <;> rw [le_def] <;> dsimp only <;> omega

theorem codes_mono (h : p ≤ q) (cs : List Nat) : cs.foldl afterCode p ≤ cs.foldl afterCode q := by
  induction cs generalizing p q with
  | nil => exact h
  | cons c cs ih => exact ih (afterCode_mono h c)

theorem advance_mono (h : p ≤ q) (t : Text) : p.advance t ≤ q.advance t := codes_mono h t.codes

theorem le_advance (p : Pos) (t : Text) : p ≤ p.advance t := by
  unfold advance
  induction t.codes generalizing p with
  | nil => exact le_rfl
  | cons c cs ih => exact le_trans (le_of_lt (lt_afterCode p c)) (ih _)

theorem le_shift (p : Pos) (n : Nat) : p ≤ p.shift n := by
  rw [le_def]
  exact .inr ⟨rfl, Nat.le_add_right _ _⟩

/-- A place behind another one is one column further on at least. -/
theorem shift_le (n : Nat) (h : p.shift n < q) : p.shift (n + 1) ≤ q := by
  rw [lt_def] at h
  rw [le_def]
  simp only [shift] at h ⊢
  omega

theorem advance_append (p : Pos) (t : Text) : p.advance ("-" ++ t) = (p.shift 1).advance t := by
  rfl

end Pos

/-! ### Texts that are walked over -/

namespace Text

variable {b : UInt8} {bs rest : List UInt8}

theorem runesFrom_eq (n : Nat) (bs : List UInt8) : runesFrom n bs = runesFrom 0 (bs.drop n) := by
  induction bs generalizing n with
  | nil => simp [runesFrom]
  | cons b bs ih =>
    cases n with
    | zero => rfl
    | succ n => exact ih n

/-- The bytes of a well-formed sequence are told by themselves, whatever follows. -/
theorem exists_of_multibyte? {r : Nat × Nat} (h : multibyte? b bs = some r) :
    ∃ ds tail, bs = ds ++ tail ∧ r.2 = ds.length ∧ ∀ tail', multibyte? b (ds ++ tail') = some r := by
  have hall : ∀ tail', multibyte? b (bs.take r.2 ++ tail') = some r ∧ r.2 ≤ bs.length := by
    intro tail'
    unfold multibyte? at h ⊢
    generalize secondByteRange b = range at h ⊢
    obtain ⟨lo, hi⟩ := range
    dsimp only at h ⊢
    split at h
    · rename_i hb
      rw [if_pos hb]
      obtain _ | ⟨c, bs⟩ := bs
      · cases h
      obtain ⟨y, hy, rfl⟩ := Option.map_eq_some_iff.mp h
      exact ⟨h, by simp⟩
    split at h
    · rename_i hnot hb
      rw [if_neg hnot, if_pos hb]
      obtain _ | ⟨c, _ | ⟨d, bs⟩⟩ := bs
      · cases h
      · cases h
      obtain ⟨y, hy, h'⟩ := Option.bind_eq_some_iff.mp h
      obtain ⟨z, hz, h'⟩ := Option.bind_eq_some_iff.mp h'
      cases h'
      exact ⟨h, by simp⟩
    split at h
    · rename_i hnot hnot' hb
      rw [if_neg hnot, if_neg hnot', if_pos hb]
      obtain _ | ⟨c, _ | ⟨d, _ | ⟨e, bs⟩⟩⟩ := bs
      · cases h
      · cases h
      · cases h
      obtain ⟨y, hy, h'⟩ := Option.bind_eq_some_iff.mp h
      obtain ⟨z, hz, h'⟩ := Option.bind_eq_some_iff.mp h'
      obtain ⟨w, hw, h'⟩ := Option.bind_eq_some_iff.mp h'
      cases h'
      exact ⟨h, by simp⟩
    · cases h
  refine ⟨bs.take r.2, bs.drop r.2, (List.take_append_drop _ _).symm, ?_, fun tail' => (hall tail').1⟩
  rw [List.length_take, Nat.min_eq_left (hall []).2]

/-- A code point whose bytes are there is read without what follows. -/
theorem readRune_of_append (h : (readRune b (bs ++ rest)).2 ≤ bs.length) :
    readRune b bs = readRune b (bs ++ rest) := by
  unfold readRune at h ⊢
  split
  · rfl
  rename_i hb
  rw [if_neg hb] at h
  cases hlong : multibyte? b (bs ++ rest) with
  | some r =>
    obtain ⟨ds, tail, heq, hlength, hall⟩ := exists_of_multibyte? hlong
    rw [hlong] at h
    obtain ⟨more, rfl⟩ : ds <+: bs :=
      List.prefix_of_prefix_length_le ⟨tail, heq.symm⟩ ⟨rest, rfl⟩ (hlength ▸ h)
    rw [hall]
  | none =>
    cases hshort : multibyte? b bs with
    | none => rfl
    | some r =>
      obtain ⟨ds, tail, rfl, -, hall⟩ := exists_of_multibyte? hshort
      rw [List.append_assoc, hall] at hlong
      cases hlong

theorem readRune_length_le (b : UInt8) (bs : List UInt8) : (readRune b bs).2 ≤ bs.length := by
  by_cases hb : b < 128
  · simp [readRune, hb]
  · exact (Scan.readRune_ascii bs hb).2.1

theorem readRune_code_ne (hb : b ≠ 10) (bs : List UInt8) : (readRune b bs).1.code ≠ 10 := by
  by_cases hascii : b < 128
  · simp only [readRune, if_pos hascii]
    exact fun h => hb (UInt8.toNat_inj.mp h)
  · have hcode := (Scan.readRune_ascii bs hascii).1
    omega

end Text

/-- Where a token **ends**: behind its text. A line break within that text may be two columns of it, so the reading
may be further on there. -/
def Token.finish (t : Token) : Pos := t.pos.advance t.raw

namespace Pos

variable {b : UInt8} {bs rest : List UInt8} {p q : Pos}

theorem advance_cons (p : Pos) (b : UInt8) (bs : List UInt8) : p.advance ⟨b :: bs⟩ =
    (p.afterCode (Text.readRune b bs).1.code).advance ⟨bs.drop (Text.readRune b bs).2⟩ := by
  unfold advance Text.codes Text.runes
  dsimp only
  rw [Text.runesFrom, ← Text.runesFrom_eq]
  rfl

theorem advance_ascii (p : Pos) (hb : b < 128) (bs : List UInt8) :
    p.advance ⟨b :: bs⟩ = (p.afterCode b.toNat).advance ⟨bs⟩ := by
  rw [advance_cons]
  simp [Text.readRune, hb]

/-- A code point whose bytes are there is one column. -/
theorem advance_cons_of_le (p : Pos) (hcode : (Text.readRune b (bs ++ rest)).1.code ≠ 10)
    (h : (Text.readRune b (bs ++ rest)).2 ≤ bs.length) :
    p.advance ⟨b :: bs⟩ = (⟨p.line, p.col + 1⟩ : Pos).advance ⟨bs.drop (Text.readRune b (bs ++ rest)).2⟩ := by
  rw [advance_cons, Text.readRune_of_append h, afterCode, if_neg hcode]

/-- A text that is walked over ends where the walk does, or before. -/
theorem advance_le_of_walk {all : List UInt8} (h : Scan.Walk all p rest q) (hall : all = bs ++ rest) :
    p.advance ⟨bs⟩ ≤ q := by
  induction h generalizing bs with
  | stay rest p =>
    obtain rfl : bs = [] := by simpa using hall
    exact le_rfl
  | @line all all' rest p q hbreak hwalk ih =>
    obtain ⟨more, hmore⟩ := hwalk.suffix
    have hrest := ih hmore.symm
    cases hbreak with
    | feed =>
      obtain rfl : bs = 10 :: more := List.append_cancel_right (hall.symm.trans (by rw [← hmore]; rfl))
      rw [advance_ascii p (by decide)]
      exact hrest
    | both =>
      obtain rfl : bs = 13 :: 10 :: more := List.append_cancel_right (hall.symm.trans (by rw [← hmore]; rfl))
      rw [advance_ascii p (by decide), advance_ascii _ (by decide)]
      exact hrest
    | carriage =>
      obtain rfl : bs = 13 :: more := List.append_cancel_right (hall.symm.trans (by rw [← hmore]; rfl))
      rw [advance_ascii p (by decide)]
      exact le_trans (advance_mono (.inl (Nat.lt_succ_self p.line)) _) hrest
  | @column b tail rest p q hb hwalk ih =>
    obtain ⟨more, hmore⟩ := hwalk.suffix
    have hrest := ih hmore.symm
    cases bs with
    | nil =>
      refine absurd hwalk.suffix.length_le (Nat.not_le.mpr ?_)
      rw [show rest = b :: tail from hall.symm]
      exact Scan.drop_length_lt b tail _
    | cons b' bs =>
      obtain ⟨rfl, htail⟩ := List.cons.inj hall
      obtain rfl : tail = bs ++ rest := htail
      -- The walk does not end within the bytes of the code point.
      have hlength : (Text.readRune b (bs ++ rest)).2 ≤ bs.length := by
        have hdrop := congrArg List.length hmore
        have hle := Text.readRune_length_le b (bs ++ rest)
        simp only [List.length_append, List.length_drop] at hdrop hle
        omega
      rw [advance_cons_of_le p (Text.readRune_code_ne hb.1 _) hlength]
      obtain rfl : bs.drop (Text.readRune b (bs ++ rest)).2 = more := by
        refine List.append_cancel_right (Eq.trans ?_ hmore.symm)
        rw [List.drop_append_of_le_length hlength]
      exact hrest

end Pos

namespace Scan

/-- The cursor `c'` is `c` or further on. -/
def Cursor.Upto (c c' : Cursor) : Prop := c.pos ≤ c'.pos

namespace Cursor

theorem next_lt {c : Cursor} (h : c.rest ≠ []) : c.pos < c.next.pos := by
  unfold next
  cases hrest : c.rest with
  | nil => exact absurd hrest h
  | cons b bs => exact Pos.lt_afterCode _ _

theorem next_upto (c : Cursor) : c.Upto c.next := by
  by_cases h : c.rest = []
  · simp [next, h, Upto]
  · exact le_of_lt (next_lt h)

theorem Reaches.upto {c c' : Cursor} (h : c.Reaches c') : c.Upto c' := by
  induction h with
  | refl => exact le_refl c.pos
  | next _ ih => exact le_trans ih (next_upto _)

end Cursor

/-! ### Reading forward -/

/-- How reading goes **forward**: a token starts where the reading does or later, and the reading goes on behind it. -/
structure Forward (s : State) (r : Token × State) : Prop where
  start : s.cursor.pos ≤ r.1.pos
  upto : r.1.pos ≤ r.2.cursor.pos
  word : r.1.kind.isLayout = false → r.1.pos < r.2.cursor.pos ∧ r.1.finish ≤ r.2.cursor.pos

theorem Forward.after {s s' : State} {r : Token × State} (h : Forward s' r) (hs : s.cursor.Upto s'.cursor) :
    Forward s r := ⟨le_trans hs h.start, h.upto, h.word⟩

/-- A token of layout. -/
theorem forward_layout {s s' : State} {k : TokenKind} {c after : Cursor} (hkind : k.isLayout = true)
    (h : s.cursor.Upto c) (h' : c.Upto s'.cursor) : Forward s (layout k c after, s') :=
  ⟨h, h', fun hword => by rw [show (layout k c after).kind = k from rfl, hkind] at hword; cases hword⟩

theorem token_forward {s : State} (hpeek : s.cursor.peek ≠ 0) : Gives (token s) (Forward s) := by
  intro r hr
  have hcut := token_cut s r hr
  have hreaches := (token_reaches s r hr).1
  obtain ⟨bs, hpasses⟩ := (s.cursor.next_reaches.trans hreaches).passes
  have hraw : r.1.raw = ⟨bs⟩ := by rw [hcut.raw, hpasses.until_eq]
  have hwalk := (s.cursor.next_reaches.trans hreaches).walk
  have hlt := lt_of_lt_of_le (Cursor.next_lt (s.cursor.rest_ne_nil_of_peek hpeek)) hreaches.upto
  refine ⟨le_of_eq hcut.pos.symm, ?_, fun _ => ?_⟩
  · rw [hcut.pos]
    exact le_of_lt hlt
  · unfold Token.finish
    rw [hcut.pos, hraw]
    exact ⟨hlt, Pos.advance_le_of_walk hwalk hpasses.rest⟩

theorem indentation_upto (s : State) : Gives (indentation s) fun r => s.cursor.Upto r.1.cursor := by
  have hskip : s.cursor.Upto (s.cursor.skip isBlank) := (Cursor.Reaches.refl.skip _).upto
  unfold indentation
  extract_lets c blanks s' blank col top rest
  split
  · exact gives_pure hskip
  refine gives_unless fun _ => ?_
  dsimp only [rest]
  split
  · exact gives_pure hskip
  · exact gives_unless fun _ => gives_pure hskip

theorem beyond_upto (c : Cursor) : c.Upto (beyond c) := by
  unfold beyond
  dsimp only
  split
  · exact ((Cursor.Reaches.refl.skip _).skip _).upto
  · exact (Cursor.Reaches.refl.skip _).upto

theorem onward_forward {fuel : Nat} (ih : ∀ s, Gives (next fuel s) (Forward s)) (atStart blank : Bool) (s : State) :
    Gives (onward fuel atStart blank s) (Forward s) := by
  have hstay : s.cursor.Upto s.cursor := le_refl s.cursor.pos
  unfold onward
  split
  · split
    · exact fun r hr => (ih _ r hr).after s.cursor.next_upto
    · exact gives_pure (forward_layout rfl hstay s.cursor.next_upto)
  split
  · split
    · split
      · exact fun r hr => (ih _ r hr).after hstay
      · exact gives_pure (forward_layout rfl hstay hstay)
    · exact gives_pure (forward_layout rfl hstay hstay)
  split
  · exact gives_unless fun _ r hr => (ih _ r hr).after s.cursor.next_reaches.next.upto
  · exact token_forward ‹_›

theorem next_forward (fuel : Nat) (s : State) : Gives (next fuel s) (Forward s) := by
  induction fuel generalizing s with
  | zero => exact gives_pure (forward_layout rfl (le_refl _) (le_refl _))
  | succ fuel ih =>
    rw [next_succ]
    refine gives_bind fun r hr => ?_
    have hupto : s.cursor.Upto r.1.cursor := by
      split at hr
      · exact indentation_upto s r hr
      · cases hr
        exact le_refl _
    split
    · exact gives_pure (forward_layout rfl hupto (le_refl _))
    split
    · exact gives_pure (forward_layout rfl hupto (le_refl _))
    · exact fun r' hr' => (onward_forward ih _ _ _ r' hr').after (le_trans hupto (beyond_upto _))

end Scan

/-! ### Tokens in order -/

/-- A token lies **before** another one. -/
structure Token.Before (t u : Token) : Prop where
  start : t.pos ≤ u.pos
  word : t.kind.isLayout = false → t.pos < u.pos ∧ t.finish ≤ u.pos

/-- Whether a token is a keyword. -/
def TokenKind.isReserved (k : TokenKind) : Bool := keywords.any (·.1 = k)

/-- How a token is **spelled** whose kind, or what it stands for, tells its text. -/
structure Token.Spelled (t : Token) : Prop where
  keyword : t.kind.isReserved = true → t.raw = t.kind.name
  marker : t.kind = .marker → t.raw = "@" ++ t.text
  dotDot : t.kind = .dotDot → t.raw = ".."

theorem TokenKind.name_of_keyword? {word : Text} {k : TokenKind} (h : keyword? word = some k) : word = k.name := by
  have hall : keywords.all (fun e => e.2 = e.1.name) = true := by decide
  obtain ⟨e, he, rfl⟩ := Option.map_eq_some_iff.mp h
  have hword : e.2 = word := by simpa using List.find?_some he
  exact hword.symm.trans (by simpa using List.all_eq_true.mp hall e (List.mem_of_find?_eq_some he))

theorem TokenKind.keyword?_reserved {word : Text} {k : TokenKind} (h : keyword? word = some k) :
    k ≠ .marker ∧ k ≠ .dotDot := by
  have hall : keywords.all (fun e => decide (e.1 ≠ .marker ∧ e.1 ≠ .dotDot)) = true := by decide
  obtain ⟨e, he, rfl⟩ := Option.map_eq_some_iff.mp h
  exact of_decide_eq_true (List.all_eq_true.mp hall e (List.mem_of_find?_eq_some he))

theorem TokenKind.isLayout_of_isReserved {k : TokenKind} (h : k.isReserved = true) : k.isLayout = false := by
  have hall : keywords.all (fun e => !e.1.isLayout) = true := by decide
  obtain ⟨e, he, hk⟩ := List.any_eq_true.mp h
  obtain rfl : e.1 = k := of_decide_eq_true hk
  simpa using List.all_eq_true.mp hall e he

/-- The other kinds of tokens. -/
def TokenKind.isFree (k : TokenKind) : Bool := !(k.isReserved || k = marker || k = dotDot)

theorem Token.spelled_of_free {t : Token} (h : t.kind.isFree = true) : t.Spelled := by
  simp only [TokenKind.isFree, Bool.not_eq_true', Bool.or_eq_false_iff, decide_eq_false_iff_not] at h
  obtain ⟨⟨hreserved, hmarker⟩, hdots⟩ := h
  exact ⟨fun h => absurd h (by simp [hreserved]), fun h => absurd h hmarker, fun h => absurd h hdots⟩

namespace Scan

theorem punctuation?_isFree {bs : List UInt8} {k : TokenKind} {n : Nat} (h : punctuation? bs = some (k, n)) :
    k.isFree = true := by
  have hall : punctuation.all (·.2.isFree) = true := by decide
  obtain ⟨e, he, heq⟩ := Option.map_eq_some_iff.mp h
  cases heq
  exact List.all_eq_true.mp hall e (List.mem_of_find?_eq_some he)

theorem bracket?_isFree {c : Nat} {k : TokenKind} {opening : Bool} (h : bracket? c = some (k, opening)) :
    k.isFree = true := by
  unfold bracket? at h
  repeat' split at h
  all_goals cases h
  all_goals decide

/-- A character and what follows it, as one text. -/
theorem until_cons {c c' : Cursor} {b : UInt8} (h : c.peek = b.toNat) (hb : b < 128 ∧ b ≠ 0 ∧ b ≠ 10 ∧ b ≠ 13)
    (hreaches : c.next.Reaches c') : c.until c' = ⟨b :: (c.next.until c').bytes⟩ := by
  have hrest := Cursor.rest_of_peek h ⟨hb.1, hb.2.1, hb.2.2.1⟩
  obtain ⟨bs, hpasses⟩ := hreaches.passes
  rw [((Cursor.next_ascii hrest ⟨hb.1, hb.2.2.2⟩).trans hpasses).until_eq, hpasses.until_eq]
  rfl

theorem decimal_isFree (start : Cursor) (fraction : Bool) (c : Cursor) :
    Gives (decimal start fraction c) fun r => r.1.isFree = true := by
  unfold decimal
  extract_lets isPart c₁ point c₂ exponent c₃ c₄ c₅ raw finish
  refine gives_unless fun _ => ?_
  dsimp only [finish]
  split
  · split
    · exact gives_pure rfl
    · exact gives_throw
  · exact gives_bind fun _ _ => gives_pure rfl

/-- Of the tokens that begin with a digit or a point only two points are always the same. -/
theorem number_isFree (start : Cursor) : Gives (number start) fun r =>
    r.1.isFree = true ∨ r.1 = .dotDot ∧ start.until r.2.2 = ".." := by
  unfold number
  split
  · rename_i hfirst
    extract_lets c
    split
    · rename_i hsecond
      refine gives_pure (.inr ⟨rfl, ?_⟩)
      rw [until_cons (b := 46) hfirst (by decide) c.next_reaches, until_cons (b := 46) hsecond (by decide) .refl,
        (Cursor.Passes.refl c.next).until_eq]
      rfl
    split
    · exact fun r hr => .inl (decimal_isFree start true c r hr)
    · exact gives_pure (.inl rfl)
  split
  · extract_lets c c' hex hexadecimal bin binary
    split
    · exact gives_unless fun _ => gives_bind fun _ _ => gives_pure (.inl rfl)
    split
    · exact gives_unless fun _ => gives_bind fun _ _ => gives_pure (.inl rfl)
    · exact fun r hr => .inl (decimal_isFree start false c r hr)
  · exact fun r hr => .inl (decimal_isFree start false start r hr)

theorem token_spelled (s : State) : Gives (token s) fun r => r.1.Spelled := by
  unfold token
  extract_lets c ch finish word sign stop mark
  split
  · exact gives_pure (Token.spelled_of_free rfl)
  split
  · exact gives_bind fun _ _ => gives_pure (Token.spelled_of_free rfl)
  split
  · refine gives_pure ?_
    cases hk : TokenKind.keyword? (c.until (c.skip isNamePart)) with
    | none => exact Token.spelled_of_free rfl
    | some k =>
      have hplain := TokenKind.keyword?_reserved hk
      exact ⟨fun _ => TokenKind.name_of_keyword? hk, fun h => absurd h hplain.1, fun h => absurd h hplain.2⟩
  split
  · exact gives_pure (Token.spelled_of_free (bracket?_isFree ‹_›))
  · extract_lets close
    exact gives_unless fun _ => gives_pure (Token.spelled_of_free (bracket?_isFree ‹_›))
  split
  · refine gives_bind fun r hr => ?_
    obtain ⟨kind, payload, c'⟩ := r
    refine gives_pure ?_
    rcases number_isFree c _ hr with hfree | ⟨hdots, hraw⟩
    · exact Token.spelled_of_free hfree
    · obtain rfl : kind = .dotDot := hdots
      exact ⟨fun h => absurd (show TokenKind.isReserved .dotDot = true from h) (by decide), nofun, fun _ => hraw⟩
  split
  · refine gives_bind fun _ _ => gives_pure (Token.spelled_of_free ?_)
    split <;> rfl
  split
  · rename_i hat
    refine gives_unless fun _ => gives_pure ⟨fun h => ?_, fun _ => ?_, nofun⟩
    · exact absurd (show TokenKind.isReserved .marker = true from h) (by decide)
    · exact until_cons (b := 64) hat (by decide) (Cursor.Reaches.refl.skip _)
  split
  · exact gives_pure (Token.spelled_of_free (punctuation?_isFree ‹_›))
  · exact gives_throw

theorem layout_spelled {k : TokenKind} (hk : k.isFree = true) (c after : Cursor) : (layout k c after).Spelled :=
  Token.spelled_of_free hk

theorem onward_spelled {fuel : Nat} (ih : ∀ s, Gives (next fuel s) fun r => r.1.Spelled) (atStart blank : Bool)
    (s : State) : Gives (onward fuel atStart blank s) fun r => r.1.Spelled := by
  unfold onward
  split
  · split
    · exact ih _
    · exact gives_pure (layout_spelled rfl _ _)
  split
  · split
    · split
      · exact ih _
      · exact gives_pure (layout_spelled rfl _ _)
    · exact gives_pure (layout_spelled rfl _ _)
  split
  · exact gives_unless fun _ => ih _
  · exact token_spelled s

theorem next_spelled (fuel : Nat) (s : State) : Gives (next fuel s) fun r => r.1.Spelled := by
  induction fuel generalizing s with
  | zero => exact gives_pure (layout_spelled rfl _ _)
  | succ fuel ih =>
    rw [next_succ]
    refine gives_bind fun r _ => ?_
    split
    · exact gives_pure (layout_spelled rfl _ _)
    split
    · exact gives_pure (layout_spelled rfl _ _)
    · exact onward_spelled ih _ _ _

/-- **Tokens in order** between two places: each lies before the next one. -/
structure Ordered (p : Pos) (ts : List Token) (q : Pos) : Prop where
  before : ts.Pairwise Token.Before
  spelled : ∀ t ∈ ts, t.Spelled
  start : ∀ t ∈ ts, p ≤ t.pos
  finish : ∀ t ∈ ts, t.pos ≤ q ∧ (t.kind.isLayout = false → t.pos < q ∧ t.finish ≤ q)

theorem Reads.ordered {s s' : State} {ts : List Token} (h : Reads s ts s') :
    s.cursor.Upto s'.cursor ∧ Ordered s.cursor.pos ts s'.cursor.pos := by
  induction h with
  | refl =>
    exact ⟨le_refl s.cursor.pos, .nil, List.forall_mem_nil _, List.forall_mem_nil _, List.forall_mem_nil _⟩
  | @tail s₁ s₂ ts t h hnext ih =>
    obtain ⟨hreads, hordered⟩ := ih
    have hforward := next_forward _ _ _ hnext
    have hupto := le_trans hforward.start hforward.upto
    refine ⟨le_trans hreads hupto, ?_, ?_, ?_, ?_⟩
    · refine List.pairwise_append.mpr ⟨hordered.before, List.pairwise_singleton _ _, fun u hu v hv => ?_⟩
      obtain rfl := List.mem_singleton.mp hv
      obtain ⟨hpos, hword⟩ := hordered.finish u hu
      exact ⟨le_trans hpos hforward.start, fun hk =>
        ⟨lt_of_lt_of_le (hword hk).1 hforward.start, le_trans (hword hk).2 hforward.start⟩⟩
    · exact List.forall_mem_append.mpr ⟨hordered.spelled, List.forall_mem_singleton.mpr (next_spelled _ _ _ hnext)⟩
    · exact List.forall_mem_append.mpr
        ⟨hordered.start, List.forall_mem_singleton.mpr (le_trans hreads hforward.start)⟩
    · refine List.forall_mem_append.mpr
        ⟨fun u hu => ?_, List.forall_mem_singleton.mpr ⟨hforward.upto, hforward.word⟩⟩
      obtain ⟨hpos, hword⟩ := hordered.finish u hu
      exact ⟨le_trans hpos hupto, fun hk => ⟨lt_of_lt_of_le (hword hk).1 hupto, le_trans (hword hk).2 hupto⟩⟩

/-- **The tokens of a text** lie one behind the other. -/
theorem scan_ordered (source : Text) : ∃ q, Ordered .start (scan source).tokens q := by
  obtain ⟨s', h⟩ := Reads.of_readAll (3 * source.size + 10) (start source)
  exact ⟨_, h.ordered.2⟩

end Scan

end GameScript
