import GameScript.Proofs.Syntax.Extents
import GameScript.Proofs.Syntax.Likeness
import GameScript.Proofs.Syntax.Respelling

/-!
# Tokens of a text with another spelling of its line breaks

* `Scan.Respelled` — cursors at one place of a text and of its other spelling, which are read alike;
* `Token.joinsLines` — a string in which a line break is escaped;
* `Scan.scan_respell` — **the tokens of both texts** are the same up to the first such string, where the other spelling
  is no string.
-/

namespace GameScript

namespace Scan

/-! ### Cursors in both texts -/

/-- A cursor in a text and the one at the same place of the other spelling, which has `n` bytes. -/
structure Respelled (eol : List UInt8) (n : Nat) (c c' : Cursor) : Prop where
  rest : c'.rest = respell eol c.rest
  pos : c'.pos = c.pos
  plain : 13 ∉ c.rest
  length : c'.offset + c'.rest.length = n

section Respelled

variable {eol bs : List UInt8} {n : Nat} {c c' d d' : Cursor}

/-- A line break is no part of a code point. -/
theorem readRune_respell (heol : IsReturn eol) (b : UInt8) (bs : List UInt8) :
    Text.readRune b (respell eol bs) = Text.readRune b bs := by
  have hbytes : (respell eol bs).takeWhile (128 ≤ ·) = bs.takeWhile (128 ≤ ·) := by
    induction bs with
    | nil => rfl
    | cons c bs ih =>
      by_cases hc : c = 10
      · obtain ⟨more, rfl⟩ := heol.cons
        subst hc
        rfl
      · rw [respell_cons hc, List.takeWhile_cons, List.takeWhile_cons, ih]
  rw [← readRune_takeWhile b (respell eol bs), hbytes, readRune_takeWhile]

/-- The first byte and the others, in both texts. -/
theorem Respelled.cases (h : Respelled eol n c c') (hrest : c.rest ≠ []) :
    (∃ bs, c.rest = 10 :: bs ∧ c'.rest = eol ++ respell eol bs) ∨
      ∃ b bs, b ≠ 10 ∧ b ≠ 13 ∧ c.rest = b :: bs ∧ c'.rest = b :: respell eol bs := by
  obtain ⟨b, bs, hbs⟩ := List.exists_cons_of_ne_nil hrest
  have hreturn := h.plain
  rw [hbs] at hreturn
  simp only [List.mem_cons, not_or] at hreturn
  by_cases hb : b = 10
  · subst hb
    exact .inl ⟨bs, hbs, by rw [h.rest, hbs, respell_feed]⟩
  · exact .inr ⟨b, bs, hb, Ne.symm hreturn.1, hbs, by rw [h.rest, hbs, respell_cons hb]⟩

theorem Respelled.peek (heol : IsReturn eol) (h : Respelled eol n c c') : c'.peek = c.peek := by
  by_cases hrest : c.rest = []
  · have hrest' : c'.rest = [] := by rw [h.rest, hrest, respell_nil]
    rw [Cursor.peek, Cursor.peek, hrest, hrest']
  rcases h.cases hrest with ⟨bs, hbs, hbs'⟩ | ⟨b, bs, -, hb, hbs, hbs'⟩
  · obtain ⟨more, rfl⟩ := heol.cons
    rw [Cursor.peek_ascii hbs (by decide), Cursor.peek, hbs']
    rfl
  · rw [Cursor.peek, Cursor.peek, hbs, hbs']
    simp only [hb, if_false, readRune_respell heol]

theorem Respelled.byte (heol : IsReturn eol) (h : Respelled eol n c c') : Blur (c.byteAt 0) (c'.byteAt 0) := by
  by_cases hrest : c.rest = []
  · exact .inl (by simp [Cursor.byteAt, h.rest, hrest])
  rcases h.cases hrest with ⟨bs, hbs, hbs'⟩ | ⟨b, bs, -, -, hbs, hbs'⟩
  · obtain ⟨more, rfl⟩ := heol.cons
    exact .inr (.inr ⟨by simp [Cursor.byteAt, hbs], by simp [Cursor.byteAt, hbs']⟩)
  · exact .inl (by simp [Cursor.byteAt, hbs, hbs'])

/-- The bytes of the next code point are passed in both texts. -/
theorem Respelled.next_rest (heol : IsReturn eol) (h : Respelled eol n c c') (hrest : c.rest ≠ []) :
    c'.next.rest = respell eol c.next.rest := by
  rcases h.cases hrest with ⟨bs, hbs, hbs'⟩ | ⟨b, bs, hfeed, hreturn, hbs, hbs'⟩
  · have hnext : c.next.rest = bs := by simpa [hbs] using (Cursor.next_ascii hbs (by decide)).rest.symm
    rw [hnext]
    rcases heol with rfl | rfl
    · simp [Cursor.next, hbs']
    · have hplain := notMem_respell bs
      have hhead : (respell [13] bs).head? ≠ some 10 := fun hhead => hplain (List.mem_of_head? hhead)
      simp [Cursor.next, hbs', hhead]
  · have hnext : c.next.rest = bs.drop (Text.readRune b bs).2 := by simp [Cursor.next, hbs, hreturn]
    have hnext' : c'.next.rest = (respell eol bs).drop (Text.readRune b bs).2 := by
      simp [Cursor.next, hbs', hreturn, readRune_respell heol]
    rw [hnext, hnext']
    by_cases hascii : b < 128
    · simp [Text.readRune, hascii]
    · obtain ⟨-, hle, hbytes⟩ := readRune_ascii bs hascii
      refine respell_drop hle fun hmem => ?_
      exact absurd (hbytes 10 hmem) (by decide)

theorem next_pos (hrest : c.rest ≠ []) : c.next.pos = c.pos.afterCode c.peek := by
  obtain ⟨b, bs, hbs⟩ := List.exists_cons_of_ne_nil hrest
  simp [Cursor.next, hbs]

theorem Respelled.next (heol : IsReturn eol) (h : Respelled eol n c c') (hrest : c.rest ≠ []) :
    Respelled eol n c.next c'.next := by
  constructor
  · exact h.next_rest heol hrest
  · have hrest' : c'.rest ≠ [] := by
      rw [h.rest]
      exact respell_ne_nil heol hrest
    rw [next_pos hrest, next_pos hrest', h.pos, h.peek heol]
  · obtain ⟨bs, hpasses⟩ := c.next_passes
    have hplain := h.plain
    rw [hpasses.rest] at hplain
    exact fun hmem => hplain (List.mem_append_right bs hmem)
  · obtain ⟨bs, hpasses⟩ := c'.next_passes
    have hlength := h.length
    rw [hpasses.rest, List.length_append] at hlength
    rw [hpasses.offset]
    omega

/-- A part of the text in its other spelling. -/
theorem Respelled.until_eq (h : Respelled eol n c c') (hd : Respelled eol n d d') (hreaches : c.Reaches d) :
    c'.until d' = ⟨respell eol (c.until d).bytes⟩ := by
  obtain ⟨bs, hpasses⟩ := hreaches.passes
  have hrest : c'.rest = respell eol bs ++ d'.rest := by rw [h.rest, hpasses.rest, respell_append, hd.rest]
  have hpasses' : c'.Passes (respell eol bs) d' := by
    refine ⟨hrest, ?_⟩
    have hlength := h.length
    have hlength' := hd.length
    rw [hrest, List.length_append] at hlength
    omega
  rw [hpasses.until_eq, hpasses'.until_eq]

/-- **A text is read like its other spelling.** -/
theorem respelled_likeness (heol : IsReturn eol) (n : Nat) : Likeness True (Respelled eol n) where
  nonempty h hc := by rw [h.rest]; exact respell_ne_nil heol hc
  empty _ {c c'} h hc := by rw [h.rest, hc, respell_nil]
  pos _ {c c'} h := h.pos
  peek h := .inl (h.peek heol)
  byte h := h.byte heol
  next h hc := h.next heol hc
  text := by
    intro c c' d d' h hd halong
    obtain ⟨bs, hpasses, hbs⟩ := halong.passes
    rw [h.until_eq hd halong.reaches, hpasses.until_eq, respell_eq fun hmem => (hbs 10 hmem).1 rfl]
  punctuation := by
    intro c c' h
    refine punctuation?_congr fun p hp => ?_
    have hp10 : 10 ∉ p := fun hmem => hp 10 hmem (by decide)
    have hp13 : 13 ∉ p := fun hmem => hp 13 hmem (by decide)
    rw [h.rest, Bool.eq_iff_iff, List.isPrefixOf_iff_prefix, List.isPrefixOf_iff_prefix]
    constructor
    · rintro ⟨x, hx⟩
      obtain ⟨m, hm, -⟩ := eq_append_of_respell heol hp13 hx.symm
      exact ⟨m, hm.symm⟩
    · rintro ⟨m, hm⟩
      exact ⟨respell eol m, by rw [← hm, respell_append, respell_eq hp10]⟩

end Respelled

/-! ### Strings -/

section Strings

variable {eol : List UInt8} {n : Nat} {c c' d : Cursor} {start : Pos} {t : Text}

/-- The literal that begins at a quote is not verbatim. -/
theorem until_head (hquote : c.peek = 34 ∨ c.peek = 39) (d : Cursor) : (c.until d).bytes.head? ≠ some 114 := by
  obtain ⟨q, hq, hrest⟩ : ∃ q : UInt8, q ≠ 114 ∧ c.rest = q :: c.next.rest := by
    rcases hquote with hquote | hquote
    · exact ⟨34, by decide, Cursor.rest_of_peek hquote (by decide)⟩
    · exact ⟨39, by decide, Cursor.rest_of_peek hquote (by decide)⟩
  rw [Cursor.until, hrest]
  cases d.offset - c.offset with
  | zero => simp
  | succ k => exact fun hhead => hq (Option.some.inj hhead)

theorem Respelled.unquote (heol : IsReturn eol) (h : Respelled eol n c c') {d' : Cursor} (hd : Respelled eol n d d')
    (hreaches : c.Reaches d) (hquote : c.peek = 34 ∨ c.peek = 39) :
    (c'.until d').unquote.toOption =
      if escapesBreak (c.until d).bytes then none else (c.until d).unquote.toOption := by
  obtain ⟨bs, hpasses⟩ := hreaches.passes
  have hreturn : 13 ∉ (c.until d).bytes := by
    intro hmem
    refine h.plain ?_
    rw [hpasses.until_eq] at hmem
    rw [hpasses.rest]
    exact List.mem_append_left _ hmem
  rw [h.until_eq hd hreaches]
  exact Text.unquote_respell heol hreturn (until_head hquote d)

theorem eq_error_of_toOption {ε α : Type} {x : Except ε α} (h : x.toOption = none) : ∃ e, x = .error e := by
  cases x with
  | error e => exact ⟨e, rfl⟩
  | ok a => cases h

theorem eq_ok_of_toOption {ε α : Type} {x : Except ε α} {a : α} (h : x.toOption = some a) : x = .ok a := by
  cases x with
  | error e => cases h
  | ok b => rw [Option.some.inj h]

/-- Strings in which no line break is escaped have one value. -/
theorem Respelled.valueAlike (heol : IsReturn eol) (h : Respelled eol n c c')
    (hplain : c.peek = 34 ∨ c.peek = 39 → ∀ t d, string start c = .ok (t, d) → escapesBreak (c.until d).bytes = false) :
    ValueAlike True (Respelled eol n) start c c' := by
  intro hquote d d' hd hreaches
  have hvalue := h.unquote heol hd hreaches hquote
  constructor
  · intro t hstring
    obtain ⟨-, b, hb⟩ := string_value hstring
    rw [hplain hquote t d hstring, hb] at hvalue
    exact ⟨b, eq_ok_of_toOption hvalue⟩
  · intro _ e he
    rw [he] at hvalue
    exact eq_error_of_toOption (hvalue.trans (ite_self _))

/-- A string in which a line break is escaped is no string in the other spelling. -/
theorem Respelled.string_fails (heol : IsReturn eol) (h : Respelled eol n c c') (start' : Pos) (hquote : c.peek = 34 ∨ c.peek = 39)
    (hstring : string start c = .ok (t, d)) (hjoins : escapesBreak (c.until d).bytes = true) :
    ∃ e, string start' c' = .error e ∧ e.1 = c.pos := by
  obtain ⟨hclosed, -⟩ := string_value hstring
  obtain ⟨d', hclosed', hd⟩ := ((respelled_likeness heol n).closing h hquote).1 d hclosed
  have hreaches := c.next_reaches.trans (closing?_reaches c d hclosed)
  have hvalue := h.unquote heol hd hreaches hquote
  rw [hjoins, if_pos rfl] at hvalue
  obtain ⟨e, he⟩ := eq_error_of_toOption hvalue
  exact ⟨_, string_error start' hclosed' he, h.pos⟩

end Strings

/-! ### Tokens -/

end Scan

/-- Whether a token is a string of some kind. -/
def TokenKind.isString (k : TokenKind) : Bool := k = string || k = stringName || k = nodePath

/-- Whether a token is a string in which a line break is escaped. -/
def Token.joinsLines (t : Token) : Bool := t.kind.isString && escapesBreak t.raw.bytes

/-- Where the literal of a string stands, behind the mark of its kind. -/
def Token.quotePos (t : Token) : Pos := if t.kind = .string then t.pos else t.pos.shift 1

namespace Scan

/-- The tokens of one place in both texts. -/
structure SameToken (t t' : Token) : Prop where
  kind : t'.kind = t.kind
  pos : t'.pos = t.pos
  payload : t'.payload = t.payload
  after : t'.after = t.after

section Quotes

variable {s s' : State}

theorem token_quote (h : s.cursor.peek = 34 ∨ s.cursor.peek = 39) : token s = do
    let (t, c) ← string s.cursor.pos s.cursor
    return (⟨.string, s.cursor.pos, s.cursor.until c, .text t, c.pos⟩, { s with cursor := c }) := by
  unfold token
  extract_lets c ch finish word sign stop mark
  have hcomma : ch ≠ 44 := by
    show s.cursor.peek ≠ 44
    omega
  rw [if_neg hcomma, if_pos (by simpa using h)]

theorem keyword?_isString {word : Text} {k : TokenKind} (h : TokenKind.keyword? word = some k) : k.isString = false := by
  have hall : TokenKind.keywords.all (!·.1.isString) = true := by decide
  obtain ⟨e, he, rfl⟩ := Option.map_eq_some_iff.1 h
  simpa using List.all_eq_true.1 hall e (List.mem_of_find?_eq_some he)

theorem punctuation?_isString {bs : List UInt8} {k : TokenKind} {n : Nat} (h : punctuation? bs = some (k, n)) :
    k.isString = false := by
  have hall : punctuation.all (!·.2.isString) = true := by decide
  obtain ⟨e, he, heq⟩ := Option.map_eq_some_iff.1 h
  cases heq
  simpa using List.all_eq_true.1 hall e (List.mem_of_find?_eq_some he)

theorem bracket?_isString {ch : Nat} {k : TokenKind} {opening : Bool} (h : bracket? ch = some (k, opening)) :
    k.isString = false := by
  unfold bracket? at h
  repeat' split at h
  all_goals cases h
  all_goals rfl

/-- The mark of a name or a path in front of a quote. -/
def Marked (c : Cursor) : Prop := (c.peek = 38 ∨ c.peek = 94) ∧ (c.next.peek = 34 ∨ c.next.peek = 39)

theorem marked_iff {c : Cursor} : Marked c ↔
    (c.peek = 38 ∨ c.peek = 94) ∧ (c.byteAt 1 = 34 ∨ c.byteAt 1 = 39) := by
  refine and_congr_right fun hmark => ?_
  have hbyte : c.byteAt 1 = c.next.byteAt 0 := by
    rcases hmark with hmark | hmark
    · exact Cursor.byteAt_succ (b := 38) hmark (by decide) 0
    · exact Cursor.byteAt_succ (b := 94) hmark (by decide) 0
  have hquote : ∀ q : UInt8, q < 128 ∧ q ≠ 0 ∧ q ≠ 10 ∧ q ≠ 13 ∧ q.toNat ≠ 0 →
      (c.next.peek = q.toNat ↔ c.next.byteAt 0 = q.toNat) := by
    rintro q ⟨hascii, hzero, hfeed, hreturn, hnat⟩
    constructor
    · intro hpeek
      simp [Cursor.byteAt, Cursor.rest_of_peek hpeek ⟨hascii, hzero, hfeed⟩]
    · intro hbyte
      exact Cursor.peek_of_byteAt hbyte hnat hascii hreturn
  rw [hbyte]
  exact or_congr (hquote 34 (by decide)) (hquote 39 (by decide))

theorem token_marked (h : Marked s.cursor) : token s = do
    let (t, c) ← string s.cursor.pos s.cursor.next
    return (⟨if s.cursor.peek = 38 then .stringName else .nodePath, s.cursor.pos, s.cursor.until c, .text t, c.pos⟩,
      { s with cursor := c }) := by
  obtain ⟨hmark, hquote⟩ := marked_iff.1 h
  have hname : isNameStart s.cursor.peek = false := by
    rcases hmark with hmark | hmark <;> rw [hmark] <;> decide
  have hbracket : bracket? s.cursor.peek = none := by
    rcases hmark with hmark | hmark <;> rw [hmark] <;> rfl
  have hother : s.cursor.peek ≠ 44 ∧ s.cursor.peek ≠ 34 ∧ s.cursor.peek ≠ 39 ∧ s.cursor.peek ≠ 46 ∧
      isDigit s.cursor.peek = false := by
    rcases hmark with hmark | hmark <;> rw [hmark] <;> decide
  have hmarked : ((decide (s.cursor.peek = 38) || decide (s.cursor.peek = 94)) &&
      (decide (s.cursor.byteAt 1 = 34) || decide (s.cursor.byteAt 1 = 39))) = true := by
    simpa using ⟨hmark, hquote⟩
  simp only [token, hother, hname, hbracket, hmarked, decide_false, Bool.or_self, Bool.false_eq_true, if_false, if_true]

/-- **Only at a quote, or at the mark of one**, there is a string. -/
theorem token_isString (s : State) : Gives (token s) fun r => r.1.kind.isString = true →
    (s.cursor.peek = 34 ∨ s.cursor.peek = 39) ∨ Marked s.cursor := by
  have hother : ∀ {k : TokenKind}, k.isString = false → k.isString = true →
      (s.cursor.peek = 34 ∨ s.cursor.peek = 39) ∨ Marked s.cursor := by
    intro k hfalse htrue
    rw [hfalse] at htrue
    cases htrue
  unfold token
  extract_lets c ch finish word sign stop mark
  split
  · exact gives_pure (hother rfl)
  split
  · rename_i hquote
    exact gives_bind fun _ _ => gives_pure fun _ => .inl (by simpa using hquote)
  split
  · refine gives_pure (hother ?_)
    cases hk : TokenKind.keyword? (c.until (c.skip isNamePart)) with
    | none => rfl
    | some k => exact keyword?_isString hk
  split
  · rename_i hbracket
    exact gives_pure (hother (bracket?_isString hbracket))
  · rename_i hbracket
    extract_lets close
    exact gives_unless fun _ => gives_pure (hother (bracket?_isString hbracket))
  split
  · refine gives_bind fun r hr => gives_pure (hother ?_)
    have hkind := number_kind c r hr
    simp only [TokenKind.isNumeral, Bool.or_eq_true, decide_eq_true_eq] at hkind
    rcases hkind with ((hkind | hkind) | hkind) | hkind <;> rw [hkind] <;> rfl
  split
  · rename_i hmark
    refine gives_bind fun _ _ => gives_pure fun _ => .inr (marked_iff.2 ?_)
    simpa using hmark
  split
  · exact gives_unless fun _ => gives_pure (hother rfl)
  split
  · rename_i hmark
    exact gives_pure (hother (punctuation?_isString hmark))
  · exact gives_throw

end Quotes

/-- What is read, without strings in which a line break is escaped. -/
def unjoined (x : Except Fault (Token × State)) : Except Fault (Token × State) := do
  let r ← x
  if r.1.joinsLines then throw (r.1.quotePos, .badString (.invalidEscape "\\\r"))
  return r

theorem unjoined_plain {r : Token × State} (h : r.1.joinsLines = false) : unjoined (.ok r) = .ok r := by
  show (if r.1.joinsLines = true then _ else _) = _
  rw [h]
  rfl

theorem unjoined_joined {r : Token × State} (h : r.1.joinsLines = true) :
    unjoined (.ok r) = .error (r.1.quotePos, .badString (.invalidEscape "\\\r")) := by
  show (if r.1.joinsLines = true then _ else _) = _
  rw [h]
  rfl

/-- What is read at one place of both texts. -/
def SameRead (eol : List UInt8) (n : Nat) (r r' : Token × State) : Prop :=
  SameToken r.1 r'.1 ∧ Twins (Respelled eol n) r.2 r'.2

section Tokens

variable {eol : List UInt8} {n : Nat} {s s' : State}

theorem escapesBreak_marked {c d : Cursor} (hmark : c.peek = 38 ∨ c.peek = 94) (hreaches : c.next.Reaches d) :
    escapesBreak (c.until d).bytes = escapesBreak (c.next.until d).bytes := by
  obtain ⟨bs, hpasses⟩ := hreaches.passes
  obtain ⟨b, hb, hnext⟩ : ∃ b : UInt8, b ≠ 92 ∧ c.Passes [b] c.next := by
    rcases hmark with hmark | hmark
    · exact ⟨38, by decide, Cursor.next_ascii (Cursor.rest_of_peek hmark (by decide)) (by decide)⟩
    · exact ⟨94, by decide, Cursor.next_ascii (Cursor.rest_of_peek hmark (by decide)) (by decide)⟩
  rw [(hnext.trans hpasses).until_eq, hpasses.until_eq]
  exact escapesBreak_cons hb bs

theorem token_respell_plain (heol : IsReturn eol) (h : Twins (Respelled eol n) s s')
    (hpeek : s.cursor.peek ≠ 0 ∧ s.cursor.peek ≠ 10) (hplain : ∀ r, token s = .ok r → r.1.joinsLines = false) :
    Mirrors True (SameRead eol n) (token s) (token s') := by
  have L := respelled_likeness heol n
  have hrest := s.cursor.rest_ne_nil_of_peek hpeek.1
  have hvalue : ValueAlike True (Respelled eol n) s.cursor.pos s.cursor s'.cursor := by
    refine h.cursor.valueAlike heol fun hquote t d hstring => ?_
    have htoken := token_quote hquote
    rw [hstring] at htoken
    exact hplain _ htoken
  have hmarked : s.cursor.peek = 38 ∨ s.cursor.peek = 94 →
      ValueAlike True (Respelled eol n) s.cursor.pos s.cursor.next s'.cursor.next := by
    intro hmark
    refine (h.cursor.next heol hrest).valueAlike heol fun hquote t d hstring => ?_
    have htoken := token_marked ⟨hmark, hquote⟩
    rw [hstring] at htoken
    have hjoins := hplain _ htoken
    obtain ⟨hclosed, -⟩ := string_value hstring
    have hreaches := s.cursor.next.next_reaches.trans (closing?_reaches _ _ hclosed)
    rw [← escapesBreak_marked hmark hreaches]
    rcases hmark with hmark | hmark
    · simpa [Token.joinsLines, hmark, TokenKind.isString] using hjoins
    · simpa [Token.joinsLines, hmark, TokenKind.isString] using hjoins
  have hmirrors := L.token h hpeek hvalue hmarked
  constructor
  · intro r hr
    obtain ⟨r', hr', htokens, htwins⟩ := hmirrors.ok r hr
    have hcut := token_cut s r hr
    have hcut' := token_cut s' r' hr'
    refine ⟨r', hr', ⟨htokens.1, ?_, htokens.2, ?_⟩, htwins⟩
    · rw [hcut.pos, hcut'.pos, h.cursor.pos]
    · rw [hcut.after, hcut'.after, htwins.cursor.pos]
  · exact hmirrors.error

/-- A string in which a line break is escaped is refused in the other spelling. -/
theorem token_respell_joined (heol : IsReturn eol) (h : Twins (Respelled eol n) s s') {r : Token × State}
    (hr : token s = .ok r) (hjoins : r.1.joinsLines = true) : ∃ e, token s' = .error e ∧ e.1 = r.1.quotePos := by
  simp only [Token.joinsLines, Bool.and_eq_true] at hjoins
  obtain ⟨hstring, hescapes⟩ := hjoins
  rcases token_isString s r hr hstring with hquote | hmarked
  · have hquote' : s'.cursor.peek = 34 ∨ s'.cursor.peek = 39 := by rwa [h.cursor.peek heol]
    rw [token_quote hquote] at hr
    rw [token_quote hquote']
    cases hvalue : string s.cursor.pos s.cursor with
    | error e =>
      rw [hvalue] at hr
      cases hr
    | ok v =>
      obtain ⟨t, d⟩ := v
      rw [hvalue] at hr
      cases hr
      obtain ⟨e, he, hpos⟩ := h.cursor.string_fails heol s'.cursor.pos hquote hvalue hescapes
      exact ⟨e, by rw [he]; rfl, hpos⟩
  · have hpeek : s.cursor.peek ≠ 0 ∧ s.cursor.peek ≠ 10 := by
      rcases hmarked.1 with hmark | hmark <;> rw [hmark] <;> decide
    have hrest := s.cursor.rest_ne_nil_of_peek hpeek.1
    have hnext := h.cursor.next heol hrest
    have hmarked' : Marked s'.cursor := by rwa [Marked, h.cursor.peek heol, hnext.peek heol]
    rw [token_marked hmarked] at hr
    rw [token_marked hmarked']
    cases hvalue : string s.cursor.pos s.cursor.next with
    | error e =>
      rw [hvalue] at hr
      cases hr
    | ok v =>
      obtain ⟨t, d⟩ := v
      rw [hvalue] at hr
      cases hr
      have hreaches := s.cursor.next.next_reaches.trans (closing?_reaches _ _ (string_value hvalue).1)
      have hescapes : escapesBreak (s.cursor.next.until d).bytes = true := by
        rw [← escapesBreak_marked hmarked.1 hreaches]
        exact hescapes
      obtain ⟨e, he, hpos⟩ := hnext.string_fails heol s'.cursor.pos hmarked.2 hvalue hescapes
      refine ⟨e, by rw [he]; rfl, ?_⟩
      rw [hpos, next_pos hrest, Pos.afterCode, if_neg hpeek.2, Token.quotePos, if_neg]
      · rfl
      · dsimp only
        split <;> nofun

theorem token_respell (heol : IsReturn eol) (h : Twins (Respelled eol n) s s')
    (hpeek : s.cursor.peek ≠ 0 ∧ s.cursor.peek ≠ 10) : Mirrors True (SameRead eol n) (unjoined (token s)) (token s') := by
  cases hr : token s with
  | error e =>
    have hmirrors := token_respell_plain heol h hpeek fun r hr' => by rw [hr] at hr'; cases hr'
    rwa [hr] at hmirrors
  | ok r =>
    cases hjoins : r.1.joinsLines with
    | true =>
      obtain ⟨e, he, hpos⟩ := token_respell_joined heol h hr hjoins
      rw [unjoined_joined hjoins]
      exact mirrors_error fun _ => ⟨e, he, hpos⟩
    | false =>
      have hmirrors := token_respell_plain heol h hpeek fun r' hr' => by rw [hr] at hr'; cases hr'; exact hjoins
      rw [unjoined_plain hjoins]
      rwa [hr] at hmirrors

end Tokens

/-! ### Layout -/

section Layout

variable {eol : List UInt8} {n fuel fuel' : Nat} {s s' : State}

/-- The fuel suffices for a call: it is never used up. -/
def Fed (fuel : Nat) (s : State) : Prop :=
  s.cursor.rest.length + 2 ≤ fuel ∨ s.lineStart = false ∧ s.pending < 0 ∧ 0 < fuel

theorem Respelled.skip (heol : IsReturn eol) {c c' : Cursor} (h : Respelled eol n c c') {p : Nat → Bool}
    (hzero : p 0 = false) : Respelled eol n (c.skip p) (c'.skip p) :=
  (respelled_likeness heol n).skip h (fun h => by rw [h.peek heol]) hzero

theorem Respelled.beyond (heol : IsReturn eol) {c c' : Cursor} (h : Respelled eol n c c') :
    Respelled eol n (beyond c) (beyond c') := by
  have hblanks : Respelled eol n (c.skip isBlank) (c'.skip isBlank) := h.skip heol rfl
  unfold Scan.beyond
  dsimp only
  rw [hblanks.peek heol]
  split
  · exact hblanks.skip heol rfl
  · exact hblanks

/-- Layout at one place of both texts. -/
theorem mirrors_layout {k : TokenKind} (hk : k.isString = false) {c c' d d' : Cursor} (hpos : c'.pos = c.pos)
    (hafter : d'.pos = d.pos) (h : Twins (Respelled eol n) s s') :
    Mirrors True (SameRead eol n) (unjoined (pure (layout k c d, s))) (pure (layout k c' d', s')) := by
  have hplain : (layout k c d).joinsLines = false := by
    show (k.isString && _) = false
    rw [hk, Bool.false_and]
  have hread : unjoined (pure (layout k c d, s)) = pure (layout k c d, s) := unjoined_plain hplain
  rw [hread]
  exact mirrors_pure ⟨⟨rfl, hpos, rfl, hafter⟩, h⟩

/-- What is read of the beginning of a line. -/
structure SameLine (eol : List UInt8) (n : Nat) (s s' : State) (r r' : State × Bool) : Prop where
  state : Twins (Respelled eol n) r.1 r'.1
  blank : r'.2 = r.2
  lineStart : r.1.lineStart = false
  length : r.1.cursor.rest.length ≤ s.cursor.rest.length
  length' : r'.1.cursor.rest.length ≤ s'.cursor.rest.length

theorem indentation_respell (heol : IsReturn eol) (h : Twins (Respelled eol n) s s') :
    Mirrors True (SameLine eol n s s') (indentation s) (indentation s') := by
  have hskip : Respelled eol n (s.cursor.skip isBlank) (s'.cursor.skip isBlank) := h.cursor.skip heol rfl
  have hblanks : s'.cursor.until (s'.cursor.skip isBlank) = s.cursor.until (s.cursor.skip isBlank) :=
    (respelled_likeness heol n).text h.cursor hskip (Cursor.Along.refl.skip rfl)
  have hsame : ∀ {p : Int} {cols : List Nat} {blank : Bool}, SameLine eol n s s'
      ({ s with cursor := s.cursor.skip isBlank, lineStart := false, pending := p, indents := cols }, blank)
      ({ s' with cursor := s'.cursor.skip isBlank, depth := s.depth, lineStart := false, pending := p, indents := cols },
        blank) :=
    ⟨⟨hskip, rfl, rfl, rfl, rfl⟩, rfl, rfl, s.cursor.skip_length_le isBlank, s'.cursor.skip_length_le isBlank⟩
  unfold indentation
  dsimp only
  rw [hblanks, hskip.peek heol, h.depth, h.indents, h.pending]
  refine mirrors_ite Iff.rfl (fun _ => mirrors_pure ?_) fun _ => ?_
  · exact hsame
  refine mirrors_unless Iff.rfl (fun _ => hskip.pos) fun _ => ?_
  refine mirrors_ite Iff.rfl (fun _ => mirrors_pure hsame) fun _ => ?_
  exact mirrors_unless Iff.rfl (fun _ => hskip.pos) fun _ => mirrors_pure hsame

theorem unjoined_bind {α : Type} (x : Except Fault α) (f : α → Except Fault (Token × State)) :
    unjoined (x >>= f) = x >>= fun a => unjoined (f a) := by
  cases x <;> rfl

theorem unjoined_ite {c : Prop} [Decidable c] (x y : Except Fault (Token × State)) :
    unjoined (if c then x else y) = if c then unjoined x else unjoined y := apply_ite unjoined c x y

theorem onward_respell (heol : IsReturn eol)
    (ih : ∀ (fuel' : Nat) {s s' : State}, Twins (Respelled eol n) s s' → Fed fuel s → Fed fuel' s' →
      Mirrors True (SameRead eol n) (unjoined (next fuel s)) (next fuel' s'))
    (atStart blank : Bool) (h : Twins (Respelled eol n) s s') (hline : s.lineStart = false)
    (hfuel : s.cursor.rest.length + 1 ≤ fuel) (hfuel' : s'.cursor.rest.length + 1 ≤ fuel') :
    Mirrors True (SameRead eol n) (unjoined (onward fuel atStart blank s)) (onward fuel' atStart blank s') := by
  have hpeek := h.cursor.peek heol
  have hnext : s.cursor.peek ≠ 0 → Respelled eol n s.cursor.next s'.cursor.next := fun hne =>
    h.cursor.next heol (s.cursor.rest_ne_nil_of_peek hne)
  have hfed : ∀ {c : Cursor} {k : Nat}, c.peek ≠ 0 → c.rest.length + 1 ≤ k → c.next.rest.length + 2 ≤ k := by
    intro c k hne hk
    have hlt := Cursor.next_length_lt (c.rest_ne_nil_of_peek hne)
    omega
  unfold onward
  rw [unjoined_ite]
  refine mirrors_ite (by rw [hpeek]) (fun hbreak => ?_) fun hbreak => ?_
  · have hne : s.cursor.peek ≠ 0 := by rw [hbreak]; decide
    have hmoved : Twins (Respelled eol n) { s with cursor := s.cursor.next, lineStart := true }
        { s' with cursor := s'.cursor.next, lineStart := true } :=
      ⟨hnext hne, h.depth, h.indents, h.pending, rfl⟩
    rw [unjoined_ite]
    refine mirrors_ite (by rw [h.depth]) (fun _ => ?_) fun _ => ?_
    · exact ih fuel' hmoved (.inl (hfed hne hfuel)) (.inl (hfed (by rwa [hpeek]) hfuel'))
    · exact mirrors_layout rfl h.cursor.pos (hnext hne).pos hmoved
  rw [unjoined_ite]
  refine mirrors_ite (by rw [hpeek]) (fun _ => ?_) fun hne => ?_
  · rw [unjoined_ite]
    refine mirrors_ite (by rw [h.indents]) (fun hblocks => ?_) fun _ => ?_
    · rw [unjoined_ite]
      refine mirrors_ite Iff.rfl (fun _ => ?_) fun _ => ?_
      · -- The file ends with open blocks: what closes them is told at once.
        have hclose : (1 : Int) - s.indents.length < 0 := by omega
        rw [h.indents]
        refine ih fuel' ⟨h.cursor, h.depth, rfl, rfl, h.lineStart⟩ (.inr ⟨hline, hclose, by omega⟩)
          (.inr ⟨h.lineStart.trans hline, hclose, by omega⟩)
      · exact mirrors_layout rfl h.cursor.pos h.cursor.pos ⟨h.cursor, h.depth, h.indents, h.pending, rfl⟩
    · exact mirrors_layout rfl h.cursor.pos h.cursor.pos h
  rw [unjoined_ite]
  refine mirrors_ite (by rw [hpeek]) (fun _ => ?_) fun _ => ?_
  · have hpeek' := (hnext hne).peek heol
    rw [unjoined_ite]
    refine mirrors_ite (by rw [hpeek']) (fun _ => ?_) fun hline => ?_
    · exact mirrors_throw fun _ => (hnext hne).pos
    · have hbreak : s.cursor.next.peek = 10 := Classical.not_not.1 hline
      have hmoved : Respelled eol n s.cursor.next.next s'.cursor.next.next :=
        (hnext hne).next heol (s.cursor.next.rest_ne_nil_of_peek (by rw [hbreak]; decide))
      refine ih fuel' ⟨hmoved, h.depth, h.indents, h.pending, h.lineStart⟩ (.inl ?_) (.inl ?_)
      · exact Nat.le_trans (Nat.succ_le_succ (Nat.succ_le_succ s.cursor.next.next_length_le)) (hfed hne hfuel)
      · refine Nat.le_trans (Nat.succ_le_succ (Nat.succ_le_succ s'.cursor.next.next_length_le)) (hfed ?_ hfuel')
        rwa [hpeek]
  · exact token_respell heol h ⟨hne, hbreak⟩

/-- **The next token** of both texts. -/
theorem next_respell (heol : IsReturn eol) (fuel fuel' : Nat) (h : Twins (Respelled eol n) s s') (hfuel : Fed fuel s)
    (hfuel' : Fed fuel' s') : Mirrors True (SameRead eol n) (unjoined (next fuel s)) (next fuel' s') := by
  induction fuel generalizing s s' fuel' with
  | zero => rcases hfuel with hfuel | ⟨-, -, hfuel⟩ <;> omega
  | succ fuel ih =>
    cases fuel' with
    | zero => rcases hfuel' with hfuel' | ⟨-, -, hfuel'⟩ <;> omega
    | succ fuel' =>
      rw [next_succ, next_succ, unjoined_bind]
      have hstart : Mirrors True (SameLine eol n s s') (if s.lineStart then indentation s else pure (s, false))
          (if s'.lineStart then indentation s' else pure (s', false)) := by
        refine mirrors_ite (by rw [h.lineStart]) (fun _ => indentation_respell heol h) fun hline => ?_
        exact mirrors_pure ⟨h, rfl, eq_false_of_ne_true hline, Nat.le_refl _, Nat.le_refl _⟩
      refine mirrors_bind hstart fun r r' hr hline => ?_
      obtain ⟨s₁, blank⟩ := r
      obtain ⟨s₁', blank'⟩ := r'
      obtain ⟨hstate, rfl, hfalse, hlength, hlength'⟩ := hline
      dsimp only at hstate hfalse hlength hlength' ⊢
      rw [unjoined_ite]
      refine mirrors_ite (by rw [hstate.pending]) (fun hpending => ?_) fun hpending => ?_
      · exact mirrors_layout rfl hstate.cursor.pos hstate.cursor.pos
          ⟨hstate.cursor, hstate.depth, hstate.indents, congrArg (· + 1) hstate.pending, hstate.lineStart⟩
      rw [unjoined_ite]
      refine mirrors_ite (by rw [hstate.pending]) (fun _ => ?_) fun hpending' => ?_
      · exact mirrors_layout rfl hstate.cursor.pos hstate.cursor.pos
          ⟨hstate.cursor, hstate.depth, hstate.indents, congrArg (· - 1) hstate.pending, hstate.lineStart⟩
      · -- Nothing of the indentation is left to tell, so the fuel has been enough for the text.
        have hnone : s.lineStart = false → ¬ s.pending < 0 := by
          intro hline
          rw [hline] at hr
          cases hr
          exact hpending
        have hfuel : s.cursor.rest.length + 2 ≤ fuel + 1 := by
          rcases hfuel with hfuel | ⟨hline, hneg, -⟩
          · exact hfuel
          · exact absurd hneg (hnone hline)
        have hfuel' : s'.cursor.rest.length + 2 ≤ fuel' + 1 := by
          rcases hfuel' with hfuel' | ⟨hline, hneg, -⟩
          · exact hfuel'
          · rw [h.pending] at hneg
            exact absurd hneg (hnone (h.lineStart.symm.trans hline))
        have hmoved : Twins (Respelled eol n) { s₁ with cursor := Scan.beyond s₁.cursor }
            { s₁' with cursor := Scan.beyond s₁'.cursor } :=
          ⟨hstate.cursor.beyond heol, hstate.depth, hstate.indents, hstate.pending, hstate.lineStart⟩
        have hbeyond := beyond_length_le s₁.cursor
        have hbeyond' := beyond_length_le s₁'.cursor
        rw [h.lineStart]
        refine onward_respell heol (fun fuel' => ih fuel') _ _ hmoved hfalse ?_ ?_
        · dsimp only
          omega
        · dsimp only
          omega

end Layout

/-! ### Texts -/

/-- The tokens up to the first string in which a line break is escaped, which is refused. -/
def Tokens.unjoined (r : Tokens) : Tokens :=
  match r.tokens.find? Token.joinsLines with
  | none => r
  | some t => ⟨r.tokens.takeWhile (!·.joinsLines), some (t.quotePos, .badString (.invalidEscape "\\\r"))⟩

/-- The tokens of both texts, and where reading them fails. -/
structure SameTokens (r r' : Tokens) : Prop where
  tokens : List.Forall₂ SameToken r.tokens r'.tokens
  fault : r'.fault.map Prod.fst = r.fault.map Prod.fst

section Texts

variable {eol : List UInt8} {n : Nat} {s s' : State}

theorem unjoined_cons {t : Token} (h : t.joinsLines = false) (r : Tokens) :
    Tokens.unjoined { r with tokens := t :: r.tokens } = { r.unjoined with tokens := t :: r.unjoined.tokens } := by
  unfold Tokens.unjoined
  rw [List.find?_cons, h]
  cases hfind : r.tokens.find? Token.joinsLines with
  | none => rfl
  | some u => simp [h]

theorem unjoined_last {t : Token} (h : t.joinsLines = false) : Tokens.unjoined ⟨[t], none⟩ = ⟨[t], none⟩ := by
  unfold Tokens.unjoined
  rw [List.find?_cons, h]
  rfl

theorem unjoined_head {t : Token} {r : Tokens} (hr : ∃ ts, r.tokens = t :: ts) (h : t.joinsLines = true) :
    r.unjoined = ⟨[], some (t.quotePos, .badString (.invalidEscape "\\\r"))⟩ := by
  obtain ⟨ts, hts⟩ := hr
  unfold Tokens.unjoined
  rw [hts, List.find?_cons, h, List.takeWhile_cons, h]
  rfl

theorem readAll_respell (heol : IsReturn eol) (fuel fuel' : Nat) (h : Twins (Respelled eol n) s s')
    (hsize : size s < fuel) (hsize' : size s' < fuel') :
    SameTokens (readAll fuel s).unjoined (readAll fuel' s') := by
  induction fuel generalizing s s' fuel' with
  | zero => cases hsize
  | succ fuel ih =>
    cases fuel' with
    | zero => cases hsize'
    | succ fuel' =>
      have hmirrors := next_respell heol (s.cursor.rest.length + 3) (s'.cursor.rest.length + 3) h (.inl (by omega))
        (.inl (by omega))
      unfold readAll
      cases hnext : next (s.cursor.rest.length + 3) s with
      | error f =>
        rw [hnext] at hmirrors
        obtain ⟨f', hnext', hpos⟩ := hmirrors.error trivial f rfl
        rw [hnext']
        exact ⟨.nil, congrArg some hpos⟩
      | ok r =>
        obtain ⟨t, s₁⟩ := r
        rw [hnext] at hmirrors
        cases hjoins : t.joinsLines with
        | true =>
          rw [unjoined_joined hjoins] at hmirrors
          obtain ⟨f', hnext', hpos⟩ := hmirrors.error trivial _ rfl
          rw [hnext']
          dsimp only
          rw [unjoined_head]
          · exact ⟨.nil, congrArg some hpos⟩
          · split <;> exact ⟨_, rfl⟩
          · exact hjoins
        | false =>
          rw [unjoined_plain hjoins] at hmirrors
          obtain ⟨⟨t', s₁'⟩, hnext', hsame, htwins⟩ := hmirrors.ok _ rfl
          dsimp only at hsame htwins
          rw [hnext']
          dsimp only
          rw [hsame.kind]
          split
          · rw [unjoined_last hjoins]
            exact ⟨.cons hsame .nil, rfl⟩
          · rename_i hkind
            have hfalls := next_falls _ s _ hnext hkind
            have hfalls' := next_falls _ s' _ hnext' (hsame.kind ▸ hkind)
            dsimp only at hfalls hfalls'
            obtain ⟨htokens, hfault⟩ := ih fuel' htwins (by omega) (by omega)
            rw [unjoined_cons hjoins]
            exact ⟨.cons hsame htokens, hfault⟩

/-- Without escaped line breaks nothing is refused. -/
theorem unjoined_eq {r : Tokens} (h : ∀ t ∈ r.tokens, t.joinsLines = false) : r.unjoined = r := by
  unfold Tokens.unjoined
  rw [List.find?_eq_none.2 fun t ht => by simp [h t ht]]

/-- **The tokens of a text in another spelling** of its line breaks. They are of the same kinds, at the same places, and
stand for the same, up to the first string in which a line break is escaped: there the other spelling is refused. -/
theorem scan_respell (heol : IsReturn eol) (source : Text) (hreturn : 13 ∉ source.bytes) :
    SameTokens (scan source).unjoined (scan ⟨respell eol source.bytes⟩) := by
  have hfuel : ∀ source : Text, size (start source) < 3 * source.size + 10 := by
    intro source
    have hsize := size_le (start source)
    simp only [bulk, start, List.length_singleton, if_true] at hsize
    show _ < 3 * source.bytes.length + 10
    simp only [start]
    omega
  have htwins : Twins (Respelled eol (respell eol source.bytes).length) (start source)
      (start ⟨respell eol source.bytes⟩) :=
    ⟨⟨rfl, rfl, hreturn, Nat.zero_add _⟩, rfl, rfl, rfl, rfl⟩
  exact readAll_respell heol _ _ htwins (hfuel source) (hfuel ⟨respell eol source.bytes⟩)

/-- A text with line breaks between tokens, behind a backslash, and in strings, the last one escaped. -/
def brokenText : Text := "if x: # a\n\ty = \"\"\"b\nc\"\"\" + \\\n0x1\n&\"d\\\ne\"\n"

theorem scan_respell_brokenText : IsReturn [13, 10] ∧ 13 ∉ brokenText.bytes ∧
    SameTokens (scan brokenText).unjoined (scan ⟨respell [13, 10] brokenText.bytes⟩) := by
  have heol : IsReturn [13, 10] := .inl rfl
  have hreturn : 13 ∉ brokenText.bytes := by decide
  exact ⟨heol, hreturn, scan_respell heol brokenText hreturn⟩

/-- A string of two lines with the line break escaped is a string only if the line break is a line feed. -/
theorem escaped_return_refused :
    (scan "\"a\\\nb\"\n").fault = none ∧
      ((scan "\"a\\\nb\"\n").tokens.map Token.payload).head? = some (.text "ab") ∧
      (scan ⟨respell [13, 10] ("\"a\\\nb\"\n" : Text).bytes⟩).fault =
        some (⟨1, 1⟩, .badString (.invalidEscape "\\\r")) ∧
      (scan ⟨respell [13] ("\"a\\\nb\"\n" : Text).bytes⟩).fault =
        some (⟨1, 1⟩, .badString (.invalidEscape "\\\r")) := by
  decide

end Texts

end Scan

end GameScript
