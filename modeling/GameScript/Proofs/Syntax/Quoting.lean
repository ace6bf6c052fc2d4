import GameScript.Proofs.Syntax.Rendering
import GameScript.Proofs.Syntax.Respelling

/-!
# Quoted texts

A text that is written as a literal is read back as it was, whatever its bytes are.

* `Text.unquote_quote` — **the value of a quoted text** is the text;
* `Scan.Inside` — bytes that a string goes on over;
* `Scan.closing?_quote` — a quoted text is a string up to its last byte;
* `scan_quote` — **a quoted text is one token**.
-/

namespace GameScript

/-! ### The value of a literal -/

namespace Text

/-- A byte is shown by a letter, by its number, or by itself. -/
theorem quoteByte_cases (b : UInt8) :
    (∃ e, quoteByte b = [92, e] ∧ unescape? e = some b ∧ e ∉ [10, 13] ∧ e < 128) ∨
      (∃ ds, quoteByte b = 92 :: 117 :: ds ∧ ds.length = 4 ∧ hexNumber? ds = some b.toNat ∧ b < 128 ∧
        ∀ d ∈ ds, d ∉ [10, 13, 34, 92]) ∨
      quoteByte b = [b] ∧ b ∉ [10, 13, 34, 92] := by
  have hletter : ∀ n < 256, (escape? n.toUInt8).all fun e =>
      unescape? e = some n.toUInt8 && e ∉ [10, 13] && e < 128 := by
    decide +kernel
  have hnumber : ∀ n < 256, escape? n.toUInt8 = none → (n.toUInt8 < 32 || n.toUInt8 = 127) = true →
      hexNumber? (hexDigits 4 n) = some n ∧ n.toUInt8 < 128 ∧
        ((hexDigits 4 n).all fun d => d ∉ [10, 13, 34, 92]) = true := by
    decide +kernel
  have hself : ∀ n < 256, escape? n.toUInt8 = none → n.toUInt8 ∉ [10, 13, 34, 92] := by
    decide +kernel
  have hlt := b.toNat_lt
  have hb : b.toNat.toUInt8 = b := UInt8.ofNat_toNat
  replace hletter := hletter _ hlt
  replace hnumber := hnumber _ hlt
  replace hself := hself _ hlt
  rw [hb] at hletter hnumber hself
  unfold quoteByte
  cases hescape : escape? b with
  | some e =>
    rw [hescape] at hletter
    have he : (unescape? e = some b ∧ e ∉ [10, 13]) ∧ e < 128 := by simpa using hletter
    exact .inl ⟨e, rfl, he.1.1, he.1.2, he.2⟩
  | none =>
    dsimp only
    split
    · obtain ⟨hvalue, hascii, hdigits⟩ := hnumber hescape ‹_›
      exact .inr (.inl ⟨_, rfl, rfl, hvalue, hascii, by simpa using hdigits⟩)
    · exact .inr (.inr ⟨rfl, hself hescape⟩)

/-- What shows a byte stands for it. -/
theorem decodeInside_quoteByte (b : UInt8) (rest : List UInt8) :
    decodeInside false (quoteByte b ++ rest) = do return b :: (← decodeInside false rest) := by
  obtain ⟨e, heq, he, hfeed, -⟩ | ⟨ds, heq, hlength, hvalue, hascii, -⟩ | ⟨heq, hplain⟩ := quoteByte_cases b
  · rw [heq]
    exact decodeInside_escape he (fun h => hfeed (by simp [h])) rest
  · have hb : b.toNat < 128 := UInt8.lt_iff_toNat_lt.1 hascii
    have hcode : codePoint? (92 :: 117 :: ds) = .ok b.toNat := by
      have hle : b.toNat ≤ 0x10FFFF := by omega
      simp [codePoint?, hvalue, hle]
    have hrune : encodeRune b.toNat = [b] := by simp [encodeRune, hb]
    rw [heq, List.cons_append, List.cons_append, decodeInside_point (.inl ⟨rfl, hlength⟩) rfl, hcode]
    show (do return encodeRune b.toNat ++ (← decodeInside false rest)) = _
    rw [hrune]
    rfl
  · rw [heq]
    simp only [List.mem_cons, List.not_mem_nil, or_false, not_or] at hplain
    exact decodeInside_plain ⟨hplain.2.1, hplain.2.2.2⟩ rest

theorem decodeInside_quoted (bs : List UInt8) : decodeInside false (bs.flatMap quoteByte) = .ok bs := by
  induction bs with
  | nil => rfl
  | cons b bs ih =>
    rw [List.flatMap_cons, decodeInside_quoteByte, ih]
    rfl

end Text

namespace Scan

/-! ### Where a string ends -/

/-- Bytes that a string goes on over: pairs that begin with a backslash, and bytes that are neither a quote nor in a
line break. -/
inductive Inside : List UInt8 → Prop
  | nil : Inside []
  | pair {e : UInt8} {bs : List UInt8} : e < 128 ∧ e ≠ 13 → Inside bs → Inside (92 :: e :: bs)
  | plain {b : UInt8} {bs : List UInt8} : b ∉ [10, 13, 34, 92] → Inside bs → Inside (b :: bs)

section Inside

variable {bs bs' rest : List UInt8} {c : Cursor}

theorem Inside.append (h : Inside bs) (h' : Inside bs') : Inside (bs ++ bs') := by
  induction h with
  | nil => exact h'
  | pair he _ ih => exact ih.pair he
  | plain hb _ ih => exact ih.plain hb

theorem inside_plain (h : ∀ b ∈ bs, b ∉ [10, 13, 34, 92]) : Inside bs := by
  induction bs with
  | nil => exact .nil
  | cons b bs ih => exact (ih fun b hb => h b (List.mem_cons_of_mem _ hb)).plain (h b List.mem_cons_self)

theorem inside_quoteByte (b : UInt8) : Inside (Text.quoteByte b) := by
  obtain ⟨e, heq, -, hfeed, hascii⟩ | ⟨ds, heq, -, -, -, hds⟩ | ⟨heq, hplain⟩ := Text.quoteByte_cases b
  · rw [heq]
    exact Inside.nil.pair ⟨hascii, fun h => hfeed (by simp [h])⟩
  · rw [heq]
    exact (inside_plain hds).pair (by decide)
  · rw [heq]
    exact Inside.nil.plain hplain

theorem inside_quoted (bs : List UInt8) : Inside (bs.flatMap Text.quoteByte) := by
  induction bs with
  | nil => exact .nil
  | cons b bs ih => exact (inside_quoteByte b).append ih

/-- The rest of a code point is inside a string where its first byte is. -/
theorem Inside.drop (h : Inside bs) (n : Nat) (hn : ∀ b ∈ bs.take n, 128 ≤ b.toNat) : Inside (bs.drop n) := by
  induction n generalizing bs with
  | zero => exact h
  | succ n ih =>
    cases h with
    | nil => exact .nil
    | pair => exact absurd (hn 92 (by simp)) (by decide)
    | plain hb h => exact ih h fun x hx => hn x (by simp [hx])

/-- A quote is no byte of a code point that starts before it. -/
theorem take_of_quote (bs rest : List UInt8) (n : Nat) (hn : ∀ b ∈ (bs ++ 34 :: rest).take n, 128 ≤ b.toNat) :
    (bs ++ 34 :: rest).take n = bs.take n := by
  refine List.take_append_of_le_length (Nat.le_of_not_lt fun hlt => ?_)
  have hquote : 34 ∈ (bs ++ 34 :: rest).take n := by
    rw [List.take_append, List.mem_append]
    obtain ⟨k, hk⟩ := Nat.exists_eq_add_of_lt hlt
    exact .inr (by rw [show n - bs.length = k + 1 by omega]; simp)
  exact absurd (hn 34 hquote) (by decide)

/-- **A string goes on** up to the first quote that is not inside it. -/
theorem closeString_inside (fuel : Nat) (h : Inside bs) (hrest : c.rest = bs ++ 34 :: rest) (hfuel : bs.length < fuel) :
    ∃ c', closeString 34 fuel c = some c' ∧ c.Passes (bs ++ [34]) c' := by
  induction fuel generalizing bs c with
  | zero => omega
  | succ fuel ih =>
    unfold closeString
    rw [if_neg (by simp [hrest])]
    dsimp only
    cases h with
    | nil =>
      have hpeek : c.peek = 34 := Cursor.peek_ascii hrest (by decide)
      rw [if_pos hpeek]
      exact ⟨_, rfl, Cursor.next_ascii hrest (by decide)⟩
    | @pair e bs he h =>
      have hpeek : c.peek = 92 := Cursor.peek_ascii hrest (by decide)
      have hnext := Cursor.next_ascii hrest (by decide)
      have hrest₁ : c.next.rest = e :: (bs ++ 34 :: rest) := by simpa [hrest] using hnext.rest.symm
      have hnext₁ := Cursor.next_ascii hrest₁ he
      have hrest₂ : c.next.next.rest = bs ++ 34 :: rest := by simpa [hrest₁] using hnext₁.rest.symm
      obtain ⟨c', hclose, hpasses⟩ := ih h hrest₂ (by simp only [List.length_cons] at hfuel; omega)
      refine ⟨c', ?_, hnext.trans (hnext₁.trans hpasses)⟩
      rw [hpeek, if_neg (by decide), if_neg (by decide), if_pos rfl, if_neg (by simp [hrest₁])]
      exact hclose
    | @plain b bs hb h =>
      have hother : ∀ {n : UInt8}, n ∈ [10, 13, 34, 92] → b.toNat ≠ n.toNat :=
        fun hn heq => hb (UInt8.toNat_inj.1 heq ▸ hn)
      -- A code point of several bytes takes some of those that follow with it.
      obtain ⟨n, hn, hpeek, hpasses⟩ : ∃ n, (∀ x ∈ bs.take n, 128 ≤ x.toNat) ∧
          (c.peek ≠ 34 ∧ c.peek ≠ 10 ∧ c.peek ≠ 92) ∧ c.Passes (b :: bs.take n) c.next := by
        rcases Cursor.next_cases hrest with ⟨rfl, -⟩ | ⟨-, -, hpeek, hpasses⟩ | ⟨-, hpeek, hpasses, hmore⟩
        · exact absurd (by simp) hb
        · rw [hpeek]
          exact ⟨0, by simp, ⟨hother (n := 34) (by simp), hother (n := 10) (by simp), hother (n := 92) (by simp)⟩,
            by simpa using hpasses⟩
        · have htake := take_of_quote bs rest _ hmore
          exact ⟨_, htake ▸ hmore, by omega, htake ▸ hpasses⟩
      have hrest' : c.next.rest = bs.drop n ++ 34 :: rest := by
        have hall : b :: bs ++ 34 :: rest = (b :: bs.take n) ++ (bs.drop n ++ 34 :: rest) := by
          rw [List.cons_append, List.cons_append, ← List.append_assoc, List.take_append_drop]
        exact List.append_cancel_left (hpasses.rest.symm.trans (hrest.trans hall))
      obtain ⟨c', hclose, hpasses'⟩ := ih (h.drop n hn) hrest' (by
        simp only [List.length_cons] at hfuel
        rw [List.length_drop]
        omega)
      refine ⟨c', ?_, ?_⟩
      · rw [if_neg hpeek.1, if_neg hpeek.2.1, if_neg hpeek.2.2]
        exact hclose
      · have hall := hpasses.trans hpasses'
        rwa [List.cons_append, ← List.append_assoc, List.take_append_drop] at hall

end Inside

/-! ### The literals of a text -/

section Quotes

variable {t : Text} {c : Cursor} {rest : List UInt8}

/-- **A quoted text is a string** up to its last byte. -/
theorem closing?_quote (h : c.rest = t.quote.bytes ++ rest) (hrest : Breaks rest) :
    ∃ c', closing? c = some c' ∧ c.Passes t.quote.bytes c' := by
  have hinside := inside_quoted t.bytes
  unfold Text.quote at h ⊢
  generalize t.bytes.flatMap Text.quoteByte = bs at h hinside ⊢
  have h : c.rest = 34 :: (bs ++ 34 :: rest) := by simpa using h
  have hpeek : c.peek = 34 := Cursor.peek_ascii h (by decide)
  have hnext := Cursor.next_ascii h (by decide)
  have hrest' : c.next.rest = bs ++ 34 :: rest := by simpa [h] using hnext.rest.symm
  -- An empty text is no beginning of three quotes.
  have hsingle : ¬ (c.byteAt 1 = 34 ∧ c.byteAt 2 = 34) := by
    rintro ⟨hsecond, hthird⟩
    cases hinside with
    | nil => rcases hrest with rfl | ⟨more, rfl⟩ <;> simp [Cursor.byteAt, h] at hthird
    | pair => simp [Cursor.byteAt, h] at hsecond
    | @plain b bs hb =>
      have hquote : b.toNat = (34 : UInt8).toNat := by simpa [Cursor.byteAt, h] using hsecond
      exact hb (UInt8.toNat_inj.1 hquote ▸ by simp)
  obtain ⟨c', hclose, hpasses⟩ := closeString_inside (c.rest.length + 1) hinside hrest' (by
    rw [h, List.length_cons, List.length_append]
    omega)
  refine ⟨c', ?_, hnext.trans hpasses⟩
  unfold closing?
  rw [if_neg (by simpa [hpeek] using fun _ => hsingle), hpeek, hclose]

end Quotes

end Scan

/-- **The value of a quoted text** is the text, and it is not between three quotes. -/
theorem Text.unquote_quote (t : Text) : t.quote.unquote = .ok (t, false) := by
  have hinside := Scan.inside_quoted t.bytes
  have hvalue := decodeInside_quoted t.bytes
  unfold quote
  generalize t.bytes.flatMap quoteByte = bs at hinside hvalue
  have hsingle : ∀ m, [34] ++ bs ++ [34] ≠ [34, 34, 34] ++ m ++ [34, 34, 34] := by
    intro m heq
    cases hinside with
    | nil => simp at heq
    | pair => simp at heq
    | plain hb =>
      simp only [List.cons_append, List.nil_append, List.cons.injEq, true_and] at heq
      exact hb (by simp [heq.1])
  rw [unquote_single (.inl rfl) hsingle, hvalue]
  rfl

namespace Scan

/-- The literals that are made of a quoted text. -/
inductive Quoted where
  | string
  | stringName
  | nodePath

/-- What stands before the quotes. -/
def Quoted.mark : Quoted → Text
  | string => ""
  | stringName => "&"
  | nodePath => "^"

def Quoted.kind : Quoted → TokenKind
  | string => .string
  | stringName => .stringName
  | nodePath => .nodePath

/-- The literal of a text. -/
def Quoted.word (q : Quoted) (t : Text) : Word := ⟨q.kind, q.mark ++ t.quote, .text t⟩

section Quotes

variable {c : Cursor} {rest : List UInt8}

theorem quote_bytes (t : Text) : ∃ bs, t.quote.bytes = 34 :: bs := ⟨_, rfl⟩

theorem string_quote (start : Pos) (t : Text) (h : c.rest = t.quote.bytes ++ rest) (hrest : Breaks rest) :
    ∃ c', string start c = .ok (t, c') ∧ c.Passes t.quote.bytes c' := by
  obtain ⟨c', hclosing, hpasses⟩ := closing?_quote h hrest
  exact ⟨c', string_ok start hclosing (by rw [hpasses.until_eq]; exact t.unquote_quote), hpasses⟩

/-- A mark in front of a quoted text. -/
theorem token_marked_quote {s : State} {t : Text} {b : UInt8} {k : TokenKind}
    (hb : b = 38 ∧ k = .stringName ∨ b = 94 ∧ k = .nodePath) (h : s.cursor.rest = b :: t.quote.bytes ++ rest)
    (hrest : Breaks rest) : ∃ c, token s = .ok (⟨k, s.cursor.pos, s.cursor.until c, .text t, c.pos⟩, { s with cursor := c }) ∧
      s.cursor.Passes (b :: t.quote.bytes) c := by
  have hplain : (b < 128 ∧ b ≠ 13) ∧ b.toNat ∉ [34, 39, 44, 46] ∧ isNameStart b.toNat = false ∧
      isDigit b.toNat = false ∧ bracket? b.toNat = none ∧ (b.toNat = 38 ∨ b.toNat = 94) := by
    rcases hb with ⟨rfl, -⟩ | ⟨rfl, -⟩ <;> decide
  obtain ⟨hascii, hother, hname, hdigit, hbracket, hmark⟩ := hplain
  have hpeek : s.cursor.peek = b.toNat := Cursor.peek_ascii h hascii
  have hnext := Cursor.next_ascii h hascii
  have hrest' : s.cursor.next.rest = t.quote.bytes ++ rest := by simpa [h] using hnext.rest.symm
  have hquote : s.cursor.byteAt 1 = 34 := by
    obtain ⟨bs, hbs⟩ := quote_bytes t
    simp [Cursor.byteAt, h, hbs]
  obtain ⟨c, hstring, hpasses⟩ := string_quote s.cursor.pos t hrest' hrest
  have hkind : (if b.toNat = 38 then TokenKind.stringName else .nodePath) = k := by
    rcases hb with ⟨rfl, rfl⟩ | ⟨rfl, rfl⟩ <;> rfl
  simp only [List.mem_cons, List.not_mem_nil, or_false, not_or] at hother
  refine ⟨c, ?_, hnext.trans hpasses⟩
  simp only [token, hpeek, hother, hname, hdigit, hbracket, hquote, hstring, decide_false, Bool.or_self,
    Bool.false_eq_true, if_false]
  rw [if_pos (by rcases hmark with h | h <;> simp [h]), ← hkind]
  rfl

/-- At the end of a word, a literal of a text is read back. -/
theorem lexes_quoted (q : Quoted) (t : Text) : Lexes (q.word t) := by
  obtain ⟨bs, hbs⟩ := quote_bytes t
  cases q with
  | string =>
    have hraw : (Quoted.word .string t).raw.bytes = t.quote.bytes := rfl
    refine ⟨fun c rest h _ => IsFirst.starts (b := 34) (by decide) (by rw [h, hraw, hbs]; rfl),
      fun s rest depth h hrest hdepth => ?_⟩
    obtain rfl := eq_of_nest hdepth rfl
    have hfirst : s.cursor.rest = 34 :: (bs ++ rest) := by rw [h, hraw, hbs]; rfl
    have hpeek : s.cursor.peek = 34 := Cursor.peek_ascii hfirst (by decide)
    obtain ⟨c, hstring, hpasses⟩ := string_quote s.cursor.pos t h hrest
    refine ⟨_, _, ?_, word_of_passes h hpasses⟩
    simp only [token, hpeek, hstring, decide_true, Bool.true_or, if_true]
    rfl
  | stringName =>
    have hraw : (Quoted.word .stringName t).raw.bytes = 38 :: t.quote.bytes := by
      rw [Quoted.word, Quoted.mark, Text.bytes_append, show ("&" : Text).bytes = [38] by decide]
      rfl
    refine ⟨fun c rest h _ => IsFirst.starts (b := 38) (by decide) (by rw [h, hraw]; rfl),
      fun s rest depth h hrest hdepth => ?_⟩
    obtain rfl := eq_of_nest hdepth rfl
    obtain ⟨c, htoken, hpasses⟩ := token_marked_quote (.inl ⟨rfl, rfl⟩) (hraw ▸ h) hrest
    exact ⟨_, c, htoken, word_of_passes (w := Quoted.word .stringName t) h (hraw ▸ hpasses)⟩
  | nodePath =>
    have hraw : (Quoted.word .nodePath t).raw.bytes = 94 :: t.quote.bytes := by
      rw [Quoted.word, Quoted.mark, Text.bytes_append, show ("^" : Text).bytes = [94] by decide]
      rfl
    refine ⟨fun c rest h _ => IsFirst.starts (b := 94) (by decide) (by rw [h, hraw]; rfl),
      fun s rest depth h hrest hdepth => ?_⟩
    obtain rfl := eq_of_nest hdepth rfl
    obtain ⟨c, htoken, hpasses⟩ := token_marked_quote (.inr ⟨rfl, rfl⟩) (hraw ▸ h) hrest
    exact ⟨_, c, htoken, word_of_passes (w := Quoted.word .nodePath t) h (hraw ▸ hpasses)⟩

end Quotes

/-- **A quoted text is one token**, whose value is the text and which has all of the source. -/
theorem scan_quote (t : Text) : t.quote.unquote = .ok (t, false) ∧ ∀ q : Quoted,
    ∃ s e, scan (q.mark ++ t.quote) = ⟨[s, e], none⟩ ∧ s.word = ⟨q.kind, q.mark ++ t.quote, .text t⟩ ∧
      e.kind = .endOfFile := by
  refine ⟨t.unquote_quote, fun q => ?_⟩
  have hplain : q.kind.isPlain = true := by cases q <;> rfl
  obtain ⟨ts, e, hscan, hwords, hend⟩ := scan_words (balanced_plain (lexes_quoted q t) hplain)
  obtain ⟨s, rfl, hword⟩ := List.map_eq_singleton_iff.1 hwords
  exact ⟨s, e, hscan, hword, hend⟩

end Scan

end GameScript
