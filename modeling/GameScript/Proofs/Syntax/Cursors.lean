import GameScript.Syntax.Scan

/-!
# Reading goes forward

* `TokenKind.isPlain` — the kinds of tokens that are neither brackets nor layout;
* `Scan.Gives` — what a computation gives if it gives anything;
* `Scan.token_isWord` — a token that is no layout leaves the blocks of a file alone, and a bracket is counted;
* `Scan.readRune_ascii` — the bytes of a code point;
* `Scan.Cursor.Reaches` — a cursor is reached from another one by passing code points;
* `Scan.Cursor.Passes` — between two cursors there are these bytes;
* `Scan.Cursor.Along` — between two cursors there is no line break;
* `Scan.token_reaches` — a token that is no layout has a first code point, and its end is reached from there.
-/

namespace GameScript

/-! ### Kinds of tokens -/

namespace TokenKind

/-- Whether a token tells of a change of indentation. -/
def isDent (k : TokenKind) : Bool := k = indent || k = outdent

def isOpening (k : TokenKind) : Bool := k = openParen || k = openBracket || k = openBrace

def isClosing (k : TokenKind) : Bool := k = closeParen || k = closeBracket || k = closeBrace

/-- Whether a token is neither a bracket nor layout. -/
def isPlain (k : TokenKind) : Bool :=
  !(k.isDent || k.isOpening || k.isClosing || k = newline || k = endOfFile)

/-- A token that begins with a digit or a point. -/
def isNumeral (k : TokenKind) : Bool := k = int || k = float || k = dot || k = dotDot

theorem keyword?_isPlain {word : Text} {k : TokenKind} (h : keyword? word = some k) : k.isPlain = true := by
  have hall : keywords.all (·.1.isPlain) = true := by decide
  obtain ⟨e, he, rfl⟩ := Option.map_eq_some_iff.1 h
  exact List.all_eq_true.1 hall e (List.mem_of_find?_eq_some he)

end TokenKind

namespace Scan

/-! ### Cursors -/

theorem Cursor.rest_ne_nil_of_peek {c : Cursor} (h : c.peek ≠ 0) : c.rest ≠ [] := by
  intro hnil
  exact h (by simp [Cursor.peek, hnil])

theorem Cursor.next_length_lt {c : Cursor} (h : c.rest ≠ []) : c.next.rest.length < c.rest.length := by
  unfold Cursor.next
  cases hrest : c.rest with
  | nil => exact absurd hrest h
  | cons b bs =>
    simp only [List.length_drop, List.length_cons]
    omega

theorem Cursor.next_length_le (c : Cursor) : c.next.rest.length ≤ c.rest.length := by
  by_cases h : c.rest = []
  · simp [Cursor.next, h]
  · exact Nat.le_of_lt (Cursor.next_length_lt h)

theorem Cursor.skip_length_le (p : Nat → Bool) (c : Cursor) : (c.skip p).rest.length ≤ c.rest.length := by
  suffices h : ∀ fuel (c : Cursor), (skipFrom p fuel c).rest.length ≤ c.rest.length from h _ c
  intro fuel
  induction fuel with
  | zero => exact fun c => Nat.le_refl _
  | succ fuel ih =>
    intro c
    unfold skipFrom
    split
    · exact Nat.le_trans (ih c.next) c.next_length_le
    · exact Nat.le_refl _

theorem Cursor.skip_of_peek {p : Nat → Bool} {c : Cursor} (h : p c.peek = false) : c.skip p = c := by
  unfold Cursor.skip
  cases c.rest.length with
  | zero => rfl
  | succ n => simp [skipFrom, h]

/-! ### Tokens that are no layout -/

section Plain

variable {ε α β : Type}

/-- All that a computation can give. -/
def Gives (x : Except ε α) (p : α → Prop) : Prop := ∀ a, x = .ok a → p a

theorem gives_throw {e : ε} {p : α → Prop} : Gives (throw e : Except ε α) p := fun _ h => by cases h

theorem gives_pure {a : α} {p : α → Prop} (h : p a) : Gives (pure a : Except ε α) p := by
  intro b hb
  cases hb
  exact h

theorem gives_bind {x : Except ε α} {f : α → Except ε β} {p : β → Prop} (h : ∀ a, x = .ok a → Gives (f a) p) :
    Gives (x >>= f) p := by
  intro b hb
  cases x with
  | error e => cases hb
  | ok a => exact h a rfl b hb

/-- What is given unless something is wrong. -/
theorem gives_unless {c : Prop} [Decidable c] {e : ε} {f : β → Except ε α} {y : Except ε α} {p : α → Prop}
    (h : ¬ c → Gives y p) : Gives (if c then throw e >>= f else y) p := by
  intro a ha
  split at ha
  · cases ha
  · exact h ‹_› a ha

end Plain

theorem punctuation?_isPlain {bs : List UInt8} {k : TokenKind} {n : Nat} (h : punctuation? bs = some (k, n)) :
    k.isPlain = true := by
  have hall : punctuation.all (·.2.isPlain) = true := by decide
  obtain ⟨e, he, heq⟩ := Option.map_eq_some_iff.1 h
  cases heq
  exact List.all_eq_true.1 hall e (List.mem_of_find?_eq_some he)

theorem find?_eq_of_agree {α : Type} {p q : α → Bool} {xs : List α} (h : ∀ x ∈ xs, p x = q x) :
    xs.find? p = xs.find? q := by
  induction xs with
  | nil => rfl
  | cons x xs ih =>
    rw [List.find?_cons, List.find?_cons, h x List.mem_cons_self, ih fun y hy => h y (List.mem_cons_of_mem x hy)]

/-- Punctuation is made of ASCII characters that are neither blanks nor line breaks. -/
theorem punctuation_bytes : ∀ e ∈ punctuation, ∀ b ∈ e.1, b < 128 ∧ b ∉ [10, 13, 32] := by
  have hall : punctuation.all (fun e => e.1.all fun b => decide (b < 128 ∧ b ∉ [10, 13, 32])) = true := by
    decide
  exact fun e he b hb => of_decide_eq_true (List.all_eq_true.1 (List.all_eq_true.1 hall e he) b hb)

theorem punctuation?_congr {bs bs' : List UInt8}
    (h : ∀ p : List UInt8, (∀ b ∈ p, b ∉ [10, 13, 32]) → p.isPrefixOf bs' = p.isPrefixOf bs) :
    punctuation? bs' = punctuation? bs := by
  unfold punctuation?
  rw [find?_eq_of_agree fun e he => h e.1 fun b hb => (punctuation_bytes e he b hb).2]

theorem decimal_kind (start : Cursor) (fraction : Bool) (c : Cursor) :
    Gives (decimal start fraction c) fun r => r.1.isNumeral = true := by
  unfold decimal
  extract_lets isPart c₁ point c₂ exponent c₃ c₄ c₅ raw finish
  refine gives_unless fun _ => ?_
  dsimp only [finish]
  split
  · split
    · exact gives_pure rfl
    · exact gives_throw
  · exact gives_bind fun _ _ => gives_pure rfl

theorem number_kind (start : Cursor) : Gives (number start) fun r => r.1.isNumeral = true := by
  unfold number
  split
  · extract_lets c
    split
    · exact gives_pure rfl
    split
    · exact decimal_kind start true c
    · exact gives_pure rfl
  split
  · extract_lets c c' hex hexadecimal bin binary
    split
    · exact gives_unless fun _ => gives_bind fun _ _ => gives_pure rfl
    split
    · exact gives_unless fun _ => gives_bind fun _ _ => gives_pure rfl
    · exact decimal_kind start false c
  · exact decimal_kind start false start

theorem number_isPlain (start : Cursor) : Gives (number start) fun r => r.1.isPlain = true := by
  intro r hr
  have hkind := number_kind start r hr
  simp only [TokenKind.isNumeral, Bool.or_eq_true, decide_eq_true_eq] at hkind
  rcases hkind with ((hkind | hkind) | hkind) | hkind <;> rw [hkind] <;> rfl

/-- How a token that is no layout changes the state. -/
def IsWord (s : State) (r : Token × State) : Prop :=
  r.1.kind.isDent = false ∧ r.1.kind ≠ .endOfFile ∧ r.2.indents = s.indents ∧ r.2.pending = s.pending ∧
    r.2.lineStart = s.lineStart ∧
    r.2.depth + r.1.kind.isClosing.toNat = s.depth + r.1.kind.isOpening.toNat

theorem isWord_of_isPlain {s : State} {t : Token} {c : Cursor} (h : t.kind.isPlain = true) :
    IsWord s (t, { s with cursor := c }) := by
  simp only [TokenKind.isPlain, Bool.not_eq_true', Bool.or_eq_false_iff, decide_eq_false_iff_not] at h
  obtain ⟨⟨⟨⟨hdent, hopening⟩, hclosing⟩, -⟩, hend⟩ := h
  refine ⟨hdent, hend, rfl, rfl, rfl, ?_⟩
  rw [hopening, hclosing]

theorem bracket?_eq {c : Nat} {k : TokenKind} {opening : Bool} (h : bracket? c = some (k, opening)) :
    k.isDent = false ∧ k ≠ .endOfFile ∧ k.isOpening = opening ∧ k.isClosing = !opening := by
  unfold bracket? at h
  repeat' split at h
  all_goals cases h
  all_goals decide

theorem token_isWord (s : State) : Gives (token s) (IsWord s) := by
  unfold token
  extract_lets c ch finish word sign stop mark
  split
  · exact gives_pure (isWord_of_isPlain rfl)
  split
  · exact gives_bind fun _ _ => gives_pure (isWord_of_isPlain rfl)
  split
  · refine gives_pure (isWord_of_isPlain ?_)
    cases hk : TokenKind.keyword? (c.until (c.skip isNamePart)) with
    | none => rfl
    | some k => exact TokenKind.keyword?_isPlain hk
  split
  · rename_i kind hkind
    obtain ⟨hdent, hend, hopening, hclosing⟩ := bracket?_eq hkind
    refine gives_pure ⟨hdent, hend, rfl, rfl, rfl, ?_⟩
    simp [hopening, hclosing]
  · rename_i kind hkind
    obtain ⟨hdent, hend, hopening, hclosing⟩ := bracket?_eq hkind
    extract_lets close
    refine gives_unless fun hdepth => gives_pure ⟨hdent, hend, rfl, rfl, rfl, ?_⟩
    have hone : s.depth - 1 + 1 = s.depth := by omega
    simp [hopening, hclosing, hone]
  split
  · exact gives_bind fun r hr => gives_pure (isWord_of_isPlain (number_isPlain c r hr))
  split
  · refine gives_bind fun _ _ => gives_pure (isWord_of_isPlain ?_)
    dsimp only
    split <;> rfl
  split
  · exact gives_unless fun _ => gives_pure (isWord_of_isPlain rfl)
  split
  · exact gives_pure (isWord_of_isPlain (punctuation?_isPlain ‹_›))
  · exact gives_throw

end Scan

/-! ## What is passed -/

namespace Scan

/-! ### Code points -/

theorem continuation?_eq {lo hi c : UInt8} {y : Nat} (h : Text.continuation? lo hi c = some y) :
    lo.toNat ≤ c.toNat ∧ c.toNat ≤ hi.toNat ∧ y = c.toNat % 64 := by
  unfold Text.continuation? at h
  split at h
  · rename_i hc
    cases h
    simpa [UInt8.le_iff_toNat_le] using hc
  · cases h

/-- The second byte of a sequence is a continuation, and not the one of an overlong form. -/
theorem secondByteRange_bounds (b : UInt8) :
    128 ≤ (Text.secondByteRange b).1.toNat ∧ (Text.secondByteRange b).2.toNat ≤ 191 ∧
      (b.toNat = 224 → 160 ≤ (Text.secondByteRange b).1.toNat) ∧
      (b.toNat = 240 → 144 ≤ (Text.secondByteRange b).1.toNat) := by
  unfold Text.secondByteRange
  simp only [← UInt8.toNat_inj]
  refine ⟨?_, ?_, fun h => ?_, fun h => ?_⟩
  · repeat' split
    all_goals decide
  · repeat' split
    all_goals decide
  · simp [h]
  · simp [h]

/-- A code point of more than one byte is no ASCII character, and neither is any of its bytes. -/
theorem multibyte?_ascii {b : UInt8} {bs : List UInt8} {code extra : Nat}
    (h : Text.multibyte? b bs = some (code, extra)) :
    128 ≤ code ∧ extra ≤ bs.length ∧ ∀ x ∈ bs.take extra, 128 ≤ x.toNat := by
  obtain ⟨hlow, hhigh, hE0, hF0⟩ := secondByteRange_bounds b
  unfold Text.multibyte? at h
  generalize Text.secondByteRange b = range at h hlow hhigh hE0 hF0
  obtain ⟨lo, hi⟩ := range
  dsimp only at h hlow hhigh hE0 hF0
  have hcontinuation : ∀ {c : UInt8} {y : Nat}, Text.continuation? 0x80 0xBF c = some y →
      128 ≤ c.toNat ∧ c.toNat ≤ 191 ∧ y = c.toNat % 64 := continuation?_eq
  simp only [Bool.and_eq_true, decide_eq_true_eq, UInt8.le_iff_toNat_le, Option.bind_eq_bind,
    Option.pure_def] at h
  change (if 194 ≤ b.toNat ∧ b.toNat ≤ 223 then _ else if 224 ≤ b.toNat ∧ b.toNat ≤ 239 then _ else
    if 240 ≤ b.toNat ∧ b.toNat ≤ 244 then _ else _) = _ at h
  split at h
  · cases bs with
    | nil => cases h
    | cons c rest =>
      obtain ⟨y, hy, heq⟩ := Option.map_eq_some_iff.1 h
      cases heq
      have hy := continuation?_eq hy
      refine ⟨by omega, by simp, ?_⟩
      simp
      omega
  split at h
  · match bs, h with
    | c :: d :: rest, h =>
      obtain ⟨y, hy, h⟩ := Option.bind_eq_some_iff.1 h
      obtain ⟨z, hz, h⟩ := Option.bind_eq_some_iff.1 h
      cases h
      have hy := continuation?_eq hy
      have hz := hcontinuation hz
      refine ⟨by omega, by simp, ?_⟩
      simp
      omega
  split at h
  · match bs, h with
    | c :: d :: e :: rest, h =>
      obtain ⟨y, hy, h⟩ := Option.bind_eq_some_iff.1 h
      obtain ⟨z, hz, h⟩ := Option.bind_eq_some_iff.1 h
      obtain ⟨w, hw, h⟩ := Option.bind_eq_some_iff.1 h
      cases h
      have hy := continuation?_eq hy
      have hz := hcontinuation hz
      have hw := hcontinuation hw
      refine ⟨by omega, by simp, ?_⟩
      simp
      omega
  · cases h

theorem readRune_ascii {b : UInt8} (bs : List UInt8) (hb : ¬ b < 128) : 128 ≤ (Text.readRune b bs).1.code ∧
    (Text.readRune b bs).2 ≤ bs.length ∧ ∀ x ∈ bs.take (Text.readRune b bs).2, 128 ≤ x.toNat := by
  unfold Text.readRune
  rw [if_neg hb]
  cases hm : Text.multibyte? b bs with
  | none => exact ⟨by decide, by simp⟩
  | some r => exact multibyte?_ascii hm

/-- A code point is known by its first byte and the bytes behind it that are no ASCII characters. -/
theorem readRune_takeWhile (b : UInt8) (bs : List UInt8) :
    Text.readRune b (bs.takeWhile (128 ≤ ·)) = Text.readRune b bs := by
  obtain ⟨hlow, -⟩ := secondByteRange_bounds b
  have hascii : ∀ {lo hi c : UInt8}, 128 ≤ lo.toNat → ¬ 128 ≤ c → Text.continuation? lo hi c = none := by
    intro lo hi c hlo hc
    have hlt : ¬ lo ≤ c := by
      rw [UInt8.le_iff_toNat_le] at hc ⊢
      exact fun hle => hc (Nat.le_trans hlo hle)
    simp [Text.continuation?, hlt]
  have hmulti : Text.multibyte? b (bs.takeWhile (128 ≤ ·)) = Text.multibyte? b bs := by
    unfold Text.multibyte?
    generalize Text.secondByteRange b = range at hlow ⊢
    obtain ⟨lo, hi⟩ := range
    have hnone : ∀ {c : UInt8}, ¬ 128 ≤ c → Text.continuation? lo hi c = none ∧ Text.continuation? 0x80 0xBF c = none :=
      fun hc => ⟨hascii hlow hc, hascii (by decide) hc⟩
    match bs with
    | [] => rfl
    | [c] => by_cases hc : 128 ≤ c <;> simp [hc, hnone]
    | [c, d] => by_cases hc : 128 ≤ c <;> by_cases hd : 128 ≤ d <;> simp [hc, hd, hnone]
    | c :: d :: e :: rest =>
      by_cases hc : 128 ≤ c
      · by_cases hd : 128 ≤ d
        · by_cases he : 128 ≤ e <;> simp [hc, hd, he, hnone]
        · simp [hc, hd, hnone]
      · simp [hc, hnone]
  unfold Text.readRune
  rw [hmulti]

/-! ### Cursors -/

/-- A cursor **reaches** another one where some number of code points is passed. -/
inductive Cursor.Reaches (c : Cursor) : Cursor → Prop
  | refl : Reaches c c
  | next {c' : Cursor} : Reaches c c' → Reaches c c'.next

namespace Cursor

variable {c c' c'' : Cursor}

theorem Reaches.trans (h : c.Reaches c') (h' : c'.Reaches c'') : c.Reaches c'' := by
  induction h' with
  | refl => exact h
  | next _ ih => exact ih.next

theorem next_reaches (c : Cursor) : c.Reaches c.next := Reaches.refl.next

theorem Reaches.length_le (h : c.Reaches c') : c'.rest.length ≤ c.rest.length := by
  induction h with
  | refl => exact Nat.le_refl _
  | next _ ih => exact Nat.le_trans (next_length_le _) ih

theorem skipFrom_reaches (p : Nat → Bool) (fuel : Nat) (c : Cursor) : c.Reaches (skipFrom p fuel c) := by
  induction fuel generalizing c with
  | zero => exact .refl
  | succ fuel ih =>
    unfold skipFrom
    split
    · exact c.next_reaches.trans (ih c.next)
    · exact .refl

theorem Reaches.skip (h : c.Reaches c') (p : Nat → Bool) : c.Reaches (c'.skip p) := h.trans (skipFrom_reaches p _ c')

/-- Code points are passed up to the first one that is not to be passed. -/
theorem skip_stops (p : Nat → Bool) (c : Cursor) : (c.skip p).rest = [] ∨ p (c.skip p).peek = false := by
  suffices h : ∀ fuel (c : Cursor), c.rest.length ≤ fuel →
      (skipFrom p fuel c).rest = [] ∨ p (skipFrom p fuel c).peek = false from h _ c (Nat.le_refl _)
  intro fuel
  induction fuel with
  | zero => exact fun c hc => .inl (List.length_eq_zero_iff.1 (Nat.le_zero.1 hc))
  | succ fuel ih =>
    intro c hc
    unfold skipFrom
    split
    · rename_i h
      simp only [Bool.and_eq_true, Bool.not_eq_true', List.isEmpty_eq_false_iff] at h
      exact ih c.next (by have := next_length_lt h.1; omega)
    · rename_i h
      rw [Bool.and_eq_true, not_and, Bool.not_eq_true', List.isEmpty_eq_false_iff] at h
      exact Classical.or_iff_not_imp_left.2 fun hrest => eq_false_of_ne_true (h hrest)

/-- What is passed has a first code point where the current one is passed. -/
theorem skip_reaches {p : Nat → Bool} (hpeek : c.peek ≠ 0) (hp : p c.peek = true) : c.next.Reaches (c.skip p) := by
  have hrest := c.rest_ne_nil_of_peek hpeek
  unfold skip
  cases hlength : c.rest.length with
  | zero => exact absurd (List.length_eq_zero_iff.1 hlength) hrest
  | succ n =>
    rw [skipFrom, if_pos (by simp [hp, hrest])]
    exact skipFrom_reaches p n c.next

theorem repeat_reaches (n : Nat) (c : Cursor) : c.next.Reaches ((n + 1).repeat Cursor.next c) := by
  induction n with
  | zero => exact .refl
  | succ n ih => exact ih.next

/-! ### Bytes that are passed -/

/-- From one cursor to another these bytes are passed. -/
structure Passes (c : Cursor) (bs : List UInt8) (c' : Cursor) : Prop where
  rest : c.rest = bs ++ c'.rest
  offset : c'.offset = c.offset + bs.length

theorem Passes.refl (c : Cursor) : c.Passes [] c := ⟨rfl, rfl⟩

theorem Passes.trans {bs bs' : List UInt8} (h : c.Passes bs c') (h' : c'.Passes bs' c'') : c.Passes (bs ++ bs') c'' :=
  ⟨by rw [h.rest, h'.rest, List.append_assoc], by rw [h'.offset, h.offset, List.length_append, Nat.add_assoc]⟩

theorem Passes.until_eq {bs : List UInt8} (h : c.Passes bs c') : c.until c' = ⟨bs⟩ := by
  simp [Cursor.until, h.rest, h.offset]

/-- How the next code point is passed: a line break, an ASCII character, or something else. -/
theorem next_cases {b : UInt8} {bs : List UInt8} (h : c.rest = b :: bs) :
    (b = 13 ∧ c.peek = 10 ∧ c.Passes (13 :: bs.take (if bs.head? = some 10 then 1 else 0)) c.next) ∨
      (b ≠ 13 ∧ b < 128 ∧ c.peek = b.toNat ∧ c.Passes [b] c.next) ∨
      ¬ b < 128 ∧ 128 ≤ c.peek ∧ c.Passes (b :: bs.take (Text.readRune b bs).2) c.next ∧
        ∀ x ∈ bs.take (Text.readRune b bs).2, 128 ≤ x.toNat := by
  by_cases hreturn : b = 13
  · refine .inl ⟨hreturn, by simp [peek, h, hreturn], ?_, ?_⟩
    · simp [next, h, hreturn]
    · have hle : (if bs.head? = some 10 then 1 else 0) ≤ bs.length := by cases bs <;> grind
      simp only [next, h, hreturn, if_true, List.length_cons, List.length_take]
      omega
  by_cases hascii : b < 128
  · refine .inr (.inl ⟨hreturn, hascii, ?_, ?_, ?_⟩) <;> simp [peek, next, h, hreturn, hascii, Text.readRune]
  · obtain ⟨hcode, hle, hbytes⟩ := readRune_ascii bs hascii
    refine .inr (.inr ⟨hascii, by simpa [peek, h, hreturn] using hcode, ⟨?_, ?_⟩, hbytes⟩)
    · simp [next, h, hreturn]
    · simp only [next, h, hreturn, if_false, List.length_cons, List.length_take]
      omega

theorem next_passes (c : Cursor) : ∃ bs, c.Passes bs c.next := by
  cases hrest : c.rest with
  | nil => exact ⟨[], by simpa [next, hrest] using Passes.refl c⟩
  | cons b bs =>
    rcases next_cases hrest with ⟨-, -, h⟩ | ⟨-, -, -, h⟩ | ⟨-, -, h, -⟩
    all_goals exact ⟨_, h⟩

theorem peek_ascii {b : UInt8} {bs : List UInt8} (h : c.rest = b :: bs) (hb : b < 128 ∧ b ≠ 13) : c.peek = b.toNat := by
  simp [peek, h, hb.2, Text.readRune, hb.1]

theorem next_ascii {b : UInt8} {bs : List UInt8} (h : c.rest = b :: bs) (hb : b < 128 ∧ b ≠ 13) : c.Passes [b] c.next := by
  constructor <;> simp [next, h, hb.2, Text.readRune, hb.1]

theorem repeat_next (n : Nat) (c : Cursor) : (n + 1).repeat next c = n.repeat next c.next := by
  induction n with
  | zero => rfl
  | succ n ih => exact congrArg next ih

/-- As many code points are passed as there are ASCII bytes. -/
theorem repeat_passes {bs rest : List UInt8} (h : c.rest = bs ++ rest) (hbs : ∀ b ∈ bs, b < 128 ∧ b ≠ 13) :
    c.Passes bs (bs.length.repeat next c) := by
  induction bs generalizing c with
  | nil => exact .refl c
  | cons b bs ih =>
    have hnext := next_ascii h (hbs b List.mem_cons_self)
    have hrest : c.next.rest = bs ++ rest := by simpa [h] using hnext.rest.symm
    rw [List.length_cons, repeat_next]
    exact hnext.trans (ih hrest fun b' hb' => hbs b' (List.mem_cons_of_mem b hb'))

/-- Only a line break has the bytes of a line break. -/
theorem next_plain (h : c.peek ≠ 10) : ∃ bs, c.Passes bs c.next ∧ ∀ b ∈ bs, b ≠ 10 ∧ b ≠ 13 := by
  cases hrest : c.rest with
  | nil => exact ⟨[], by simpa [next, hrest] using Passes.refl c, by simp⟩
  | cons b bs =>
    rcases next_cases hrest with ⟨-, hpeek, -⟩ | ⟨hb, -, hpeek, hnext⟩ | ⟨hb, -, hnext, hbytes⟩
    · exact absurd hpeek h
    · refine ⟨_, hnext, fun x hx => ?_⟩
      obtain rfl := List.mem_singleton.1 hx
      exact ⟨fun hx => h (by rw [hpeek, hx]; rfl), hb⟩
    · refine ⟨_, hnext, fun x hx => ?_⟩
      have hx : 128 ≤ x.toNat := by
        rcases List.mem_cons.1 hx with rfl | hx
        · simpa [UInt8.lt_iff_toNat_lt] using hb
        · exact hbytes x hx
      constructor <;> rintro rfl <;> exact absurd hx (by decide)

theorem Reaches.passes (h : c.Reaches c') : ∃ bs, c.Passes bs c' := by
  induction h with
  | refl => exact ⟨[], .refl c⟩
  | @next c' _ ih =>
    obtain ⟨bs, hbs⟩ := ih
    obtain ⟨bs', hbs'⟩ := c'.next_passes
    exact ⟨_, hbs.trans hbs'⟩

/-- A character that is passed by itself. -/
theorem rest_of_peek {b : UInt8} (h : c.peek = b.toNat) (hb : b < 128 ∧ b ≠ 0 ∧ b ≠ 10) :
    c.rest = b :: c.next.rest := by
  obtain ⟨hascii, hzero, hfeed⟩ := hb
  cases hrest : c.rest with
  | nil => exact absurd (UInt8.toNat_inj.1 (h.symm.trans (by simp [peek, hrest]))) hzero
  | cons b' bs =>
    rcases next_cases hrest with ⟨-, hpeek, -⟩ | ⟨-, -, hpeek, hnext⟩ | ⟨-, hpeek, -⟩
    · have hb : b = 10 := UInt8.toNat_inj.1 (h.symm.trans hpeek)
      exact absurd hb hfeed
    · obtain rfl : b = b' := UInt8.toNat_inj.1 (h.symm.trans hpeek)
      exact hrest.symm.trans hnext.rest
    · rw [h] at hpeek
      exact absurd (UInt8.lt_iff_toNat_lt.1 hascii) (Nat.not_lt.2 hpeek)

/-- Without zero bytes, the code point 0 is the end of the text. -/
theorem rest_of_peek_eq_zero (h : c.peek = 0) (hzero : 0 ∉ c.rest) : c.rest = [] := by
  cases hrest : c.rest with
  | nil => rfl
  | cons b bs =>
    rcases next_cases hrest with ⟨-, hpeek, -⟩ | ⟨-, -, hpeek, -⟩ | ⟨-, hpeek, -⟩
    · cases h.symm.trans hpeek
    · obtain rfl : 0 = b := UInt8.toNat_inj.1 (h.symm.trans hpeek)
      exact absurd (hrest ▸ List.mem_cons_self) hzero
    · rw [h] at hpeek
      exact absurd hpeek (by decide)

/-- The byte behind a character. -/
theorem byteAt_succ {b : UInt8} (h : c.peek = b.toNat) (hb : b < 128 ∧ b ≠ 0 ∧ b ≠ 10) (i : Nat) :
    c.byteAt (i + 1) = c.next.byteAt i := by
  simp [byteAt, rest_of_peek h hb]

theorem peek_of_byteAt {b : UInt8} (h : c.byteAt 0 = b.toNat) (hzero : b.toNat ≠ 0) (hb : b < 128) (hreturn : b ≠ 13) :
    c.peek = b.toNat := by
  cases hrest : c.rest with
  | nil => exact absurd (by simpa [byteAt, hrest] using h.symm) hzero
  | cons b' bs =>
    obtain rfl : b' = b := UInt8.toNat_inj.1 (by simpa [byteAt, hrest] using h)
    exact peek_ascii hrest ⟨hb, hreturn⟩

/-- Three quotes are three code points. -/
theorem rest_of_triple (hquote : c.peek = 34 ∨ c.peek = 39) (h : c.byteAt 1 = c.peek) (h' : c.byteAt 2 = c.peek) :
    c.next.rest ≠ [] ∧ c.next.next.rest ≠ [] := by
  obtain ⟨q, hq, hquote⟩ : ∃ q : UInt8, (q < 128 ∧ q ≠ 0 ∧ q ≠ 10 ∧ q ≠ 13 ∧ q.toNat ≠ 0) ∧ c.peek = q.toNat := by
    rcases hquote with hquote | hquote
    · exact ⟨34, by decide, hquote⟩
    · exact ⟨39, by decide, hquote⟩
  obtain ⟨hascii, hzero, hfeed, hreturn, hnat⟩ := hq
  rw [hquote, byteAt_succ hquote ⟨hascii, hzero, hfeed⟩] at h h'
  have hpeek : c.next.peek = q.toNat := peek_of_byteAt h hnat hascii hreturn
  rw [byteAt_succ hpeek ⟨hascii, hzero, hfeed⟩] at h'
  have hpeek' : c.next.next.peek = q.toNat := peek_of_byteAt h' hnat hascii hreturn
  exact ⟨c.next.rest_ne_nil_of_peek (hpeek ▸ hnat), c.next.next.rest_ne_nil_of_peek (hpeek' ▸ hnat)⟩

/-! ### Within a line -/

/-- A cursor goes **along a line** to another one where no line break is passed. -/
inductive Along (c : Cursor) : Cursor → Prop
  | refl : Along c c
  | next {c' : Cursor} (h : Along c c') (hline : c'.peek ≠ 10) : Along c c'.next

theorem Along.reaches (h : c.Along c') : c.Reaches c' := by
  induction h with
  | refl => exact .refl
  | next _ _ ih => exact ih.next

theorem Along.trans (h : c.Along c') (h' : c'.Along c'') : c.Along c'' := by
  induction h' with
  | refl => exact h
  | next _ hline ih => exact ih.next hline

theorem Along.passes (h : c.Along c') : ∃ bs, c.Passes bs c' ∧ ∀ b ∈ bs, b ≠ 10 ∧ b ≠ 13 := by
  induction h with
  | refl => exact ⟨[], .refl c, nofun⟩
  | next _ hline ih =>
    obtain ⟨bs, hpasses, hbs⟩ := ih
    obtain ⟨bs', hnext, hbs'⟩ := next_plain hline
    exact ⟨bs ++ bs', hpasses.trans hnext, fun b hb => (List.mem_append.1 hb).elim (hbs b) (hbs' b)⟩

theorem skipFrom_along {p : Nat → Bool} (hp : p 10 = false) (fuel : Nat) (c : Cursor) :
    c.Along (c.skipFrom p fuel) := by
  induction fuel generalizing c with
  | zero => exact .refl
  | succ fuel ih =>
    unfold skipFrom
    split
    · rename_i h
      have hline : c.peek ≠ 10 := by
        intro hline
        simp [hline, hp] at h
      exact (Along.refl.next hline).trans (ih c.next)
    · exact .refl

theorem Along.skip {p : Nat → Bool} (h : c.Along c') (hp : p 10 = false) : c.Along (c'.skip p) :=
  h.trans (skipFrom_along hp _ c')

end Cursor

theorem closeString_reaches (quote fuel : Nat) (c c' : Cursor) (h : closeString quote fuel c = some c') :
    c.Reaches c' := by
  induction fuel generalizing c with
  | zero => cases h
  | succ fuel ih =>
    unfold closeString at h
    dsimp only at h
    split at h
    · cases h
    split at h
    · cases h
      exact c.next_reaches
    split at h
    · cases h
    split at h
    · split at h
      · cases h
      · exact c.next_reaches.next.trans (ih _ h)
    · exact c.next_reaches.trans (ih _ h)

theorem closeTriple_reaches (quote fuel seen : Nat) (c c' : Cursor) (h : closeTriple quote fuel seen c = some c') :
    c.Reaches c' := by
  induction fuel generalizing seen c with
  | zero => cases h
  | succ fuel ih =>
    unfold closeTriple at h
    dsimp only at h
    split at h
    · cases h
    split at h
    · split at h
      · cases h
        exact c.next_reaches
      · exact c.next_reaches.trans (ih _ _ h)
    split at h
    · split at h
      · cases h
      · exact c.next_reaches.next.trans (ih _ _ h)
    · exact c.next_reaches.trans (ih _ _ h)

theorem string_reaches (start : Pos) (c : Cursor) : Gives (string start c) fun r => c.next.Reaches r.2 := by
  unfold string
  extract_lets quote triple fuel closed
  have hclosed : ∀ c', closed = some c' → c.next.Reaches c' := by
    intro c' hc'
    dsimp only [closed] at hc'
    split at hc'
    · exact c.next.next_reaches.next.trans (closeTriple_reaches _ _ _ _ _ hc')
    · exact closeString_reaches _ _ _ _ hc'
  generalize closed = close at hclosed
  split
  · exact gives_throw
  · split
    · exact gives_throw
    · exact gives_pure (hclosed _ rfl)

theorem decimal_reaches {c₀ c : Cursor} (start : Cursor) (fraction : Bool)
    (h : c₀.Reaches (c.skip fun ch => isDigit ch || ch = 95)) :
    Gives (decimal start fraction c) fun r => r.1 ≠ .identifier ∧ c₀.Reaches r.2.2 := by
  unfold decimal
  extract_lets isPart c₁ point c₂ exponent c₃ c₄ c₅ raw finish
  have h₁ : c₀.Reaches c₁ := h
  have h₂ : c₀.Reaches c₂ := by
    dsimp only [c₂]
    split
    · exact h₁.next.skip isPart
    · exact h₁
  have h₄ : c₀.Reaches c₄ := by
    dsimp only [c₄, c₃]
    split
    · split
      · exact h₂.next.next
      · exact h₂.next
    · exact h₂
  have h₅ : c₀.Reaches c₅ := by
    dsimp only [c₅]
    split
    · exact h₄.skip isDigit
    · exact h₄
  refine gives_unless fun _ => ?_
  dsimp only [finish]
  split
  · split
    · exact gives_pure ⟨nofun, h₅⟩
    · exact gives_throw
  · exact gives_bind fun _ _ => gives_pure ⟨nofun, h₅⟩

/-- A number starts with a digit or a point. -/
theorem number_reaches {start : Cursor} (h : isDigit start.peek = true ∨ start.peek = 46) :
    Gives (number start) fun r => r.1 ≠ .identifier ∧ start.next.Reaches r.2.2 := by
  unfold number
  split
  · extract_lets c
    split
    · exact gives_pure ⟨nofun, c.next_reaches⟩
    split
    · exact decimal_reaches start true (Cursor.Reaches.refl.skip _)
    · exact gives_pure ⟨nofun, .refl⟩
  rename_i hpoint
  split
  · extract_lets c c' hex hexadecimal bin binary
    split
    · exact gives_unless fun _ => gives_bind fun _ _ => gives_pure ⟨nofun, c.next_reaches.skip _⟩
    split
    · exact gives_unless fun _ => gives_bind fun _ _ => gives_pure ⟨nofun, c.next_reaches.skip _⟩
    · exact decimal_reaches start false (Cursor.Reaches.refl.skip _)
  · have hdigit := h.resolve_right hpoint
    refine decimal_reaches start false (Cursor.skip_reaches ?_ (by simp [hdigit]))
    intro hzero
    rw [hzero] at hdigit
    cases hdigit

/-! ### Tokens -/

theorem punctuation?_ne {bs : List UInt8} {k : TokenKind} {n : Nat} (h : punctuation? bs = some (k, n)) :
    k ≠ .identifier ∧ ∃ m, n = m + 1 := by
  have hall : punctuation.all (fun p => p.2 ≠ .identifier && p.1 ≠ []) = true := by decide
  obtain ⟨⟨bytes, k'⟩, he, heq⟩ := Option.map_eq_some_iff.1 h
  cases heq
  have hentry := List.all_eq_true.1 hall _ (List.mem_of_find?_eq_some he)
  simp only [Bool.and_eq_true, decide_eq_true_eq] at hentry
  exact ⟨hentry.1, Nat.exists_eq_succ_of_ne_zero (mt List.length_eq_zero_iff.1 hentry.2)⟩

theorem bracket?_ne {c : Nat} {k : TokenKind} {opening : Bool} (h : bracket? c = some (k, opening)) :
    k ≠ .identifier := by
  unfold bracket? at h
  repeat' split at h
  all_goals cases h
  all_goals decide

theorem peek_ne_of_isNameStart {c : Cursor} (h : isNameStart c.peek = true) : c.peek ≠ 0 := by
  intro hzero
  rw [hzero] at h
  revert h
  decide

/-- **A token has a first code point**, and its end is reached from there. A name starts at the cursor. -/
theorem token_reaches (s : State) : Gives (token s) fun r =>
    s.cursor.next.Reaches r.2.cursor ∧
      (r.1.kind = .identifier → r.1.pos = s.cursor.pos ∧ isNameStart s.cursor.peek = true) := by
  have hother : ∀ {t : Token} {s' : State}, t.kind ≠ .identifier → s.cursor.next.Reaches s'.cursor →
      s.cursor.next.Reaches s'.cursor ∧
        (t.kind = .identifier → t.pos = s.cursor.pos ∧ isNameStart s.cursor.peek = true) :=
    fun hne h => ⟨h, fun hname => absurd hname hne⟩
  unfold token
  extract_lets c ch finish word sign stop mark
  split
  · exact gives_pure (hother nofun .refl)
  split
  · exact gives_bind fun r hr => gives_pure (hother nofun (string_reaches _ _ r hr))
  split
  · rename_i hstart
    have hpart : isNamePart c.peek = true := by
      show (isDigit c.peek || isNameStart c.peek) = true
      rw [show isNameStart c.peek = true from hstart, Bool.or_true]
    exact gives_pure ⟨Cursor.skip_reaches (peek_ne_of_isNameStart hstart) hpart, fun _ => ⟨rfl, hstart⟩⟩
  split
  · exact gives_pure (hother (bracket?_ne ‹_›) .refl)
  · extract_lets close
    exact gives_unless fun _ => gives_pure (hother (bracket?_ne ‹_›) .refl)
  split
  · rename_i hnumber
    refine gives_bind fun r hr => ?_
    obtain ⟨hne, hreaches⟩ := number_reaches (by simpa using hnumber) r hr
    exact gives_pure (hother hne hreaches)
  split
  · refine gives_bind fun r hr => gives_pure (hother ?_ (c.next.next_reaches.trans (string_reaches _ _ r hr)))
    split <;> nofun
  split
  · exact gives_unless fun _ => gives_pure (hother nofun (Cursor.Reaches.refl.skip _))
  split
  · obtain ⟨hne, m, rfl⟩ := punctuation?_ne ‹_›
    exact gives_pure (hother hne (Cursor.repeat_reaches m _))
  · exact gives_throw

/-- **Fewer bytes** remain after a token that is no layout. -/
theorem token_shorter {s : State} (h : s.cursor.peek ≠ 0) :
    Gives (token s) fun r => r.2.cursor.rest.length < s.cursor.rest.length := fun r hr =>
  Nat.lt_of_le_of_lt (token_reaches s r hr).1.length_le (Cursor.next_length_lt (Cursor.rest_ne_nil_of_peek h))

end Scan

end GameScript
