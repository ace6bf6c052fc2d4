import GameScript.Proofs.Syntax.Cursors

/-!
# Texts that are read alike

Different texts may be read alike: a text and the same text with more behind it, or a text whose line breaks are
spelled in another way.

* `Scan.Mirrors` — a computation that gives what another one gives;
* `Scan.Likeness` — a relation of cursors that is kept where code points are passed;
* `Scan.Likeness.token` — **the tokens at such cursors** are alike.
-/

namespace GameScript

namespace Scan

/-! ### Computations side by side -/

section Mirrors

variable {α α' β β' : Type} {strict : Prop} {R : α → α' → Prop}

/-- A computation **mirrors** another one: it gives what that one gives and, if `strict`, fails where that one does, at
the same place. -/
structure Mirrors (strict : Prop) (R : α → α' → Prop) (x : Except Fault α) (y : Except Fault α') : Prop where
  ok : ∀ a, x = .ok a → ∃ b, y = .ok b ∧ R a b
  error : strict → ∀ e, x = .error e → ∃ e', y = .error e' ∧ e'.1 = e.1

theorem mirrors_pure {a : α} {b : α'} (h : R a b) : Mirrors strict R (pure a) (pure b) where
  ok _ ha := by cases ha; exact ⟨b, rfl, h⟩
  error _ e he := by cases he

theorem mirrors_throw {e e' : Fault} (h : strict → e'.1 = e.1) :
    Mirrors strict R (throw e : Except Fault α) (throw e' : Except Fault α') where
  ok _ ha := by cases ha
  error hstrict _ he := by cases he; exact ⟨e', rfl, h hstrict⟩

theorem mirrors_error {e : Fault} {y : Except Fault α'} (h : strict → ∃ e', y = .error e' ∧ e'.1 = e.1) :
    Mirrors strict R (.error e : Except Fault α) y where
  ok _ ha := by cases ha
  error hstrict _ he := by cases he; exact h hstrict

theorem mirrors_bind {x : Except Fault α} {y : Except Fault α'} {f : α → Except Fault β} {g : α' → Except Fault β'}
    {S : β → β' → Prop} (h : Mirrors strict R x y) (hf : ∀ a b, x = .ok a → R a b → Mirrors strict S (f a) (g b)) :
    Mirrors strict S (x >>= f) (y >>= g) := by
  cases x with
  | error e =>
    refine mirrors_error fun hstrict => ?_
    obtain ⟨e', rfl, he'⟩ := h.error hstrict e rfl
    exact ⟨e', rfl, he'⟩
  | ok a =>
    obtain ⟨b, rfl, hab⟩ := h.ok a rfl
    exact hf a b rfl hab

theorem mirrors_ite {c c' : Prop} [Decidable c] [Decidable c'] (h : c' ↔ c) {x₁ x₂ : Except Fault α}
    {y₁ y₂ : Except Fault α'} (h₁ : c → Mirrors strict R x₁ y₁) (h₂ : ¬ c → Mirrors strict R x₂ y₂) :
    Mirrors strict R (if c then x₁ else x₂) (if c' then y₁ else y₂) := by
  by_cases hc : c
  · rw [if_pos hc, if_pos (h.2 hc)]
    exact h₁ hc
  · rw [if_neg hc, if_neg (mt h.1 hc)]
    exact h₂ hc

theorem mirrors_unless {c c' : Prop} [Decidable c] [Decidable c'] (h : c' ↔ c) {e e' : Fault}
    (he : strict → e'.1 = e.1) {f : β → Except Fault α} {g : β' → Except Fault α'} {x : Except Fault α}
    {y : Except Fault α'} (hx : ¬ c → Mirrors strict R x y) :
    Mirrors strict R (if c then throw e >>= f else x) (if c' then throw e' >>= g else y) :=
  mirrors_ite h (fun _ => mirrors_throw he) hx

end Mirrors

/-! ### Cursors side by side -/

/-- Bytes that no token tells apart: a blank behind the end of a text, or another spelling of a line break. -/
def Blur (m n : Nat) : Prop := n = m ∨ m = 0 ∧ n = 32 ∨ m = 10 ∧ n = 13

/-- Cursors that are **read alike**. What is told of failures holds if `strict`. -/
structure Likeness (strict : Prop) (R : Cursor → Cursor → Prop) : Prop where
  nonempty : ∀ {c c'}, R c c' → c.rest ≠ [] → c'.rest ≠ []
  empty : strict → ∀ {c c'}, R c c' → c.rest = [] → c'.rest = []
  pos : strict → ∀ {c c'}, R c c' → c'.pos = c.pos
  peek : ∀ {c c'}, R c c' → c'.peek = c.peek ∨ c.rest = [] ∧ c'.peek = 32
  byte : ∀ {c c'}, R c c' → Blur (c.byteAt 0) (c'.byteAt 0)
  next : ∀ {c c'}, R c c' → c.rest ≠ [] → R c.next c'.next
  text : ∀ {c c' d d'}, R c c' → R d d' → c.Along d → c'.until d' = c.until d
  punctuation : ∀ {c c'}, R c c' → punctuation? c'.rest = punctuation? c.rest

/-! ### The end of a string -/

/-- Where the string at a cursor ends. -/
def closing? (c : Cursor) : Option Cursor :=
  if c.byteAt 0 = c.peek && c.byteAt 1 = c.peek && c.byteAt 2 = c.peek then
    closeTriple c.peek (c.rest.length + 1) 0 c.next.next.next
  else closeString c.peek (c.rest.length + 1) c.next

theorem closing?_reaches (c c' : Cursor) (h : closing? c = some c') : c.next.Reaches c' := by
  unfold closing? at h
  split at h
  · exact c.next.next_reaches.next.trans (closeTriple_reaches _ _ _ _ _ h)
  · exact closeString_reaches _ _ _ _ h

theorem string_eq (start : Pos) (c : Cursor) : string start c =
    match closing? c with
    | none => throw (start, .unterminatedString)
    | some c' =>
      match (c.until c').unquote with
      | .error e => throw (c.pos, .badString e)
      | .ok (t, _) => return (t, c') := rfl

section Strings

variable {c d : Cursor}

theorem string_none (start : Pos) (h : closing? c = none) : string start c = .error (start, .unterminatedString) := by
  rw [string_eq, h]
  rfl

theorem string_error (start : Pos) {e : Text.LiteralError} (h : closing? c = some d)
    (he : (c.until d).unquote = .error e) : string start c = .error (c.pos, .badString e) := by
  rw [string_eq]
  simp only [h, he]
  rfl

theorem string_ok (start : Pos) {t : Text} {b : Bool} (h : closing? c = some d)
    (ht : (c.until d).unquote = .ok (t, b)) : string start c = .ok (t, d) := by
  rw [string_eq]
  simp only [h, ht]
  rfl

/-- A string is what its literal denotes. -/
theorem string_value {start : Pos} {t : Text} (h : string start c = .ok (t, d)) :
    closing? c = some d ∧ ∃ b, (c.until d).unquote = .ok (t, b) := by
  cases hclosed : closing? c with
  | none =>
    rw [string_none start hclosed] at h
    cases h
  | some d' =>
    cases hunquote : (c.until d').unquote with
    | error e =>
      rw [string_error start hclosed hunquote] at h
      cases h
    | ok r =>
      rw [string_ok start hclosed hunquote] at h
      cases h
      exact ⟨rfl, _, hunquote⟩

end Strings

section Likeness

variable {strict : Prop} {R : Cursor → Cursor → Prop} (L : Likeness strict R) {c c' : Cursor}

include L

theorem Likeness.peek_eq (h : R c c') (hrest : c.rest ≠ []) : c'.peek = c.peek :=
  (L.peek h).resolve_right fun h => hrest h.1

/-- What holds of a blank as of the end of a text is told alike. -/
theorem Likeness.test (h : R c c') {p : Nat → Bool} (hp : p 32 = p 0) : p c'.peek = p c.peek := by
  rcases L.peek h with hpeek | ⟨hrest, hpeek⟩
  · rw [hpeek]
  · rw [hpeek, hp]
    simp [Cursor.peek, hrest]

theorem Likeness.peek_iff (h : R c c') {n : Nat} (hn : n ≠ 0 ∧ n ≠ 32) : c'.peek = n ↔ c.peek = n := by
  have htest := L.test h (p := fun ch => ch = n) (by simp [hn.1.symm, hn.2.symm])
  simpa using htest

theorem Likeness.byte_test (h : R c c') {p : Nat → Bool} (h32 : p 32 = p 0) (h13 : p 13 = p 10) :
    p (c'.byteAt 0) = p (c.byteAt 0) := by
  rcases L.byte h with hbyte | ⟨hbyte, hbyte'⟩ | ⟨hbyte, hbyte'⟩
  · rw [hbyte]
  · rw [hbyte, hbyte', h32]
  · rw [hbyte, hbyte', h13]

theorem Likeness.skip (h : R c c') {p : Nat → Bool} (hp : ∀ {c c'}, R c c' → p c'.peek = p c.peek)
    (hzero : p 0 = false) : R (c.skip p) (c'.skip p) := by
  suffices hfrom : ∀ fuel fuel' {c c' : Cursor}, R c c' → c.rest.length ≤ fuel → c'.rest.length ≤ fuel' →
      R (c.skipFrom p fuel) (c'.skipFrom p fuel') from hfrom _ _ h (Nat.le_refl _) (Nat.le_refl _)
  intro fuel
  induction fuel with
  | zero =>
    intro fuel' c c' h hfuel _
    have hrest : c.rest = [] := List.length_eq_zero_iff.1 (Nat.le_zero.1 hfuel)
    have hstop : p c'.peek = false := by rw [hp h, Cursor.peek, hrest, hzero]
    cases fuel' with
    | zero => exact h
    | succ fuel' => simpa [Cursor.skipFrom, hstop] using h
  | succ fuel ih =>
    intro fuel' c c' h hfuel hfuel'
    by_cases hstep : p c.peek = true
    · have hrest : c.rest ≠ [] := by
        rintro hrest
        rw [Cursor.peek, hrest, hzero] at hstep
        cases hstep
      have hrest' := L.nonempty h hrest
      have hlt := Cursor.next_length_lt hrest
      have hlt' := Cursor.next_length_lt hrest'
      cases fuel' with
      | zero => omega
      | succ fuel' =>
        rw [Cursor.skipFrom, Cursor.skipFrom, if_pos (by simp [hrest, hstep]), if_pos (by simp [hrest', hp h, hstep])]
        exact ih fuel' (L.next h hrest) (by omega) (by omega)
    · have hstop : p c'.peek = false := by rw [hp h]; exact eq_false_of_ne_true hstep
      have hskip' : c'.skipFrom p fuel' = c' := by
        cases fuel' with
        | zero => rfl
        | succ fuel' => simp [Cursor.skipFrom, hstop]
      rw [Cursor.skipFrom, if_neg (by simp [hstep]), hskip']
      exact h

/-- Code points are passed that are neither blank nor the end of a text. -/
theorem Likeness.skip_word (h : R c c') {p : Nat → Bool} (h0 : p 0 = false) (h32 : p 32 = false) :
    R (c.skip p) (c'.skip p) := L.skip h (fun h => L.test h (h32.trans h0.symm)) h0

/-! ### Strings -/

/-- Where a string ends is told alike. -/
def Closes (strict : Prop) (R : Cursor → Cursor → Prop) (x y : Option Cursor) : Prop :=
  (∀ d, x = some d → ∃ d', y = some d' ∧ R d d') ∧ (strict → x = none → y = none)

theorem Likeness.closeString (quote fuel fuel' : Nat) (h : R c c') (hfuel : c.rest.length < fuel)
    (hfuel' : c'.rest.length < fuel') : Closes strict R (closeString quote fuel c) (closeString quote fuel' c') := by
  induction fuel generalizing c c' fuel' with
  | zero => omega
  | succ fuel ih =>
    cases fuel' with
    | zero => omega
    | succ fuel' =>
      unfold Scan.closeString
      by_cases hrest : c.rest = []
      · simp only [hrest, List.isEmpty_nil, if_true]
        refine ⟨fun _ hd => (by cases hd), fun hstrict _ => by simp [L.empty hstrict h hrest]⟩
      have hrest' := L.nonempty h hrest
      have hnext := L.next h hrest
      have hlt := Cursor.next_length_lt hrest
      have hlt' := Cursor.next_length_lt hrest'
      simp only [List.isEmpty_eq_false_iff.2 hrest, List.isEmpty_eq_false_iff.2 hrest', Bool.false_eq_true, if_false,
        L.peek_eq h hrest]
      split
      · exact ⟨fun d hd => (by cases hd; exact ⟨_, rfl, hnext⟩), fun _ hnone => by cases hnone⟩
      split
      · exact ⟨fun _ hd => (by cases hd), fun _ _ => rfl⟩
      split
      · by_cases hlast : c.next.rest = []
        · simp only [hlast, List.isEmpty_nil, if_true]
          exact ⟨fun _ hd => (by cases hd), fun hstrict _ => by simp [L.empty hstrict hnext hlast]⟩
        · have hlast' := L.nonempty hnext hlast
          have hlt₂ := Cursor.next_length_lt hlast
          have hlt₂' := Cursor.next_length_lt hlast'
          simp only [List.isEmpty_eq_false_iff.2 hlast, List.isEmpty_eq_false_iff.2 hlast', Bool.false_eq_true, if_false]
          exact ih _ (L.next hnext hlast) (by omega) (by omega)
      · exact ih _ hnext (by omega) (by omega)

theorem Likeness.closeTriple (quote fuel fuel' seen : Nat) (h : R c c') (hfuel : c.rest.length < fuel)
    (hfuel' : c'.rest.length < fuel') :
    Closes strict R (closeTriple quote fuel seen c) (closeTriple quote fuel' seen c') := by
  induction fuel generalizing c c' fuel' seen with
  | zero => omega
  | succ fuel ih =>
    cases fuel' with
    | zero => omega
    | succ fuel' =>
      unfold Scan.closeTriple
      by_cases hrest : c.rest = []
      · simp only [hrest, List.isEmpty_nil, if_true]
        refine ⟨fun _ hd => (by cases hd), fun hstrict _ => by simp [L.empty hstrict h hrest]⟩
      have hrest' := L.nonempty h hrest
      have hnext := L.next h hrest
      have hlt := Cursor.next_length_lt hrest
      have hlt' := Cursor.next_length_lt hrest'
      simp only [List.isEmpty_eq_false_iff.2 hrest, List.isEmpty_eq_false_iff.2 hrest', Bool.false_eq_true, if_false,
        L.peek_eq h hrest]
      split
      · split
        · exact ⟨fun d hd => (by cases hd; exact ⟨_, rfl, hnext⟩), fun _ hnone => by cases hnone⟩
        · exact ih _ _ hnext (by omega) (by omega)
      split
      · by_cases hlast : c.next.rest = []
        · simp only [hlast, List.isEmpty_nil, if_true]
          exact ⟨fun _ hd => (by cases hd), fun hstrict _ => by simp [L.empty hstrict hnext hlast]⟩
        · have hlast' := L.nonempty hnext hlast
          have hlt₂ := Cursor.next_length_lt hlast
          have hlt₂' := Cursor.next_length_lt hlast'
          simp only [List.isEmpty_eq_false_iff.2 hlast, List.isEmpty_eq_false_iff.2 hlast', Bool.false_eq_true, if_false]
          exact ih _ _ (L.next hnext hlast) (by omega) (by omega)
      · exact ih _ _ hnext (by omega) (by omega)

/-- The bytes of an opening quote, if there are three of them, are told alike. -/
theorem Likeness.triple (h : R c c') (hquote : c.peek = 34 ∨ c.peek = 39) :
    (c'.byteAt 0 = c.peek ∧ c'.byteAt 1 = c.peek ∧ c'.byteAt 2 = c.peek) ↔
      (c.byteAt 0 = c.peek ∧ c.byteAt 1 = c.peek ∧ c.byteAt 2 = c.peek) := by
  obtain ⟨q, hq, hquote⟩ : ∃ q : UInt8, (q = 34 ∨ q = 39) ∧ c.peek = q.toNat := by
    rcases hquote with hquote | hquote
    · exact ⟨34, .inl rfl, hquote⟩
    · exact ⟨39, .inr rfl, hquote⟩
  have hascii : q < 128 ∧ q ≠ 0 ∧ q ≠ 10 ∧ q ≠ 13 := by rcases hq with rfl | rfl <;> decide
  have hblank : q.toNat ≠ 0 ∧ q.toNat ≠ 32 ∧ q.toNat ≠ 10 ∧ q.toNat ≠ 13 := by rcases hq with rfl | rfl <;> decide
  -- The first bytes of cursors that are alike are this quote, or both are not.
  have hbyte : ∀ {c c' : Cursor}, R c c' → (c'.byteAt 0 = q.toNat ↔ c.byteAt 0 = q.toNat) := by
    intro c c' h
    have htest := L.byte_test h (p := fun n => n = q.toNat) (by simp [hblank.1.symm, hblank.2.1.symm])
      (by simp [hblank.2.2.1.symm, hblank.2.2.2.symm])
    simpa using htest
  have hrest : c.rest = q :: c.next.rest := Cursor.rest_of_peek hquote ⟨hascii.1, hascii.2.1, hascii.2.2.1⟩
  have hpeek' : c'.peek = q.toNat := by rw [L.peek_eq h (by simp [hrest]), hquote]
  have hnext := L.next h (by simp [hrest])
  have hsucc : ∀ {c : Cursor}, c.peek = q.toNat → ∀ i, c.byteAt (i + 1) = c.next.byteAt i := fun hpeek =>
    Cursor.byteAt_succ hpeek ⟨hascii.1, hascii.2.1, hascii.2.2.1⟩
  rw [hquote, hsucc hquote, hsucc hquote, hsucc hpeek', hsucc hpeek', hbyte h, hbyte hnext]
  refine and_congr_right fun _ => and_congr_right fun hsecond => ?_
  have hpeek₂ : c.next.peek = q.toNat := Cursor.peek_of_byteAt hsecond hblank.1 hascii.1 hascii.2.2.2
  have hrest₂ : c.next.rest ≠ [] := c.next.rest_ne_nil_of_peek (by rw [hpeek₂]; exact hblank.1)
  rw [hsucc hpeek₂, hsucc (by rw [L.peek_eq hnext hrest₂, hpeek₂]), hbyte (L.next hnext hrest₂)]

theorem Likeness.closing (h : R c c') (hquote : c.peek = 34 ∨ c.peek = 39) :
    Closes strict R (closing? c) (closing? c') := by
  have hrest : c.rest ≠ [] := c.rest_ne_nil_of_peek (by rcases hquote with h | h <;> simp [h])
  have hnext := L.next h hrest
  have htriple : (decide (c'.byteAt 0 = c.peek) && decide (c'.byteAt 1 = c.peek) && decide (c'.byteAt 2 = c.peek)) =
      (decide (c.byteAt 0 = c.peek) && decide (c.byteAt 1 = c.peek) && decide (c.byteAt 2 = c.peek)) := by
    rw [Bool.eq_iff_iff]
    simpa [and_assoc] using L.triple h hquote
  have hfuel : ∀ c : Cursor, c.next.rest.length < c.rest.length + 1 := fun c => Nat.lt_succ_of_le c.next_length_le
  have hfuel₃ : ∀ c : Cursor, c.next.next.next.rest.length < c.rest.length + 1 := fun c =>
    Nat.lt_succ_of_le c.next_reaches.next.next.length_le
  unfold closing?
  rw [L.peek_eq h hrest, htriple]
  split
  · rename_i hopen
    simp only [Bool.and_eq_true, decide_eq_true_eq] at hopen
    obtain ⟨hsecond, hthird⟩ := Cursor.rest_of_triple hquote hopen.1.2 hopen.2
    exact L.closeTriple _ _ _ _ (L.next (L.next hnext hsecond) hthird) (hfuel₃ c) (hfuel₃ c')
  · exact L.closeString _ _ _ hnext (hfuel c) (hfuel c')

/-- The value of a string, if there is a string, is told alike. The token it belongs to starts at `start`. -/
def ValueAlike (strict : Prop) (R : Cursor → Cursor → Prop) (start : Pos) (c c' : Cursor) : Prop :=
  c.peek = 34 ∨ c.peek = 39 → ∀ d d', R d d' → c.Reaches d →
    (∀ t, string start c = .ok (t, d) → ∃ b, (c'.until d').unquote = .ok (t, b)) ∧
      (strict → ∀ e, (c.until d).unquote = .error e → ∃ e', (c'.until d').unquote = .error e')

/-- **Strings are read alike** where their values are told alike. -/
theorem Likeness.string {start start' : Pos} (hstart : strict → start' = start) (h : R c c')
    (hquote : c.peek = 34 ∨ c.peek = 39) (hvalue : ValueAlike strict R start c c') :
    Mirrors strict (fun r r' => r'.1 = r.1 ∧ R r.2 r'.2) (string start c) (string start' c') := by
  obtain ⟨hsome, hnone⟩ := L.closing h hquote
  cases hclosed : closing? c with
  | none =>
    rw [string_none start hclosed]
    refine mirrors_error fun hstrict => ?_
    exact ⟨_, string_none start' (hnone hstrict hclosed), hstart hstrict⟩
  | some d =>
    obtain ⟨d', hclosed', hd⟩ := hsome d hclosed
    have halike := hvalue hquote d d' hd (c.next_reaches.trans (closing?_reaches c d hclosed))
    cases hunquote : (c.until d).unquote with
    | error e =>
      rw [string_error start hclosed hunquote]
      refine mirrors_error fun hstrict => ?_
      obtain ⟨e', he'⟩ := halike.2 hstrict e hunquote
      exact ⟨_, string_error start' hclosed' he', L.pos hstrict h⟩
    | ok r =>
      obtain ⟨t, b⟩ := r
      have hstring := string_ok start hclosed hunquote
      obtain ⟨b', hb'⟩ := halike.1 t hstring
      rw [hstring, string_ok start' hclosed' hb']
      exact mirrors_pure ⟨rfl, hd⟩

/-! ### Numbers -/

omit L in
theorem mirrors_integer {start start' : Pos} (hpos : strict → start' = start) (base : Nat) (digits : Text) :
    Mirrors strict (fun p p' => p' = p) (integer start base digits) (integer start' base digits) := by
  unfold integer
  split
  · exact mirrors_ite Iff.rfl (fun _ => mirrors_pure rfl) (fun _ => mirrors_throw hpos)
  · exact mirrors_throw hpos

/-- What is read of a number is alike. -/
def AlikeNumbers (R : Cursor → Cursor → Prop) (r r' : TokenKind × Payload × Cursor) : Prop :=
  r'.1 = r.1 ∧ r'.2.1 = r.2.1 ∧ R r.2.2 r'.2.2

/-- Whether a point belongs to a number is told alike. -/
theorem Likeness.point (h : R c c') (fraction : Bool) :
    (!fraction && decide (c'.peek = 46) && decide (c'.byteAt 1 ≠ 46) && !isNameStart (c'.byteAt 1)) =
      (!fraction && decide (c.peek = 46) && decide (c.byteAt 1 ≠ 46) && !isNameStart (c.byteAt 1)) := by
  by_cases hpeek : c.peek = 46
  · have hpeek' : c'.peek = 46 := (L.peek_iff h (by decide)).2 hpeek
    have hnext := L.next h (c.rest_ne_nil_of_peek (by simp [hpeek]))
    have hsucc : ∀ {c : Cursor}, c.peek = 46 → c.byteAt 1 = c.next.byteAt 0 := fun hpeek =>
      Cursor.byteAt_succ (b := 46) hpeek (by decide) 0
    have htest := L.byte_test hnext (p := fun b => decide (b ≠ 46) && !isNameStart b) (by decide)
      (by decide)
    simp only [hpeek, hpeek', hsucc hpeek, hsucc hpeek', Bool.and_assoc]
    rw [htest]
  · have hpeek' : c'.peek ≠ 46 := fun h' => hpeek ((L.peek_iff h (by decide)).1 h')
    simp [hpeek, hpeek']

/-- Cursors that are alike, within the line of `start`. -/
def Abreast (R : Cursor → Cursor → Prop) (start c c' : Cursor) : Prop := R c c' ∧ start.Along c

theorem Likeness.abreast_next {start : Cursor} (h : Abreast R start c c') (hpeek : c.peek ≠ 0 ∧ c.peek ≠ 10) :
    Abreast R start c.next c'.next :=
  ⟨L.next h.1 (c.rest_ne_nil_of_peek hpeek.1), h.2.next hpeek.2⟩

theorem Likeness.abreast_skip {start : Cursor} (h : Abreast R start c c') {p : Nat → Bool} (h0 : p 0 = false)
    (h32 : p 32 = false) (h10 : p 10 = false) : Abreast R start (c.skip p) (c'.skip p) :=
  ⟨L.skip_word h.1 h0 h32, h.2.skip h10⟩

theorem Likeness.decimal {start start' : Cursor} (hstart : R start start') (h : Abreast R start c c')
    (fraction : Bool) :
    Mirrors strict (AlikeNumbers R) (decimal start fraction c) (decimal start' fraction c') := by
  have hpos : strict → start'.pos = start.pos := fun hstrict => L.pos hstrict hstart
  unfold Scan.decimal
  extract_lets isPart c₁ point c₂ exponent c₃ c₄ c₅ raw finish c₁' point' c₂' exponent' c₃' c₄' c₅' raw' finish'
  have h₁ : Abreast R start c₁ c₁' := L.abreast_skip h rfl rfl rfl
  have hpoint : point' = point := L.point h₁.1 fraction
  have h₂ : Abreast R start c₂ c₂' := by
    dsimp only [c₂, c₂']
    rw [hpoint]
    split
    · rename_i hp
      have hpeek : c₁.peek = 46 := by
        simp only [point, Bool.and_eq_true, decide_eq_true_eq] at hp
        exact hp.1.1.2
      exact L.abreast_skip (L.abreast_next h₁ (by simp [hpeek])) rfl rfl rfl
    · exact h₁
  have hexponent : exponent' = exponent := L.test h₂.1 (p := fun ch => ch = 101 || ch = 69) rfl
  have h₄ : Abreast R start c₄ c₄' := by
    dsimp only [c₄, c₄']
    rw [hexponent]
    split
    · rename_i he
      have hpeek : c₂.peek ≠ 0 ∧ c₂.peek ≠ 10 := by
        simp only [exponent, Bool.or_eq_true, decide_eq_true_eq] at he
        rcases he with he | he <;> simp [he]
      have h₃ : Abreast R start c₃ c₃' := L.abreast_next h₂ hpeek
      have hsign := L.test h₃.1 (p := fun ch => ch = 43 || ch = 45) rfl
      rw [hsign]
      split
      · rename_i hs
        refine L.abreast_next h₃ ?_
        simp only [Bool.or_eq_true, decide_eq_true_eq] at hs
        rcases hs with hs | hs <;> simp [hs]
      · exact h₃
    · exact h₂
  have h₅ : Abreast R start c₅ c₅' := by
    dsimp only [c₅, c₅']
    rw [hexponent]
    split
    · exact L.abreast_skip h₄ rfl rfl rfl
    · exact h₄
  have hraw : raw' = raw := L.text hstart h₅.1 h₅.2
  have hdigit : isDigit c₄'.peek = isDigit c₄.peek := L.test h₄.1 rfl
  refine mirrors_unless (by rw [hexponent, hdigit]) hpos fun _ => ?_
  dsimp only [finish, finish']
  refine mirrors_ite (by rw [hpoint, hexponent]) (fun _ => ?_) (fun _ => ?_)
  · rw [hraw]
    cases (⟨Text.withoutUnderscores raw.bytes⟩ : Text).float? with
    | some x => exact mirrors_pure ⟨rfl, rfl, h₅.1⟩
    | none => exact mirrors_throw hpos
  · rw [hraw]
    exact mirrors_bind (mirrors_integer hpos 10 raw) fun p p' _ hp => mirrors_pure ⟨rfl, hp, h₅.1⟩

/-- **Numbers are read alike.** -/
theorem Likeness.number (h : R c c') (hfirst : isDigit c.peek = true ∨ c.peek = 46) :
    Mirrors strict (AlikeNumbers R) (number c) (number c') := by
  have hpos : strict → c'.pos = c.pos := fun hstrict => L.pos hstrict h
  have habreast : Abreast R c c c' := ⟨h, .refl⟩
  have hpeek : c.peek ≠ 0 ∧ c.peek ≠ 10 := by
    rcases hfirst with hfirst | hfirst
    · constructor <;> intro hpeek <;> rw [hpeek] at hfirst <;> cases hfirst
    · simp [hfirst]
  have hnext := L.abreast_next habreast hpeek
  unfold Scan.number
  extract_lets d hex e hexadecimal bin binary d' hex' e' hexadecimal' bin' binary'
  have hbased : ∀ (base : Nat) (p : Nat → Bool), Abreast R c hex hex' → p 0 = false → p 32 = false → p 10 = false →
      Mirrors strict (AlikeNumbers R)
        (integer c.pos base (hex.until (hex.skip p)) >>= fun i => pure (.int, i, hex.skip p))
        (integer c'.pos base (hex'.until (hex'.skip p)) >>= fun i => pure (.int, i, hex'.skip p)) := by
    intro base p hhex h0 h32 h10
    have hskip : Abreast R hex (hex.skip p) (hex'.skip p) := L.abreast_skip ⟨hhex.1, .refl⟩ h0 h32 h10
    rw [L.text hhex.1 hskip.1 hskip.2]
    exact mirrors_bind (mirrors_integer hpos base _) fun i i' _ hi => mirrors_pure ⟨rfl, hi, hskip.1⟩
  -- The code point behind the first one decides what base there is.
  have hpassed : ∀ {m n : Nat}, d.peek = m ∨ d.peek = n → m ∉ [0, 10] → n ∉ [0, 10] → Abreast R c hex hex' := by
    intro m n hd hm hn
    refine L.abreast_next hnext ?_
    simp only [List.mem_cons, List.not_mem_nil, or_false, not_or] at hm hn
    rcases hd with hd | hd <;> rw [show c.next.peek = _ from hd] <;> assumption
  refine mirrors_ite (L.peek_iff h (by decide)) (fun _ => ?_) (fun _ => ?_)
  · refine mirrors_ite (L.peek_iff hnext.1 (by decide)) (fun hd => ?_) (fun _ => ?_)
    · exact mirrors_pure ⟨rfl, rfl, (hpassed (.inl hd) (n := 46) (by decide) (by decide)).1⟩
    have hdigit : isDigit d'.peek = isDigit d.peek := L.test hnext.1 rfl
    refine mirrors_ite (by rw [hdigit]) (fun _ => ?_) (fun _ => ?_)
    · exact L.decimal h hnext true
    · exact mirrors_pure ⟨rfl, rfl, hnext.1⟩
  refine mirrors_ite (L.peek_iff h (by decide)) (fun _ => ?_) (fun _ => ?_)
  · have hbase : ∀ p : Nat → Bool, p 32 = p 0 → p d'.peek = p d.peek := fun p hp => L.test hnext.1 hp
    refine mirrors_ite (by rw [hbase (fun ch => ch = 120 || ch = 88) rfl]) (fun hd => ?_) (fun _ => ?_)
    · have hhex := hpassed (by simpa using hd) (by decide) (by decide)
      have hdigit : isHexDigit hex'.peek = isHexDigit hex.peek := L.test hhex.1 rfl
      exact mirrors_unless (by rw [hdigit]) hpos fun _ => hbased 16 _ hhex rfl rfl rfl
    refine mirrors_ite (by rw [hbase (fun ch => ch = 98 || ch = 66) rfl]) (fun hd => ?_) (fun _ => ?_)
    · have hhex := hpassed (by simpa using hd) (by decide) (by decide)
      have hdigit := L.test hhex.1 (p := fun ch => ch ≠ 48 && ch ≠ 49) rfl
      exact mirrors_unless (by rw [hdigit]) hpos fun _ => hbased 2 _ hhex rfl rfl rfl
    · exact L.decimal h hnext false
  · exact L.decimal h habreast false

/-! ### Tokens -/

/-- States that are alike. -/
structure Twins (R : Cursor → Cursor → Prop) (s s' : State) : Prop where
  cursor : R s.cursor s'.cursor
  depth : s'.depth = s.depth
  indents : s'.indents = s.indents
  pending : s'.pending = s.pending
  lineStart : s'.lineStart = s.lineStart

/-- Tokens of one kind that stand for the same. -/
def AlikeTokens (t t' : Token) : Prop := t'.kind = t.kind ∧ t'.payload = t.payload

omit L in
/-- A token of punctuation is as many ASCII characters. -/
theorem punctuation?_ascii {bs : List UInt8} {k : TokenKind} {n : Nat} (h : punctuation? bs = some (k, n)) :
    ∃ p rest, bs = p ++ rest ∧ n = p.length ∧ ∀ b ∈ p, b < 128 ∧ b ≠ 13 := by
  obtain ⟨e, he, heq⟩ := Option.map_eq_some_iff.1 h
  cases heq
  have hfits : e.1.isPrefixOf bs = true := by simpa using List.find?_some he
  obtain ⟨rest, hrest⟩ := List.isPrefixOf_iff_prefix.1 hfits
  refine ⟨e.1, rest, hrest.symm, rfl, fun b hb => ?_⟩
  obtain ⟨hascii, hmem⟩ := punctuation_bytes e (List.mem_of_find?_eq_some he) b hb
  exact ⟨hascii, by rintro rfl; exact hmem (by decide)⟩

theorem Likeness.repeat_next (h : R c c') {p rest : List UInt8} (hrest : c.rest = p ++ rest)
    (hp : ∀ b ∈ p, b < 128 ∧ b ≠ 13) : R (p.length.repeat Cursor.next c) (p.length.repeat Cursor.next c') := by
  induction p generalizing c c' with
  | nil => exact h
  | cons b p ih =>
    have hpasses := Cursor.next_ascii hrest (hp b List.mem_cons_self)
    have hnext : c.next.rest = p ++ rest := by simpa [hrest] using hpasses.rest.symm
    rw [List.length_cons, Cursor.repeat_next, Cursor.repeat_next]
    exact ih (L.next h (by simp [hrest])) hnext fun b hb => hp b (List.mem_cons_of_mem _ hb)

/-- **Tokens are read alike** where the values of strings are told alike. -/
theorem Likeness.token {s s' : State} (h : Twins R s s') (hpeek : s.cursor.peek ≠ 0 ∧ s.cursor.peek ≠ 10)
    (hvalue : ValueAlike strict R s.cursor.pos s.cursor s'.cursor)
    (hprefixed : s.cursor.peek = 38 ∨ s.cursor.peek = 94 →
      ValueAlike strict R s.cursor.pos s.cursor.next s'.cursor.next) :
    Mirrors strict (fun r r' => AlikeTokens r.1 r'.1 ∧ Twins R r.2 r'.2) (token s) (token s') := by
  have hrest : s.cursor.rest ≠ [] := s.cursor.rest_ne_nil_of_peek hpeek.1
  have hnext := L.next h.cursor hrest
  have hpos : strict → s'.cursor.pos = s.cursor.pos := fun hstrict => L.pos hstrict h.cursor
  have hmove : ∀ {k : TokenKind} {p : Payload} {d d' : Cursor} {raw raw' : Text} {q q' e e' : Pos}, R d d' →
      AlikeTokens ⟨k, q, raw, p, e⟩ ⟨k, q', raw', p, e'⟩ ∧
        Twins R { s with cursor := d } { s' with cursor := d' } :=
    fun hd => ⟨⟨rfl, rfl⟩, hd, h.depth, h.indents, h.pending, h.lineStart⟩
  unfold Scan.token
  extract_lets c ch finish word sign stop mark c' ch' finish' word' sign' stop' mark'
  have hch : ch' = ch := L.peek_eq h.cursor hrest
  have hpart : isNamePart 0 = false ∧ isNamePart 32 = false ∧ isNamePart 10 = false := by decide
  rw [hch]
  refine mirrors_ite Iff.rfl (fun _ => mirrors_pure (hmove hnext)) (fun _ => ?_)
  refine mirrors_ite Iff.rfl (fun hquote => ?_) (fun _ => ?_)
  · refine mirrors_bind (L.string hpos h.cursor (by simpa using hquote) hvalue) fun r r' _ hr => ?_
    obtain ⟨t, d⟩ := r
    obtain ⟨t', d'⟩ := r'
    obtain ⟨rfl, hd⟩ := hr
    exact mirrors_pure (hmove hd)
  refine mirrors_ite Iff.rfl (fun _ => ?_) (fun _ => ?_)
  · have hword : R word word' := L.skip_word h.cursor hpart.1 hpart.2.1
    rw [L.text h.cursor hword (Cursor.Along.refl.skip hpart.2.2)]
    exact mirrors_pure (hmove hword)
  cases hbracket : bracket? ch with
  | some r =>
    obtain ⟨kind, opening⟩ := r
    cases opening with
    | true =>
      exact mirrors_pure ⟨⟨rfl, rfl⟩, hnext, congrArg (· + 1) h.depth, h.indents, h.pending, h.lineStart⟩
    | false =>
      refine mirrors_unless (by rw [h.depth]) hpos fun _ => ?_
      exact mirrors_pure ⟨⟨rfl, rfl⟩, hnext, congrArg (· - 1) h.depth, h.indents, h.pending, h.lineStart⟩
  | none =>
    dsimp only
    refine mirrors_ite Iff.rfl (fun hfirst => ?_) (fun _ => ?_)
    · refine mirrors_bind (L.number h.cursor (by simpa using hfirst)) fun r r' _ hr => ?_
      obtain ⟨k, p, d⟩ := r
      obtain ⟨k', p', d'⟩ := r'
      obtain ⟨rfl, rfl, hd⟩ := hr
      exact mirrors_pure (hmove hd)
    -- A quote behind a prefix is read where the prefix is passed.
    have hsecond : ch = 38 ∨ ch = 94 → c.byteAt 1 = c.next.byteAt 0 ∧ c'.byteAt 1 = c'.next.byteAt 0 := by
      rintro (hlead | hlead)
      · exact ⟨Cursor.byteAt_succ (b := 38) hlead (by decide) 0,
          Cursor.byteAt_succ (b := 38) (hch.trans hlead) (by decide) 0⟩
      · exact ⟨Cursor.byteAt_succ (b := 94) hlead (by decide) 0,
          Cursor.byteAt_succ (b := 94) (hch.trans hlead) (by decide) 0⟩
    have hquoted : ((decide (ch = 38) || decide (ch = 94)) && (decide (c'.byteAt 1 = 34) || decide (c'.byteAt 1 = 39))) =
        ((decide (ch = 38) || decide (ch = 94)) && (decide (c.byteAt 1 = 34) || decide (c.byteAt 1 = 39))) := by
      by_cases hlead : ch = 38 ∨ ch = 94
      · obtain ⟨hbyte, hbyte'⟩ := hsecond hlead
        rw [hbyte, hbyte', L.byte_test hnext (p := fun b => b = 34 || b = 39) rfl rfl]
      · simp only [not_or] at hlead
        simp [hlead]
    refine mirrors_ite (by rw [hquoted]) (fun hlead => ?_) (fun _ => ?_)
    · simp only [Bool.and_eq_true, Bool.or_eq_true, decide_eq_true_eq] at hlead
      have hquote : c.next.peek = 34 ∨ c.next.peek = 39 := by
        rw [(hsecond hlead.1).1] at hlead
        exact hlead.2.imp (fun h => Cursor.peek_of_byteAt (b := 34) h (by decide) (by decide) (by decide))
          (fun h => Cursor.peek_of_byteAt (b := 39) h (by decide) (by decide) (by decide))
      refine mirrors_bind (L.string hpos hnext hquote (hprefixed hlead.1)) fun r r' _ hr => ?_
      obtain ⟨t, d⟩ := r
      obtain ⟨t', d'⟩ := r'
      obtain ⟨rfl, hd⟩ := hr
      exact mirrors_pure (hmove hd)
    refine mirrors_ite Iff.rfl (fun _ => ?_) (fun _ => ?_)
    · have hsign : isNameStart sign'.peek = isNameStart sign.peek := L.test hnext (by decide)
      refine mirrors_unless (by rw [hsign]) (fun hstrict => L.pos hstrict hnext) fun _ => ?_
      have hstop : R stop stop' := L.skip_word hnext hpart.1 hpart.2.1
      have htext : sign'.until stop' = sign.until stop := L.text hnext hstop (Cursor.Along.refl.skip hpart.2.2)
      dsimp only [mark, mark']
      rw [htext]
      exact mirrors_pure (hmove hstop)
    · rw [L.punctuation h.cursor]
      cases hmark : punctuation? c.rest with
      | none => exact mirrors_throw hpos
      | some r =>
        obtain ⟨kind, n⟩ := r
        obtain ⟨p, rest, hp, rfl, hascii⟩ := punctuation?_ascii hmark
        exact mirrors_pure (hmove (L.repeat_next h.cursor hp hascii))

end Likeness

end Scan

end GameScript
