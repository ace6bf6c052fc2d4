import GameScript.Proofs.Syntax.Blocks
import GameScript.Proofs.Syntax.Cursors
import GameScript.Proofs.Syntax.Terms

/-!
# Reading words back

A word is read back as the token it spells if a blank or the end of the text comes after it (`Scan.Lexes`). Words
with blanks between them, in which every bracket is closed, are read back one after another (`scan_words`).
-/

namespace GameScript

namespace Scan

/-! ### Passing known bytes -/

/-- The bytes of a word are followed by a blank or by nothing. -/
def Breaks (rest : List UInt8) : Prop := rest = [] ∨ ∃ bs, rest = 32 :: bs

section Cursors

variable {c : Cursor} {b : UInt8} {bs rest : List UInt8}

theorem Breaks.peek (h : Breaks c.rest) : c.peek = 0 ∨ c.peek = 32 := by
  rcases h with h | ⟨bs, h⟩
  · exact .inl (by simp [Cursor.peek, h])
  · exact .inr (Cursor.peek_ascii h (by decide))

theorem Breaks.byteAt (h : Breaks c.rest) : c.byteAt 0 = 0 ∨ c.byteAt 0 = 32 := by
  rcases h with h | ⟨bs, h⟩ <;> simp [Cursor.byteAt, h]

/-- The bytes for which `p` holds are passed up to the end of a word. -/
theorem skip_passes {p : Nat → Bool} (h : c.rest = bs ++ rest) (hrest : Breaks rest)
    (hbs : ∀ b ∈ bs, p b.toNat = true ∧ b < 128 ∧ b ≠ 13) (h0 : p 0 = false) (h32 : p 32 = false) :
    c.Passes bs (c.skip p) := by
  suffices hfrom : ∀ fuel (c : Cursor), c.rest = bs ++ rest → bs.length ≤ fuel → c.Passes bs (c.skipFrom p fuel) by
    exact hfrom _ c h (by simp [h])
  clear h
  induction bs with
  | nil =>
    intro fuel c h _
    have hstop : p c.peek = false := by rcases Breaks.peek (c := c) (h ▸ hrest) with h | h <;> rw [h] <;> assumption
    cases fuel with
    | zero => exact .refl c
    | succ fuel =>
      rw [Cursor.skipFrom, if_neg (by simp [hstop])]
      exact .refl c
  | cons b bs ih =>
    intro fuel c h hfuel
    have hb := hbs b List.mem_cons_self
    have hnext := Cursor.next_ascii h hb.2
    cases fuel with
    | zero => cases hfuel
    | succ fuel =>
      rw [Cursor.skipFrom, if_pos (by simp [h, Cursor.peek_ascii h hb.2, hb.1])]
      have hrest : c.next.rest = bs ++ rest := by simpa [h] using hnext.rest.symm
      exact hnext.trans (ih (fun b' hb' => hbs b' (List.mem_cons_of_mem b hb')) fuel c.next hrest
        (Nat.le_of_succ_le_succ hfuel))

end Cursors

/-! ### Words -/

/-- The number of open brackets after a word, if a closing one has its opening one. -/
def nest (depth : Nat) (w : Word) : Option Nat :=
  if w.kind.isOpening then some (depth + 1)
  else if w.kind.isClosing then (if depth = 0 then none else some (depth - 1))
  else some depth

/-- The first byte of a word. -/
def IsFirst (b : UInt8) : Prop := b < 128 ∧ b ∉ [0, 9, 10, 13, 32, 35, 92]

instance (b : UInt8) : Decidable (IsFirst b) := inferInstanceAs (Decidable (_ ∧ _))

/-- No token is read before what is at the cursor. -/
def Starts (c : Cursor) : Prop := c.peek ∉ [0, 9, 10, 32, 35, 92]

theorem IsFirst.starts {c : Cursor} {b : UInt8} {bs : List UInt8} (hb : IsFirst b) (h : c.rest = b :: bs) : Starts c := by
  obtain ⟨hascii, hmem⟩ := hb
  simp only [List.mem_cons, List.not_mem_nil, or_false, not_or] at hmem
  have hnat : ∀ {m : UInt8}, b ≠ m → b.toNat ≠ m.toNat := fun hne hnat => hne (UInt8.toNat_inj.1 hnat)
  unfold Starts
  rw [Cursor.peek_ascii h ⟨hascii, hmem.2.2.2.1⟩]
  simp only [List.mem_cons, List.not_mem_nil, or_false, not_or]
  exact ⟨hnat hmem.1, hnat hmem.2.1, hnat hmem.2.2.1, hnat hmem.2.2.2.2.1, hnat hmem.2.2.2.2.2.1, hnat hmem.2.2.2.2.2.2⟩

/-- At the end of a word, a word is read back. -/
structure Lexes (w : Word) : Prop where
  first : ∀ (c : Cursor) (rest : List UInt8), c.rest = w.raw.bytes ++ rest → Breaks rest → Starts c
  token : ∀ (s : State) (rest : List UInt8) (depth : Nat), s.cursor.rest = w.raw.bytes ++ rest → Breaks rest →
    nest s.depth w = some depth → ∃ t c, token s = .ok (t, { s with cursor := c, depth }) ∧ t.word = w ∧ c.rest = rest

/-- What a token is made of that is read in one go. -/
theorem word_of_passes {w : Word} {s : State} {c : Cursor} {rest : List UInt8} 
    (h : s.cursor.rest = w.raw.bytes ++ rest) (hpasses : s.cursor.Passes w.raw.bytes c) :
    Token.word ⟨w.kind, s.cursor.pos, s.cursor.until c, w.payload, c.pos⟩ = w ∧ c.rest = rest := by
  constructor
  · simp [Token.word, hpasses.until_eq]
  · have hrest := hpasses.rest
    rw [h] at hrest
    exact (List.append_cancel_left hrest).symm

theorem eq_of_nest {w : Word} {depth depth' : Nat} (h : nest depth w = some depth') (hw : w.kind.isPlain = true) :
    depth' = depth := by
  simp only [TokenKind.isPlain, Bool.not_eq_true', Bool.or_eq_false_iff] at hw
  simpa [nest, hw.1.1.1.2, hw.1.1.2] using h.symm

/-! ### Names and keywords -/

/-- No name starts with punctuation or a blank. -/
theorem ne_of_isNameStart {n : Nat} (h : isNameStart n = true) : n ∉ [0, 9, 10, 13, 32, 34, 35, 39, 44, 92] := by
  have hall : [0, 9, 10, 13, 32, 34, 35, 39, 44, 92].all (fun n => !isNameStart n) = true := by decide
  intro hmem
  simpa [h] using List.all_eq_true.1 hall n hmem

theorem isFirst_of_isNameStart {b : UInt8} (h : isNameStart b.toNat = true) (hb : b < 128) : IsFirst b := by
  refine ⟨hb, fun hmem => ne_of_isNameStart h ?_⟩
  simp only [List.mem_cons, List.not_mem_nil, or_false] at hmem ⊢
  rcases hmem with rfl | rfl | rfl | rfl | rfl | rfl | rfl <;> simp

/-- A name is a keyword or an identifier. -/
theorem lexes_name {first : UInt8} {rest : List UInt8} {k : TokenKind}
    (hfirst : isNameStart first.toNat = true ∧ first < 128)
    (hrest : ∀ b ∈ rest, isNamePart b.toNat = true ∧ b < 128)
    (hk : (TokenKind.keyword? ⟨first :: rest⟩).getD .identifier = k) :
    Lexes { kind := k, raw := ⟨first :: rest⟩ } where
  first _ _ h _ := (isFirst_of_isNameStart hfirst.1 hfirst.2).starts h
  token := by
    intro s after depth h hafter hdepth
    have hplain : k.isPlain = true := by
      rw [← hk]
      cases hword : TokenKind.keyword? ⟨first :: rest⟩ with
      | none => rfl
      | some k => exact TokenKind.keyword?_isPlain hword
    obtain rfl := eq_of_nest hdepth hplain
    have hreturn : ∀ b : UInt8, isNamePart b.toNat = true → b ≠ 13 := by
      rintro b hb rfl
      revert hb
      decide
    have hpart : isNamePart first.toNat = true := by simp [isNamePart, hfirst.1]
    have hpeek : s.cursor.peek = first.toNat := Cursor.peek_ascii h ⟨hfirst.2, hreturn first hpart⟩
    have hpasses : s.cursor.Passes (first :: rest) (s.cursor.skip isNamePart) := by
      refine skip_passes h hafter (fun b hb => ?_) (by decide) (by decide)
      rcases List.mem_cons.1 hb with rfl | hb
      · exact ⟨hpart, hfirst.2, hreturn _ hpart⟩
      · exact ⟨(hrest b hb).1, (hrest b hb).2, hreturn b (hrest b hb).1⟩
    have hne := ne_of_isNameStart hfirst.1
    simp only [List.mem_cons, List.not_mem_nil, or_false, not_or] at hne
    refine ⟨_, _, ?_, word_of_passes h hpasses⟩
    simp only [token, hpeek, hfirst.1, hne, decide_false, Bool.or_self, Bool.false_eq_true, if_false, if_true,
      hpasses.until_eq, hk]
    rfl

theorem lexes_identifier (n : Identifier) : Lexes n.word :=
  lexes_name n.isStart n.areParts (by rw [n.unreserved]; rfl)

/-! ### Punctuation -/

/-- A blank ends a token of punctuation. -/
theorem punctuation?_append {bs rest : List UInt8} (h : Breaks rest) : punctuation? (bs ++ rest) = punctuation? bs := by
  refine punctuation?_congr fun p => ?_
  induction p generalizing bs with
  | nil => exact fun _ => by simp
  | cons b p ih =>
    intro hp
    cases bs with
    | nil =>
      rcases h with rfl | ⟨bs, rfl⟩
      · rfl
      · have hb := hp b List.mem_cons_self
        simp only [List.mem_cons, List.not_mem_nil, or_false, not_or] at hb
        simp [List.isPrefixOf, hb]
    | cons c bs => simp only [List.cons_append, List.isPrefixOf, ih fun x hx => hp x (List.mem_cons_of_mem b hx)]

/-- What punctuation begins with is read in no other way. -/
theorem punctuation_first : ∀ e ∈ punctuation, ∀ b ∈ e.1.head?, IsFirst b ∧ b.toNat ∉ [34, 39, 44, 46, 64] ∧
    isNameStart b.toNat = false ∧ isDigit b.toNat = false ∧ bracket? b.toNat = none := by
  have hall : punctuation.all (fun e => e.1.head?.all fun b => decide (IsFirst b ∧ b.toNat ∉ [34, 39, 44, 46, 64] ∧
      isNameStart b.toNat = false ∧ isDigit b.toNat = false ∧ bracket? b.toNat = none)) = true := by
    decide
  intro e he b hb
  have hfirst := List.all_eq_true.1 hall e he
  rw [Option.mem_def.1 hb] at hfirst
  exact of_decide_eq_true hfirst

/-- Of the tokens of punctuation that fit, the longest one is taken. -/
theorem punctuation_longest : ∀ e ∈ punctuation, punctuation? e.1 = some (e.2, e.1.length) ∧ e.2.isPlain = true ∧
    e.1 ≠ [] ∧ e.1[1]? ≠ some 34 ∧ e.1[1]? ≠ some 39 ∧ ∀ b ∈ e.1, b < 128 ∧ b ≠ 13 := by
  have hall : ∀ e ∈ punctuation, punctuation? e.1 = some (e.2, e.1.length) ∧ e.2.isPlain = true ∧ e.1 ≠ [] ∧
      e.1[1]? ≠ some 34 ∧ e.1[1]? ≠ some 39 := by
    decide
  intro e he
  obtain ⟨hlongest, hplain, hne, hsecond, hsecond'⟩ := hall e he
  refine ⟨hlongest, hplain, hne, hsecond, hsecond', fun b hb => ?_⟩
  obtain ⟨hascii, hmem⟩ := punctuation_bytes e he b hb
  exact ⟨hascii, by rintro rfl; exact hmem (by decide)⟩

theorem lexes_mark {bs : List UInt8} {k : TokenKind} (h : (bs, k) ∈ punctuation) :
    Lexes { kind := k, raw := ⟨bs⟩ } := by
  obtain ⟨hlongest, hplain, hne, hsecond, hsecond', hascii⟩ := punctuation_longest _ h
  dsimp only at hlongest hplain hne hsecond hsecond' hascii
  obtain ⟨b, tail, rfl⟩ := List.exists_cons_of_ne_nil hne
  obtain ⟨hfirst, hother, hname, hdigit, hbracket⟩ := punctuation_first _ h b rfl
  refine ⟨fun c rest h _ => hfirst.starts h, fun s after depth hrest hafter hdepth => ?_⟩
  obtain rfl := eq_of_nest hdepth hplain
  have hpeek : s.cursor.peek = b.toNat := Cursor.peek_ascii hrest (hascii b List.mem_cons_self)
  have hbyte : s.cursor.byteAt 1 ≠ 34 ∧ s.cursor.byteAt 1 ≠ 39 := by
    cases tail with
    | nil => rcases hafter with rfl | ⟨bs, rfl⟩ <;> simp [Cursor.byteAt, hrest]
    | cons c tail =>
      have hbyte : s.cursor.byteAt 1 = c.toNat := by simp [Cursor.byteAt, hrest]
      rw [hbyte]
      exact ⟨fun hc => hsecond (congrArg some (UInt8.toNat_inj.1 hc)), fun hc => hsecond' (congrArg some (UInt8.toNat_inj.1 hc))⟩
  have hpasses := Cursor.repeat_passes hrest hascii
  simp only [List.mem_cons, List.not_mem_nil, or_false, not_or] at hother
  refine ⟨_, _, ?_, word_of_passes hrest hpasses⟩
  simp only [token, hpeek, hother, hname, hdigit, hbracket, hbyte, decide_false, Bool.or_self, Bool.and_false, Bool.false_eq_true,
    if_false, hrest, punctuation?_append hafter, hlongest, hpasses.until_eq]
  rfl

/-- The brackets with their byte. -/
def brackets : List (UInt8 × TokenKind) :=
  [(91, .openBracket), (40, .openParen), (123, .openBrace), (93, .closeBracket), (41, .closeParen), (125, .closeBrace)]

theorem brackets_read : ∀ e ∈ brackets, IsFirst e.1 ∧ e.1 ≠ 13 ∧ e.1.toNat ∉ [34, 39, 44] ∧ isNameStart e.1.toNat = false ∧
    bracket? e.1.toNat = some (e.2, e.2.isOpening) ∧ e.2.isClosing = !e.2.isOpening := by
  decide

theorem lexes_bracket {b : UInt8} {k : TokenKind} (h : (b, k) ∈ brackets) : Lexes { kind := k, raw := ⟨[b]⟩ } := by
  obtain ⟨hfirst, hreturn, hother, hname, hbracket, hclosing⟩ := brackets_read _ h
  dsimp only at hfirst hreturn hother hname hbracket hclosing
  refine ⟨fun c rest h _ => hfirst.starts h, fun s after depth hrest hafter hdepth => ?_⟩
  have hascii : b < 128 ∧ b ≠ 13 := ⟨hfirst.1, hreturn⟩
  have hpeek : s.cursor.peek = b.toNat := Cursor.peek_ascii hrest hascii
  have hpasses : s.cursor.Passes [b] s.cursor.next := Cursor.next_ascii hrest hascii
  simp only [List.mem_cons, List.not_mem_nil, or_false, not_or] at hother
  refine ⟨_, _, ?_, word_of_passes hrest hpasses⟩
  simp only [token, hpeek, hname, hother, hbracket, decide_false, Bool.or_self, Bool.false_eq_true, if_false, hpasses.until_eq]
  simp only [nest, hclosing] at hdepth
  cases hopening : k.isOpening with
  | true =>
    rw [hopening] at hdepth
    obtain rfl : s.depth + 1 = depth := by simpa using hdepth
    rfl
  | false =>
    rw [hopening] at hdepth
    by_cases hzero : s.depth = 0
    · simp [hzero] at hdepth
    · obtain rfl : s.depth - 1 = depth := by simpa [hzero] using hdepth
      simp only [hzero, if_false]
      rfl

theorem lexes_comma : Lexes { kind := .comma, raw := ⟨[44]⟩ } := by
  refine ⟨fun c rest h _ => IsFirst.starts (b := 44) (by decide) h, fun s after depth hrest hafter hdepth => ?_⟩
  obtain rfl := eq_of_nest hdepth rfl
  have hpasses : s.cursor.Passes [44] s.cursor.next := Cursor.next_ascii hrest (by decide)
  have hpeek : s.cursor.peek = 44 := Cursor.peek_ascii hrest (by decide)
  refine ⟨_, _, ?_, word_of_passes hrest hpasses⟩
  simp only [token, hpeek, if_true, hpasses.until_eq]
  rfl

/-! ### Numbers -/

/-- Nothing but a number or a point begins with a digit or a point. -/
theorem number_first {n : Nat} (h : isDigit n = true ∨ n = 46) :
    n ∉ [34, 39, 44] ∧ isNameStart n = false ∧ bracket? n = none := by
  have hall : ∀ n < 58, isDigit n = true ∨ n = 46 → n ∉ [34, 39, 44] ∧ isNameStart n = false ∧ bracket? n = none := by
    decide
  refine hall n ?_ h
  simp only [isDigit, Bool.and_eq_true, decide_eq_true_eq] at h
  omega

theorem token_number {s : State} {k : TokenKind} {p : Payload} {c : Cursor}
    (h : isDigit s.cursor.peek = true ∨ s.cursor.peek = 46) (hnumber : number s.cursor = .ok (k, p, c)) :
    token s = .ok (⟨k, s.cursor.pos, s.cursor.until c, p, c.pos⟩, { s with cursor := c }) := by
  obtain ⟨hother, hname, hbracket⟩ := number_first h
  simp only [List.mem_cons, List.not_mem_nil, or_false, not_or] at hother
  have hnumeral : (isDigit s.cursor.peek || decide (s.cursor.peek = 46)) = true := by simpa using h
  simp only [token, hother, hname, hbracket, hnumeral, hnumber, decide_false, Bool.or_self, Bool.false_eq_true, if_false,
    if_true]
  rfl

theorem lexes_dot : Lexes { kind := .dot, raw := ⟨[46]⟩ } := by
  refine ⟨fun c rest h _ => IsFirst.starts (b := 46) (by decide) h, fun s after depth hrest hafter hdepth => ?_⟩
  obtain rfl := eq_of_nest hdepth rfl
  have hpasses : s.cursor.Passes [46] s.cursor.next := Cursor.next_ascii hrest (by decide)
  have hpeek : s.cursor.peek = 46 := Cursor.peek_ascii hrest (by decide)
  obtain ⟨hword, hend⟩ := word_of_passes (w := ⟨.dot, ⟨[46]⟩, .none⟩) hrest hpasses
  have hnext : s.cursor.next.peek ≠ 46 ∧ isDigit s.cursor.next.peek = false := by
    rcases Breaks.peek (hend ▸ hafter) with h | h <;> rw [h] <;> decide
  have hnumber : number s.cursor = .ok (.dot, .none, s.cursor.next) := by
    simp only [number, hpeek, if_true, hnext, Bool.false_eq_true, if_false]
    rfl
  exact ⟨_, _, token_number (.inr hpeek) hnumber, hword, hend⟩

/-- The digits of a number are those of a tenth of it and one more. -/
theorem bytes_ofNat (n : Nat) : (Text.ofNat n).bytes =
    if n < 10 then [(48 + n).toUInt8] else (Text.ofNat (n / 10)).bytes ++ [(48 + n % 10).toUInt8] := by
  have hone : ∀ d < 10, (String.ofList [Nat.digitChar d]).toUTF8.data.toList = [(48 + d).toUInt8] := by decide
  have happend : ∀ cs ds : List Char, (String.ofList (cs ++ ds)).toUTF8.data.toList =
      (String.ofList cs).toUTF8.data.toList ++ (String.ofList ds).toUTF8.data.toList := by
    intro cs ds
    simp [String.toUTF8]
  show (String.ofList (Nat.toDigits 10 n)).toUTF8.data.toList = _
  rw [Nat.toDigits_eq_if (by decide)]
  split
  · exact hone n ‹_›
  · rw [happend, hone _ (Nat.mod_lt n (by decide))]
    rfl

/-- The decimal digits of a number spell it. -/
theorem ofNat_spells (n : Nat) : (Text.ofNat n).bytes ≠ [] ∧ (∀ b ∈ (Text.ofNat n).bytes, isDigit b.toNat = true) ∧
    Text.numberIn? 10 (Text.ofNat n).bytes = some n := by
  have hdigit : ∀ d < 10, isDigit (48 + d).toUInt8.toNat = true ∧ Text.hexDigit? (48 + d).toUInt8 = some d := by decide
  have hvalue : ∀ m d, d < 10 → ((Text.hexDigit? (48 + d).toUInt8).bind fun d =>
      if d < 10 then some (m * 10 + d) else none) = some (m * 10 + d) := by
    intro m d hd
    rw [(hdigit d hd).2, Option.bind_some, if_pos hd]
  induction n using Nat.strongRecOn with
  | ind n ih =>
    rw [bytes_ofNat]
    split
    · rename_i hlt
      refine ⟨by simp, fun b hb => List.mem_singleton.1 hb ▸ (hdigit n hlt).1, ?_⟩
      simp only [Text.numberIn?, List.foldlM_cons, List.foldlM_nil, hvalue 0 n hlt]
      exact congrArg some (by omega)
    · obtain ⟨-, hdigits, htenth⟩ := ih (n / 10) (by omega)
      have hlast : n % 10 < 10 := Nat.mod_lt n (by decide)
      refine ⟨by simp, fun b hb => ?_, ?_⟩
      · rcases List.mem_append.1 hb with hb | hb
        · exact hdigits b hb
        · exact List.mem_singleton.1 hb ▸ (hdigit _ hlast).1
      · unfold Text.numberIn? at htenth ⊢
        rw [List.foldlM_append, htenth]
        simp only [Option.bind_eq_bind, Option.bind_some, List.foldlM_cons, List.foldlM_nil, hvalue _ _ hlast]
        exact congrArg some (by omega)

theorem digit_ascii {b : UInt8} (h : isDigit b.toNat = true) : b < 128 ∧ b ≠ 13 ∧ b ≠ 95 := by
  simp only [isDigit, Bool.and_eq_true, decide_eq_true_eq] at h
  refine ⟨UInt8.lt_iff_toNat_lt.2 (Nat.lt_of_le_of_lt h.2 (by decide)), ?_, ?_⟩ <;> rintro rfl
  · exact absurd h.1 (by decide)
  · exact absurd h.2 (by decide)

/-- Digits up to the end of a word are an integer. -/
theorem decimal_digits {start c : Cursor} {pre ds rest : List UInt8} {n : Nat} (hstart : start.Passes pre c)
    (h : c.rest = ds ++ rest) (hrest : Breaks rest) (hdigits : ∀ b ∈ pre ++ ds, isDigit b.toNat = true)
    (hvalue : Text.numberIn? 10 (pre ++ ds) = some n) (hn : n < twoTo 63) :
    ∃ c', decimal start false c = .ok (.int, .int (Int64.ofInt n), c') ∧ start.Passes (pre ++ ds) c' := by
  have hpart : ∀ b ∈ ds, (isDigit b.toNat || decide (b.toNat = 95)) = true ∧ b < 128 ∧ b ≠ 13 := fun b hb =>
    have hb := hdigits b (List.mem_append_right _ hb)
    ⟨by simp [hb], (digit_ascii hb).1, (digit_ascii hb).2.1⟩
  have hskip := skip_passes (p := fun ch => isDigit ch || decide (ch = 95)) h hrest hpart (by decide) (by decide)
  unfold decimal
  dsimp only
  generalize Cursor.skip (fun ch => isDigit ch || decide (ch = 95)) c = e at hskip ⊢
  have hpasses := hstart.trans hskip
  have hpeek : e.peek = 0 ∨ e.peek = 32 := Breaks.peek (List.append_cancel_left (h.symm.trans hskip.rest) ▸ hrest)
  have hmarks : e.peek ≠ 46 ∧ e.peek ≠ 101 ∧ e.peek ≠ 69 := by rcases hpeek with h | h <;> rw [h] <;> decide
  have hplain : Text.withoutUnderscores (pre ++ ds) = pre ++ ds :=
    List.filter_eq_self.2 fun b hb => decide_eq_true (digit_ascii (hdigits b hb)).2.2
  have hinteger : integer start.pos 10 ⟨pre ++ ds⟩ = .ok (.int (Int64.ofInt n)) := by
    have hlt : n < twoTo 63 := hn
    simp only [integer, hplain, hvalue, hlt, if_true]
  refine ⟨e, ?_, hpasses⟩
  simp only [Bool.not_false, hmarks, decide_false, Bool.and_false, Bool.false_and, Bool.or_self, Bool.false_eq_true, if_false,
    hpasses.until_eq, hinteger]
  rfl

/-- No base is named where a digit or the end of a word comes after the first digit. -/
theorem number_digits {c : Cursor} {b : UInt8} {ds rest : List UInt8} {n : Nat} (h : c.rest = b :: ds ++ rest)
    (hrest : Breaks rest) (hdigits : ∀ d ∈ b :: ds, isDigit d.toNat = true)
    (hvalue : Text.numberIn? 10 (b :: ds) = some n) (hn : n < twoTo 63) :
    ∃ c', number c = .ok (.int, .int (Int64.ofInt n), c') ∧ c.Passes (b :: ds) c' := by
  have hb := hdigits b List.mem_cons_self
  have hascii := digit_ascii hb
  have hpeek : c.peek = b.toNat := Cursor.peek_ascii h ⟨hascii.1, hascii.2.1⟩
  have hpoint : b.toNat ≠ 46 := fun h => by rw [h] at hb; cases hb
  unfold number
  rw [hpeek, if_neg hpoint]
  by_cases hzero : b.toNat = 48
  · have hnext := Cursor.next_ascii h ⟨hascii.1, hascii.2.1⟩
    have hrest' : c.next.rest = ds ++ rest := by simpa [h] using hnext.rest.symm
    have hbase : ∀ m ∈ [120, 88, 98, 66], c.next.peek ≠ m := by
      have hnot : c.next.peek = 0 ∨ c.next.peek = 32 ∨ isDigit c.next.peek = true := by
        cases ds with
        | nil => exact (Breaks.peek (hrest' ▸ hrest)).imp_right .inl
        | cons d ds =>
          have hd := hdigits d (List.mem_cons_of_mem b List.mem_cons_self)
          rw [Cursor.peek_ascii hrest' ⟨(digit_ascii hd).1, (digit_ascii hd).2.1⟩]
          exact .inr (.inr hd)
      rintro m hm rfl
      revert hnot hm
      generalize c.next.peek = m
      intro hnot hm
      simp only [List.mem_cons, List.not_mem_nil, or_false] at hm
      rcases hm with rfl | rfl | rfl | rfl <;> revert hnot <;> decide
    have hbase := fun m hm => hbase m hm
    obtain ⟨c', hdecimal, hpasses⟩ := decimal_digits hnext hrest' hrest hdigits hvalue hn
    refine ⟨c', ?_, hpasses⟩
    rw [if_pos hzero]
    simp only [hbase 120 (by decide), hbase 88 (by decide), hbase 98 (by decide), hbase 66 (by decide), decide_false,
      Bool.or_self, Bool.false_eq_true, if_false]
    exact hdecimal
  · rw [if_neg hzero]
    exact decimal_digits (.refl c) h hrest hdigits hvalue hn

/-- An integer is read as it is written in decimal digits. -/
theorem lexes_int (n : Fin (twoTo 63)) : Lexes ⟨.int, .ofNat n, .int (Int64.ofInt n)⟩ := by
  obtain ⟨hne, hdigits, hvalue⟩ := ofNat_spells n
  obtain ⟨b, ds, hds⟩ := List.exists_cons_of_ne_nil hne
  have hb : isDigit b.toNat = true := hdigits b (hds ▸ List.mem_cons_self)
  refine ⟨fun c rest h _ => IsFirst.starts ?_ (show c.rest = b :: (ds ++ rest) by rw [h, hds]; rfl),
    fun s after depth hrest hafter hdepth => ?_⟩
  · refine ⟨(digit_ascii hb).1, fun hmem => ?_⟩
    simp only [List.mem_cons, List.not_mem_nil, or_false] at hmem
    rcases hmem with rfl | rfl | rfl | rfl | rfl | rfl | rfl <;> cases hb
  obtain rfl := eq_of_nest hdepth rfl
  rw [hds] at hdigits hvalue
  have hrest' : s.cursor.rest = b :: ds ++ after := hds ▸ hrest
  obtain ⟨c, hnumber, hpasses⟩ := number_digits hrest' hafter hdigits hvalue n.isLt
  have hpeek : isDigit s.cursor.peek = true := by
    rw [Cursor.peek_ascii hrest' ⟨(digit_ascii hb).1, (digit_ascii hb).2.1⟩]
    exact hb
  exact ⟨_, _, token_number (.inl hpeek) hnumber, word_of_passes (w := ⟨.int, .ofNat n, .int (Int64.ofInt n)⟩) hrest (hds ▸ hpasses)⟩

end Scan

end GameScript
