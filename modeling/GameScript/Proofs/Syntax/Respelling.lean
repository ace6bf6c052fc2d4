import GameScript.Proofs.Syntax.Cursors
import GameScript.Text.Literal

/-!
# Line breaks in another spelling

* `respell` — a text with another spelling of its line feeds;
* `escapesBreak` — whether a backslash stands before a line feed;
* `Text.unquote_respell` — **the value of a literal** in the other spelling is the same, but there is none where a line
  break is escaped.
-/

namespace GameScript

/-- The spellings of a line break other than a line feed. -/
def IsReturn (eol : List UInt8) : Prop := eol = [13, 10] ∨ eol = [13]

/-- A text with its line feeds spelled as `eol`. -/
def respell (eol bs : List UInt8) : List UInt8 := bs.flatMap fun b => if b = 10 then eol else [b]

/-- Whether a backslash that is not escaped itself stands before a line feed. -/
def escapesBreak : List UInt8 → Bool
  | [] => false
  | [_] => false
  | b :: c :: rest => if b = 92 then c = 10 || escapesBreak rest else escapesBreak (c :: rest)

/-! ### Texts -/

section Texts

variable {eol bs m p x : List UInt8} {b c : UInt8}

theorem IsReturn.cons (h : IsReturn eol) : ∃ more, eol = 13 :: more := by
  rcases h with rfl | rfl
  · exact ⟨[10], rfl⟩
  · exact ⟨[], rfl⟩

@[simp] theorem respell_nil : respell eol [] = [] := rfl

@[simp] theorem respell_append (eol xs ys : List UInt8) : respell eol (xs ++ ys) = respell eol xs ++ respell eol ys :=
  List.flatMap_append

theorem respell_feed (eol bs : List UInt8) : respell eol (10 :: bs) = eol ++ respell eol bs := rfl

theorem respell_cons (hb : b ≠ 10) (eol bs : List UInt8) : respell eol (b :: bs) = b :: respell eol bs := by
  simp [respell, hb]

/-- Without line breaks there is nothing to spell. -/
theorem respell_eq (h : 10 ∉ bs) : respell eol bs = bs := by
  induction bs with
  | nil => rfl
  | cons b bs ih =>
    simp only [List.mem_cons, not_or] at h
    rw [respell_cons (Ne.symm h.1), ih h.2]

theorem respell_ne_nil (heol : IsReturn eol) (h : bs ≠ []) : respell eol bs ≠ [] := by
  obtain ⟨b, bs, rfl⟩ := List.exists_cons_of_ne_nil h
  by_cases hb : b = 10
  · obtain ⟨more, rfl⟩ := heol.cons
    subst hb
    simp [respell_feed]
  · simp [respell_cons hb]

/-- A text spelled with carriage returns alone has no line feeds. -/
theorem notMem_respell (bs : List UInt8) : 10 ∉ respell [13] bs := by
  intro hmem
  obtain ⟨b, -, hb⟩ := List.mem_flatMap.1 hmem
  by_cases hfeed : b = 10
  · simp [hfeed] at hb
  · rw [if_neg hfeed, List.mem_singleton] at hb
    exact hfeed hb.symm

theorem respell_drop {n : Nat} (h : n ≤ bs.length) (hplain : 10 ∉ bs.take n) :
    (respell eol bs).drop n = respell eol (bs.drop n) := by
  have hlength : (bs.take n).length = n := by rw [List.length_take]; omega
  have hsplit : respell eol bs = bs.take n ++ respell eol (bs.drop n) := by
    rw [← respell_eq hplain, ← respell_append, List.take_append_drop]
  rw [hsplit, List.drop_left' hlength]

/-- What begins the other spelling without a carriage return begins the text. -/
theorem eq_append_of_respell (heol : IsReturn eol) (hp : 13 ∉ p) (h : respell eol bs = p ++ x) :
    ∃ m, bs = p ++ m ∧ x = respell eol m := by
  induction p generalizing bs with
  | nil => exact ⟨bs, rfl, h.symm⟩
  | cons b p ih =>
    simp only [List.mem_cons, not_or] at hp
    cases bs with
    | nil => cases h
    | cons c bs =>
      by_cases hc : c = 10
      · obtain ⟨more, rfl⟩ := heol.cons
        subst hc
        rw [respell_feed, List.cons_append, List.cons_append] at h
        exact absurd (List.cons.inj h).1 hp.1
      · rw [respell_cons hc, List.cons_append] at h
        obtain ⟨rfl, htail⟩ := List.cons.inj h
        obtain ⟨m, rfl, hx⟩ := ih hp.2 htail
        exact ⟨m, rfl, hx⟩

theorem respell_eq_of_plain (heol : IsReturn eol) (h : ∀ b ∈ respell eol bs, b ≠ 13) : respell eol bs = bs := by
  refine respell_eq fun hmem => ?_
  obtain ⟨more, rfl⟩ := heol.cons
  exact h 13 (List.mem_flatMap.2 ⟨10, hmem, by simp⟩) rfl

/-- What ends the other spelling without any part of a line break ends the text. -/
theorem eq_append_of_respell_end {s : List UInt8} (heol : IsReturn eol) (hs : ∀ b ∈ s, b ≠ 10 ∧ b ≠ 13)
    (h : respell eol bs = x ++ s) : ∃ m, bs = m ++ s ∧ x = respell eol m := by
  induction bs generalizing x with
  | nil =>
    obtain ⟨rfl, rfl⟩ := List.append_eq_nil_iff.1 h.symm
    exact ⟨[], rfl, rfl⟩
  | cons b bs ih =>
    -- Either all of the text remains, or its first character does not belong to what ends it.
    have hsplit : ∃ p, respell eol (b :: bs) = p ++ respell eol bs ∧ p = respell eol [b] :=
      ⟨_, by rw [← respell_append]; rfl, rfl⟩
    obtain ⟨p, hp, hpb⟩ := hsplit
    rw [hp] at h
    rcases List.append_eq_append_iff.1 h with ⟨x', rfl, hx'⟩ | ⟨s', hps, rfl⟩
    · obtain ⟨m, rfl, rfl⟩ := ih hx'
      exact ⟨b :: m, rfl, by rw [hpb, ← respell_append]; rfl⟩
    · have hbs : respell eol bs = bs := respell_eq_of_plain heol fun c hc => (hs c (List.mem_append_right _ hc)).2
      have hs' : 10 ∉ s' ∧ 13 ∉ s' :=
        ⟨fun hc => (hs 10 (List.mem_append_left _ hc)).1 rfl, fun hc => (hs 13 (List.mem_append_left _ hc)).2 rfl⟩
      rw [hbs]
      by_cases hb : b = 10
      · subst hb
        have heq : eol = x ++ s' := by rw [← hps, hpb, respell_feed, respell_nil, List.append_nil]
        have hnil : s' = [] := by
          refine List.eq_nil_iff_forall_not_mem.2 fun c hc => ?_
          have hmem : c ∈ eol := heq ▸ List.mem_append_right x hc
          have hcases : c = 13 ∨ c = 10 := by
            rcases heol with rfl | rfl
            · simpa using hmem
            · exact .inl (List.mem_singleton.1 hmem)
          rcases hcases with rfl | rfl
          · exact hs'.2 hc
          · exact hs'.1 hc
        subst hnil
        rw [List.append_nil] at heq
        exact ⟨[10], rfl, by rw [respell_feed, respell_nil, List.append_nil, heq]⟩
      · have heq : [b] = x ++ s' := by rw [← hps, hpb, respell_cons hb, respell_nil]
        rcases List.append_eq_singleton_iff.1 heq.symm with ⟨rfl, rfl⟩ | ⟨rfl, rfl⟩
        · exact ⟨[], rfl, rfl⟩
        · exact ⟨[b], rfl, by rw [respell_cons hb, respell_nil]⟩

theorem head?_respell (heol : IsReturn eol) (hb : b ≠ 13) (h : bs.head? ≠ some b) : (respell eol bs).head? ≠ some b := by
  cases bs with
  | nil => nofun
  | cons c bs =>
    by_cases hc : c = 10
    · obtain ⟨more, rfl⟩ := heol.cons
      subst hc
      rw [respell_feed, List.cons_append, List.head?_cons]
      exact fun heq => hb (Option.some.inj heq).symm
    · rw [respell_cons hc]
      exact h

theorem escapesBreak_cons (hb : b ≠ 92) (bs : List UInt8) : escapesBreak (b :: bs) = escapesBreak bs := by
  cases bs with
  | nil => rfl
  | cons c rest => exact if_neg hb

theorem escapesBreak_pair (c : UInt8) (rest : List UInt8) :
    escapesBreak (92 :: c :: rest) = (decide (c = 10) || escapesBreak rest) :=
  if_pos rfl

theorem escapesBreak_eq_false (h : 10 ∉ bs) : escapesBreak bs = false := by
  fun_induction escapesBreak bs with
  | case1 => rfl
  | case2 => rfl
  | case3 c rest ih =>
    simp only [List.mem_cons, not_or] at h
    rw [ih h.2.2, Bool.or_false]
    exact decide_eq_false (Ne.symm h.2.1)
  | case4 b c rest hb ih =>
    simp only [List.mem_cons, not_or] at h
    exact ih (by simpa using h.2)

/-- What ends a text without a line break escapes none. -/
theorem escapesBreak_append (hp : 10 ∉ p) (bs : List UInt8) : escapesBreak (bs ++ p) = escapesBreak bs := by
  fun_induction escapesBreak bs with
  | case1 => exact escapesBreak_eq_false hp
  | case2 b =>
    cases p with
    | nil => rfl
    | cons c p =>
      simp only [List.mem_cons, not_or] at hp
      by_cases hb : b = 92
      · subst hb
        simp [escapesBreak_pair, Ne.symm hp.1, escapesBreak_eq_false hp.2]
      · rw [List.singleton_append, escapesBreak_cons hb]
        exact escapesBreak_eq_false (by simpa using hp)
  | case3 c rest ih => rw [List.cons_append, List.cons_append, escapesBreak_pair, ih]
  | case4 b c rest hb ih => rw [List.cons_append, escapesBreak_cons hb, ih]

/-- What begins a text without a backslash escapes nothing. -/
theorem escapesBreak_of_append (hp : 92 ∉ p) (bs : List UInt8) : escapesBreak (p ++ bs) = escapesBreak bs := by
  induction p with
  | nil => rfl
  | cons b p ih =>
    simp only [List.mem_cons, not_or] at hp
    rw [List.cons_append, escapesBreak_cons (Ne.symm hp.1), ih hp.2]

end Texts

/-! ### The inside of a literal -/

namespace Text

section Inside

variable {eol bs ds rest : List UInt8} {b c e : UInt8} {n : Nat}

theorem toOption_return {ε α β : Type} (x : Except ε α) (f : α → β) :
    (do return f (← x) : Except ε β).toOption = x.toOption.map f := by
  cases x <;> rfl

theorem toOption_error {ε α : Type} {x : Except ε α} (h : ∃ e, x = .error e) : x.toOption = none := by
  obtain ⟨e, rfl⟩ := h
  rfl

/-- The inside of a literal, by the first of its bytes. -/
theorem decodeInside_unfold : type_of% @decodeInside.eq_def := @decodeInside.eq_def

theorem decodeInside_plain (hb : b ≠ 13 ∧ b ≠ 92) (bs : List UInt8) :
    decodeInside false (b :: bs) = do return b :: (← decodeInside false bs) := by
  rw [decodeInside_unfold]
  simp [hb]

/-- However a line break is spelled, it stands for a line feed. -/
theorem decodeInside_break (heol : IsReturn eol) (bs : List UInt8) :
    decodeInside false (eol ++ respell eol bs) = do return 10 :: (← decodeInside false (respell eol bs)) := by
  rcases heol with rfl | rfl
  · rw [List.cons_append, decodeInside_unfold]
    rfl
  · have hplain := notMem_respell bs
    rw [List.cons_append, List.nil_append, decodeInside_unfold]
    generalize respell [13] bs = more at hplain
    cases more with
    | nil => rfl
    | cons c more =>
      simp only [List.mem_cons, not_or] at hplain
      simp [Ne.symm hplain.1]

theorem decodeInside_escape (h : unescape? c = some e) (hc : c ≠ 10) (rest : List UInt8) :
    decodeInside false (92 :: c :: rest) = do return e :: (← decodeInside false rest) := by
  rw [decodeInside_unfold]
  simp [h, hc]

/-- The letter of an escape sequence with so many digits. -/
def IsPoint (c : UInt8) (n : Nat) : Prop := c = 117 ∧ n = 4 ∨ c = 85 ∧ n = 6

theorem decodeInside_invalid (h : unescape? c = none) (hc : c ≠ 10 ∧ c ≠ 117 ∧ c ≠ 85) (rest : List UInt8) :
    ∃ e, decodeInside false (92 :: c :: rest) = .error e := by
  rw [decodeInside_unfold]
  simp [h, hc]

theorem decodeInside_point (h : IsPoint c n) (hds : ds.length = n) (rest : List UInt8) :
    decodeInside false (92 :: c :: (ds ++ rest)) = do
      let k ← codePoint? (92 :: c :: ds)
      return encodeRune k ++ (← decodeInside false rest) := by
  rcases h with ⟨rfl, rfl⟩ | ⟨rfl, rfl⟩
  · match ds, hds with
    | [d₁, d₂, d₃, d₄], _ =>
      rw [decodeInside_unfold]
      rfl
  · match ds, hds with
    | [d₁, d₂, d₃, d₄, d₅, d₆], _ =>
      rw [decodeInside_unfold]
      rfl

theorem hexNumber?_eq_none (hb : b ∈ ds) (h : hexDigit? b = none) : hexNumber? ds = none := by
  suffices hfold : ∀ acc, ds.foldlM (fun n b => (hexDigit? b).map (n * 16 + ·)) acc = none from hfold 0
  induction ds with
  | nil => cases hb
  | cons d ds ih =>
    intro acc
    rw [List.foldlM_cons]
    rcases List.mem_cons.1 hb with rfl | hb
    · simp [h]
    · cases hexDigit? d with
      | none => rfl
      | some k => exact ih hb _

/-- An escape sequence without its digits has no value. -/
theorem decodeInside_digits (h : IsPoint c n)
    (hrest : ∀ ds m, rest = ds ++ m → ds.length = n → ∃ b ∈ ds, hexDigit? b = none) :
    ∃ e, decodeInside false (92 :: c :: rest) = .error e := by
  by_cases hlength : n ≤ rest.length
  · have hds : (rest.take n).length = n := by rw [List.length_take]; omega
    obtain ⟨b, hb, hnone⟩ := hrest _ _ (List.take_append_drop n rest).symm hds
    rw [← List.take_append_drop n rest, decodeInside_point h hds, codePoint?, List.drop_succ_cons, List.drop_succ_cons,
      List.drop_zero, hexNumber?_eq_none hb hnone]
    exact ⟨_, rfl⟩
  · rcases h with ⟨rfl, rfl⟩ | ⟨rfl, rfl⟩
    · match rest with
      | [] | [_] | [_, _] | [_, _, _] =>
        rw [decodeInside_unfold]
        exact ⟨_, rfl⟩
      | _ :: _ :: _ :: _ :: _ => simp at hlength
    · match rest with
      | [] | [_] | [_, _] | [_, _, _] | [_, _, _, _] | [_, _, _, _, _] =>
        rw [decodeInside_unfold]
        exact ⟨_, rfl⟩
      | _ :: _ :: _ :: _ :: _ :: _ :: _ => simp at hlength

/-- An escape sequence of a code point has digits of which none is a backslash. -/
theorem plain_of_codePoint? {k : Nat} (h : codePoint? (92 :: c :: ds) = .ok k) : 92 ∉ ds := by
  intro hmem
  rw [codePoint?, List.drop_succ_cons, List.drop_succ_cons, List.drop_zero, hexNumber?_eq_none hmem (by decide)] at h
  cases h

/-- The escape sequence of a code point in the other spelling. -/
theorem decodeInside_respell_point (heol : IsReturn eol) (h : IsPoint c n) (hreturn : 13 ∉ rest)
    (ih : ∀ m : List UInt8, m.length ≤ rest.length → 13 ∉ m → (decodeInside false (respell eol m)).toOption =
      if escapesBreak m then none else (decodeInside false m).toOption) :
    (decodeInside false (92 :: c :: respell eol rest)).toOption =
      if escapesBreak rest then none else (decodeInside false (92 :: c :: rest)).toOption := by
  by_cases hdigits : ∃ ds m, rest = ds ++ m ∧ ds.length = n ∧ 10 ∉ ds
  · obtain ⟨ds, m, rfl, hds, hplain⟩ := hdigits
    rw [respell_append, respell_eq hplain, decodeInside_point h hds, decodeInside_point h hds]
    cases hcode : codePoint? (92 :: c :: ds) with
    | error e => exact (ite_self _).symm
    | ok code =>
      rw [escapesBreak_of_append (plain_of_codePoint? hcode)]
      change (do return encodeRune code ++ (← decodeInside false (respell eol m))).toOption =
        if escapesBreak m then none else (do return encodeRune code ++ (← decodeInside false m)).toOption
      rw [toOption_return, toOption_return, ih m (by simp) fun hmem => hreturn (List.mem_append_right _ hmem)]
      split <;> rfl
  · -- A line break is among the digits, or there are too few of them.
    have hfeed : ∀ ds m, rest = ds ++ m → ds.length = n → 10 ∈ ds := by
      intro ds m hrest hds
      exact Classical.byContradiction fun hplain => hdigits ⟨ds, m, hrest, hds, hplain⟩
    have herror := decodeInside_digits h fun ds m hrest hds => ⟨10, hfeed ds m hrest hds, by decide⟩
    have herror' : ∃ e, decodeInside false (92 :: c :: respell eol rest) = .error e := by
      refine decodeInside_digits h fun ds x hx hds => ?_
      by_cases hmem : 13 ∈ ds
      · exact ⟨13, hmem, by decide⟩
      · obtain ⟨m, hm, -⟩ := eq_append_of_respell heol hmem hx
        exact ⟨10, hfeed ds m hm hds, by decide⟩
    rw [toOption_error herror, toOption_error herror', ite_self]

/-- **What the inside of a literal denotes** in the other spelling: the same, unless a line break is escaped. -/
theorem decodeInside_respell (heol : IsReturn eol) : ∀ (n : Nat) (bs : List UInt8), bs.length ≤ n → 13 ∉ bs →
    (decodeInside false (respell eol bs)).toOption =
      if escapesBreak bs then none else (decodeInside false bs).toOption := by
  intro n
  induction n with
  | zero =>
    intro bs hlength _
    obtain rfl := List.length_eq_zero_iff.1 (Nat.le_zero.1 hlength)
    rfl
  | succ n ih =>
    intro bs hlength hreturn
    cases bs with
    | nil => rfl
    | cons b bs =>
      simp only [List.length_cons] at hlength
      simp only [List.mem_cons, not_or] at hreturn
      by_cases hfeed : b = 10
      · subst hfeed
        rw [respell_feed, decodeInside_break heol, decodeInside_plain (by decide), toOption_return, toOption_return,
          ih bs (by omega) hreturn.2, escapesBreak_cons (by decide)]
        split <;> rfl
      rw [respell_cons hfeed]
      by_cases hbackslash : b = 92
      · subst hbackslash
        cases bs with
        | nil => rfl
        | cons c rest =>
          simp only [List.length_cons] at hlength
          simp only [List.mem_cons, not_or] at hreturn
          rw [escapesBreak_pair]
          by_cases hjoined : c = 10
          · -- A carriage return cannot be escaped.
            subst hjoined
            obtain ⟨more, hmore⟩ := heol.cons
            rw [respell_feed, hmore, List.cons_append,
              toOption_error (decodeInside_invalid (by decide) (by decide) _)]
            rfl
          rw [respell_cons hjoined, decide_eq_false hjoined, Bool.false_or]
          cases hescape : unescape? c with
          | some e =>
            rw [decodeInside_escape hescape hjoined, decodeInside_escape hescape hjoined, toOption_return, toOption_return,
              ih rest (by omega) hreturn.2.2]
            split <;> rfl
          | none =>
            by_cases hpoint : ∃ k, IsPoint c k
            · obtain ⟨k, hk⟩ := hpoint
              exact decodeInside_respell_point heol hk hreturn.2.2 fun m hm => ih m (by omega)
            · have hletter : c ≠ 117 ∧ c ≠ 85 :=
                ⟨fun hc => hpoint ⟨4, .inl ⟨hc, rfl⟩⟩, fun hc => hpoint ⟨6, .inr ⟨hc, rfl⟩⟩⟩
              rw [toOption_error (decodeInside_invalid hescape ⟨hjoined, hletter⟩ _),
                toOption_error (decodeInside_invalid hescape ⟨hjoined, hletter⟩ _), ite_self]
      · rw [decodeInside_plain ⟨Ne.symm hreturn.1, hbackslash⟩, decodeInside_plain ⟨Ne.symm hreturn.1, hbackslash⟩,
          toOption_return, toOption_return, ih bs (by omega) hreturn.2, escapesBreak_cons hbackslash]
        split <;> rfl

end Inside

/-! ### Literals -/

section Literals

variable {eol bs m : List UInt8} {q : UInt8}

/-- What a literal stands between. -/
def IsQuote (q : UInt8) : Prop := q = 34 ∨ q = 39

instance (q : UInt8) : Decidable (IsQuote q) := inferInstanceAs (Decidable (q = 34 ∨ q = 39))

theorem IsQuote.plain (h : IsQuote q) : q ≠ 10 ∧ q ≠ 13 ∧ q ≠ 92 ∧ q ≠ 114 := by
  rcases h with rfl | rfl <;> decide

/-- Bytes that are all of them quotes. -/
def Quotes (p : List UInt8) : Prop := ∀ b ∈ p, IsQuote b

theorem IsQuote.one (h : IsQuote q) : Quotes [q] := by simpa [Quotes] using h

theorem IsQuote.three (h : IsQuote q) : Quotes [q, q, q] := by simpa [Quotes] using h

theorem Quotes.notMem {p : List UInt8} (h : Quotes p) {b : UInt8} (hb : ¬ IsQuote b) : b ∉ p := fun hmem => hb (h b hmem)

theorem Quotes.respell_eq {p : List UInt8} (h : Quotes p) (eol m : List UInt8) :
    respell eol (p ++ m ++ p) = p ++ respell eol m ++ p := by
  rw [respell_append, respell_append, GameScript.respell_eq (h.notMem (by decide))]

theorem Quotes.escapesBreak_eq {p : List UInt8} (h : Quotes p) (m : List UInt8) :
    escapesBreak (p ++ m ++ p) = escapesBreak m := by
  rw [escapesBreak_append (h.notMem (by decide)), escapesBreak_of_append (h.notMem (by decide))]

/-- Quotes around the other spelling of a text are quotes around the text. -/
theorem Quotes.of_respell {p x : List UInt8} (h : Quotes p) (heol : IsReturn eol) (hx : respell eol bs = p ++ x ++ p) :
    ∃ m, bs = p ++ m ++ p := by
  rw [List.append_assoc] at hx
  obtain ⟨m, rfl, hm⟩ := eq_append_of_respell heol (h.notMem (by decide)) hx
  obtain ⟨m', rfl, -⟩ := eq_append_of_respell_end heol (fun b hb => ⟨(h b hb).plain.1, (h b hb).plain.2.1⟩) hm.symm
  exact ⟨m', by rw [List.append_assoc]⟩

/-- The conditions on the bytes of a literal that is not verbatim. -/
theorem unquote_cons {q' : UInt8} {rest : List UInt8} (hq : q ≠ 114) (hbs : bs = q :: q' :: rest) : unquote ⟨bs⟩ =
    if (q ≠ 34 && q ≠ 39) || some q ≠ bs.getLast? then throw .invalidQuotes
    else if bs.length ≥ 6 && bs.take 3 = [q, q, q] && bs.drop (bs.length - 3) = [q, q, q] then
      do return (⟨← decodeInside false ((bs.drop 3).take (bs.length - 6))⟩, true)
    else do return (⟨← decodeInside false ((bs.drop 1).take (bs.length - 2))⟩, false) := by
  have hlast : bs.getLast? = (q' :: rest).getLast? := by rw [hbs, List.getLast?_cons_cons]
  rw [hlast]
  subst hbs
  unfold unquote
  split
  rename_i heq
  split at heq
  · rename_i hcons
    exact absurd (List.cons.inj hcons).1 hq
  · cases heq
    dsimp only
    split
    · rfl
    · by_cases htriple : ((q :: q' :: rest).length ≥ 6 && (q :: q' :: rest).take 3 = [q, q, q] &&
          (q :: q' :: rest).drop ((q :: q' :: rest).length - 3) = [q, q, q]) = true
      · rw [if_pos htriple]
        simp only [htriple, if_true]
      · rw [if_neg htriple]
        simp only [htriple]
        rfl

theorem unquote_triple (h : IsQuote q) (m : List UInt8) :
    unquote ⟨[q, q, q] ++ m ++ [q, q, q]⟩ = do return (⟨← decodeInside false m⟩, true) := by
  have hbs : [q, q, q] ++ m ++ [q, q, q] = q :: q :: ([q] ++ m ++ [q, q, q]) := rfl
  rw [unquote_cons h.plain.2.2.2 hbs, if_neg, if_pos]
  · simp
  · simp
  · rcases h with rfl | rfl <;> simp [List.getLast?_cons]

/-- A literal that is not between three quotes. -/
theorem unquote_single (h : IsQuote q) (hsingle : ∀ m', [q] ++ m ++ [q] ≠ [q, q, q] ++ m' ++ [q, q, q]) :
    unquote ⟨[q] ++ m ++ [q]⟩ = do return (⟨← decodeInside false m⟩, false) := by
  obtain ⟨q', rest, hrest⟩ := List.exists_cons_of_ne_nil (show m ++ [q] ≠ [] by simp)
  have hbs : [q] ++ m ++ [q] = q :: q' :: rest := by rw [List.append_assoc, hrest]; rfl
  rw [unquote_cons h.plain.2.2.2 hbs, if_neg, if_neg]
  · simp
  · intro htriple
    simp only [Bool.and_eq_true, decide_eq_true_eq] at htriple
    obtain ⟨⟨hlength, hfirst⟩, hlast⟩ := htriple
    generalize [q] ++ m ++ [q] = bs at hsingle hlength hfirst hlast
    refine hsingle ((bs.drop 3).take (bs.length - 6)) ?_
    have hdrop : (bs.drop 3).drop (bs.length - 6) = bs.drop (bs.length - 3) := by
      rw [List.drop_drop]
      congr 1
      omega
    calc
      bs = bs.take 3 ++ bs.drop 3 := (List.take_append_drop 3 bs).symm
      _ = [q, q, q] ++ ((bs.drop 3).take (bs.length - 6) ++ (bs.drop 3).drop (bs.length - 6)) := by
        rw [hfirst, List.take_append_drop]
      _ = [q, q, q] ++ (bs.drop 3).take (bs.length - 6) ++ [q, q, q] := by rw [hdrop, hlast, List.append_assoc]
  · rcases h with rfl | rfl <;> simp [List.getLast?_cons]

/-- What does not stand between quotes has no value. -/
theorem unquote_bare (h : bs.head? ≠ some 114) (hbare : ∀ q m, IsQuote q → bs ≠ [q] ++ m ++ [q]) :
    ∃ e, unquote ⟨bs⟩ = .error e := by
  match hbs : bs with
  | [] => exact ⟨_, rfl⟩
  | [q] =>
    have hq : q ≠ 114 := fun hq => h (by rw [hq]; rfl)
    unfold unquote
    split
    rename_i heq
    split at heq
    · rename_i hcons
      exact absurd (List.cons.inj hcons).1 hq
    · cases heq
      exact ⟨_, rfl⟩
  | q :: q' :: rest =>
    have hq : q ≠ 114 := fun hq => h (by rw [hq]; rfl)
    refine ⟨.invalidQuotes, ?_⟩
    rw [unquote_cons hq rfl]
    refine if_pos (Classical.byContradiction fun hquotes => ?_)
    simp only [Bool.or_eq_true, Bool.and_eq_true, decide_eq_true_eq, not_or, not_and, Classical.not_not] at hquotes
    obtain ⟨hquote, hlast⟩ := hquotes
    have hquote : IsQuote q := by
      by_cases h34 : q = 34
      · exact .inl h34
      · exact .inr (hquote h34)
    rw [List.getLast?_cons_cons] at hlast
    obtain ⟨m, hm⟩ := List.getLast?_eq_some_iff.1 hlast.symm
    exact hbare q m hquote (by rw [hm]; rfl)

/-- **The value of a literal** in the other spelling: the same, unless a line break is escaped. -/
theorem unquote_respell (heol : IsReturn eol) (hreturn : 13 ∉ bs) (h : bs.head? ≠ some 114) :
    (unquote ⟨respell eol bs⟩).toOption = if escapesBreak bs then none else (unquote ⟨bs⟩).toOption := by
  have hinside : ∀ {p m : List UInt8} (triple : Bool), Quotes p → bs = p ++ m ++ p →
      (do return (⟨← decodeInside false (respell eol m)⟩, triple) : Except LiteralError (Text × Bool)).toOption =
        if escapesBreak bs then none
        else (do return (⟨← decodeInside false m⟩, triple) : Except LiteralError (Text × Bool)).toOption := by
    intro p m triple hp hbs
    have hm : 13 ∉ m := by
      intro hmem
      rw [hbs] at hreturn
      exact hreturn (List.mem_append_left _ (List.mem_append_right _ hmem))
    rw [toOption_return (decodeInside false (respell eol m)) fun t => ((⟨t⟩ : Text), triple),
      toOption_return (decodeInside false m) fun t => ((⟨t⟩ : Text), triple),
      decodeInside_respell heol m.length m (Nat.le_refl _) hm, hbs, hp.escapesBreak_eq]
    split <;> rfl
  by_cases htriple : ∃ q m, IsQuote q ∧ bs = [q, q, q] ++ m ++ [q, q, q]
  · obtain ⟨q, m, hq, hbs⟩ := htriple
    have hvalue := hinside true hq.three hbs
    rwa [← unquote_triple hq, ← unquote_triple hq, ← hbs, ← hq.three.respell_eq, ← hbs] at hvalue
  by_cases hsingle : ∃ q m, IsQuote q ∧ bs = [q] ++ m ++ [q]
  · obtain ⟨q, m, hq, hbs⟩ := hsingle
    have hnot : ∀ m', [q] ++ m ++ [q] ≠ [q, q, q] ++ m' ++ [q, q, q] := by
      intro m' hm'
      exact htriple ⟨q, m', hq, hbs.trans hm'⟩
    have hnot' : ∀ x, [q] ++ respell eol m ++ [q] ≠ [q, q, q] ++ x ++ [q, q, q] := by
      intro x hx
      rw [← hq.one.respell_eq, ← hbs] at hx
      obtain ⟨m', hm'⟩ := hq.three.of_respell heol hx
      exact htriple ⟨q, m', hq, hm'⟩
    have hvalue := hinside false hq.one hbs
    rwa [← unquote_single hq hnot, ← unquote_single hq hnot', ← hbs, ← hq.one.respell_eq, ← hbs] at hvalue
  · have hbare : ∀ q m, IsQuote q → bs ≠ [q] ++ m ++ [q] := fun q m hq hbs => hsingle ⟨q, m, hq, hbs⟩
    rw [toOption_error (unquote_bare h hbare), ite_self]
    refine toOption_error (unquote_bare ?_ ?_)
    · exact head?_respell heol (by decide) h
    · intro q x hq hx
      obtain ⟨m, hm⟩ := hq.one.of_respell heol hx
      exact hbare q m hq hm

end Literals

end Text

end GameScript
