import GameScript.Proofs.Syntax.Cursors
import Mathlib.Data.List.Basic

/-!
# Blocks in the tokens of a file

The tokens for changes of indentation are balanced, stand where a line begins and never between brackets,
apart from those that close what is still open where the file ends.

* `Scan.Reads` — the tokens read one after the other;
* `Scan.Laid` — a state fits the tokens read before it;
* `Scan.next_told` — reading a token keeps this, and puts the token where it belongs;
* `Scan.Reads.blocks` — **the layout of all that is read from a file**.
-/

namespace GameScript

namespace Scan

/-! ### Layout so far -/

/-- How many of some tokens are of a kind. -/
def count (k : TokenKind) (ts : List Token) : Nat := ts.countP (·.kind = k)

/-- How many of some tokens open a bracket. -/
def opened (ts : List Token) : Nat := ts.countP (·.kind.isOpening)

/-- How many of some tokens close a bracket. -/
def closed (ts : List Token) : Nat := ts.countP (·.kind.isClosing)

@[simp] theorem count_append (k : TokenKind) (ts : List Token) (t : Token) :
    count k (ts ++ [t]) = count k ts + if t.kind = k then 1 else 0 := by
  simp [count, List.countP_append, List.countP_singleton]

@[simp] theorem opened_append (ts : List Token) (t : Token) :
    opened (ts ++ [t]) = opened ts + t.kind.isOpening.toNat := by
  cases h : t.kind.isOpening <;> simp [opened, List.countP_append, h]

@[simp] theorem closed_append (ts : List Token) (t : Token) :
    closed (ts ++ [t]) = closed ts + t.kind.isClosing.toNat := by
  cases h : t.kind.isClosing <;> simp [closed, List.countP_append, h]

/-- Nothing or a line break is last. -/
def AtBreak (ts : List Token) : Prop := ∀ t, ts.getLast? = some t → t.kind = .newline

/-- Nothing, or a line break, and then only changes of indentation are last. -/
def AfterBreak (ts : List Token) : Prop :=
  ∃ us ds, ts = us ++ ds ∧ AtBreak us ∧ ∀ d ∈ ds, d.kind.isDent = true

theorem AtBreak.afterBreak {ts : List Token} (h : AtBreak ts) : AfterBreak ts := ⟨ts, [], by simp, h, by simp⟩

theorem atBreak_append_newline {ts : List Token} {t : Token} (h : t.kind = .newline) : AtBreak (ts ++ [t]) := by
  intro u hu
  obtain rfl : t = u := by simpa using hu
  exact h

theorem AfterBreak.append {ts : List Token} (h : AfterBreak ts) {t : Token} (ht : t.kind.isDent = true) :
    AfterBreak (ts ++ [t]) := by
  obtain ⟨us, ds, rfl, hus, hds⟩ := h
  refine ⟨us, ds ++ [t], by simp, hus, fun d hd => ?_⟩
  rcases List.mem_append.1 hd with hd | hd
  · exact hds d hd
  · obtain rfl : d = t := by simpa using hd
    exact ht

/-- A state in which **only the ends of blocks remain** to be told. -/
structure AtEnd (s : State) : Prop where
  peek : s.cursor.peek = 0
  lineStart : s.lineStart = false
  indents : s.indents = [0]
  pending : s.pending ≤ 0

/-- A state **fits the tokens** read before it: its blocks are those open after them, and what is still to be
told about the indentation belongs after them. -/
structure Laid (ts : List Token) (s : State) : Prop where
  sorted : s.indents.Pairwise (· > ·)
  bottom : s.indents.getLast? = some 0
  balance : (count .indent ts : Int) + s.pending + 1 = count .outdent ts + s.indents.length
  brackets : closed ts + s.depth = opened ts
  pending_lt : s.pending < s.indents.length
  fresh : s.lineStart = true → s.pending = 0 ∧ (s.depth = 0 → AtBreak ts)
  outside : s.pending ≠ 0 → s.depth = 0 → AfterBreak ts
  inside : s.pending ≠ 0 → s.depth ≠ 0 → AtEnd s

/-- A token is **where it belongs** after others. -/
structure Placed (ts : List Token) (t : Token) (s' : State) : Prop where
  outdent : t.kind = .outdent → count .outdent ts < count .indent ts
  finish : t.kind = .endOfFile → count .outdent ts = count .indent ts ∧ AtEnd s' ∧ s'.pending = 0
  outside : t.kind.isDent = true → closed ts = opened ts → AfterBreak ts
  inside : t.kind.isDent = true → closed ts ≠ opened ts → t.kind = .outdent ∧ AtEnd s'

/-- The state at the start of a file. -/
def start (source : Text) : State := { cursor := { rest := source.bytes } }

theorem laid_start (source : Text) : Laid [] (start source) where
  sorted := by simp [start]
  bottom := rfl
  balance := rfl
  brackets := rfl
  pending_lt := Int.zero_lt_one
  fresh := fun _ => ⟨rfl, fun _ _ h => by cases h⟩
  outside := fun h => absurd rfl h
  inside := fun h => absurd rfl h

namespace Laid

variable {ts : List Token} {s : State}

theorem indents_ne_nil (h : Laid ts s) : s.indents ≠ [] := by
  intro hnil
  simpa [hnil] using h.bottom

/-- The layout fits a state further on in the same line. -/
theorem move (h : Laid ts s) (hpending : s.pending = 0) (hline : s.lineStart = false) (c : Cursor) :
    Laid ts { s with cursor := c } where
  sorted := h.sorted
  bottom := h.bottom
  balance := h.balance
  brackets := h.brackets
  pending_lt := h.pending_lt
  fresh := fun hfresh => by simp [hline] at hfresh
  outside := fun hne => absurd hpending hne
  inside := fun hne => absurd hpending hne

end Laid

/-! ### Indentation -/

theorem closeBlocks_eq (col : Nat) (cols : List Nat) {n : Nat} {left : List Nat}
    (h : closeBlocks col cols = (n, left)) : ∃ gone, cols = gone ++ left ∧ gone.length = n := by
  induction cols generalizing n left with
  | nil =>
    cases h
    exact ⟨[], rfl, rfl⟩
  | cons top rest ih =>
    unfold closeBlocks at h
    split at h
    · cases hrest : closeBlocks col rest with
      | mk m kept =>
        rw [hrest] at h
        cases h
        obtain ⟨gone, rfl, rfl⟩ := ih hrest
        exact ⟨top :: gone, rfl, rfl⟩
    · cases h
      exact ⟨[], rfl, rfl⟩

section Indentation

variable {ts : List Token} {s : State}

/-- The line is as far to the right as the one before, or has no token, or is between brackets. -/
theorem Laid.stay (h : Laid ts s) (hstart : s.lineStart = true) (c : Cursor) :
    Laid ts { s with cursor := c, lineStart := false } where
  sorted := h.sorted
  bottom := h.bottom
  balance := h.balance
  brackets := h.brackets
  pending_lt := h.pending_lt
  fresh := nofun
  outside := fun hne => absurd (h.fresh hstart).1 hne
  inside := fun hne => absurd (h.fresh hstart).1 hne

/-- A line further to the right opens a block. -/
theorem Laid.deepen (h : Laid ts s) (hstart : s.lineStart = true) (hdepth : s.depth = 0) {col : Nat}
    (hcol : s.indents.headD 0 < col) (c : Cursor) :
    Laid ts { s with
      cursor := c, lineStart := false, pending := s.pending + 1, indents := col :: s.indents } := by
  obtain ⟨hpending, hbreak⟩ := h.fresh hstart
  obtain ⟨top, rest, hrest⟩ := List.exists_cons_of_ne_nil h.indents_ne_nil
  have hsorted := h.sorted
  have hbottom := h.bottom
  have hbalance := h.balance
  rw [hrest] at hsorted hbottom hcol hbalance
  refine ⟨?_, ?_, ?_, h.brackets, ?_, nofun, fun _ _ => (hbreak hdepth).afterBreak,
    fun _ hne => absurd hdepth hne⟩
  · rw [hrest]
    refine List.pairwise_cons.2 ⟨fun i hi => ?_, hsorted⟩
    rcases List.mem_cons.1 hi with rfl | hi
    · exact hcol
    · exact Nat.lt_trans (List.rel_of_pairwise_cons hsorted hi) hcol
  · rw [hrest]
    simpa using hbottom
  · rw [hrest]
    simp only [List.length_cons] at hbalance ⊢
    omega
  · have hlength : 0 < s.indents.length := List.length_pos_of_ne_nil h.indents_ne_nil
    show s.pending + 1 < (s.indents.length + 1 : Nat)
    omega

/-- A line further to the left closes blocks, down to one that begins where it does. -/
theorem Laid.close (h : Laid ts s) (hstart : s.lineStart = true) (hdepth : s.depth = 0) {col : Nat}
    {gone left : List Nat} (hindents : s.indents = gone ++ left) (hleft : left.head? = some col)
    (c : Cursor) :
    Laid ts { s with
      cursor := c, lineStart := false, pending := s.pending - gone.length, indents := left } := by
  obtain ⟨hpending, hbreak⟩ := h.fresh hstart
  have hne : left ≠ [] := by
    rintro rfl
    cases hleft
  have hsorted := h.sorted
  have hbottom := h.bottom
  have hbalance := h.balance
  rw [hindents] at hsorted hbottom hbalance
  refine ⟨?_, ?_, ?_, h.brackets, ?_, nofun, fun _ _ => (hbreak hdepth).afterBreak,
    fun _ hne => absurd hdepth hne⟩
  · exact (List.pairwise_append.1 hsorted).2.1
  · rwa [List.getLast?_append_of_ne_nil gone hne] at hbottom
  · rw [List.length_append] at hbalance
    show (count .indent ts : Int) + (s.pending - gone.length) + 1 = count .outdent ts + left.length
    omega
  · have hlength : 0 < left.length := List.length_pos_of_ne_nil hne
    show s.pending - gone.length < left.length
    omega

/-- What is known where the blanks that begin a line have been passed, if it is a beginning. -/
structure Led (ts : List Token) (atStart blank : Bool) (s : State) : Prop where
  laid : Laid ts s
  lineStart : s.lineStart = false
  atBreak : atStart = true → s.depth = 0 → AtBreak ts
  blank : blank = true → atStart = true

theorem indentation_led (h : Laid ts s) (hstart : s.lineStart = true) :
    Gives (indentation s) fun r => Led ts true r.2 r.1 ∧ r.1.cursor.rest.length ≤ s.cursor.rest.length := by
  have hbreak := (h.fresh hstart).2
  have hlength := s.cursor.skip_length_le isBlank
  unfold indentation
  extract_lets c blanks s' blank col _ indent
  split
  · exact gives_pure ⟨⟨h.stay hstart c, rfl, fun _ => hbreak, fun _ => rfl⟩, hlength⟩
  rename_i hnot
  have hdepth : s.depth = 0 := by
    by_cases hdepth : s.depth = 0
    · exact hdepth
    · simp [hdepth] at hnot
  refine gives_unless fun _ => ?_
  dsimp only [indent]
  split
  · exact gives_pure ⟨⟨h.deepen hstart hdepth ‹_› c, rfl, fun _ => hbreak, fun _ => rfl⟩, hlength⟩
  · cases hclose : closeBlocks col s.indents with
    | mk n left =>
      obtain ⟨gone, hindents, rfl⟩ := closeBlocks_eq col s.indents hclose
      refine gives_unless fun hleft => gives_pure ⟨⟨?_, rfl, fun _ => hbreak, fun _ => rfl⟩, hlength⟩
      exact h.close hstart hdepth hindents (by simpa using hleft) c

end Indentation

/-! ### Reading a token -/

/-- The rest of a call from the first character on that is neither blank nor part of a comment. -/
def onward (fuel : Nat) (atStart blank : Bool) (s : State) : Except Fault (Token × State) :=
  if s.cursor.peek = 10 then
    if blank || 0 < s.depth then next fuel { s with cursor := s.cursor.next, lineStart := true }
    else pure (layout .newline s.cursor s.cursor.next, { s with cursor := s.cursor.next, lineStart := true })
  else if s.cursor.peek = 0 then
    if s.indents.length > 1 then
      if atStart then next fuel { s with pending := 1 - (s.indents.length : Int), indents := [0] }
      else pure (layout .newline s.cursor s.cursor, { s with lineStart := true })
    else pure (layout .endOfFile s.cursor s.cursor, s)
  else if s.cursor.peek = 92 then
    if s.cursor.next.peek ≠ 10 then
      throw (s.cursor.next.pos, .strayBackslash) >>= fun _ : Unit =>
        next fuel { s with cursor := s.cursor.next.next }
    else next fuel { s with cursor := s.cursor.next.next }
  else token s

/-- The first character on that is neither blank nor part of a comment. -/
def beyond (c : Cursor) : Cursor :=
  let c := c.skip isBlank
  if c.peek = 35 then c.skip fun ch => ch ≠ 0 && ch ≠ 10 else c

theorem next_succ (fuel : Nat) (s : State) : next (fuel + 1) s =
    ((if s.lineStart then indentation s else pure (s, false)) >>= fun r =>
      if r.1.pending < 0 then
        pure (layout .outdent r.1.cursor r.1.cursor, { r.1 with pending := r.1.pending + 1 })
      else if 0 < r.1.pending then
        pure (layout .indent r.1.cursor r.1.cursor, { r.1 with pending := r.1.pending - 1 })
      else onward fuel s.lineStart r.2 { r.1 with cursor := beyond r.1.cursor }) := by
  rw [next]
  cases s.lineStart <;> rfl

section Tell

variable {ts : List Token} {s : State}

/-- A token that is told, with the state after it. -/
def Told (ts : List Token) (r : Token × State) : Prop := Laid (ts ++ [r.1]) r.2 ∧ Placed ts r.1 r.2

/-- What is to be told belongs after a break, or to the end of the file. -/
theorem Laid.afterBreak (h : Laid ts s) (hpending : s.pending ≠ 0) (hclosed : closed ts = opened ts) :
    AfterBreak ts := by
  have hbrackets := h.brackets
  exact h.outside hpending (by omega)

theorem Laid.told_outdent (h : Laid ts s) (hpending : s.pending < 0) (c : Cursor) :
    Told ts (layout .outdent c c, { s with pending := s.pending + 1 }) := by
  have hne : s.pending ≠ 0 := by omega
  have hbalance := h.balance
  have hbrackets := h.brackets
  have hlength : 0 < s.indents.length := List.length_pos_of_ne_nil h.indents_ne_nil
  have hend : s.depth ≠ 0 → AtEnd { s with pending := s.pending + 1 } := fun hdepth =>
    have hs := h.inside hne hdepth
    ⟨hs.peek, hs.lineStart, hs.indents, by show s.pending + 1 ≤ 0; omega⟩
  refine ⟨⟨h.sorted, h.bottom, ?_, ?_, ?_, ?_, ?_, ?_⟩, ?_, nofun,
    fun _ hclosed => h.afterBreak hne hclosed, ?_⟩
  · simp [layout]
    omega
  · simpa [layout, TokenKind.isOpening, TokenKind.isClosing] using hbrackets
  · show s.pending + 1 < s.indents.length
    omega
  · exact fun hfresh => absurd (h.fresh hfresh).1 hne
  · exact fun _ hdepth => (h.outside hne hdepth).append rfl
  · exact fun _ hdepth => hend hdepth
  · intro _
    omega
  · exact fun _ hopen => ⟨rfl, hend fun hdepth => hopen (by omega)⟩

theorem Laid.told_indent (h : Laid ts s) (hpending : 0 < s.pending) (c : Cursor) :
    Told ts (layout .indent c c, { s with pending := s.pending - 1 }) := by
  have hne : s.pending ≠ 0 := by omega
  have hlt := h.pending_lt
  have hbalance := h.balance
  have hbrackets := h.brackets
  have hdepth : s.depth = 0 := by
    by_cases hdepth : s.depth = 0
    · exact hdepth
    · have := (h.inside hne hdepth).pending
      omega
  refine ⟨⟨h.sorted, h.bottom, ?_, ?_, ?_, ?_, ?_, ?_⟩, nofun, nofun,
    fun _ hclosed => h.afterBreak hne hclosed, ?_⟩
  · simp [layout]
    omega
  · simpa [layout, TokenKind.isOpening, TokenKind.isClosing] using hbrackets
  · show s.pending - 1 < s.indents.length
    omega
  · exact fun hfresh => absurd (h.fresh hfresh).1 hne
  · exact fun _ _ => (h.outside hne hdepth).append rfl
  · exact fun _ hdepth' => absurd hdepth hdepth'
  · exact fun _ hopen => absurd (by omega) hopen

/-- A line break, in the text or before the end of the file. -/
theorem Laid.told_newline (h : Laid ts s) (hpending : s.pending = 0) (c c' c'' : Cursor) :
    Told ts (layout .newline c c', { s with cursor := c'', lineStart := true }) := by
  refine ⟨⟨h.sorted, h.bottom, ?_, ?_, h.pending_lt, ?_, ?_, ?_⟩, nofun, nofun, nofun, nofun⟩
  · simpa [layout] using h.balance
  · simpa [layout, TokenKind.isOpening, TokenKind.isClosing] using h.brackets
  · exact fun _ => ⟨hpending, fun _ => atBreak_append_newline rfl⟩
  · exact fun hne => absurd hpending hne
  · exact fun hne => absurd hpending hne

/-- The end of the file, where only the outermost block is open. -/
theorem Laid.told_end (h : Laid ts s) (hpending : s.pending = 0) (hline : s.lineStart = false)
    (hpeek : s.cursor.peek = 0) (hlength : ¬ s.indents.length > 1) (c : Cursor) :
    Told ts (layout .endOfFile c c, s) := by
  have hbalance := h.balance
  obtain ⟨top, rest, hrest⟩ := List.exists_cons_of_ne_nil h.indents_ne_nil
  have hnil : rest = [] := by
    rw [hrest] at hlength
    simpa using hlength
  subst hnil
  have hindents : s.indents = [0] := by
    have hbottom := h.bottom
    rw [hrest] at hbottom ⊢
    simpa using hbottom
  refine ⟨⟨h.sorted, h.bottom, ?_, ?_, h.pending_lt, ?_, ?_, ?_⟩, nofun, fun _ => ⟨?_, ?_, hpending⟩,
    nofun, nofun⟩
  · simpa [layout] using h.balance
  · simpa [layout, TokenKind.isOpening, TokenKind.isClosing] using h.brackets
  · exact fun hfresh => by simp [hline] at hfresh
  · exact fun hne => absurd hpending hne
  · exact fun hne => absurd hpending hne
  · rw [hindents] at hbalance
    simp only [List.length_singleton] at hbalance
    omega
  · exact ⟨hpeek, hline, hindents, by show s.pending ≤ 0; omega⟩

theorem Laid.told_word (h : Laid ts s) (hpending : s.pending = 0) (hline : s.lineStart = false)
    {r : Token × State} (hr : IsWord s r) : Told ts r := by
  obtain ⟨t, s'⟩ := r
  obtain ⟨hdent, hend, hindents, hpending', hline', hdepth⟩ := hr
  dsimp only at hdent hend hindents hpending' hline' hdepth
  have hbalance := h.balance
  have hbrackets := h.brackets
  have hin : t.kind ≠ .indent := by
    rintro hkind
    simp [hkind, TokenKind.isDent] at hdent
  have hout : t.kind ≠ .outdent := by
    rintro hkind
    simp [hkind, TokenKind.isDent] at hdent
  refine ⟨⟨?_, ?_, ?_, ?_, ?_, ?_, ?_, ?_⟩, fun hkind => absurd hkind hout, fun hkind => absurd hkind hend,
    fun hkind => by simp [hdent] at hkind, fun hkind => by simp [hdent] at hkind⟩
  · exact hindents ▸ h.sorted
  · exact hindents ▸ h.bottom
  · simp only [count_append, hin, hout, hindents, hpending', if_false]
    omega
  · simp only [opened_append, closed_append]
    omega
  · rw [hpending', hindents]
    exact h.pending_lt
  · exact fun hfresh => by simp [hline', hline] at hfresh
  · exact fun hne => absurd (hpending'.trans hpending) hne
  · exact fun hne => absurd (hpending'.trans hpending) hne

end Tell

/-- The fuel suffices for a call: it is never used up. -/
def Enough (fuel : Nat) (s : State) : Prop := s.cursor.rest.length + 2 ≤ fuel ∨ s.pending < 0 ∧ 0 < fuel

section Next

variable {ts : List Token} {s : State}

theorem onward_told {fuel : Nat} (ih : ∀ s, Laid ts s → Enough fuel s → Gives (next fuel s) (Told ts))
    {atStart blank : Bool} (h : Led ts atStart blank s) (hpending : s.pending = 0)
    (hfuel : s.cursor.rest.length + 1 ≤ fuel) : Gives (onward fuel atStart blank s) (Told ts) := by
  have hlength : s.cursor.peek ≠ 0 → s.cursor.next.rest.length + 2 ≤ fuel := by
    intro hpeek
    have := Cursor.next_length_lt (Cursor.rest_ne_nil_of_peek hpeek)
    omega
  unfold onward
  split
  · rename_i hpeek
    split
    · -- The line break is passed; outside of brackets the line had no token.
      rename_i hpass
      refine ih _ ⟨h.laid.sorted, h.laid.bottom, h.laid.balance, h.laid.brackets, h.laid.pending_lt, ?_,
        fun hne => absurd hpending hne, fun hne => absurd hpending hne⟩ (.inl (hlength (by simp [hpeek])))
      refine fun _ => ⟨hpending, fun hdepth => h.atBreak (h.blank ?_) hdepth⟩
      have hdepth' : s.depth = 0 := hdepth
      simpa [hdepth'] using hpass
    · exact gives_pure (h.laid.told_newline hpending _ _ _)
  split
  · rename_i hpeek
    split
    · rename_i hblocks
      split
      · -- The file ends at the beginning of a line: the blocks that are open are closed.
        rename_i hstart
        have hbalance := h.laid.balance
        have hclose : (1 : Int) - s.indents.length < 0 := by omega
        refine ih _ ⟨by simp, rfl, ?_, h.laid.brackets, ?_, fun hfresh => ?_, fun _ hdepth => ?_, fun _ _ => ?_⟩
          (.inr ⟨hclose, by omega⟩)
        · simp only [List.length_singleton]
          omega
        · show (1 : Int) - s.indents.length < 1
          omega
        · simp [h.lineStart] at hfresh
        · exact (h.atBreak hstart hdepth).afterBreak
        · exact ⟨hpeek, h.lineStart, rfl, Int.le_of_lt hclose⟩
      · exact gives_pure (h.laid.told_newline hpending _ _ _)
    · exact gives_pure (h.laid.told_end hpending h.lineStart hpeek ‹_› _)
  rename_i hpeek
  split
  · refine gives_unless fun _ => ih _ (h.laid.move hpending h.lineStart _) (.inl ?_)
    have := s.cursor.next.next_length_le
    have := hlength hpeek
    show s.cursor.next.next.rest.length + 2 ≤ fuel
    omega
  · exact fun r hr => h.laid.told_word hpending h.lineStart (token_isWord s r hr)

/-- **Reading a token** keeps the layout, and the token is where it belongs. -/
theorem next_told (fuel : Nat) (h : Laid ts s) (hfuel : Enough fuel s) : Gives (next fuel s) (Told ts) := by
  induction fuel generalizing s with
  | zero => rcases hfuel with hfuel | hfuel <;> omega
  | succ fuel ih =>
    rw [next_succ]
    refine gives_bind fun r hr => ?_
    obtain ⟨s', blank⟩ := r
    have hled : Led ts s.lineStart blank s' ∧ (s'.pending = 0 → s'.cursor.rest.length + 1 ≤ fuel) := by
      cases hstart : s.lineStart with
      | true =>
        have hpending := (h.fresh hstart).1
        rw [hstart, if_pos rfl] at hr
        obtain ⟨hled, hlength⟩ := indentation_led h hstart _ hr
        dsimp only at hled hlength
        refine ⟨hled, fun _ => ?_⟩
        rcases hfuel with hfuel | hfuel <;> omega
      | false =>
        rw [hstart, if_neg (by simp)] at hr
        cases hr
        refine ⟨⟨h, hstart, nofun, nofun⟩, fun hpending => ?_⟩
        rcases hfuel with hfuel | hfuel <;> omega
    obtain ⟨hled, hlength⟩ := hled
    dsimp only
    split
    · exact gives_pure (hled.laid.told_outdent ‹_› _)
    split
    · exact gives_pure (hled.laid.told_indent ‹_› _)
    · have hpending : s'.pending = 0 := by omega
      have hbeyond : (beyond s'.cursor).rest.length ≤ s'.cursor.rest.length := by
        have hblank := s'.cursor.skip_length_le isBlank
        unfold beyond
        dsimp only
        split
        · exact Nat.le_trans (Cursor.skip_length_le _ _) hblank
        · exact hblank
      have hmoved := hled.laid.move hpending hled.lineStart (beyond s'.cursor)
      exact onward_told (fun _ => ih) ⟨hmoved, hled.lineStart, hled.atBreak, hled.blank⟩ hpending
        (Nat.le_trans (Nat.succ_le_succ hbeyond) (hlength hpending))

/-- Where only the ends of blocks remain, they are told, and then **the end of the file over and over**. -/
theorem AtEnd.next (h : AtEnd s) (fuel : Nat) : ∃ t s', next (fuel + 1) s = .ok (t, s') ∧ AtEnd s' ∧
    (t.kind = .outdent ∨ t.kind = .endOfFile) ∧ (s.pending = 0 → t.kind = .endOfFile ∧ s' = s) := by
  have hbeyond : beyond s.cursor = s.cursor := by
    have hskip : s.cursor.skip isBlank = s.cursor := Cursor.skip_of_peek (by rw [h.peek]; rfl)
    simp [beyond, hskip, h.peek]
  by_cases hpending : s.pending = 0
  · have honward : onward fuel s.lineStart false s = pure (layout .endOfFile s.cursor s.cursor, s) := by
      unfold onward
      rw [if_neg (by simp [h.peek]), if_pos h.peek, if_neg (by simp [h.indents])]
    refine ⟨layout .endOfFile s.cursor s.cursor, s, ?_, h, .inr rfl, fun _ => ⟨rfl, rfl⟩⟩
    rw [next_succ, if_neg (by simp [h.lineStart])]
    show (if s.pending < 0 then _ else if 0 < s.pending then _ else _) = _
    rw [if_neg (by omega), if_neg (by omega), hbeyond]
    exact honward
  · have hlt : s.pending < 0 := by
      have := h.pending
      omega
    refine ⟨layout .outdent s.cursor s.cursor, { s with pending := s.pending + 1 }, ?_,
      ⟨h.peek, h.lineStart, h.indents, by show s.pending + 1 ≤ 0; omega⟩, .inl rfl,
      fun hzero => absurd hzero hpending⟩
    rw [next_succ, if_neg (by simp [h.lineStart])]
    exact if_pos hlt

end Next

/-! ### Reading a file -/

/-- **Tokens read** one after the other, from one state to another. -/
inductive Reads : State → List Token → State → Prop
  | refl (s : State) : Reads s [] s
  | tail {s s' s'' : State} {ts : List Token} {t : Token} : Reads s ts s' →
      next (s'.cursor.rest.length + 3) s' = .ok (t, s'') → Reads s (ts ++ [t]) s''

namespace Reads

variable {s s' : State}

/-- What is read is read in two parts. -/
theorem split {us vs : List Token} (h : Reads s (us ++ vs) s') : ∃ m, Reads s us m ∧ Reads m vs s' := by
  generalize hts : us ++ vs = ts at h
  induction h generalizing vs with
  | refl =>
    obtain ⟨rfl, rfl⟩ := List.append_eq_nil_iff.1 hts
    exact ⟨_, .refl _, .refl _⟩
  | @tail s₁ s₂ ts t h hnext ih =>
    rcases List.eq_nil_or_concat vs with rfl | ⟨ws, w, rfl⟩
    · rw [List.append_nil] at hts
      exact ⟨_, hts ▸ .tail h hnext, .refl _⟩
    · rw [List.concat_eq_append, ← List.append_assoc] at hts
      obtain ⟨rfl, hw⟩ := List.append_inj' hts rfl
      cases hw
      obtain ⟨m, hus, hws⟩ := ih rfl
      exact ⟨m, hus, List.concat_eq_append ▸ hws.tail hnext⟩

/-- The first of some tokens and the others. -/
theorem head {t : Token} {ts : List Token} (h : Reads s (t :: ts) s') :
    ∃ m, next (s.cursor.rest.length + 3) s = .ok (t, m) ∧ Reads m ts s' := by
  obtain ⟨m, hfirst, hrest⟩ := split (show Reads s ([t] ++ ts) s' from h)
  refine ⟨m, ?_, hrest⟩
  generalize hts : [t] = us at hfirst
  cases hfirst with
  | refl => cases hts
  | @tail s₁ _ ws w h hnext =>
    obtain ⟨rfl, hw⟩ := List.append_inj' (show [] ++ [t] = ws ++ [w] from hts) rfl
    cases hw
    generalize hnil : ([] : List Token) = vs at h
    cases h with
    | refl => exact hnext
    | tail h _ => simp at hnil

theorem laid {source : Text} {ts : List Token} (h : Reads (start source) ts s) : Laid ts s := by
  generalize hs : start source = s₀ at h
  induction h with
  | refl => exact hs ▸ laid_start source
  | tail h hnext ih => exact (next_told _ ih (.inl (by omega)) _ hnext).1

/-- After the ends of blocks at the end of the file come only more of them. -/
theorem ends {ts : List Token} (h : Reads s ts s') (hs : AtEnd s) :
    AtEnd s' ∧ ∀ t ∈ ts, t.kind = .outdent ∨ t.kind = .endOfFile := by
  induction h with
  | refl => exact ⟨hs, by simp⟩
  | @tail s₁ s₂ ts t h hnext ih =>
    obtain ⟨hend, hts⟩ := ih
    obtain ⟨u, m, hread, hm, hu, -⟩ := hend.next (s₁.cursor.rest.length + 2)
    rw [hread] at hnext
    cases hnext
    refine ⟨hm, fun v hv => ?_⟩
    rcases List.mem_append.1 hv with hv | hv
    · exact hts v hv
    · obtain rfl : v = t := by simpa using hv
      exact hu

/-- After the end of the file comes only the end of the file. -/
theorem stays {ts : List Token} (h : Reads s ts s') (hs : AtEnd s) (hpending : s.pending = 0) :
    s' = s ∧ ∀ t ∈ ts, t.kind = .endOfFile := by
  induction h with
  | refl => exact ⟨rfl, by simp⟩
  | @tail s₁ s₂ ts t h hnext ih =>
    obtain ⟨rfl, hts⟩ := ih
    obtain ⟨u, m, hread, -, -, hu⟩ := hs.next (s₁.cursor.rest.length + 2)
    rw [hread] at hnext
    cases hnext
    obtain ⟨hkind, rfl⟩ := hu hpending
    refine ⟨rfl, fun v hv => ?_⟩
    rcases List.mem_append.1 hv with hv | hv
    · exact hts v hv
    · obtain rfl : v = t := by simpa using hv
      exact hkind

theorem trans {us vs : List Token} {m : State} (h : Reads s us m) (h' : Reads m vs s') :
    Reads s (us ++ vs) s' := by
  induction h' with
  | refl => simpa using h
  | tail _ hnext ih =>
    rw [← List.append_assoc]
    exact ih.tail hnext

/-- What is read as a whole is read token by token. -/
theorem of_readAll (fuel : Nat) (s : State) : ∃ s', Reads s (readAll fuel s).tokens s' := by
  induction fuel generalizing s with
  | zero => exact ⟨s, .refl s⟩
  | succ fuel ih =>
    unfold readAll
    cases hnext : next (s.cursor.rest.length + 3) s with
    | error f => exact ⟨s, .refl s⟩
    | ok r =>
      obtain ⟨t, m⟩ := r
      have hfirst : Reads s [t] m := (Reads.refl s).tail hnext
      dsimp only
      split
      · exact ⟨m, hfirst⟩
      · obtain ⟨s', hrest⟩ := ih m
        exact ⟨s', hfirst.trans hrest⟩

/-- **The layout of the tokens of a file**, however many of them are read. The columns of the open blocks
decrease from the innermost to 0. No more blocks are closed than have been opened, and as many where the file
ends. Outside of brackets, changes of indentation follow a line break or the start of the file; between
brackets, only the blocks still open at the end of the file are closed. After the end of the file comes the
end of the file, over and over. -/
theorem blocks {source : Text} {ts : List Token} (h : Reads (start source) ts s) :
    (s.indents.Pairwise (· > ·) ∧ s.indents.getLast? = some 0) ∧
      (∀ us, us <+: ts → count .outdent us ≤ count .indent us) ∧
      (∀ us t vs, ts = us ++ t :: vs →
        (t.kind = .endOfFile → count .outdent us = count .indent us ∧ ∀ v ∈ vs, v.kind = .endOfFile) ∧
        (t.kind.isDent = true → closed us = opened us → AfterBreak us) ∧
        (t.kind.isDent = true → closed us ≠ opened us → t.kind = .outdent ∧ s.cursor.peek = 0 ∧
          ∀ v ∈ vs, v.kind = .outdent ∨ v.kind = .endOfFile)) ∧
      ((∃ t ∈ ts, t.kind = .endOfFile) →
        ∃ e, next (s.cursor.rest.length + 3) s = .ok (e, s) ∧ e.kind = .endOfFile) := by
  have hplaced : ∀ us t vs, ts = us ++ t :: vs → ∃ m, Placed us t m ∧ Reads m vs s := by
    rintro us t vs rfl
    obtain ⟨m, hus, htvs⟩ := h.split
    obtain ⟨m', hnext, hvs⟩ := htvs.head
    exact ⟨m', (next_told _ hus.laid (.inl (by omega)) _ hnext).2, hvs⟩
  refine ⟨⟨h.laid.sorted, h.laid.bottom⟩, ?_, fun us t vs hts => ⟨?_, ?_, ?_⟩, ?_⟩
  · rintro us ⟨vs, rfl⟩
    obtain ⟨m, hus, -⟩ := h.split
    have hbalance := hus.laid.balance
    have hlt := hus.laid.pending_lt
    omega
  · intro hkind
    obtain ⟨m, hm, hvs⟩ := hplaced us t vs hts
    obtain ⟨hcount, hend, hpending⟩ := hm.finish hkind
    exact ⟨hcount, (hvs.stays hend hpending).2⟩
  · obtain ⟨m, hm, -⟩ := hplaced us t vs hts
    exact hm.outside
  · intro hdent hopen
    obtain ⟨m, hm, hvs⟩ := hplaced us t vs hts
    obtain ⟨hkind, hend⟩ := hm.inside hdent hopen
    obtain ⟨hs, hvs⟩ := hvs.ends hend
    exact ⟨hkind, hs.peek, hvs⟩
  · rintro ⟨t, ht, hkind⟩
    obtain ⟨us, vs, rfl⟩ := List.append_of_mem ht
    obtain ⟨m, hm, hvs⟩ := hplaced us t vs rfl
    obtain ⟨-, hend, hpending⟩ := hm.finish hkind
    obtain ⟨rfl, -⟩ := hvs.stays hend hpending
    obtain ⟨u, s', hnext, -, -, hu⟩ := hend.next (s.cursor.rest.length + 2)
    obtain ⟨hkind, rfl⟩ := hu hpending
    exact ⟨u, hnext, hkind⟩

/-- A file that ends inside of brackets, with a block open. -/
def openEnd : Text := "if a:\n\tb\n\tc(\n"

theorem blocks_openEnd :
    (scan openEnd).tokens.map (·.kind) = [.ifKw, .identifier, .colon, .newline, .indent, .identifier, .newline,
      .identifier, .openParen, .outdent, .endOfFile] ∧
    ∃ s, Reads (start openEnd) (scan openEnd).tokens s ∧
      (s.indents.Pairwise (· > ·) ∧ s.indents.getLast? = some 0) ∧
      (∀ us, us <+: (scan openEnd).tokens → count .outdent us ≤ count .indent us) ∧
      (∀ us t vs, (scan openEnd).tokens = us ++ t :: vs →
        (t.kind = .endOfFile → count .outdent us = count .indent us ∧ ∀ v ∈ vs, v.kind = .endOfFile) ∧
        (t.kind.isDent = true → closed us = opened us → AfterBreak us) ∧
        (t.kind.isDent = true → closed us ≠ opened us → t.kind = .outdent ∧ s.cursor.peek = 0 ∧
          ∀ v ∈ vs, v.kind = .outdent ∨ v.kind = .endOfFile)) ∧
      ((∃ t ∈ (scan openEnd).tokens, t.kind = .endOfFile) →
        ∃ e, next (s.cursor.rest.length + 3) s = .ok (e, s) ∧ e.kind = .endOfFile) := by
  refine ⟨by decide, ?_⟩
  obtain ⟨s, hs⟩ := of_readAll (3 * openEnd.size + 10) (start openEnd)
  exact ⟨s, hs, blocks hs⟩

end Reads

end Scan

end GameScript
