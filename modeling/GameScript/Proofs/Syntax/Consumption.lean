import GameScript.Proofs.Syntax.Extents
import GameScript.Proofs.Syntax.Terms

/-!
# How much of a text is read

A text is read to its end or to an error, unless there is a zero byte in it: such a byte that is in no string ends
the file, and what is behind it is passed over.

* `Scan.Stop` — where the file ends: at the end of the text or at a zero byte;
* `Scan.Clear` — between two cursors there is no token, where a comment may end at a zero byte;
* `Scan.next_found` — where the next token is found;
* `Scan.scan_consumes` — **the tokens of a text cover it up to the end of the file**.
-/

namespace GameScript

namespace Scan

/-! ### Bytes in front of the end -/

/-- The file ends with these bytes: there are none, or a zero byte comes first. -/
def Stop (rest : List UInt8) : Prop := rest = [] ∨ ∃ more, rest = 0 :: more

section Trim

variable {bs bs' rest : List UInt8} {p q : Pos}

theorem Stop.head_ne (h : Stop rest) {b : UInt8} (hb : b ≠ 0) : rest.head? ≠ some b := by
  rcases h with rfl | ⟨more, rfl⟩
  · exact nofun
  · simpa using hb.symm

theorem stop_of_peek {c : Cursor} (h : c.peek = 0) : Stop c.rest := by
  cases hrest : c.rest with
  | nil => exact .inl rfl
  | cons b bs =>
    rcases Cursor.next_cases hrest with ⟨-, hpeek, -⟩ | ⟨-, -, hpeek, -⟩ | ⟨-, hpeek, -⟩
    · rw [h] at hpeek
      cases hpeek
    · obtain rfl : 0 = b := UInt8.toNat_inj.1 (h.symm.trans hpeek)
      exact .inr ⟨bs, rfl⟩
    · rw [h] at hpeek
      exact absurd hpeek (by decide)

/-- What is behind the end of the file is in no code point before it. -/
theorem readRune_stop (h : Stop rest) (b : UInt8) (bs : List UInt8) :
    Text.readRune b (bs ++ rest) = Text.readRune b bs := by
  have hbytes : (bs ++ rest).takeWhile (128 ≤ ·) = bs.takeWhile (128 ≤ ·) := by
    induction bs with
    | nil => rcases h with rfl | ⟨more, rfl⟩ <;> rfl
    | cons c bs ih => rw [List.cons_append, List.takeWhile_cons, List.takeWhile_cons, ih]
  rw [← readRune_takeWhile b (bs ++ rest), hbytes, readRune_takeWhile]

/-- What lies in front of a part that is in front of `rest`. -/
theorem eq_append_of_suffix {mid : List UInt8} (h : bs' ++ rest <:+ mid) : ∃ m, mid = m ++ rest := by
  obtain ⟨x, rfl⟩ := h
  exact ⟨x ++ bs', by rw [List.append_assoc]⟩

theorem LineBreak.trim (h : LineBreak (bs ++ rest) (bs' ++ rest)) : LineBreak bs bs' := by
  generalize hx : bs ++ rest = x at h
  generalize hy : bs' ++ rest = y at h
  cases h with
  | feed y =>
    obtain rfl : bs = 10 :: bs' := List.append_cancel_right (hx.trans (hy ▸ rfl))
    exact .feed _
  | both y =>
    obtain rfl : bs = 13 :: 10 :: bs' := List.append_cancel_right (hx.trans (hy ▸ rfl))
    exact .both _
  | @carriage y hne =>
    obtain rfl : bs = 13 :: bs' := List.append_cancel_right (hx.trans (hy ▸ rfl))
    refine .carriage fun hhead => hne ?_
    rw [← hy, List.head?_append, hhead]
    rfl

theorem LineEnd.trim (h : LineEnd (bs ++ rest)) (hrest : Stop rest) : LineEnd bs := by
  cases bs with
  | nil => exact .inl rfl
  | cons b bs =>
    rcases h with h | ⟨y, h⟩
    · cases h
    · refine .inr ?_
      obtain ⟨bs', rfl⟩ : ∃ bs', y = bs' ++ rest := by
        generalize hx : b :: bs ++ rest = x at h
        cases h with
        | feed y =>
          obtain ⟨rfl, rfl⟩ := List.cons.inj hx
          exact ⟨bs, rfl⟩
        | both y =>
          obtain ⟨rfl, htail⟩ := List.cons.inj hx
          cases bs with
          | nil =>
            have htail : rest = 10 :: y := htail
            exact absurd (by rw [htail]; rfl) (hrest.head_ne (b := 10) (by decide))
          | cons c bs =>
            obtain ⟨-, rfl⟩ := List.cons.inj htail
            exact ⟨bs, rfl⟩
        | carriage hne =>
          obtain ⟨rfl, rfl⟩ := List.cons.inj hx
          exact ⟨bs, rfl⟩
      exact ⟨bs', h.trim⟩

theorem Walk.trim (h : Walk (bs ++ rest) p (bs' ++ rest) q) (hrest : Stop rest) : Walk bs p bs' q := by
  generalize hx : bs ++ rest = x at h
  generalize hy : bs' ++ rest = y at h
  induction h generalizing bs with
  | stay x p =>
    obtain rfl : bs = bs' := List.append_cancel_right (hx.trans hy.symm)
    exact .stay _ _
  | line hb hw ih =>
    obtain ⟨m, rfl⟩ := eq_append_of_suffix (hy ▸ hw.suffix)
    subst hx
    exact .line hb.trim (ih rfl hy)
  | @column b x y p q hb hw ih =>
    obtain ⟨c, bs, rfl⟩ : ∃ c m, bs = c :: m := by
      refine List.exists_cons_of_ne_nil ?_
      rintro rfl
      have hle := hw.suffix.length_le
      have hlt := drop_length_lt b x (Text.readRune b x).2
      rw [← hy, ← hx, List.nil_append, List.length_append] at *
      omega
    obtain ⟨rfl, rfl⟩ := List.cons.inj hx
    refine .column hb (ih ?_ hy)
    rw [List.append_eq, readRune_stop hrest]
    refine (List.drop_append_of_le_length ?_).symm
    by_cases hascii : c < 128
    · simp [Text.readRune, hascii]
    · exact (readRune_ascii bs hascii).2.1

theorem Walk.trim_end (h : Walk (bs ++ rest) p rest q) (hrest : Stop rest) : Walk bs p [] q := by
  exact Walk.trim (h : Walk (bs ++ rest) p ([] ++ rest) q) hrest

theorem Filler.suffix (h : Filler bs rest) : rest <:+ bs := by
  induction h with
  | none => exact List.suffix_refl _
  | blank _ _ ih => exact ih.trans (List.suffix_cons _ _)
  | comment _ _ _ ih => exact ih.trans (List.suffix_append _ _)
  | line hb _ ih => exact ih.trans hb.suffix
  | continued hb _ ih => exact (ih.trans hb.suffix).trans (List.suffix_cons _ _)

theorem Filler.trim (h : Filler (bs ++ rest) (bs' ++ rest)) (hrest : Stop rest) : Filler bs bs' := by
  generalize hx : bs ++ rest = x at h
  generalize hy : bs' ++ rest = y at h
  induction h generalizing bs with
  | none x =>
    obtain rfl : bs = bs' := List.append_cancel_right (hx.trans hy.symm)
    exact .none _
  | @blank b x y hb hw ih =>
    obtain ⟨m, rfl⟩ := eq_append_of_suffix (hy ▸ hw.suffix)
    obtain rfl : bs = b :: m := List.append_cancel_right hx
    exact .blank hb (ih rfl hy)
  | @comment text x y htext hend hw ih =>
    obtain ⟨m, rfl⟩ := eq_append_of_suffix (hy ▸ hw.suffix)
    obtain rfl : bs = 35 :: text ++ m := List.append_cancel_right (hx.trans (List.append_assoc _ _ _).symm)
    exact .comment htext (hend.trim hrest) (ih rfl hy)
  | line hb hw ih =>
    obtain ⟨m, rfl⟩ := eq_append_of_suffix (hy ▸ hw.suffix)
    subst hx
    exact .line hb.trim (ih rfl hy)
  | @continued x x' y hb hw ih =>
    obtain ⟨m, rfl⟩ := eq_append_of_suffix (hy ▸ hw.suffix)
    obtain ⟨m', rfl⟩ := eq_append_of_suffix hb.suffix
    obtain rfl : bs = 92 :: m' := List.append_cancel_right hx
    exact .continued hb.trim (ih rfl hy)

end Trim

/-! ### Without a token in between -/

/-- Between two cursors there is **no token**: only filler, or filler and a comment that ends at the end of the
file. -/
inductive Clear (c c' : Cursor) : Prop
  | gap (h : Gap c c')
  | comment {d : Cursor} {text : List UInt8} (h : Gap c d) (hd : d.rest = 35 :: text ++ c'.rest)
      (htext : ∀ b ∈ text, b ≠ 10 ∧ b ≠ 13) (hwalk : Walk d.rest d.pos c'.rest c'.pos) (hpeek : c'.peek = 0)

section Clear

variable {c c' d : Cursor} {bs rest : List UInt8}

theorem Clear.of_gap (h : Clear d c') (hgap : Gap c d) : Clear c c' := by
  cases h with
  | gap h => exact .gap (hgap.trans h)
  | comment h hd htext hwalk hpeek => exact .comment (hgap.trans h) hd htext hwalk hpeek

/-- The bytes in front of the end of the file, at the first of two cursors. -/
theorem Gap.front (h : Gap c c') (hc' : c'.rest = bs ++ rest) (hrest : Stop rest) :
    ∃ front, c.rest = front ++ rest ∧ Filler front bs ∧ Walk front c.pos bs c'.pos := by
  obtain ⟨front, hc⟩ := eq_append_of_suffix (hc' ▸ h.walk.suffix)
  have hfiller := h.filler
  have hwalk := h.walk
  rw [hc, hc'] at hfiller hwalk
  exact ⟨front, hc, hfiller.trim hrest, hwalk.trim hrest⟩

theorem Clear.front (h : Clear c c') (hc' : c'.rest = bs ++ rest) (hrest : Stop rest) (hend : c'.peek = 0 → bs = []) :
    ∃ front, c.rest = front ++ rest ∧ Filler front bs ∧ Walk front c.pos bs c'.pos := by
  cases h with
  | gap h => exact h.front hc' hrest
  | @comment d text h hd htext hwalk hpeek =>
    obtain rfl := hend hpeek
    rw [hc', List.nil_append] at hd hwalk
    obtain ⟨front, hc, hfiller, hwalk'⟩ := h.front hd hrest
    rw [hd] at hwalk
    have hcomment : Filler (35 :: text) [] := by
      have hcomment := Filler.comment htext (.inl rfl) (.none [])
      rwa [List.append_nil] at hcomment
    exact ⟨front, hc, hfiller.trans hcomment, hwalk'.trans (hwalk.trim_end hrest)⟩

/-- A comment ends with its line or with the file. -/
theorem clear_comment (h : c.peek = 35) : Clear c (c.skip fun ch => ch ≠ 0 && ch ≠ 10) := by
  have hmark : c.rest = 35 :: c.next.rest := Cursor.rest_of_peek h (by decide)
  have hstops := c.skip_stops fun ch => ch ≠ 0 && ch ≠ 10
  have hwalk := (Cursor.Reaches.refl (c := c)).skip (fun ch => ch ≠ 0 && ch ≠ 10) |>.walk
  generalize hend : c.skip (fun ch => ch ≠ 0 && ch ≠ 10) = c' at hstops hwalk ⊢
  obtain ⟨text, hpasses, htext⟩ : ∃ text, c.next.Passes text c' ∧ ∀ b ∈ text, b ≠ 10 ∧ b ≠ 13 := by
    rw [← hend, Cursor.skip, hmark, List.length_cons, Cursor.skipFrom, if_pos (by simp [hmark, h])]
    exact (Cursor.skipFrom_along (by decide) _ _).passes
  have hrest : c.rest = 35 :: text ++ c'.rest := by rw [hmark, hpasses.rest]; rfl
  by_cases hzero : c'.peek = 0
  · exact .comment (.refl c) hrest htext hwalk hzero
  refine .gap ⟨?_, hwalk⟩
  rw [hrest]
  refine .comment htext ?_ (.none _)
  rcases hstops with hstops | hstops
  · exact .inl hstops
  · refine .inr ⟨_, lineBreak_next (c := c') ?_⟩
    simpa [hzero] using hstops

theorem clear_beyond (c : Cursor) : Clear c (beyond c) := by
  have hblanks := gap_blanks c
  unfold beyond
  dsimp only
  split
  · exact (clear_comment ‹_›).of_gap hblanks
  · exact .gap hblanks

end Clear

/-! ### The next token -/

section Found

variable {s s' : State}

/-- Where a token is found: it tells of the end of the file there, or it stands in front of that. -/
inductive Found (s : State) (r : Token × State) : Prop
  | stop {c : Cursor} (hkind : r.1.kind.isLayout = true) (hclear : Clear s.cursor c) (hpeek : c.peek = 0)
      (hpos : r.1.pos = c.pos) (hafter : r.2.cursor = c)
  | before (h : Stands s r)

theorem Found.of_gap {r : Token × State} (hr : Found s' r) (h : Gap s.cursor s'.cursor) : Found s r := by
  cases hr with
  | stop hkind hclear hpeek hpos hafter => exact .stop hkind (hclear.of_gap h) hpeek hpos hafter
  | before hr => exact .before (hr.of_gap h)

/-- A token at the end of the file, which is layout. -/
def Idles (s : State) (r : Token × State) : Prop :=
  r.1.kind.isLayout = true ∧ r.1.pos = s.cursor.pos ∧ r.2.cursor = s.cursor

theorem idles_layout {k : TokenKind} {c : Cursor} (hk : k.isLayout = true) (h : s'.cursor = s.cursor) :
    Idles s (layout k s.cursor c, s') := ⟨hk, rfl, h⟩

theorem onward_idles {fuel : Nat} (ih : ∀ s, s.cursor.peek = 0 → Gives (next fuel s) (Idles s)) (atStart blank : Bool)
    (hpeek : s.cursor.peek = 0) : Gives (onward fuel atStart blank s) (Idles s) := by
  unfold onward
  rw [if_neg (by simp [hpeek]), if_pos hpeek]
  split
  · split
    · exact ih { s with pending := 1 - (s.indents.length : Int), indents := [0] } hpeek
    · exact gives_pure (idles_layout rfl rfl)
  · exact gives_pure (idles_layout rfl rfl)

/-- **At the end of the file** nothing is read any more. -/
theorem next_idles (fuel : Nat) (hpeek : s.cursor.peek = 0) : Gives (next fuel s) (Idles s) := by
  induction fuel generalizing s with
  | zero => exact gives_pure (idles_layout rfl rfl)
  | succ fuel ih =>
    rw [next_succ]
    refine gives_bind fun r hr => ?_
    have hcursor : r.1.cursor = s.cursor := by
      cases hstart : s.lineStart with
      | true =>
        obtain ⟨-, -, hsame⟩ := indentation_bulk s r (by simpa [hstart] using hr)
        rw [hsame hpeek]
      | false =>
        rw [hstart] at hr
        cases hr
        rfl
    have hpeek' : r.1.cursor.peek = 0 := by rw [hcursor]; exact hpeek
    rw [beyond_of_peek hpeek']
    unfold Idles
    rw [← hcursor]
    split
    · exact gives_pure (idles_layout rfl rfl)
    split
    · exact gives_pure (idles_layout rfl rfl)
    · exact onward_idles (s := r.1) (fun _ => ih) _ _ hpeek'

theorem onward_found {fuel : Nat} (ih : ∀ s, Gives (next fuel s) (Found s)) (atStart blank : Bool)
    (hpeek : s.cursor.peek ≠ 0) : Gives (onward fuel atStart blank s) (Found s) := by
  unfold onward
  split
  · have hgap := gap_line ‹_›
    split
    · exact fun r hr => (ih _ r hr).of_gap hgap
    · exact gives_pure (.before (stands_layout rfl hgap nofun fun _ => .inr ⟨_, lineBreak_next ‹_›⟩))
  split
  · rename_i hslash
    refine gives_unless fun hline r hr => ?_
    have hrest : s.cursor.rest = 92 :: s.cursor.next.rest := Cursor.rest_of_peek hslash (by decide)
    have hgap : Gap s.cursor s.cursor.next.next :=
      ⟨hrest ▸ .continued (lineBreak_next (not_not.1 hline)) (.none _), s.cursor.next_reaches.next.walk⟩
    exact (ih _ r hr).of_gap hgap
  · exact fun r hr => .before (token_stands hpeek r hr)

/-- **Where the next token is found.** -/
theorem next_found (fuel : Nat) (s : State) : Gives (next fuel s) (Found s) := by
  induction fuel generalizing s with
  | zero => exact gives_pure (.before (stands_layout rfl (.refl _) (fun _ => rfl) nofun))
  | succ fuel ih =>
    rw [next_succ]
    refine gives_bind fun r hr => ?_
    have hgap : Gap s.cursor r.1.cursor := by
      cases hstart : s.lineStart with
      | true => exact indentation_gap s r (by simpa [hstart] using hr)
      | false =>
        rw [hstart] at hr
        cases hr
        exact .refl _
    split
    · refine gives_pure (Found.of_gap (.before ?_) hgap)
      exact stands_layout rfl (.refl _) nofun nofun
    split
    · refine gives_pure (Found.of_gap (.before ?_) hgap)
      exact stands_layout rfl (.refl _) nofun nofun
    have hclear := clear_beyond r.1.cursor
    by_cases hpeek : (beyond r.1.cursor).peek = 0
    · intro r' hr'
      obtain ⟨hkind, hpos, hafter⟩ := onward_idles (fun _ => next_idles fuel) _ _ hpeek r' hr'
      exact .stop hkind (hclear.of_gap hgap) hpeek hpos hafter
    · cases hclear with
      | gap hbeyond => exact fun r' hr' => (onward_found ih _ _ hpeek r' hr').of_gap (hgap.trans hbeyond)
      | comment _ _ _ _ hzero => exact absurd hzero hpeek

end Found

/-! ### All tokens -/

/-- What is read from a state on: the tokens cover what is in front of the end of the file. -/
theorem readAll_consumes (fuel : Nat) {ts : List Token} {s : State} (hlaid : Laid ts s) (hsize : size s < fuel)
    (hfault : (readAll fuel s).fault = none) : ∃ front rest, s.cursor.rest = front ++ rest ∧ Stop rest ∧
      (s.cursor.peek = 0 → front = []) ∧ Covers front s.cursor.pos (readAll fuel s).tokens := by
  induction fuel generalizing ts s with
  | zero => cases hsize
  | succ fuel ih =>
    unfold readAll at hfault ⊢
    cases hnext : next (s.cursor.rest.length + 3) s with
    | error f =>
      rw [hnext] at hfault
      cases hfault
    | ok r =>
      obtain ⟨t, s'⟩ := r
      rw [hnext] at hfault
      obtain ⟨hlaid', hplaced⟩ := next_told _ hlaid (.inl (by omega)) _ hnext
      have hfound := next_found _ _ _ hnext
      -- At the end of the file, the cursor stays where it is.
      have hstays : ∀ {front mid rest : List UInt8}, s.cursor.rest = front ++ rest → s'.cursor.rest = mid ++ rest →
          (s'.cursor.peek = 0 → mid = []) → s.cursor.peek = 0 → front = [] := by
        intro front mid rest hfront hmid hend hpeek
        have hsame : s'.cursor = s.cursor := (next_idles _ hpeek _ hnext).2.2
        obtain rfl := hend (hsame ▸ hpeek)
        rw [hsame, hfront] at hmid
        exact List.append_cancel_right hmid
      dsimp only at hfault hlaid' hplaced ⊢
      by_cases hkind : t.kind = .endOfFile
      · rw [if_pos hkind]
        obtain ⟨-, hend, -⟩ := hplaced.finish hkind
        have hclear : Clear s.cursor s'.cursor ∧ t.pos = s'.cursor.pos := by
          cases hfound with
          | stop _ hclear _ hpos hafter => exact ⟨hafter ▸ hclear, hafter ▸ hpos⟩
          | before hstands =>
            cases hstands with
            | word hword => simp [hkind, TokenKind.isLayout] at hword
            | @layout c _ hgap hpos _ hsame =>
              obtain rfl : s'.cursor = c := hsame hkind
              exact ⟨.gap hgap, hpos⟩
        have hnil : s'.cursor.rest = [] ++ s'.cursor.rest := rfl
        obtain ⟨front, hfront, hfiller, hwalk⟩ := hclear.1.front hnil (stop_of_peek hend.peek) fun _ => rfl
        exact ⟨front, _, hfront, stop_of_peek hend.peek, hstays hfront (List.nil_append _).symm fun _ => rfl,
          .last hkind hfiller (hclear.2 ▸ hwalk)⟩
      · rw [if_neg hkind] at hfault ⊢
        have hfalls := next_falls _ s _ hnext hkind
        obtain ⟨mid, rest, hmid, hrest, hend, hcovers⟩ := ih hlaid' (by dsimp only at hfalls; omega) hfault
        cases hfound with
        | @stop c hlayout hclear hpeek hpos hafter =>
          obtain rfl : s'.cursor = c := hafter
          obtain rfl := hend hpeek
          obtain ⟨front, hfront, hfiller, hwalk⟩ := hclear.front hmid hrest fun _ => rfl
          have hpos : t.pos = s'.cursor.pos := hpos
          exact ⟨front, rest, hfront, hrest, hstays hfront hmid hend,
            .layout ⟨hlayout, hkind⟩ hfiller (hpos ▸ hwalk) (fun _ => .inl rfl) (hpos ▸ hcovers)⟩
        | before hstands =>
          cases hstands with
          | @layout c hlayout hgap hpos hafter _ hline =>
            have hpos : t.pos = c.pos := hpos
            obtain ⟨bs, hbs, hfiller, hwalk⟩ := hafter.front hmid hrest
            obtain ⟨front, hfront, hfiller', hwalk'⟩ := hgap.front hbs hrest
            exact ⟨front, rest, hfront, hrest, hstays hfront hmid hend,
              .layout ⟨hlayout, hkind⟩ hfiller' (hpos ▸ hwalk') (fun h => LineEnd.trim (hbs ▸ hline h) hrest)
                (hpos ▸ hcovers.after hfiller hwalk)⟩
          | @word c hword hgap hpos hcut hraw hafter hwalk =>
            have hpos : t.pos = c.pos := hpos
            have hafter : t.after = s'.cursor.pos := hafter
            have hcut : c.rest = t.raw.bytes ++ mid ++ rest := by rw [hcut, hmid, List.append_assoc]
            rw [hcut, hmid] at hwalk
            obtain ⟨front, hfront, hfiller, hwalk'⟩ := hgap.front hcut hrest
            exact ⟨front, rest, hfront, hrest, hstays hfront hmid hend,
              .word hword hfiller (hpos ▸ hwalk') hraw (hpos ▸ hafter ▸ hwalk.trim hrest) (hafter ▸ hcovers)⟩

/-- **The tokens of a text cover it up to the end of the file.** Where nothing is wrong, what is not covered begins
with a zero byte; without zero bytes, the whole text is covered. -/
theorem scan_consumes (source : Text) (hfault : (scan source).fault = none) : ∃ front rest,
    source.bytes = front ++ rest ∧ (rest = [] ∨ ∃ more, rest = 0 :: more) ∧ (0 ∉ source.bytes → rest = []) ∧
      Covers front .start (scan source).tokens := by
  have hsize := size_le (start source)
  simp only [bulk, start, List.length_singleton, if_true] at hsize
  obtain ⟨front, rest, hfront, hrest, -, hcovers⟩ := readAll_consumes _ (laid_start source) (by
    show _ < 3 * source.bytes.length + 10
    simp only [start]
    omega) hfault
  refine ⟨front, rest, hfront, hrest, fun hzero => ?_, hcovers⟩
  have hfront : source.bytes = front ++ rest := hfront
  rcases hrest with rfl | ⟨more, rfl⟩
  · rfl
  · exact absurd (hfront ▸ List.mem_append_right _ List.mem_cons_self) hzero

/-- A text with a zero byte in a string, one in a comment, and no token behind that. -/
def cutText : Text := ⟨"x = \"\x00\" # \x00\n$".toUTF8.data.toList⟩

theorem scan_consumes_cutText : (scan cutText).fault = none ∧ ∃ front rest, cutText.bytes = front ++ rest ∧
    (rest = [] ∨ ∃ more, rest = 0 :: more) ∧ (0 ∉ cutText.bytes → rest = []) ∧
      Covers front .start (scan cutText).tokens := by
  have hfault : (scan cutText).fault = none := by decide
  exact ⟨hfault, scan_consumes cutText hfault⟩

/-- **What is behind a zero byte is passed over**, although it is neither a token nor filler. -/
theorem scan_ignores_rest : (scan ⟨[120, 0, 36]⟩).fault = none ∧
    (scan ⟨[120, 0, 36]⟩).tokens.map Token.word = (scan ⟨[120]⟩).tokens.map Token.word ∧
    (scan ⟨[120, 36]⟩).fault = some (⟨1, 2⟩, .unexpectedCharacter 36) := by
  decide

end Scan

end GameScript
