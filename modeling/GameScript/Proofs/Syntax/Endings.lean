import GameScript.Proofs.Syntax.Blocks
import GameScript.Proofs.Syntax.Cursors

/-!
# Reading ends

Every token lowers a measure of the bytes, the blocks and the layout that remain to be told, so that the tokens
of a text end with the end of the file or with an error.

* `Scan.size` — the measure;
* `Scan.next_falls` — each token lowers it;
* `Scan.scan_ends` — the tokens of a text are read to its end.
-/

namespace GameScript

namespace Scan

/-- What remains to be told but for the beginning of a line and the end of the file. -/
def bulk (s : State) : Nat := 3 * s.cursor.rest.length + s.indents.length + s.pending.natAbs

/-- Whether the line break at the end of the file has been told, or none is due. -/
def Last (s : State) : Prop :=
  s.cursor.peek = 0 ∧ (s.lineStart = true ∧ s.pending = 0 ∨ s.indents.length ≤ 1)

instance (s : State) : Decidable (Last s) := inferInstanceAs (Decidable (_ ∧ _))

/-- **What remains to be told.** The beginning of a line may open a block, and the end of the file may begin
a line. -/
def size (s : State) : Nat := bulk s + (if s.lineStart then 2 else 0) + if Last s then 0 else 3

theorem size_le (s : State) : size s ≤ bulk s + (if s.lineStart then 2 else 0) + 3 := by
  have hlast : (if Last s then 0 else 3) ≤ 3 := by split <;> decide
  unfold size
  omega

theorem size_of_last {s : State} (h : Last s) : size s = bulk s + if s.lineStart then 2 else 0 := by
  simp [size, h]

theorem size_of_not_last {s : State} (h : ¬ Last s) : size s = bulk s + (if s.lineStart then 2 else 0) + 3 := by
  simp [size, h]

theorem indentation_bulk (s : State) : Gives (indentation s) fun r =>
    bulk r.1 ≤ bulk s + 2 ∧ r.1.lineStart = false ∧
      (s.cursor.peek = 0 → r.1 = { s with lineStart := false }) := by
  have hlength := s.cursor.skip_length_le isBlank
  unfold indentation
  extract_lets c blanks s' blank col top rest
  split
  · refine gives_pure ⟨?_, rfl, fun hpeek => ?_⟩
    · simp only [bulk, s', c]
      omega
    · have hskip : c = s.cursor := Cursor.skip_of_peek (by rw [hpeek]; rfl)
      simp only [s', hskip]
  · rename_i hblank
    have hpeek : s.cursor.peek ≠ 0 := by
      intro hpeek
      have hskip : c = s.cursor := Cursor.skip_of_peek (by rw [hpeek]; rfl)
      simp [blank, hskip, hpeek] at hblank
    refine gives_unless fun _ => ?_
    dsimp only [rest]
    split
    · refine gives_pure ⟨?_, rfl, fun hzero => absurd hzero hpeek⟩
      simp only [bulk, s', c, List.length_cons]
      omega
    · cases hclose : closeBlocks col s.indents with
      | mk n left =>
        obtain ⟨gone, hindents, rfl⟩ := closeBlocks_eq col s.indents hclose
        refine gives_unless fun _ => gives_pure ⟨?_, rfl, fun hzero => absurd hzero hpeek⟩
        simp only [bulk, s', c, hindents, List.length_append]
        omega

theorem beyond_length_le (c : Cursor) : (beyond c).rest.length ≤ c.rest.length := by
  unfold beyond
  dsimp only
  split
  · exact ((Cursor.Reaches.refl.skip _).skip _).length_le
  · exact (Cursor.Reaches.refl.skip _).length_le

theorem beyond_of_peek {c : Cursor} (h : c.peek = 0) : beyond c = c := by
  have hskip : c.skip isBlank = c := Cursor.skip_of_peek (by rw [h]; rfl)
  simp [beyond, hskip, h]

/-- How a token lowers the measure, if it is not the end of the file. -/
def Falls (s : State) (r : Token × State) : Prop := r.1.kind ≠ .endOfFile → size r.2 < size s

theorem Falls.of_le {s s' : State} {r : Token × State} (h : Falls s' r) (hs : size s' ≤ size s) : Falls s r :=
  fun hkind => Nat.lt_of_lt_of_le (h hkind) hs

/-- What is known of the state `s'` where the beginning of a line has been passed, if there was one. -/
structure Begun (s s' : State) : Prop where
  bulk_le : bulk s' ≤ bulk s + if s.lineStart then 2 else 0
  lineStart : s'.lineStart = false
  indents : s.lineStart = false → s'.indents = s.indents
  peek : s.cursor.peek = 0 → s'.cursor.peek = 0

variable {s s' : State}

theorem Begun.size_ge (h : Begun s s') : bulk s' ≤ size s :=
  Nat.le_trans h.bulk_le (Nat.le_add_right _ _)

/-- Before the end of the file, the line break there is still due. -/
theorem Begun.size_eq (h : Begun s s') (hpeek : s'.cursor.peek ≠ 0) : bulk s' + 3 ≤ size s := by
  rw [size_of_not_last fun hlast => hpeek (h.peek hlast.1)]
  exact Nat.add_le_add_right h.bulk_le 3

/-- Where a code point is passed before the end of the file, the measure does not rise. -/
theorem Begun.size_lt {c : Cursor} {l : Bool} (h : Begun s s') (hpeek : s'.cursor.peek ≠ 0)
    (hc : c.rest.length < s'.cursor.rest.length) : size { s' with cursor := c, lineStart := l } < size s := by
  have hsize := h.size_eq hpeek
  have hle := size_le { s' with cursor := c, lineStart := l }
  have hline : (if l then 2 else 0) ≤ 2 := by split <;> decide
  simp only [bulk] at hsize hle
  omega

theorem onward_falls {fuel : Nat} (ih : ∀ s, Gives (next fuel s) (Falls s)) (blank : Bool) (h : Begun s s')
    (hpending : s'.pending = 0) : Gives (onward fuel s.lineStart blank s') (Falls s) := by
  unfold onward
  split
  · rename_i hpeek
    have hne : s'.cursor.peek ≠ 0 := by omega
    have hlt := h.size_lt (l := true) hne (Cursor.next_length_lt (Cursor.rest_ne_nil_of_peek hne))
    split
    · exact fun r hr => (ih _ r hr).of_le (Nat.le_of_lt hlt)
    · exact gives_pure fun _ => hlt
  split
  · rename_i hpeek
    split
    · rename_i hblocks
      split
      · -- The blocks that are open are told to be closed.
        refine fun r hr => (ih _ r hr).of_le (Nat.le_trans (Nat.le_of_eq ?_) h.size_ge)
        have hlast : Last { s' with pending := 1 - (s'.indents.length : Int), indents := [0] } :=
          ⟨hpeek, .inr (Nat.le_refl 1)⟩
        rw [size_of_last hlast, h.lineStart]
        simp only [bulk, hpending, List.length_singleton, Bool.false_eq_true, if_false]
        omega
      · rename_i hstart
        have hstart := eq_false_of_ne_true hstart
        refine gives_pure fun _ => ?_
        show size { s' with lineStart := true } < size s
        have hlast : Last { s' with lineStart := true } := ⟨hpeek, .inl ⟨rfl, hpending⟩⟩
        rw [size_of_last hlast, size_of_not_last]
        · have hle := h.bulk_le
          simp only [bulk, hstart, Bool.false_eq_true, if_true, if_false] at hle ⊢
          omega
        · rintro ⟨-, ⟨hline, -⟩ | hle⟩
          · rw [hstart] at hline
            cases hline
          · rw [h.indents hstart] at hblocks
            omega
    · exact gives_pure fun hkind => absurd rfl hkind
  rename_i hpeek
  split
  · refine gives_unless fun _ r hr => (ih _ r hr).of_le (Nat.le_of_lt (h.size_lt hpeek ?_))
    exact Nat.lt_of_le_of_lt s'.cursor.next.next_length_le
      (Cursor.next_length_lt (Cursor.rest_ne_nil_of_peek hpeek))
  · intro r hr _
    obtain ⟨-, -, hindents, hpend, hline, -⟩ := token_isWord s' r hr
    have hshort := token_shorter hpeek r hr
    have hsize := h.size_eq hpeek
    have hle := size_le r.2
    simp only [bulk, hindents, hpend, hline, h.lineStart, Bool.false_eq_true, if_false] at hsize hle
    omega

/-- **A token lowers the measure**, if it is not the end of the file. -/
theorem next_falls (fuel : Nat) (s : State) : Gives (next fuel s) (Falls s) := by
  induction fuel generalizing s with
  | zero => exact gives_pure fun hkind => absurd rfl hkind
  | succ fuel ih =>
    rw [next_succ]
    refine gives_bind fun r hr => ?_
    obtain ⟨s', blank⟩ := r
    have hbegun : Begun s s' ∧ (s.cursor.peek = 0 → s' = { s with lineStart := false }) := by
      cases hstart : s.lineStart with
      | true =>
        rw [hstart, if_pos rfl] at hr
        obtain ⟨hbulk, hline, hpeek⟩ := indentation_bulk s _ hr
        dsimp only at hbulk hline hpeek
        refine ⟨⟨by rw [hstart]; exact hbulk, hline, fun h => ?_, fun h => by rw [hpeek h]; exact h⟩, hpeek⟩
        rw [hstart] at h
        cases h
      | false =>
        rw [hstart, if_neg (by decide)] at hr
        cases hr
        exact ⟨⟨Nat.le_add_right _ _, hstart, fun _ => rfl, id⟩, fun _ => by rw [← hstart]⟩
    obtain ⟨hbegun, hpeek⟩ := hbegun
    -- A change of indentation is told: one of them fewer remains.
    have htold : ∀ p : Int, p.natAbs + 1 = s'.pending.natAbs → size { s' with pending := p } < size s := by
      intro p hp
      have hbulk : bulk { s' with pending := p } + 1 = bulk s' := by
        simp only [bulk]
        omega
      have hline : (if s'.lineStart then 2 else 0) = 0 := by rw [hbegun.lineStart]; rfl
      by_cases hlast : Last s
      · have hlast' : Last { s' with pending := p } := by
          obtain ⟨hzero, ⟨-, hpending⟩ | hindents⟩ := hlast
          · rw [hpeek hzero, hpending] at hp
            cases hp
          · rw [hpeek hzero]
            exact ⟨hzero, .inr hindents⟩
        have hge := hbegun.size_ge
        rw [size_of_last hlast']
        dsimp only
        omega
      · have hle := size_le { s' with pending := p }
        have hge := hbegun.bulk_le
        dsimp only at hle
        rw [size_of_not_last hlast]
        omega
    dsimp only
    split
    · exact gives_pure fun _ => htold _ (by omega)
    split
    · exact gives_pure fun _ => htold _ (by omega)
    · refine onward_falls ih blank ⟨?_, hbegun.lineStart, hbegun.indents, fun h => ?_⟩ (by show s'.pending = 0; omega)
      · refine Nat.le_trans ?_ hbegun.bulk_le
        have hlength := beyond_length_le s'.cursor
        simp only [bulk]
        omega
      · show (beyond s'.cursor).peek = 0
        rw [beyond_of_peek (hbegun.peek h)]
        exact hbegun.peek h

theorem readAll_ends (fuel : Nat) (s : State) (h : size s < fuel) (hfault : (readAll fuel s).fault = none) :
    ∃ t, (readAll fuel s).tokens.getLast? = some t ∧ t.kind = .endOfFile := by
  induction fuel generalizing s with
  | zero => omega
  | succ fuel ih =>
    unfold readAll at hfault ⊢
    cases hnext : next (s.cursor.rest.length + 3) s with
    | error f =>
      rw [hnext] at hfault
      cases hfault
    | ok r =>
      obtain ⟨t, s'⟩ := r
      rw [hnext] at hfault
      dsimp only at hfault ⊢
      by_cases hkind : t.kind = .endOfFile
      · rw [if_pos hkind]
        exact ⟨t, rfl, hkind⟩
      · rw [if_neg hkind] at hfault ⊢
        have hfalls := next_falls _ s _ hnext hkind
        obtain ⟨u, hu, hend⟩ := ih s' (by dsimp only at hfalls; omega) hfault
        exact ⟨u, by simp [List.getLast?_cons, hu], hend⟩

/-- **The tokens of a text are read to its end**: to the end of the file, or to an error. -/
theorem scan_ends (source : Text) (h : (scan source).fault = none) :
    ∃ t, (scan source).tokens.getLast? = some t ∧ t.kind = .endOfFile := by
  refine readAll_ends _ _ ?_ h
  have hsize := size_le { cursor := { rest := source.bytes } }
  simp only [bulk, List.length_singleton, if_true] at hsize
  show _ < 3 * source.bytes.length + 10
  omega

end Scan

end GameScript
