import GameScript.Proofs.Ranges.Files
import GameScript.Proofs.Syntax.Parsers
import GameScript.Proofs.Syntax.Spans
import Mathlib.Data.List.Nodup

/-!
# Places of names and classes

Names in a text have different places, since each token lies behind those before it. A class inside of another one is
told by the place of its name, so the classes of a file are told apart.

* `Scan.places_nodup` — the names of a text have different places;
* `Parse.Finds` — the classes that a parser of members adds have the places of names that it passes;
* `File.parse_apart` — no two classes of a file have one place.
-/

namespace GameScript

namespace Scan

open Parse (places)

/-- The names of a text have different places in it. -/
theorem places_nodup (source : Text) : (places (scan source).tokens).Nodup ∧ Pos.none ∉ places (scan source).tokens := by
  obtain ⟨q, hordered⟩ := scan_ordered source
  constructor
  · have hnames : ((scan source).tokens.filter (·.kind = .identifier)).Pairwise fun t u => t.pos ≠ u.pos := by
      refine List.pairwise_filter.mpr (hordered.before.imp fun h hkind _ => ?_)
      exact ne_of_lt (h.word (by rw [of_decide_eq_true hkind]; rfl)).1
    exact List.pairwise_map.mpr hnames
  · intro hnone
    obtain ⟨t, ht, hpos⟩ := List.mem_map.mp hnone
    have hfirst : Pos.start ≤ Pos.none := hpos ▸ hordered.start t (List.mem_of_mem_filter ht)
    exact absurd hfirst (by decide)

end Scan

namespace Parse

/-! ### Classes that are found -/

/-- From one state to another, the classes inside that a class gets **are found**: their places are those of
names that are passed, each at most once. Only the class of a file gets a name. -/
structure Finds (unit : Nat) (top : Bool) (c : ClassDecl) (s : State) (c' : ClassDecl) (s' : State) : Prop where
  name : top = false → c'.name = c.name
  places : ∃ ps : List Pos, Member.numbers unit c'.members = Member.numbers unit c.members ++ ps.map (⟨unit, ·⟩) ∧
    (ps ++ places s'.tokens).Sublist (places s.tokens)

variable {unit : Nat} {top : Bool} {c c' c'' : ClassDecl} {s s' s'' : State}

/-- Names are passed, and the class gets no classes inside. -/
theorem Finds.of_eq (hname : top = false → c'.name = c.name)
    (hnumbers : Member.numbers unit c'.members = Member.numbers unit c.members)
    (h : (Parse.places s'.tokens).Sublist (Parse.places s.tokens)) : Finds unit top c s c' s' :=
  ⟨hname, [], by simpa using hnumbers, by simpa using h⟩

theorem Finds.of_passed (h : (Parse.places s'.tokens).Sublist (Parse.places s.tokens)) : Finds unit top c s c s' :=
  .of_eq (fun _ => rfl) rfl h

theorem Finds.trans (h : Finds unit top c s c' s') (h' : Finds unit top c' s' c'' s'') : Finds unit top c s c'' s'' := by
  obtain ⟨hname, ps, hnumbers, hplaces⟩ := h
  obtain ⟨hname', qs, hnumbers', hplaces'⟩ := h'
  refine ⟨fun htop => (hname' htop).trans (hname htop), ps ++ qs, ?_, ?_⟩
  · rw [hnumbers', hnumbers, List.map_append, List.append_assoc]
  · rw [List.append_assoc]
    exact (hplaces'.append_left ps).trans hplaces

/-- After names have been passed. -/
theorem Finds.after (h : Finds unit top c s' c' s'') (hs : (Parse.places s'.tokens).Sublist (Parse.places s.tokens)) :
    Finds unit top c s c' s'' := (Finds.of_passed hs).trans h

/-- Then names are passed. -/
theorem Finds.pass (h : Finds unit top c s c' s') (hs : (Parse.places s''.tokens).Sublist (Parse.places s'.tokens)) :
    Finds unit top c s c' s'' := h.trans (.of_passed hs)

theorem numbers_append (unit : Nat) (ms ms' : List Member) :
    Member.numbers unit (ms ++ ms') = Member.numbers unit ms ++ Member.numbers unit ms' := by
  induction ms with
  | nil => rfl
  | cons m ms ih =>
    rw [List.cons_append]
    cases m with
    | cls d => simp [Member.numbers, ih]
    | _ => exact ih

theorem numbers_eq (unit : Nat) (id : DeclId) (d : ClassDecl) :
    d.numbers unit id = id :: Member.numbers unit d.members := by
  cases d
  rfl

/-- Members that are no classes. -/
theorem numbers_add (unit : Nat) (c : ClassDecl) {ms : List Member} (h : Member.numbers unit ms = []) :
    Member.numbers unit (ClassDecl.add c ms).members = Member.numbers unit c.members := by
  rw [ClassDecl.add, numbers_append, h, List.append_nil]

theorem numbers_enumValues (unit : Nat) (d : EnumDecl) (is : List Nat) :
    Member.numbers unit (is.map (Member.enumValue d)) = [] := by
  induction is with
  | nil => rfl
  | cons i is ih => exact ih

/-! ### Steps of parsing -/

section Steps

variable {α β : Type} {Q : β → State → Prop}

theorem after_pass {x : Parser α} [hx : Passes x] {f : α → Parser β}
    (h : ∀ a s', (places s'.tokens).Sublist (places s.tokens) → After (f a) s' Q) : After (x >>= f) s Q :=
  after_bind ((hx.after s).mono h)

end Steps

/-- A name is passed, or it is the last token and stays there. -/
theorem ident_after (s : State) : After ident s fun id s' =>
    (id.pos :: places s'.tokens).Sublist (places s.tokens) ∨ ∃ t, s'.tokens = [t] ∧ t.kind = .identifier := by
  unfold ident current advance
  refine after_bind (after_bind (after_get ?_))
  cases htokens : s.tokens with
  | nil => exact after_pure (after_fail_bind _ _)
  | cons t rest =>
    refine after_pure ?_
    dsimp only
    split
    · exact after_fail_bind _ _
    rename_i hkind
    have hkind : t.kind = .identifier := by simpa using hkind
    refine after_bind (after_bind (after_get ?_))
    rw [htokens]
    cases rest with
    | nil =>
      dsimp only
      split
      · unfold endOfTokens
        split
        · exact after_fail_bind _ _
        · exact after_bind (after_pure (after_pure (after_pure (.inr ⟨t, htokens, hkind⟩))))
      · exact after_pure (after_pure (.inr ⟨t, htokens, hkind⟩))
    | cons u rest =>
      refine after_bind (after_set (after_pure (after_pure (.inl ?_))))
      rw [show places (t :: u :: rest) = t.pos :: places (u :: rest) by simp [places, hkind]]

/-- What follows a name that is the last token is neither a keyword nor punctuation. -/
theorem isAt_after {t : Token} (ht : s.tokens = [t]) (k : TokenKind) :
    After (isAt k) s fun b s' => b = decide (t.kind = k) ∧ s' = s := by
  unfold isAt kind current
  refine after_bind (after_bind (after_bind (after_get ?_)))
  rw [ht]
  exact after_pure (after_pure (after_pure ⟨rfl, rfl⟩))

theorem consume_after {t : Token} (ht : s.tokens = [t]) {k : TokenKind} (hk : t.kind ≠ k) {Q : Pos → State → Prop} :
    After (consume k) s Q := by
  unfold consume current
  refine after_bind (after_bind (after_get ?_))
  rw [ht]
  refine after_pure ?_
  dsimp only
  rw [if_pos hk]
  exact after_fail_bind _ _

/-- The parsers of the parts of a construct **find** the classes among members. -/
class Subparsers.Find (sub : Subparsers) : Prop extends sub.Pass where
  member : ∀ unit top c s, After (sub.member top c) s fun c' s' => Finds unit top c s c' s'

section Members

variable (sub : Subparsers) [hsub : sub.Find] (unit : Nat) (top : Bool)

theorem memberMarker_finds (c : ClassDecl) (m : Markers) (s : State) :
    After (memberMarker sub c m) s fun r s' => Finds unit top c s r.1 s' := by
  unfold memberMarker
  refine after_pass fun x s₁ h₁ => ?_
  obtain ⟨name, args, p⟩ := x
  dsimp only
  split
  · exact after_pure (.of_eq (fun _ => rfl) rfl h₁)
  split
  · exact after_pure (.of_passed h₁)
  split
  · exact after_pure (.of_passed h₁)
  split
  · split
    · exact after_fail _ _
    · exact after_pure (.of_eq (fun _ => rfl) (numbers_add unit c rfl) h₁)
    · exact after_fail _ _
  split
  · exact after_pass fun _ s₂ h₂ => after_pure (.of_passed (h₂.trans h₁))
  split
  · exact after_pure (.of_passed h₁)
  · exact after_fail _ _

theorem memberMarkers_finds (c : ClassDecl) (m : Markers) (n : Nat) (s : State) :
    After (memberMarkers sub c m n) s fun r s' => Finds unit top c s r.1 s' := by
  induction n generalizing c m s with
  | zero => exact after_fail _ _
  | succ n ih =>
    unfold memberMarkers
    refine after_pass fun b s₁ h₁ => ?_
    split
    · refine after_bind ((memberMarker_finds sub unit top c m s₁).mono fun r s₂ h₂ => ?_)
      obtain ⟨c', m'⟩ := r
      refine after_pass fun k s₃ h₃ => after_pass fun _ s₄ h₄ => ?_
      exact (ih c' m' s₄).mono fun _ _ h₅ => ((h₂.pass (h₄.trans h₃)).trans h₅).after h₁
    · exact after_pure (.of_passed h₁)

theorem members_finds (c : ClassDecl) (n : Nat) (s : State) :
    After (members sub c n) s fun c' s' => Finds unit false c s c' s' := by
  induction n generalizing c s with
  | zero => exact after_fail _ _
  | succ n ih =>
    unfold members
    refine after_pass fun k s₁ h₁ => ?_
    split
    · exact after_pure (.of_passed h₁)
    · refine after_bind ((hsub.member unit false c s₁).mono fun c₂ s₂ h₂ => ?_)
      exact (ih c₂ s₂).mono fun _ _ h₃ => (h₂.trans h₃).after h₁

theorem setBase_finds (c : ClassDecl) (s : State) : After (setBase c) s fun c' s' => Finds unit top c s c' s' := by
  unfold setBase
  split
  · exact after_pass fun _ _ _ => after_fail_bind _ _
  · exact after_pass fun _ _ h => after_pure (.of_eq (fun _ => rfl) rfl h)

theorem setName_finds (c : ClassDecl) (s : State) :
    After (setName top c) s fun c' s' => Finds unit top c s c' s' := by
  unfold setName
  dsimp only
  split
  · exact after_pass fun _ _ _ => after_fail_bind _ _
  rename_i htop
  split
  · exact after_pass fun _ _ _ => after_fail_bind _ _
  refine after_pass fun _ s₁ h₁ => after_pass fun name s₂ h₂ => after_pass fun b s₃ h₃ => ?_
  have hnamed : Finds unit top c s { c with name := some name } s₃ :=
    .of_eq (fun hfalse => absurd (by rw [hfalse]; rfl) htop) rfl (h₃.trans (h₂.trans h₁))
  split
  · refine after_bind ((setBase_finds unit top { c with name := some name } s₃).mono fun c' s₄ h₄ => ?_)
    exact after_pass fun _ _ h₅ => after_pure ((hnamed.trans h₄).pass h₅)
  · exact after_bind (after_pure (after_pass fun _ _ h₄ => after_pure (hnamed.pass h₄)))

/-- A class inside of another one is found with those inside of it. Its name is not the last token, since a
colon follows it. -/
theorem innerClass_finds (s : State) : After (innerClass sub) s fun d s' =>
    ∃ ps : List Pos, d.numbers unit ⟨unit, d.anchor⟩ = ps.map (⟨unit, ·⟩) ∧
      (ps ++ places s'.tokens).Sublist (places s.tokens) := by
  unfold innerClass
  refine after_pass fun start s₁ h₁ => after_bind ((ident_after s₁).mono fun name s₂ h₂ => ?_)
  rcases h₂ with h₂ | ⟨t, ht, hkind⟩
  · have hs₂ : (name.pos :: places s₂.tokens).Sublist (places s.tokens) := h₂.trans h₁
    have hfound : ∀ {base : Option Extends} {d : ClassDecl} {s₃ s₄ : State} (f : Pos),
        (places s₃.tokens).Sublist (places s₂.tokens) →
        Finds unit false ⟨start, some name, base, [], false, false, .none⟩ s₃ d s₄ →
        ∃ ps : List Pos, ClassDecl.numbers unit ⟨unit, d.anchor⟩ { d with finish := f } = ps.map (⟨unit, ·⟩) ∧
          (ps ++ places s₄.tokens).Sublist (places s.tokens) := by
      intro base d s₃ s₄ f hs₃ h
      obtain ⟨hname, ps, hnumbers, hplaces⟩ := h
      have hanchor : d.anchor = name.pos := by
        rw [ClassDecl.anchor, hname rfl]
        rfl
      refine ⟨name.pos :: ps, ?_, ((hplaces.trans hs₃).cons_cons name.pos).trans hs₂⟩
      rw [numbers_eq, hanchor]
      exact congrArg (List.cons _) hnumbers
    refine after_pass fun b s₃ h₃ => ?_
    extract_lets rest
    have hrest : ∀ base s₄, (places s₄.tokens).Sublist (places s₃.tokens) → After (rest base) s₄ fun d s' =>
        ∃ ps : List Pos, d.numbers unit ⟨unit, d.anchor⟩ = ps.map (⟨unit, ·⟩) ∧
          (ps ++ places s'.tokens).Sublist (places s.tokens) := by
      intro base s₄ h₄
      dsimp only [rest]
      refine after_pass fun _ s₅ h₅ => after_pass fun b s₆ h₆ => ?_
      have hs₆ := h₆.trans (h₅.trans (h₄.trans h₃))
      split
      · refine after_pass fun _ s₇ h₇ => after_pass fun n s₈ h₈ => ?_
        refine after_bind ((members_finds sub unit _ n s₈).mono fun d s₉ h₉ => ?_)
        refine after_pass fun f s₁₀ h₁₀ => after_pure ?_
        exact hfound (d := d) f ((h₈.trans h₇).trans hs₆) (h₉.pass h₁₀)
      · refine after_bind ((hsub.member unit false _ s₆).mono fun d s₇ h₇ => ?_)
        exact after_pass fun f s₈ h₈ => after_pure (hfound (d := d) f hs₆ (h₇.pass h₈))
    split
    · exact after_pass fun base s₄ h₄ => hrest base s₄ h₄
    · exact after_bind (after_pure (hrest none s₃ (.refl _)))
  · refine after_bind ((isAt_after ht .extendsKw).mono fun b s₃ h₃ => ?_)
    obtain ⟨rfl, rfl⟩ := h₃
    rw [hkind]
    dsimp only
    rw [if_neg (by decide)]
    exact after_bind (after_pure (after_bind (consume_after ht (by rw [hkind]; decide))))

theorem bareMember_finds (c : ClassDecl) (m : Markers) (s : State) :
    After (bareMember sub top c m) s fun r s' => Finds unit top c s r.cls s' := by
  have hadd : ∀ {ms : List Member} {s' : State}, Member.numbers unit ms = [] →
      (places s'.tokens).Sublist (places s.tokens) → Finds unit top c s (ClassDecl.add c ms) s' :=
    fun hms h => .of_eq (fun _ => rfl) (numbers_add unit c hms) h
  unfold bareMember
  refine after_pass fun t s₁ h₁ => ?_
  dsimp only
  split
  · refine after_pass fun d s₂ h₂ => after_pass fun _ s₃ h₃ => after_pure ?_
    exact .of_eq (fun _ => rfl) (numbers_add unit { c with usesOnready := _ } rfl) (h₃.trans (h₂.trans h₁))
  · exact after_pass fun d s₂ h₂ => after_pass fun _ s₃ h₃ => after_pure (hadd rfl (h₃.trans (h₂.trans h₁)))
  · exact after_pass fun d s₂ h₂ => after_pass fun _ s₃ h₃ => after_pure (hadd rfl (h₃.trans (h₂.trans h₁)))
  · refine after_pass fun d s₂ h₂ => after_pass fun _ s₃ h₃ => after_pure (hadd ?_ (h₃.trans (h₂.trans h₁)))
    split
    · rfl
    · exact numbers_enumValues unit d _
  · exact after_pass fun _ s₂ h₂ => after_pass fun _ s₃ h₃ => after_pass fun _ s₄ h₄ => after_pass fun f s₅ h₅ =>
      after_pure (hadd rfl (h₅.trans (h₄.trans (h₃.trans (h₂.trans h₁)))))
  · exact after_pass fun _ s₂ h₂ => after_pass fun _ s₃ h₃ => after_pass fun _ s₄ h₄ => after_pass fun f s₅ h₅ =>
      after_pure (hadd rfl (h₅.trans (h₄.trans (h₃.trans (h₂.trans h₁)))))
  · refine after_bind ((innerClass_finds sub unit s₁).mono fun d s₂ h₂ => after_pure ?_)
    obtain ⟨ps, hnumbers, hplaces⟩ := h₂
    refine Finds.after ⟨fun _ => rfl, ps, ?_, hplaces⟩ h₁
    rw [ClassDecl.add, numbers_append, ← hnumbers]
    exact congrArg (Member.numbers unit c.members ++ ·) (List.append_nil _)
  · refine after_bind ((setBase_finds unit top c s₁).mono fun c' s₂ h₂ => ?_)
    exact after_pass fun _ s₃ h₃ => after_pure ((h₂.after h₁).pass h₃)
  · exact after_bind ((setName_finds unit top c s₁).mono fun c' s₂ h₂ => after_pure (h₂.after h₁))
  · exact after_pass fun _ s₂ h₂ => after_pass fun _ s₃ h₃ => after_pure (.of_passed (h₃.trans (h₂.trans h₁)))
  · exact after_pass fun _ s₂ h₂ => after_pure (.of_passed (h₂.trans h₁))
  · exact after_pass fun _ s₂ h₂ => after_pure (.of_passed (h₂.trans h₁))
  · exact after_fail _ _

theorem member_finds (c : ClassDecl) (s : State) :
    After (member sub top c) s fun c' s' => Finds unit top c s c' s' := by
  unfold member
  refine after_pass fun n s₁ h₁ => after_bind ((memberMarkers_finds sub unit top c {} n s₁).mono fun r s₂ h₂ => ?_)
  obtain ⟨c', m⟩ := r
  have hmarked := h₂.after h₁
  dsimp only at hmarked ⊢
  refine after_pass fun k s₃ h₃ => ?_
  split
  · split
    · exact after_pass fun _ _ _ => after_fail_bind _ _
    · exact after_pure (hmarked.pass h₃)
  refine after_bind ((bareMember_finds sub unit top c' m s₃).mono fun r s₄ h₄ => ?_)
  have hcls := (hmarked.pass h₃).trans h₄
  -- What is left checks the markers and records where warnings are not wanted.
  repeat' split
  all_goals first
    | exact after_fail_bind _ _
    | exact after_pass fun _ _ h₅ => after_pure (hcls.pass h₅)
    | exact after_pure hcls

theorem fileMembers_finds (c : ClassDecl) (n : Nat) (s : State) :
    After (fileMembers sub c n) s fun c' s' => Finds unit true c s c' s' := by
  induction n generalizing c s with
  | zero => exact after_fail _ _
  | succ n ih =>
    unfold fileMembers
    refine after_pass fun b s₁ h₁ => ?_
    split
    · exact after_pure (.of_passed h₁)
    · refine after_bind ((member_finds sub unit true c s₁).mono fun c₂ s₂ h₂ => ?_)
      exact (ih c₂ s₂).mono fun _ _ h₃ => (h₂.trans h₃).after h₁

/-- The classes of a file have the places of different names in it. -/
theorem file_finds (path : Text) (s : State) : After (file sub path) s fun f _ =>
    ∃ ps : List Pos, f.cls.numbers unit (Session.mainClass unit) = (Pos.none :: ps).map (⟨unit, ·⟩) ∧
      ps.Sublist (places s.tokens) := by
  unfold file
  refine after_pass fun _ s₁ h₁ => after_pass fun n s₂ h₂ => after_pass fun p s₃ h₃ => ?_
  refine after_bind ((fileMembers_finds sub unit _ (n + 1) s₃).mono fun c s₄ h₄ => ?_)
  refine after_pass fun f s₅ h₅ => after_pass fun _ s₆ _ => after_pure ?_
  obtain ⟨ps, hnumbers, hplaces⟩ := h₄.places
  refine ⟨ps, ?_, (List.sublist_append_left ps _).trans (hplaces.trans (h₃.trans (h₂.trans h₁)))⟩
  rw [numbers_eq]
  exact congrArg (List.cons _) hnumbers

end Members

instance subparsers_find (fuel : Nat) : (subparsers fuel).Find := by
  induction fuel with
  | zero => exact ⟨fun _ _ _ _ => after_fail _ _⟩
  | succ fuel ih => exact ⟨fun unit top c s => member_finds _ unit top c s⟩

end Parse

/-! ### Files -/

/-- No two classes of a file **have one place**. -/
def File.Apart (f : File) : Prop := ∀ unit, (f.cls.numbers unit (Session.mainClass unit)).Nodup

/-- **No two classes of a parsed file have one place.** -/
theorem File.parse_apart {path source : Text} {f : File} (h : File.parse path source = .ok f) : f.Apart := by
  intro unit
  obtain ⟨s', hrun⟩ := File.parse_run h
  obtain ⟨ps, hnumbers, hplaces⟩ := Parse.file_finds _ unit path _ f s' hrun
  obtain ⟨hnodup, hnone⟩ := Scan.places_nodup source
  rw [hnumbers]
  refine List.Nodup.map (fun p q hpq => congrArg DeclId.pos hpq) ?_
  exact List.nodup_cons.2 ⟨fun hmem => hnone (hplaces.subset hmem), hnodup.sublist hplaces⟩

end GameScript
