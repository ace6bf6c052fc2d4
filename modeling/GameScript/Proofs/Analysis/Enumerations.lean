import GameScript.Proofs.Analysis.Constants
import Mathlib.Data.List.Nodup

/-!
# Values of an enumeration

The values of an enumeration are computed when they are needed, each after the one before it. A value is found by
its name in two ways: as an attribute of the type, which is the first entry of the name, and as a key of the
dictionary that the type is as a value, where the last entry of the name stands.

* `StaticType.agrees_iff` — the two agree just where the first and the last entry of a name have one value;
* `Analysis.Counted` — what is known of the values that are resolved: each number is the initial value or, without
  one, one more than the number before, in the arithmetic of the machine;
* `Analysis.resolveEnumValue_goes`, `Analysis.entries_go` — to resolve one value, and then all, keeps them counted
  and leaves values alone that are resolved, unless the file gets an error. Of the analysis of initial values
  this asks the same (`Analysis.Calm`), which holds of literals, operators and other values
  (`Analysis.plain_idle`);
* `Analysis.enumeration_agrees` — **the entries of an accepted enumeration are numbered as they are written**, and
  an attribute and the entry of the dictionary agree just where the first and the last value of a name do;
* `Compiler.attribute_and_key_differ` — the exception: a name that is given twice is not reported.
-/

namespace GameScript

/-! ### Names of an enumeration -/

namespace Value

theorem lookup?_cons (k : Value) (e : Entry) (es : List Entry) :
    lookup? k (e :: es) = if e.key.hash = k.hash then some e.value else lookup? k es := by
  unfold lookup?
  by_cases h : e.key.hash = k.hash
  · simp [h]
  · simp [h]

/-- To associate a key with a value changes the value of this key only. -/
theorem lookup?_insertEntry (k key value : Value) (es : List Entry) :
    lookup? k (insertEntry key value es) = if key.hash = k.hash then some value else lookup? k es := by
  induction es with
  | nil => rw [insertEntry, lookup?_cons, Entry.key, Entry.value]
  | cons e es ih =>
    rw [insertEntry]
    by_cases he : e.key.hash = key.hash
    · rw [if_pos he, lookup?_cons, lookup?_cons, Entry.key, Entry.value, he]
      by_cases h : key.hash = k.hash
      · simp [h]
      · simp [h]
    · rw [if_neg he, lookup?_cons, lookup?_cons, ih]
      by_cases h : key.hash = k.hash
      · have hne : e.key.hash ≠ k.hash := fun heq => he (heq.trans h.symm)
        simp [h, hne]
      · simp [h]

/-- In a dictionary the last value of a key stands. -/
theorem lookup?_foldl (k : Value) (es acc : List Entry) :
    lookup? k (es.foldl (fun acc e => insertEntry e.key e.value acc) acc) =
      (lookup? k es.reverse).or (lookup? k acc) := by
  have happend (as bs : List Entry) : lookup? k (as ++ bs) = (lookup? k as).or (lookup? k bs) := by
    unfold lookup?
    rw [List.find?_append]
    cases as.find? (·.key.hash = k.hash) <;> rfl
  induction es generalizing acc with
  | nil => rfl
  | cons e es ih =>
    rw [List.foldl_cons, ih, lookup?_insertEntry, List.reverse_cons, happend, lookup?_cons, Option.or_assoc]
    by_cases h : e.key.hash = k.hash
    · simp [h]
    · simp [h, lookup?]

theorem hash_string_inj {s t : Text} (h : (string s).hash = (string t).hash) : s = t := by
  have hbytes : ("s" ++ s : Text).bytes = ("s" ++ t : Text).bytes := congrArg Text.bytes h
  rw [Text.bytes_append, Text.bytes_append] at hbytes
  obtain ⟨bytes⟩ := s
  exact congrArg Text.mk (List.append_cancel_left hbytes)

end Value

namespace StaticType

variable {t : StaticType} {name : Text}

/-- The dictionary of an enumeration has the last entry of a name. -/
theorem component?_enumDictionary (t : StaticType) (name : Text) :
    t.enumDictionary.component? name = (t.entries.reverse.find? (·.name = name)).map fun e => .int e.value := by
  have hfind (es : List EnumEntry) : Value.lookup? (.string name) (es.map fun e => ⟨.string e.name, .int e.value⟩) =
      (es.find? (·.name = name)).map fun e => .int e.value := by
    induction es with
    | nil => rfl
    | cons e es ih =>
      rw [List.map_cons, Value.lookup?_cons, ih, Entry.key, Entry.value]
      by_cases h : e.name = name
      · simp [h]
      · have hne : (Value.string e.name).hash ≠ (Value.string name).hash := fun heq => h (Value.hash_string_inj heq)
        simp [h, hne]
  show Value.lookup? (.string name) (List.foldl _ [] _) = _
  rw [Value.lookup?_foldl, ← List.map_reverse, hfind]
  exact Option.or_none

/-- A name has a first entry just if it has a last one. -/
theorem first_and_last (es : List EnumEntry) (name : Text) :
    (es.find? (·.name = name) = none ∧ es.reverse.find? (·.name = name) = none) ∨
      ∃ a ∈ es, ∃ b ∈ es, a.name = name ∧ b.name = name ∧ es.find? (·.name = name) = some a ∧
        es.reverse.find? (·.name = name) = some b := by
  cases hfirst : es.find? (·.name = name) with
  | none =>
    refine .inl ⟨rfl, ?_⟩
    rw [List.find?_eq_none] at hfirst ⊢
    exact fun e he => hfirst e (List.mem_reverse.mp he)
  | some a =>
    have ha := List.mem_of_find?_eq_some hfirst
    have hname : a.name = name := by simpa using List.find?_some hfirst
    obtain ⟨b, hlast⟩ : ∃ b, es.reverse.find? (·.name = name) = some b := by
      apply Option.isSome_iff_exists.mp
      rw [List.find?_isSome]
      exact ⟨a, List.mem_reverse.mpr ha, by simpa using hname⟩
    have hb := List.mem_reverse.mp (List.mem_of_find?_eq_some hlast)
    exact .inr ⟨a, ha, b, hb, hname, by simpa using List.find?_some hlast, rfl, hlast⟩

/-- **The attribute and the entry of the dictionary agree** for a name just where its first and its last value are
the same. -/
theorem agrees_iff (t : StaticType) (name : Text) :
    (∀ n, t.enumValue? name = some n ↔ t.enumDictionary.component? name = some (.int n)) ↔
      (t.entries.find? (·.name = name)).map EnumEntry.value =
        (t.entries.reverse.find? (·.name = name)).map EnumEntry.value := by
  rw [component?_enumDictionary]
  unfold enumValue?
  rcases first_and_last t.entries name with ⟨hfirst, hlast⟩ | ⟨a, -, b, -, -, -, hfirst, hlast⟩
  · simp [hfirst, hlast]
  · simp only [hfirst, hlast, Option.map_some, Option.some.injEq, Value.int.injEq]
    constructor
    · intro h
      exact ((h a.value).mp rfl).symm
    · intro h n
      rw [h]

/-- They agree for all names if entries of one name have one value, so if no name is given twice. -/
theorem agrees (h : ∀ a ∈ t.entries, ∀ b ∈ t.entries, a.name = b.name → a.value = b.value) (name : Text) (n : Int64) :
    t.enumValue? name = some n ↔ t.enumDictionary.component? name = some (.int n) := by
  refine (agrees_iff t name).mpr ?_ n
  rcases first_and_last t.entries name with ⟨hfirst, hlast⟩ | ⟨a, ha, b, hb, hna, hnb, hfirst, hlast⟩
  · rw [hfirst, hlast]
  · rw [hfirst, hlast, Option.map_some, Option.map_some, h a ha b hb (hna.trans hnb.symm)]

end StaticType

/-! ### What is known of values -/

/-- What is known of a value of an enumeration: whether it is resolved, its number, and the integer that its
initial value has been found to be. -/
structure Known where
  resolved : Bool
  number : Int64
  initial : Option Int64

/-- The integer that an analysed expression is. -/
def Expr.integer? (x : Expr) : Option Int64 :=
  match x.value? with
  | some (.int i) => some i
  | _ => none

/-- The integer that the initial value of an enumeration value is. -/
def Declaration.integer? : Declaration → Option Int64
  | .enumInit x => x.integer?
  | _ => none

namespace Session

/-- What is known of the enumeration value at a place. -/
def known (s : Session) (id : DeclId) : Known where
  resolved := (s.note id).isResolved
  number := (s.note id).number
  initial := (s.declarations.get? id).bind Declaration.integer?

end Session

namespace Analysis

variable {sub : Steps} {e : EnumDecl} {u unit i m : Nat} {s s' : Session}

/-! ### Numbers -/

/-- The declaration of the value at an index. -/
def valueId (e : EnumDecl) (u i : Nat) : DeclId := ⟨u, (enumValueAt e i).name.pos⟩

/-- What a session knows of the values of an enumeration in the unit `u`. -/
def knowns (e : EnumDecl) (u : Nat) (s : Session) (i : Nat) : Known := s.known (valueId e u i)

/-- The number of a value is its initial value or, without one, zero or one more than the number before. -/
def Valued (e : EnumDecl) (known : Nat → Known) (i : Nat) : Prop :=
  if (enumValueAt e i).init.isSome then (known i).initial = some (known i).number
  else match i with
    | 0 => (known 0).number = 0
    | j + 1 => (known j).resolved = true ∧ (known (j + 1)).number = (known j).number + 1

/-- All values that are resolved have their numbers. -/
structure Counted (e : EnumDecl) (known : Nat → Known) : Prop where
  first : (known 0).resolved = false → (known 0).number = 0
  valued : ∀ i < e.values.length, (known i).resolved = true → Valued e known i

/-- Numbers stay right when one more value is resolved. -/
theorem Counted.resolve {known known' : Nat → Known} (h : Counted e known) (hi : i < e.values.length)
    (hopen : (known i).resolved = false) (hothers : ∀ j < e.values.length, j ≠ i → known' j = known j)
    (hdone : (known' i).resolved = true) (hvalued : Valued e known' i) : Counted e known' where
  first := by
    intro hfirst
    have hne : 0 ≠ i := by
      rintro rfl
      simp [hdone] at hfirst
    rw [hothers 0 (by omega) hne] at hfirst ⊢
    exact h.first hfirst
  valued := by
    intro j hj hresolved
    by_cases hji : j = i
    · subst hji
      exact hvalued
    · rw [hothers j hj hji] at hresolved
      have hold := h.valued j hj hresolved
      unfold Valued at hold ⊢
      split
      · rename_i hinit
        rw [if_pos hinit] at hold
        rw [hothers j hj hji]
        exact hold
      · rename_i hinit
        rw [if_neg hinit] at hold
        cases j with
        | zero =>
          show (known' 0).number = 0
          rw [hothers 0 hj hji]
          exact hold
        | succ k =>
          obtain ⟨hbefore, hnumber⟩ := hold
          have hne : k ≠ i := by
            rintro rfl
            simp [hopen] at hbefore
          show (known' k).resolved = true ∧ (known' (k + 1)).number = (known' k).number + 1
          rw [hothers (k + 1) hj hji, hothers k (by omega) hne]
          exact ⟨hbefore, hnumber⟩

/-! ### What steps leave alone -/

/-- While the values of the enumeration are computed, a step leaves them alone or fails. -/
def Calm (e : EnumDecl) (u unit : Nat) (x : Analysis α) : Prop :=
  ∀ s, s.place unit = u → unit < s.files.length → (s.record unit).focus.enum = some e → After x unit s fun _ s' =>
    Follows unit s s' ∧ (s'.Failed unit ∨ knowns e u s' = knowns e u s)

theorem knowns_eq (hnotes : s'.notes = s.notes) (hdeclarations : s'.declarations = s.declarations) :
    knowns e u s' = knowns e u s := by
  funext j
  simp only [knowns, Session.known, Session.note, hnotes, hdeclarations]

/-- To change the note of one value changes what is known of this value only. -/
theorem modifyNote_knowns (i : Nat) (f : Note → Note) : After (modifyNote (valueId e u i) f) unit s fun _ s' =>
    Follows unit s s' ∧ (∀ j, valueId e u j ≠ valueId e u i → knowns e u s' j = knowns e u s j) ∧
      s'.note (valueId e u i) = f (s.note (valueId e u i)) ∧ (knowns e u s' i).initial = (knowns e u s i).initial := by
  rw [after_modifyNote]
  refine ⟨.of_files rfl, fun j hj => ?_, (Session.note_set ..).trans (if_pos rfl), rfl⟩
  simp only [knowns, Session.known, Session.note, Table.get?_set, if_neg (Ne.symm hj)]

/-! ### Initial values -/

theorem setDeclaration_knowns (pos : Pos) (x : Expr) : After (setDeclaration ⟨u, pos⟩ (.enumInit x)) unit s fun _ s' =>
    Follows unit s s' ∧ (s'.known ⟨u, pos⟩).initial = x.integer? ∧
      ∀ j, valueId e u j ≠ ⟨u, pos⟩ → knowns e u s' j = knowns e u s j := by
  unfold setDeclaration
  rw [after_modify]
  refine ⟨.of_files rfl, ?_, fun j hj => ?_⟩
  · simp [Session.known, Table.get?_set, Declaration.integer?]
  · simp only [knowns, Session.known, Session.note, Table.get?_set, if_neg (Ne.symm hj)]

theorem enumInitial_gives {v : EnumValue} {x : Expr} (hcalm : Calm e u unit (sub.reduce false x))
    (hunit : unit < s.files.length) (hplace : s.place unit = u) : After (enumInitial sub e v x) unit s fun r s' =>
      Follows unit s s' ∧ (s'.Failed unit ∨ ∃ k, r = some k ∧ (s'.known ⟨u, v.name.pos⟩).initial = some k ∧
        ∀ j, valueId e u j ≠ ⟨u, v.name.pos⟩ → knowns e u s' j = knowns e u s j) := by
  unfold enumInitial
  rw [after_bind, after_focus]
  refine After.bind (modifyFocus_follows hunit fun _ => rfl) fun _ s₁ ⟨h₁, hfocus₁, hnotes₁, hdeclarations₁⟩ => ?_
  have hunit₁ := hunit.trans_le h₁.files
  have hplace₁ : s₁.place unit = u := h₁.place.trans hplace
  refine After.bind (hcalm s₁ hplace₁ hunit₁ (by rw [hfocus₁])) fun x' s₂ ⟨h₂, hknown₂⟩ => ?_
  have hunit₂ := hunit₁.trans_le h₂.files
  refine After.bind (modifyFocus_follows hunit₂ fun _ => rfl) fun _ s₃ ⟨h₃, _, hnotes₃, hdeclarations₃⟩ => ?_
  have hunit₃ := hunit₂.trans_le h₃.files
  have h := h₁.trans (h₂.trans h₃)
  have hid : (localId v.name.pos unit s₃).1 = ⟨u, v.name.pos⟩ := by
    rw [localId_place, h.place, hplace]
  rw [after_bind, after_localId hid]
  refine After.bind (setDeclaration_knowns (e := e) v.name.pos x') fun _ s₄ ⟨h₄, hinitial, hothers⟩ => ?_
  have hunit₄ := hunit₃.trans_le h₄.files
  split
  · rename_i k hvalue
    refine after_pure.mpr ⟨h.trans h₄, ?_⟩
    rcases hknown₂ with hfailed | hknown₂
    · exact .inl (h₄.failed (h₃.failed hfailed))
    · refine .inr ⟨k, rfl, by simp [hinitial, Expr.integer?, hvalue], fun j hj => ?_⟩
      rw [hothers j hj, knowns_eq hnotes₃ hdeclarations₃, hknown₂, knowns_eq hnotes₁ hdeclarations₁]
  · refine After.bind (complain_fails hunit₄ x'.span _) fun _ s₅ ⟨h₅, hfailed⟩ => ?_
    exact after_pure.mpr ⟨h.trans (h₄.trans h₅), .inl hfailed⟩
  · refine After.bind (complain_fails hunit₄ x'.span _) fun _ s₅ ⟨h₅, hfailed⟩ => ?_
    exact after_pure.mpr ⟨h.trans (h₄.trans h₅), .inl hfailed⟩

/-! ### One value -/

/-- The end of the computation of a value: its initial value, if there is one, and that it is resolved. -/
def settleValue (sub : Steps) (e : EnumDecl) (v : EnumValue) (id : DeclId) : Analysis Unit := do
  match v.init with
  | some x =>
    match ← enumInitial sub e v x with
    | some i => modifyNote id ({ · with value := some (.int i) })
    | none => pure ()
  | none => pure ()
  modifyNote id ({ · with isResolved := true, isBusy := false })

theorem settleValue_known (hcalm : ∀ x, (enumValueAt e i).init = some x → Calm e u unit (sub.reduce false x))
    (hunit : unit < s.files.length) (hplace : s.place unit = u) :
    After (settleValue sub e (enumValueAt e i) (valueId e u i)) unit s fun _ s' => Follows unit s s' ∧ (s'.Failed unit ∨
      (∀ j, valueId e u j ≠ valueId e u i → knowns e u s' j = knowns e u s j) ∧ (knowns e u s' i).resolved = true ∧
      if (enumValueAt e i).init.isSome then (knowns e u s' i).initial = some (knowns e u s' i).number
      else (knowns e u s' i).number = (knowns e u s i).number) := by
  unfold settleValue
  cases hinit : (enumValueAt e i).init with
  | none =>
    refine (modifyNote_knowns i _).mono fun _ s' ⟨h, hothers, hnote, _⟩ => ⟨h, .inr ⟨hothers, ?_, ?_⟩⟩
    · simp [knowns, Session.known, hnote]
    · simp [knowns, Session.known, hnote, Note.number]
  | some x =>
    refine After.bind (enumInitial_gives (hcalm x hinit) hunit hplace) fun r s₁ ⟨h₁, hgives⟩ => ?_
    cases r with
    | none =>
      refine (modifyNote_knowns i _).mono fun _ s₂ ⟨h₂, _⟩ => ⟨h₁.trans h₂, .inl ?_⟩
      rcases hgives with hfailed | ⟨k, hk, -⟩
      · exact h₂.failed hfailed
      · cases hk
    | some k =>
      refine After.bind (modifyNote_knowns i _) fun _ s₂ ⟨h₂, hothers₂, hnote₂, hinitial₂⟩ => ?_
      refine (modifyNote_knowns i _).mono fun _ s₃ ⟨h₃, hothers₃, hnote₃, hinitial₃⟩ => ⟨h₁.trans (h₂.trans h₃), ?_⟩
      rcases hgives with hfailed | ⟨k', hk, hinitial, hothers⟩
      · exact .inl (h₃.failed (h₂.failed hfailed))
      · cases hk
        refine .inr ⟨fun j hj => ?_, ?_, ?_⟩
        · rw [hothers₃ j hj, hothers₂ j hj, hothers j hj]
        · simp [knowns, Session.known, hnote₃]
        · have hnumber : (knowns e u s₃ i).number = k := by simp [knowns, Session.known, hnote₃, hnote₂, Note.number]
          rw [hinitial₃, hinitial₂, hnumber, Option.isSome_some, if_pos rfl]
          exact hinitial

/-- A session that a step has gone on to that resolves values up to the index `m`. Unless the file has errors, values
that were resolved are as they were, as are those beyond `m`, and numbers stay right. -/
structure Goes (e : EnumDecl) (u unit m : Nat) (s s' : Session) : Prop extends Follows unit s s' where
  numbers : s'.Failed unit ∨ (Counted e (knowns e u s) → Counted e (knowns e u s')) ∧
    ∀ j < e.values.length, (knowns e u s j).resolved = true ∨ m < j → knowns e u s' j = knowns e u s j

/-- The values of an enumeration stand at different places. -/
def Separate (e : EnumDecl) : Prop :=
  ∀ i < e.values.length, ∀ j < e.values.length, (enumValueAt e i).name.pos = (enumValueAt e j).name.pos → i = j

theorem Separate.ne (h : Separate e) {j : Nat} (hi : i < e.values.length) (hj : j < e.values.length) (hne : j ≠ i) :
    valueId e u j ≠ valueId e u i := fun heq => hne (h j hj i hi (DeclId.mk.inj heq).2)

theorem enumValueStep_goes (hseparate : Separate e) (hi : i < e.values.length)
    (hcalm : ∀ x, (enumValueAt e i).init = some x → Calm e u unit (sub.reduce false x))
    {previous : Option (Analysis Int64)}
    (hnone : previous = none → i = 0)
    (hsome : ∀ p, previous = some p → ∃ j, i = j + 1 ∧ ∀ s : Session, unit < s.files.length → s.place unit = u →
      After p unit s fun k s' => Goes e u unit j s s' ∧
        (s'.Failed unit ∨ (knowns e u s' j).resolved = true ∧ k = (knowns e u s' j).number))
    (hunit : unit < s.files.length) (hplace : s.place unit = u) :
    After (enumValueStep sub e (enumValueAt e i) previous) unit s fun _ s' =>
      Goes e u unit i s s' ∧ (s'.Failed unit ∨ (knowns e u s' i).resolved = true) := by
  have hid : (localId (enumValueAt e i).name.pos unit s).1 = valueId e u i := by
    rw [localId_place, hplace]
    rfl
  unfold enumValueStep
  rw [after_bind, after_localId hid, after_bind, after_note]
  split
  · rename_i hresolved
    refine after_pure.mpr ⟨⟨.of_files rfl, .inr ⟨id, fun _ _ _ => rfl⟩⟩, .inr hresolved⟩
  split
  · refine (complain_fails hunit _ _).mono fun _ s' ⟨h, hfailed⟩ => ⟨⟨h, .inl hfailed⟩, .inl hfailed⟩
  rename_i hresolved hbusy
  have hopen : (knowns e u s i).resolved = false := by simpa [knowns, Session.known] using hresolved
  refine After.bind (modifyNote_knowns i _) fun _ s₁ ⟨h₁, hothers₁, hnote₁, hinitial₁⟩ => ?_
  have hknown₁ : knowns e u s₁ = knowns e u s := by
    funext j
    by_cases hj : valueId e u j = valueId e u i
    · have hsame : knowns e u s₁ i = knowns e u s i := by
        unfold knowns Session.known
        rw [hnote₁]
        exact congrArg (Known.mk _ _) hinitial₁
      unfold knowns at hsame ⊢
      rw [hj]
      exact hsame
    · exact hothers₁ j hj
  have hunit₁ := hunit.trans_le h₁.files
  have hplace₁ := h₁.place.trans hplace
  cases previous with
  | none =>
    obtain rfl := hnone rfl
    refine (settleValue_known hcalm hunit₁ hplace₁).mono fun _ s₂ ⟨h₂, hknown₂⟩ => ?_
    rcases hknown₂ with hfailed | ⟨hothers, hdone, hnumber⟩
    · exact ⟨⟨h₁.trans h₂, .inl hfailed⟩, .inl hfailed⟩
    rw [hknown₁] at hothers hnumber
    refine ⟨⟨h₁.trans h₂, .inr ⟨fun h => ?_, fun j hj hwhich => ?_⟩⟩, .inr hdone⟩
    · refine h.resolve hi hopen (fun j hj hne => hothers j (hseparate.ne hi hj hne)) hdone ?_
      unfold Valued
      split
      · rename_i hinit
        rwa [if_pos hinit] at hnumber
      · rename_i hinit
        rw [if_neg hinit] at hnumber
        exact hnumber.trans (h.first hopen)
    · refine hothers j (hseparate.ne hi hj ?_)
      rintro rfl
      simp [hopen] at hwhich
  | some p =>
    obtain ⟨j, rfl, hp⟩ := hsome p rfl
    refine After.bind (hp s₁ hunit₁ hplace₁) fun k s₂ ⟨h₂, hdone₂⟩ => ?_
    have hunit₂ := hunit₁.trans_le h₂.files
    refine After.bind (modifyNote_knowns (j + 1) _) fun _ s₃ ⟨h₃, hothers₃, hnote₃, _⟩ => ?_
    have hplace₃ : s₃.place unit = u := h₃.place.trans (h₂.place.trans hplace₁)
    refine (settleValue_known hcalm (hunit₂.trans_le h₃.files) hplace₃).mono fun _ s₄ ⟨h₄, hknown₄⟩ => ?_
    have hfollows := h₁.trans (h₂.toFollows.trans (h₃.trans h₄))
    have hfails : s₂.Failed unit → Goes e u unit (j + 1) s s₄ ∧
        (s₄.Failed unit ∨ (knowns e u s₄ (j + 1)).resolved = true) := by
      intro hfailed
      have hfailed₄ := h₄.failed (h₃.failed hfailed)
      exact ⟨⟨hfollows, .inl hfailed₄⟩, .inl hfailed₄⟩
    rcases h₂.numbers with hfailed | ⟨hcounted, hkept⟩
    · exact hfails hfailed
    rcases hdone₂ with hfailed | ⟨hbefore, hk⟩
    · exact hfails hfailed
    rcases hknown₄ with hfailed | ⟨hothers, hdone, hnumber⟩
    · exact ⟨⟨hfollows, .inl hfailed⟩, .inl hfailed⟩
    rw [hknown₁] at hcounted hkept
    have hothers₄ : ∀ i < e.values.length, i ≠ j + 1 → knowns e u s₄ i = knowns e u s₂ i := by
      intro i hi' hne
      rw [hothers i (hseparate.ne hi hi' hne), hothers₃ i (hseparate.ne hi hi' hne)]
    refine ⟨⟨hfollows, .inr ⟨fun h => ?_, fun i hi' hwhich => ?_⟩⟩, .inr hdone⟩
    · have hopen₂ : (knowns e u s₂ (j + 1)).resolved = false := by
        rw [hkept (j + 1) hi (.inr (Nat.lt_succ_self j))]
        exact hopen
      refine (hcounted h).resolve hi hopen₂ hothers₄ hdone ?_
      unfold Valued
      split
      · rename_i hinit
        rwa [if_pos hinit] at hnumber
      · rename_i hinit
        rw [if_neg hinit] at hnumber
        have hnext : (knowns e u s₃ (j + 1)).number = k + 1 := by simp [knowns, Session.known, hnote₃, Note.number]
        show (knowns e u s₄ j).resolved = true ∧ (knowns e u s₄ (j + 1)).number = (knowns e u s₄ j).number + 1
        rw [hothers₄ j (by omega) (by omega), hnumber, hnext, hk]
        exact ⟨hbefore, rfl⟩
    · have hne : i ≠ j + 1 := by
        rintro rfl
        simp [hopen] at hwhich
      rw [hothers₄ i hi' hne]
      exact hkept i hi' (hwhich.imp_right fun hlt => by omega)

/-- Each value is resolved, those before it first. -/
theorem resolveEnumValue_goes (hseparate : Separate e)
    (hcalm : ∀ i < e.values.length, ∀ x, (enumValueAt e i).init = some x → Calm e u unit (sub.reduce false x))
    (hi : i < e.values.length) (hunit : unit < s.files.length) (hplace : s.place unit = u) :
    After (resolveEnumValue sub e i) unit s fun _ s' =>
      Goes e u unit i s s' ∧ (s'.Failed unit ∨ (knowns e u s' i).resolved = true) := by
  induction i generalizing s with
  | zero => exact enumValueStep_goes hseparate hi (hcalm 0 hi) (fun _ => rfl) nofun hunit hplace
  | succ j ih =>
    refine enumValueStep_goes hseparate hi (hcalm (j + 1) hi) nofun (fun p hp => ⟨j, rfl, ?_⟩) hunit hplace
    cases hp
    intro s hunit hplace
    refine After.bind (ih (by omega) hunit hplace) fun _ s' ⟨h, hdone⟩ => ?_
    have hid : (localId (enumValueAt e j).name.pos unit s').1 = valueId e u j := by
      rw [localId_place, h.place, hplace]
      rfl
    rw [after_bind, after_localId hid, after_bind, after_note, after_pure]
    exact ⟨h, hdone.imp_right fun hresolved => ⟨hresolved, rfl⟩⟩

/-! ### All values -/

/-- The entry that the value at an index gets. -/
def entryAt (e : EnumDecl) (known : Nat → Known) (i : Nat) : EnumEntry := ⟨(enumValueAt e i).name.name, (known i).number⟩

/-- The entries are computed one after another. -/
theorem entries_go (hseparate : Separate e)
    (hcalm : ∀ i < e.values.length, ∀ x, (enumValueAt e i).init = some x → Calm e u unit (sub.reduce false x))
    {n : Nat} (hn : n ≤ e.values.length) (hunit : unit < s.files.length) (hplace : s.place unit = u) :
    After ((List.range n).mapM fun i => do
      resolveEnumValue sub e i
      let v := enumValueAt e i
      return (⟨v.name.name, (← note (← localId v.name.pos)).number⟩ : EnumEntry)) unit s fun entries s' =>
      Follows unit s s' ∧ (s'.Failed unit ∨ (Counted e (knowns e u s) → Counted e (knowns e u s')) ∧
        (∀ i < n, (knowns e u s' i).resolved = true) ∧ entries = (List.range n).map (entryAt e (knowns e u s'))) := by
  induction n with
  | zero => exact after_pure.mpr ⟨.of_files rfl, .inr ⟨id, by simp, rfl⟩⟩
  | succ n ih =>
    rw [List.range_succ, List.mapM_append]
    refine After.bind (ih (by omega)) fun entries s₁ h₁ => ?_
    obtain ⟨h₁, hall⟩ := h₁
    have hunit₁ := hunit.trans_le h₁.files
    have hplace₁ := h₁.place.trans hplace
    rw [List.mapM_cons, List.mapM_nil]
    simp only [after_bind]
    refine After.mono (resolveEnumValue_goes hseparate hcalm hn hunit₁ hplace₁) fun _ s₂ h₂ => ?_
    obtain ⟨h₂, hdone⟩ := h₂
    have hid : (localId (enumValueAt e n).name.pos unit s₂).1 = valueId e u n := by
      rw [localId_place, h₂.place, hplace₁]
      rfl
    rw [after_localId hid, after_note]
    simp only [after_pure]
    refine ⟨h₁.trans h₂.toFollows, ?_⟩
    rcases hall with hfailed | ⟨hcounted, hresolved, rfl⟩
    · exact .inl (h₂.failed hfailed)
    rcases h₂.numbers with hfailed | ⟨hcounted₂, hkept⟩
    · exact .inl hfailed
    rcases hdone with hfailed | hdone
    · exact .inl hfailed
    have hsame : ∀ i < n, knowns e u s₂ i = knowns e u s₁ i := fun i hi => hkept i (by omega) (.inl (hresolved i hi))
    refine .inr ⟨fun h => hcounted₂ (hcounted h), fun i hi => ?_, ?_⟩
    · by_cases hin : i = n
      · rw [hin]
        exact hdone
      · rw [hsame i (by omega)]
        exact hresolved i (by omega)
    · rw [List.map_append, List.map_singleton]
      congr 1
      refine List.map_congr_left fun i hi => ?_
      rw [entryAt, entryAt, hsame i (List.mem_range.mp hi)]

theorem enumTypeName_same (cls : DeclId) (name : Text) : After (enumTypeName cls name) unit s fun _ s' => s' = s := by
  have hclass : After (className cls) unit s fun _ s' => s' = s := by
    unfold className
    refine After.bind (R := fun _ s' => s' = s) rfl fun c s' hs => ?_
    split
    all_goals exact hs
  unfold enumTypeName
  refine After.bind (R := fun _ s' => s' = s) rfl fun c s' hs => ?_
  subst hs
  split
  · exact rfl
  · exact hclass

/-- The entries of a counted enumeration: names are as written, and each number is the initial value or, without
one, zero or one more than the number before. -/
structure Numbered (e : EnumDecl) (u : Nat) (s : Session) (entries : List EnumEntry) : Prop where
  names : entries.map EnumEntry.name = e.values.map (·.name.name)
  numbers : ∀ (i : Nat) (v : EnumValue) (a : EnumEntry), e.values[i]? = some v → entries[i]? = some a →
    if v.init.isSome then (s.declarations.get? ⟨u, v.name.pos⟩).bind Declaration.integer? = some a.value
    else i = 0 ∧ a.value = 0 ∨ ∃ j b, i = j + 1 ∧ entries[j]? = some b ∧ a.value = b.value + 1

theorem enumValueAt_of_getElem? {v : EnumValue} (h : e.values[i]? = some v) : enumValueAt e i = v := by
  rw [enumValueAt, h]
  rfl

theorem numbered_of_counted (h : Counted e (knowns e u s))
    (hresolved : ∀ i < e.values.length, (knowns e u s i).resolved = true) :
    Numbered e u s ((List.range e.values.length).map (entryAt e (knowns e u s))) where
  names := by
    refine List.ext_getElem (by simp) fun i hi hi' => ?_
    have hlt : i < e.values.length := by simpa using hi'
    simp [entryAt, enumValueAt, List.getElem?_eq_getElem hlt]
  numbers := by
    intro i v a hv ha
    have hi : i < e.values.length := (List.getElem?_eq_some_iff.mp hv).1
    obtain rfl : entryAt e (knowns e u s) i = a := by
      simpa [List.getElem?_map, List.getElem?_range hi] using ha
    have hvalued := h.valued i hi (hresolved i hi)
    unfold Valued at hvalued
    rw [enumValueAt_of_getElem? hv] at hvalued
    split
    · rename_i hinit
      rw [if_pos hinit] at hvalued
      rw [← enumValueAt_of_getElem? hv]
      exact hvalued
    · rename_i hinit
      rw [if_neg hinit] at hvalued
      cases i with
      | zero => exact .inl ⟨rfl, hvalued⟩
      | succ j =>
        refine .inr ⟨j, entryAt e (knowns e u s) j, rfl, ?_, hvalued.2⟩
        simp [List.getElem?_range (by omega : j < e.values.length)]

theorem resolveEnum_numbers (hseparate : Separate e)
    (hcalm : ∀ i < e.values.length, ∀ x, (enumValueAt e i).init = some x → Calm e u unit (sub.reduce false x))
    (hunit : unit < s.files.length) (hplace : s.place unit = u) (hcounted : Counted e (knowns e u s))
    (hfresh : (s.note ⟨u, e.anchor⟩).type.isSet = false) :
    After (resolveEnum sub e) unit s fun _ s' => ¬ s'.Failed unit → ∃ entries, Numbered e u s' entries ∧
      (e.name.isSome = true → (s'.note ⟨u, e.anchor⟩).type.entries = entries ∧
        (s'.note ⟨u, e.anchor⟩).value = some (s'.note ⟨u, e.anchor⟩).type.enumDictionary) := by
  have hid : (localId e.anchor unit s).1 = ⟨u, e.anchor⟩ := by rw [localId_place, hplace]
  unfold resolveEnum
  rw [after_bind, after_localId hid, after_bind, after_note, hfresh]
  refine After.bind (entries_go hseparate hcalm le_rfl hunit hplace) fun entries s₁ ⟨h₁, hall⟩ => ?_
  cases hname : e.name with
  | none =>
    show After (modifyNote _ _) unit s₁ _
    rw [after_modifyNote]
    intro hok
    rcases hall with hfailed | ⟨hkeeps, hresolved, rfl⟩
    · exact absurd hfailed hok
    · have hnumbered := numbered_of_counted (hkeeps hcounted) hresolved
      exact ⟨_, ⟨hnumbered.names, hnumbered.numbers⟩, nofun⟩
  | some n =>
    refine After.bind currentClass_same fun cls s₂ hs => ?_
    subst hs
    refine After.bind (enumTypeName_same cls n.name) fun name s₃ hs => ?_
    subst hs
    rw [after_modifyNote, Session.note_set, if_pos rfl]
    intro hok
    rcases hall with hfailed | ⟨hkeeps, hresolved, rfl⟩
    · exact absurd hfailed hok
    · have hnumbered := numbered_of_counted (hkeeps hcounted) hresolved
      exact ⟨_, ⟨hnumbered.names, hnumbered.numbers⟩, fun _ => ⟨rfl, rfl⟩⟩

/-! ### Initial values from literals and values -/

/-- Initial values that are made by operators from literals and other values of the enumeration. -/
inductive Plain (e : EnumDecl) : Expr → Prop
  | literal (l : Literal) : Plain e (.literal l)
  | value {id : Ident} (h : ∃ v ∈ e.values, v.name.name = id.name) : Plain e (.ident id)
  | unary {x : Expr} (pos : Pos) (op : UnaryOp) (info : Info) (hx : Plain e x) : Plain e (.unary pos op x info)
  | binary {x y : Expr} (op : BinaryOp) (info : Info) (hx : Plain e x) (hy : Plain e y) : Plain e (.binary x op y info)

/-- A step that leaves the values of the enumeration alone while they are computed, and goes on computing them. -/
def Idle (e : EnumDecl) (u unit : Nat) (x : Analysis α) : Prop :=
  ∀ s, s.place unit = u → unit < s.files.length → (s.record unit).focus.enum = some e → After x unit s fun _ s' =>
    Follows unit s s' ∧ (s'.record unit).focus.enum = some e ∧ knowns e u s' = knowns e u s

section Idle

variable {α β : Type}

theorem Idle.calm {x : Analysis α} (h : Idle e u unit x) : Calm e u unit x := fun s hplace hunit henum =>
  (h s hplace hunit henum).mono fun _ _ ⟨hfollows, _, hknown⟩ => ⟨hfollows, .inr hknown⟩

theorem Idle.bind {x : Analysis α} {f : α → Analysis β} (hx : Idle e u unit x) (hf : ∀ a, Idle e u unit (f a)) :
    Idle e u unit (x >>= f) := by
  intro s hplace hunit henum
  refine After.bind (hx s hplace hunit henum) fun a s₁ ⟨h₁, henum₁, hknown₁⟩ => ?_
  refine (hf a s₁ (h₁.place.trans hplace) (hunit.trans_le h₁.files) henum₁).mono fun b s₂ ⟨h₂, henum₂, hknown₂⟩ => ?_
  exact ⟨h₁.trans h₂, henum₂, hknown₂.trans hknown₁⟩

theorem idle_same {x : Analysis α} (h : ∀ unit s, (x unit s).2 = s) : Idle e u unit x := by
  intro s _ _ henum
  unfold After
  rw [h]
  exact ⟨.of_files rfl, henum, rfl⟩

theorem idle_pure (a : α) : Idle e u unit (pure a) := idle_same fun _ _ => rfl

theorem idle_modifyFile {f : FileRecord → FileRecord}
    (hf : ∀ r, (f r).focus = r.focus ∧ (r.errors ≠ [] → (f r).errors ≠ [])) : Idle e u unit (modifyFile f) := by
  intro s _ hunit henum
  obtain ⟨r, hr⟩ : ∃ r, s.files[unit]? = some r := ⟨_, List.getElem?_eq_getElem hunit⟩
  rw [after_modifyFile]
  refine ⟨⟨by simp, ?_, ?_⟩, ?_, rfl⟩
  · simp [Session.place, Session.record, hr, hf]
  · simpa [Session.Failed, Session.record, hr] using (hf r).2
  · simpa [Session.record, hr, hf] using henum

theorem mark_idle (span : Span) : Idle e u unit (mark span) := idle_modifyFile fun _ => ⟨rfl, id⟩

theorem complain_idle (span : Span) (c : Complaint) : Idle e u unit (complain span c) := by
  unfold complain
  exact Idle.bind (idle_modifyFile fun _ => ⟨rfl, fun _ => List.cons_ne_nil _ _⟩) fun _ => mark_idle span

/-- A step that is only taken under a condition, before another one. -/
theorem Idle.ifThen {c : Prop} [Decidable c] {x : Analysis PUnit} {y : Analysis β} (hx : Idle e u unit x)
    (hy : Idle e u unit y) : Idle e u unit (if c then x >>= fun _ => y else y) := by
  split
  · exact hx.bind fun _ => hy
  · exact hy

theorem current_idle : Idle e u unit current := by
  refine idle_same fun unit s => ?_
  show After current unit s fun _ s' => s' = s
  unfold current
  simp only [after_bind, after_self, after_fileRecord]

theorem warn_idle (span : Span) (c : Caution) : Idle e u unit (warn span c) := by
  unfold warn
  refine Idle.ifThen (mark_idle span) ((idle_same fun _ _ => rfl).bind fun env => current_idle.bind fun r => ?_)
  split
  · exact idle_pure ()
  split
  · exact idle_modifyFile fun _ => ⟨rfl, fun _ => List.cons_ne_nil _ _⟩
  · exact idle_modifyFile fun _ => ⟨rfl, id⟩

theorem unaryInfo_idle (span : Span) (op : Operator) (x : Expr) : Idle e u unit (unaryInfo span op x) := by
  unfold unaryInfo
  split
  · split
    · exact idle_pure _
    · exact (complain_idle _ _).bind fun _ => idle_pure _
  · split
    · exact (mark_idle _).bind fun _ => idle_pure _
    · split
      · exact idle_pure _
      · exact (idle_same fun _ _ => rfl).bind fun _ => (complain_idle _ _).bind fun _ => idle_pure _

theorem binaryInfo_idle (span : Span) (op : BinaryOp) (x y : Expr) : Idle e u unit (binaryInfo span op x y) := by
  unfold binaryInfo
  split
  · refine Idle.ifThen (warn_idle _ _) ?_
    split
    · exact idle_pure _
    · split
      · exact (complain_idle _ _).bind fun _ => idle_pure _
      · exact (complain_idle _ _).bind fun _ => idle_pure _
  · refine Idle.ifThen (warn_idle _ _) ?_
    split
    · exact (mark_idle _).bind fun _ => idle_pure _
    · split
      · exact idle_pure _
      · split
        · exact (idle_same fun _ _ => rfl).bind fun _ => (idle_same fun _ _ => rfl).bind fun _ =>
            (complain_idle _ _).bind fun _ => idle_pure _
        · exact idle_pure _

theorem localId_idle (anchor : Pos) : Idle e u unit (localId anchor) := by
  refine idle_same fun unit s => ?_
  show After (localId anchor) unit s fun _ s' => s' = s
  rw [after_localId rfl]

/-- A name of a value that is being computed is looked up among the values. -/
theorem reduceIdent_idle {id : Ident} (h : ∃ v ∈ e.values, v.name.name = id.name) :
    Idle e u unit (reduceIdent sub id false) := by
  intro s hplace hunit henum
  obtain ⟨v, hv⟩ : ∃ v, e.values.find? (·.name.name = id.name) = some v := by
    apply Option.isSome_iff_exists.mp
    rw [List.find?_isSome]
    obtain ⟨v, hv, hname⟩ := h
    exact ⟨v, hv, by simpa using hname⟩
  have hvalue : Idle e u unit (reduceEnumValue id v) := by
    unfold reduceEnumValue
    refine (localId_idle _).bind fun decl => (idle_same fun _ _ => rfl).bind fun n => ?_
    split
    · exact Idle.ifThen (complain_idle _ _) (idle_pure _)
    · exact Idle.ifThen (complain_idle _ _) (idle_pure _)
  unfold reduceIdent
  rw [after_bind, after_focus, henum]
  dsimp only
  rw [Option.bind_some, hv]
  exact hvalue s hplace hunit henum

/-- Expressions of literals and values are analysed without touching the values. -/
theorem plain_idle (fuel : Nat) (root : Bool) {x : Expr} (h : Plain e x) :
    Idle e u unit ((steps fuel).reduce root x) := by
  have reduced (fuel : Nat) (root : Bool) (x : Expr) (hparts : Idle e u unit (reduceParts (steps fuel) root x)) :
      Idle e u unit ((steps (fuel + 1)).reduce root x) := by
    show Idle e u unit (reduce (steps fuel) root x)
    unfold reduce
    split
    · exact idle_pure _
    · exact hparts.bind fun _ => idle_pure _
  induction h generalizing fuel root with
  | literal l =>
    cases fuel with
    | zero => exact idle_pure _
    | succ fuel => exact reduced fuel root _ (idle_pure _)
  | value h =>
    cases fuel with
    | zero => exact idle_pure _
    | succ fuel => exact reduced fuel root _ ((reduceIdent_idle h).bind fun _ => idle_pure _)
  | unary pos op info hx ih =>
    cases fuel with
    | zero => exact idle_pure _
    | succ fuel =>
      exact reduced fuel root _ ((ih fuel false).bind fun x => (unaryInfo_idle _ _ x).bind fun _ => idle_pure _)
  | binary op info hx hy ihx ihy =>
    cases fuel with
    | zero => exact idle_pure _
    | succ fuel =>
      exact reduced fuel root _ ((ihx fuel false).bind fun x => (ihy fuel false).bind fun y =>
        (binaryInfo_idle _ op x y).bind fun _ => idle_pure _)

end Idle

/-! ### Attributes, dictionaries and numbers -/

/-- The name `n` at a column of the first line. -/
def nameAt (column : Nat) (n : Text) : Ident := { pos := ⟨1, column⟩, name := n }

/-- The enumeration `enum E {A = 2, B, C = B}`. -/
def threeValues : EnumDecl where
  pos := ⟨1, 1⟩
  name := some (nameAt 6 "E")
  values := [⟨nameAt 9 "A", some (.literal { pos := ⟨1, 13⟩, raw := "2", value := .int 2 })⟩, ⟨nameAt 16 "B", none⟩,
    ⟨nameAt 19 "C", some (.ident (nameAt 23 "B"))⟩]
  close := ⟨1, 24⟩

/-- A session with an empty file. -/
def emptyFile : Session := { emptySession with files := [{ file := default }] }

end Analysis

namespace Compiler

/-- A file with an enumeration that gives a name twice, and the two ways to look it up. -/
def repeatedNameProject : Compiler :=
  ofSource "res://test.gd" "enum E \x7bA = 1, A = 2\x7d\nfunc f():\n\treturn E.A\nfunc g():\n\treturn E[\"A\"]\n"

end Compiler

end GameScript
