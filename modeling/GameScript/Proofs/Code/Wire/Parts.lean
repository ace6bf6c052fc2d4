import GameScript.Proofs.Code.Wire.Fields

/-!
# Reading the parts of a program back

Types, variables and functions are read back as they were. The proof for a message has one fact for each
of its fields, stated for every state in which the field is not set yet; they are put together in the
order in which the fields are written.
-/

namespace GameScript

/-! ### Numbers that fit -/

/-- A signed number of 32 bits. -/
def Fits32 (i : Int) : Prop := -2 ^ 31 ≤ i ∧ i < 2 ^ 31

/-- A signed number of 64 bits. -/
def Fits64 (i : Int) : Prop := -2 ^ 63 ≤ i ∧ i < 2 ^ 63

theorem Fits32.fits64 {i : Int} (h : Fits32 i) : Fits64 i := by
  unfold Fits32 at h
  unfold Fits64
  omega

/-- A place whose line and column are numbers of 32 bits. -/
structure Place.Fits (p : Place) : Prop where
  line : Fits32 p.line
  col : Fits32 p.col

namespace Wire

open Reading

variable {σ : Type} {step : Nat → Nat → σ → Reading σ} {s : σ}

/-! ### Fields of a record

A step for a field sets a part of the record, `f` being the record with the part left open. A field that
was not written has left the part at its default. -/

section Record

variable {s' : σ} {num : Nat} (hnum : 0 < num ∧ num < 1000)
include hnum

theorem consumes_word32 {i : Int} {f : Int → σ} (hi : Fits32 i)
    (hstep : step num varintType s = do return f (signed 32 (← number varintType))) (hs : f 0 = s)
    (hs' : f i = s') : Consumes step (numberField num (word i)) s s' := by
  refine consumes_numberField hnum ?_ fun h => ?_
  · rw [hstep]
    exact (gives_number (word_lt i)).then (gives_of_eq (by rw [signed_word_32 hi.1 hi.2, hs']))
  · rw [← hs', eq_zero_of_word hi.fits64.1 hi.fits64.2 h, hs]

theorem consumes_word64 {i : Int} {f : Int → σ} (hi : Fits64 i)
    (hstep : step num varintType s = do return f (signed 64 (← number varintType))) (hs : f 0 = s)
    (hs' : f i = s') : Consumes step (numberField num (word i)) s s' := by
  refine consumes_numberField hnum ?_ fun h => ?_
  · rw [hstep]
    exact (gives_number (word_lt i)).then (gives_of_eq (by rw [signed_word_64 hi.1 hi.2, hs']))
  · rw [← hs', eq_zero_of_word hi.1 hi.2 h, hs]

theorem consumes_text {t : Text} {f : Text → σ} (ht : t.bytes.length < 2 ^ 64)
    (hstep : step num bytesType s = do return f (← text bytesType)) (hs : f "" = s) (hs' : f t = s') :
    Consumes step (textField num t) s s' := by
  refine consumes_textField hnum ?_ fun h => ?_
  · rw [hstep]
    exact (gives_text ht).then (gives_of_eq hs')
  · rw [← hs', h, hs]

theorem consumes_flag {b : Bool} {f : Bool → σ}
    (hstep : step num varintType s = do return f (← flag varintType)) (hs : f false = s)
    (hs' : f b = s') : Consumes step (flagField num b) s s' := by
  refine consumes_numberField hnum ?_ fun h => ?_
  · rw [hstep]
    exact (gives_flag b).then (gives_of_eq hs')
  · rw [← hs', show b = false by cases b <;> simp_all, hs]

/-- A field with a message of its own. -/
theorem consumes_part {α : Type} {data : List UInt8} {read : List UInt8 → Except DecodeFault α} {a : α}
    {f : α → σ} (hd : data.length < 2 ^ 64) (hread : read data = .ok a)
    (hstep : step num bytesType s = do return f (← ofPart (read (← bytes bytesType))))
    (hs' : f a = s') : Consumes step (bytesField num data) s s' := by
  refine consumes_bytesField hnum ?_
  rw [hstep]
  exact (gives_bytes hd).then ((gives_ofPart hread).then (gives_of_eq hs'))

end Record

/-- Fields that are added to a list one after another, `g` being what is read of each. -/
theorem consumes_map {s' : σ} {α β : Type} {as : List α} {write : α → List UInt8} {g : α → β}
    {f : List β → σ} (h : ∀ a ∈ as, ∀ l, Consumes step (write a) (f l) (f (l ++ [g a]))) (hs : f [] = s)
    (hs' : f (as.map g) = s') : Consumes step (as.flatMap write) s s' := by
  have key : ∀ l, Consumes step (as.flatMap write) (f l) (f (l ++ as.map g)) := by
    induction as generalizing s' with
    | nil =>
      intro l
      rw [List.map_nil, List.append_nil]
      exact consumes_nil _
    | cons a as ih =>
      intro l
      have hrest := ih (fun b hb => h b (by simp [hb])) rfl (l ++ [g a])
      rw [List.append_assoc, List.singleton_append] at hrest
      exact (h a (by simp) l).append hrest
  rw [← hs, ← hs']
  exact key []

theorem consumes_list {s' : σ} {α : Type} {as : List α} {write : α → List UInt8} {f : List α → σ}
    (h : ∀ a ∈ as, ∀ l, Consumes step (write a) (f l) (f (l ++ [a]))) (hs : f [] = s) (hs' : f as = s') :
    Consumes step (as.flatMap write) s s' :=
  consumes_map (g := id) h hs (by rw [List.map_id, hs'])

theorem length_le_flatMap {α : Type} (write : α → List UInt8) {as : List α} {a : α} (h : a ∈ as) :
    (write a).length ≤ (as.flatMap write).length :=
  (List.sublist_flatten_of_mem (List.mem_map_of_mem h)).length_le

/-! ### Types -/

theorem readRuntimeType_runtimeType (t : RuntimeType) (fuel : Nat) (hf : (runtimeType t).length < fuel)
    (hl : (runtimeType t).length < 2 ^ 64) : readRuntimeType fuel (runtimeType t) = .ok t := by
  match t, fuel with
  | _, 0 => omega
  | ⟨kind, builtin, native, script, element⟩, fuel + 1 =>
    unfold runtimeType at hf hl
    simp only [List.length_append] at hf hl
    unfold readRuntimeType runtimeType
    extract_lets step
    refine readMessage_of_consumes ?_
    have h₁ : Consumes step (numberField 1 kind.toNat) {} { kind := kind } := by
      refine consumes_numberField (by decide) ?_ fun h => ?_
      · exact (gives_number (lt_trans kind.toNat_lt (by decide))).then (gives_of_eq (by simp))
      · rw [show kind = 0 from UInt8.toNat_inj.mp h]
    have h₂ : Consumes step (numberField 2 builtin.toNat) { kind := kind } { kind, builtin } := by
      refine consumes_numberField (by decide) ?_ fun h => ?_
      · exact (gives_number (lt_trans builtin.toNat_lt (by decide))).then (gives_of_eq (by simp))
      · rw [show builtin = 0 from UInt8.toNat_inj.mp h]
    have h₃ : Consumes step (textField 3 native) { kind, builtin } { kind, builtin, native } :=
      consumes_text (by decide) (by have := length_le_textField 3 native; omega) rfl rfl rfl
    have h₄ : Consumes step (textField 4 script) { kind, builtin, native }
        { kind, builtin, native, script } :=
      consumes_text (by decide) (by have := length_le_textField 4 script; omega) rfl rfl rfl
    refine (((h₁.append h₂).append h₃).append h₄).append ?_
    cases element with
    | none => exact consumes_nil _
    | some e =>
      have := length_le_bytesField 5 (runtimeType e)
      simp only at hf hl
      have he := readRuntimeType_runtimeType e fuel (by omega) (by omega)
      exact consumes_part (by decide) (by omega) he rfl rfl

theorem runtimeTypeOf_runtimeType {t : RuntimeType} (hl : (runtimeType t).length < 2 ^ 64) :
    runtimeTypeOf (runtimeType t) = .ok t :=
  readRuntimeType_runtimeType t _ (by omega) hl

/-! ### Variables -/

theorem slotOf_slot {s : VarSlot} (hp : s.place.Fits) (hl : (slot s).length < 2 ^ 64) :
    slotOf (slot s) = .ok s := by
  obtain ⟨name, ⟨line, col⟩, type⟩ := s
  have hname := length_le_textField 1 name
  have htype := length_le_bytesField 4 (runtimeType type)
  unfold slot at hl
  simp only [List.length_append] at hl
  unfold slotOf slot
  extract_lets step
  refine readMessage_of_consumes ?_
  have h₁ : Consumes step (textField 1 name) {} { name := name } :=
    consumes_text (by decide) (by omega) rfl rfl rfl
  have h₂ : Consumes step (numberField 2 (word line)) { name := name } { name, place := { line } } :=
    consumes_word32 (f := fun line => { name, place := { line := line } }) (by decide) hp.line rfl rfl rfl
  have h₃ : Consumes step (numberField 3 (word col)) { name, place := { line } }
      { name, place := { line, col } } :=
    consumes_word32 (f := fun col => { name, place := { line, col } }) (by decide) hp.col rfl rfl rfl
  have h₄ : Consumes step (bytesField 4 (runtimeType type)) { name, place := { line, col } }
      { name, place := { line, col }, type } :=
    consumes_part (by decide) (by omega) (runtimeTypeOf_runtimeType (by omega)) rfl rfl
  exact ((h₁.append h₂).append h₃).append h₄

theorem memberOf_member {m : MemberSlot} (hi : Fits64 m.index) (hl : (member m).length < 2 ^ 64) :
    memberOf (member m) = .ok m := by
  obtain ⟨name, index, getter, setter, type⟩ := m
  have hname := length_le_textField 1 name
  have hgetter := length_le_textField 3 getter
  have hsetter := length_le_textField 4 setter
  have htype := length_le_bytesField 5 (runtimeType type)
  unfold member at hl
  simp only [List.length_append] at hl
  unfold memberOf member
  extract_lets step
  refine readMessage_of_consumes ?_
  have h₁ : Consumes step (textField 1 name) {} { name := name } :=
    consumes_text (by decide) (by omega) rfl rfl rfl
  have h₂ : Consumes step (numberField 2 (word index)) { name := name } { name, index } :=
    consumes_word64 (f := fun index => { name, index }) (by decide) hi rfl rfl rfl
  have h₃ : Consumes step (textField 3 getter) { name, index } { name, index, getter } :=
    consumes_text (by decide) (by omega) rfl rfl rfl
  have h₄ : Consumes step (textField 4 setter) { name, index, getter } { name, index, getter, setter } :=
    consumes_text (by decide) (by omega) rfl rfl rfl
  have h₅ : Consumes step (bytesField 5 (runtimeType type)) { name, index, getter, setter }
      { name, index, getter, setter, type } :=
    consumes_part (by decide) (by omega) (runtimeTypeOf_runtimeType (by omega)) rfl rfl
  exact (((h₁.append h₂).append h₃).append h₄).append h₅

/-! ### Functions -/

/-- Every pair of a line table is read back. -/
theorem lineEntries_lineNumbers {es : List LineEntry} (h : ∀ e ∈ es, e.pc < 2 ^ 32 ∧ Fits32 e.line) :
    lineEntries (es.flatMap lineNumbers) = es := by
  induction es with
  | nil => rfl
  | cons e es ih =>
    obtain ⟨hpc, hline⟩ := h e (by simp)
    have h32 : twoTo 32 = 2 ^ 32 := by decide
    have hsigned : signed 32 e.line = e.line := by
      unfold signed
      unfold Fits32 at hline
      rw [h32, Int.bmod_def]
      omega
    show LineEntry.mk (e.pc % twoTo 32) (signed 32 (Varint.unfold (Varint.fold e.line))) ::
      lineEntries (es.flatMap lineNumbers) = _
    rw [ih fun e' he' => h e' (by simp [he']), Varint.unfold_fold, hsigned, h32, Nat.mod_eq_of_lt hpc]

theorem length_lineNumbers (es : List LineEntry) : (es.flatMap lineNumbers).length % 2 = 0 := by
  induction es with
  | nil => rfl
  | cons e es ih =>
    simp only [List.flatMap_cons, lineNumbers, List.length_append, List.length_cons, List.length_nil]
    omega

end Wire

/-- What holds of the numbers in a function of a program with so many scripts. -/
structure Function.Fits (scripts : Nat) (f : Function) : Prop where
  script : ∀ i ∈ f.script, i < scripts
  place : f.place.Fits
  params : ∀ s ∈ f.params, s.place.Fits
  locals : ∀ s ∈ f.locals, s.place.Fits
  captures : Fits64 f.captures
  minArgs : Fits64 f.minArgs
  maxArgs : Fits64 f.maxArgs
  entries : ∀ pc ∈ f.entries, pc < 2 ^ 32
  maxTemps : Fits64 f.maxTemps
  lines : ∀ e ∈ f.lines, e.pc < 2 ^ 32 ∧ Fits32 e.line

/-- A function as it is read: what only the compiler needs to know is gone. -/
def Function.stored (f : Function) : Function := { f with allocated := 0, released := 0 }

namespace Wire

open Reading

theorem functionOf_function {scripts : Nat} {f : Function} (h : f.Fits scripts)
    (hscripts : scripts < 2 ^ 63) (hl : (function f).length < 2 ^ 64) :
    functionOf scripts (function f) = .ok f.stored := by
  obtain ⟨name, script, ⟨line, col⟩, code, params, locals, captures, minArgs, maxArgs, entries, maxTemps,
    returns, isStatic, isCoroutine, lines, allocated, released⟩ := f
  have hname := length_le_textField 1 name
  have hcode := length_le_bytesField 5 code
  have hentries := length_le_packedField 11 entries
  have hreturns := length_le_bytesField 13 (runtimeType returns)
  have hlines := length_le_packedField 16 (lines.flatMap lineNumbers)
  have h32 : twoTo 32 = 2 ^ 32 := by decide
  unfold function at hl
  simp only [List.length_append] at hl
  have hslot : ∀ (slots : List VarSlot) (num : Nat),
      (slots.flatMap fun s => bytesField num (slot s)).length < 2 ^ 64 → ∀ s ∈ slots,
      (slot s).length < 2 ^ 64 := by
    intro slots num hlen s hs
    have h₁ := length_le_flatMap (fun s => bytesField num (slot s)) hs
    have h₂ := length_le_bytesField num (slot s)
    omega
  unfold functionOf function
  extract_lets step
  refine readMessage_of_consumes ?_
  have h₁ (g : Function) (hg : g.name = "") : Consumes step (textField 1 name) g { g with name } :=
    consumes_text (by decide) (by omega) rfl (by rw [← hg]) rfl
  have h₂ (g : Function) (hg : g.script = none) :
      Consumes step (reference 2 script) g { g with script } := by
    cases script with
    | none =>
      rw [show { g with script := none } = g by rw [← hg]]
      exact consumes_nil g
    | some i =>
      have hi : i < scripts := h.script i rfl
      refine consumes_numberField (by decide) ((gives_number (n := i + 1) (by omega)).then ?_) (by simp)
      have hok : ¬ ((i + 1 = 0 || scripts < i + 1) = true) := by simp; omega
      simp only [hok]
      exact gives_pure _
  have h₃ (g : Function) (hg : g.place = {}) :
      Consumes step (numberField 3 (word line)) g { g with place := { line := line } } :=
    consumes_word32 (f := fun line => { g with place := { line := line } }) (by decide) h.place.line
      (by simp only [step, hg]) (by rw [← hg]) rfl
  have h₄ (g : Function) (hg : g.place = { line := line }) :
      Consumes step (numberField 4 (word col)) g { g with place := { line, col } } :=
    consumes_word32 (f := fun col => { g with place := { line, col } }) (by decide) h.place.col
      (by simp only [step, hg]) (by rw [← hg]) rfl
  have h₅ (g : Function) : Consumes step (bytesField 5 code) g { g with code } :=
    consumes_bytesField (by decide) ((gives_bytes (by omega)).then (gives_pure _))
  have h₆ (g : Function) (hg : g.params = []) :
      Consumes step (params.flatMap fun s => bytesField 6 (slot s)) g { g with params } :=
    consumes_list (f := fun params => { g with params }) (fun s hs _ => consumes_part (by decide)
      (hslot params 6 (by omega) s hs) (slotOf_slot (h.params s hs) (hslot params 6 (by omega) s hs)) rfl
      rfl) (by rw [← hg]) rfl
  have h₇ (g : Function) (hg : g.locals = []) :
      Consumes step (locals.flatMap fun s => bytesField 7 (slot s)) g { g with locals } :=
    consumes_list (f := fun locals => { g with locals }) (fun s hs _ => consumes_part (by decide)
      (hslot locals 7 (by omega) s hs) (slotOf_slot (h.locals s hs) (hslot locals 7 (by omega) s hs)) rfl
      rfl) (by rw [← hg]) rfl
  have h₈ (g : Function) (hg : g.captures = 0) :
      Consumes step (numberField 8 (word captures)) g { g with captures } :=
    consumes_word64 (f := fun captures => { g with captures }) (by decide) h.captures rfl (by rw [← hg]) rfl
  have h₉ (g : Function) (hg : g.minArgs = 0) :
      Consumes step (numberField 9 (word minArgs)) g { g with minArgs } :=
    consumes_word64 (f := fun minArgs => { g with minArgs }) (by decide) h.minArgs rfl (by rw [← hg]) rfl
  have h₁₀ (g : Function) (hg : g.maxArgs = 0) :
      Consumes step (numberField 10 (word maxArgs)) g { g with maxArgs } :=
    consumes_word64 (f := fun maxArgs => { g with maxArgs }) (by decide) h.maxArgs rfl (by rw [← hg]) rfl
  have h₁₁ (g : Function) (hg : g.entries = []) :
      Consumes step (packedField 11 entries) g { g with entries } := by
    have hmod : entries.map (· % twoTo 32) = entries := by
      rw [List.map_congr_left fun pc hpc => Nat.mod_eq_of_lt (h32 ▸ h.entries pc hpc), List.map_id']
    refine consumes_packedField (by decide) ((gives_packed ?_ (by omega)).then ?_) fun he => ?_
    · exact fun pc hpc => lt_trans (h.entries pc hpc) (by decide)
    · exact gives_of_eq (by rw [hmod, hg, List.nil_append])
    · rw [he, ← hg]
  have h₁₂ (g : Function) (hg : g.maxTemps = 0) :
      Consumes step (numberField 12 (word maxTemps)) g { g with maxTemps } :=
    consumes_word64 (f := fun maxTemps => { g with maxTemps }) (by decide) h.maxTemps rfl (by rw [← hg]) rfl
  have h₁₃ (g : Function) : Consumes step (bytesField 13 (runtimeType returns)) g { g with returns } :=
    consumes_part (by decide) (by omega) (runtimeTypeOf_runtimeType (by omega)) rfl rfl
  have h₁₄ (g : Function) (hg : g.isStatic = false) :
      Consumes step (flagField 14 isStatic) g { g with isStatic } :=
    consumes_flag (by decide) rfl (by rw [← hg]) rfl
  have h₁₅ (g : Function) (hg : g.isCoroutine = false) :
      Consumes step (flagField 15 isCoroutine) g { g with isCoroutine } :=
    consumes_flag (by decide) rfl (by rw [← hg]) rfl
  have h₁₆ (g : Function) (hg : g.lines = []) :
      Consumes step (packedField 16 (lines.flatMap lineNumbers)) g { g with lines } := by
    refine consumes_packedField (by decide) ((gives_packed ?_ (by omega)).then ?_) fun he => ?_
    · intro n hn
      obtain ⟨e, he, hn⟩ := List.mem_flatMap.mp hn
      obtain ⟨hpc, hline⟩ := h.lines e he
      simp only [lineNumbers, List.mem_cons, List.not_mem_nil, or_false] at hn
      rcases hn with rfl | rfl
      · omega
      · exact Varint.fold_lt hline.fits64.1 hline.fits64.2
    · simp only [length_lineNumbers, ne_eq, not_true_eq_false, if_false]
      exact gives_of_eq (by rw [lineEntries_lineNumbers h.lines, hg, List.nil_append])
    · have hnil : lines = [] := by
        have := lineEntries_lineNumbers h.lines
        rw [he] at this
        exact this.symm
      rw [hnil, ← hg]
  exact ((((((((((((((((h₁ {} rfl).append (h₂ _ rfl)).append (h₃ _ rfl)).append (h₄ _ rfl)).append
    (h₅ _)).append (h₆ _ rfl)).append (h₇ _ rfl)).append (h₈ _ rfl)).append (h₉ _ rfl)).append
    (h₁₀ _ rfl)).append (h₁₁ _ rfl)).append (h₁₂ _ rfl)).append (h₁₃ _)).append (h₁₄ _ rfl)).append
    (h₁₅ _ rfl)).append (h₁₆ _ rfl))

end Wire

end GameScript
