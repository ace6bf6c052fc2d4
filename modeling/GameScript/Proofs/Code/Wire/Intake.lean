import GameScript.Proofs.Code.Wire.Programs

/-!
# What any bytes are read as

* `Reading.Ensures Q x` — whatever the step `x` reads, what it returns satisfies `Q`;
* `readMessage_ensures` — a property that no field breaks holds of the whole message;
* `Program.Sound` — references are to scripts and functions of the program, numbers fit, and everything is
  as it is stored;
* `Program.sound_of_decode` — **whatever bytes are decoded, the program is sound**.
-/

namespace GameScript

namespace Wire

namespace Reading

variable {α β : Type} {Q : α → Prop} {R : β → Prop}

/-- Whatever the step reads, what it returns satisfies `Q`. -/
def Ensures (Q : α → Prop) (x : Reading α) : Prop := ∀ c a c', x.run c = (.ok a, c') → Q a

theorem ensures_pure {a : α} (h : Q a) : Ensures Q (pure a) := fun c a' c' hrun => by
  cases hrun
  exact h

theorem ensures_throw (f : DecodeFault) : Ensures Q (throw f) := fun c a c' hrun => by cases hrun

theorem ensures_any (x : Reading α) : Ensures (fun _ => True) x := fun _ _ _ _ => trivial

theorem Ensures.bind {x : Reading β} {f : β → Reading α} (hx : Ensures R x)
    (hf : ∀ b, R b → Ensures Q (f b)) : Ensures Q (x >>= f) := by
  intro c a c' hrun
  rw [run_bind] at hrun
  split at hrun
  · rename_i b c₁ hb
    exact hf b (hx c b c₁ hb) c₁ a c' hrun
  · cases hrun

theorem ensures_bind {x : Reading β} {f : β → Reading α} (hf : ∀ b, Ensures Q (f b)) :
    Ensures Q (x >>= f) :=
  (ensures_any x).bind fun b _ => hf b

theorem ensures_ofPart {r : Except DecodeFault α} (h : ∀ a, r = .ok a → Q a) : Ensures Q (ofPart r) := by
  cases r with
  | ok a => exact ensures_pure (h a rfl)
  | error f => exact ensures_throw f

theorem ensures_checkIndex (fault : Nat → DecodeFault) (bound i : Nat) :
    Ensures (· < bound) (checkIndex fault bound i) := by
  unfold checkIndex
  split
  · exact (ensures_throw (Q := fun _ => False) _).bind fun _ h => h.elim
  · exact ensures_pure (by omega)

theorem ensures_checkIndices (fault : Nat → DecodeFault) (bound : Nat) (is : List Nat) :
    Ensures (fun js => ∀ j ∈ js, j < bound) (is.mapM (checkIndex fault bound)) := by
  induction is with
  | nil => exact ensures_pure (by simp)
  | cons i is ih =>
    rw [List.mapM_cons]
    exact (ensures_checkIndex fault bound i).bind fun j hj => ih.bind fun js hjs =>
      ensures_pure (List.forall_mem_cons.mpr ⟨hj, hjs⟩)

end Reading

open Reading

section Messages

variable {σ : Type} {step : Nat → Nat → σ → Reading σ} {P : σ → Prop}

theorem fieldsFrom_ensures (hstep : ∀ num type s, P s → Ensures P (step num type s)) (fuel : Nat) {s : σ}
    (hs : P s) : Ensures P (fieldsFrom step fuel s) := by
  induction fuel generalizing s with
  | zero => exact ensures_pure hs
  | succ fuel ih =>
    rw [fieldsFrom]
    refine ensures_bind fun next => ?_
    cases next with
    | none => exact ensures_pure hs
    | some field => exact (hstep field.1 field.2 s hs).bind fun s' hs' => ih hs'

/-- What no field of a message breaks holds of what the message is read as. -/
theorem readMessage_ensures {init s : σ} {data : List UInt8} (h : readMessage step init data = .ok s)
    (hinit : P init) (hstep : ∀ num type s, P s → Ensures P (step num type s)) : P s := by
  unfold readMessage at h
  split at h
  · cases h
  · rename_i s' c hrun
    split at h
    · cases h
    · cases h
      exact fieldsFrom_ensures hstep _ hinit _ _ _ hrun

end Messages

/-! ### Numbers -/

theorem fits32_signed (n : Int) : Fits32 (signed 32 n) := by
  have h32 : twoTo 32 = 2 ^ 32 := by decide
  unfold Fits32 signed
  rw [h32, Int.bmod_def]
  omega

theorem fits64_signed (n : Int) : Fits64 (signed 64 n) := by
  have h64 : twoTo 64 = 2 ^ 64 := by decide
  unfold Fits64 signed
  rw [h64, Int.bmod_def]
  omega

/-- A field with a number of 32 bits. -/
theorem ensures_word32 {σ : Type} {Q : σ → Prop} {type : Nat} {g : Int → σ} (h : ∀ i, Fits32 i → Q (g i)) :
    Ensures Q (do return g (signed 32 (← number type))) :=
  ensures_bind fun n => ensures_pure (h _ (fits32_signed n))

/-- A field with a number of 64 bits. -/
theorem ensures_word64 {σ : Type} {Q : σ → Prop} {type : Nat} {g : Int → σ} (h : ∀ i, Fits64 i → Q (g i)) :
    Ensures Q (do return g (signed 64 (← number type))) :=
  ensures_bind fun n => ensures_pure (h _ (fits64_signed n))

/-! ### Constants -/

end Wire

namespace Value

/-- A value as it is read: it can be stored, and storing it changes nothing. -/
def IsStored (v : Value) : Prop := v.Storable ∧ v.stored = v

theorem allStorable_iff {vs : List Value} : AllStorable vs ↔ ∀ v ∈ vs, v.Storable := by
  induction vs with
  | nil => simp [AllStorable]
  | cons v vs ih => simp [AllStorable, ih]

theorem storedAll_eq_map (vs : List Value) : storedAll vs = vs.map stored := by
  induction vs with
  | nil => rfl
  | cons v vs ih => rw [storedAll, ih, List.map_cons]

theorem entriesStorable_iff {es : List Entry} :
    EntriesStorable es ↔ ∀ e ∈ es, e.key.Storable ∧ e.value.Storable := by
  induction es with
  | nil => simp [EntriesStorable]
  | cons e es ih =>
    obtain ⟨k, v⟩ := e
    simp [EntriesStorable, ih, and_assoc]

theorem storedEntries_eq_map (es : List Entry) :
    storedEntries es = es.map fun e => ⟨e.key.stored, e.value.stored⟩ := by
  induction es with
  | nil => rfl
  | cons e es ih =>
    obtain ⟨k, v⟩ := e
    rw [storedEntries, ih, List.map_cons]
    rfl

/-- The key and the value of an entry as they are read. -/
def EntryIsStored (e : Entry) : Prop := e.key.IsStored ∧ e.value.IsStored

theorem isStored_array {kind element : BuiltinType} {name : Text} {vs : List Value}
    (hkind : kind = .array ∨ kind.isPacked) (hvs : ∀ v ∈ vs, v.IsStored) :
    (array kind element name vs true).IsStored := by
  refine ⟨⟨hkind, allStorable_iff.mpr fun v hv => (hvs v hv).1⟩, ?_⟩
  rw [stored, storedAll_eq_map, List.map_congr_left fun v hv => (hvs v hv).2, List.map_id']

theorem isStored_dictionary {es : List Entry} (hnodup : (es.map (·.key.hash)).Nodup)
    (hes : ∀ e ∈ es, EntryIsStored e) : (dictionary es true).IsStored := by
  refine ⟨⟨hnodup, entriesStorable_iff.mpr fun e he => ⟨(hes e he).1.1, (hes e he).2.1⟩⟩, ?_⟩
  have hsame : es.map (fun e => (⟨e.key.stored, e.value.stored⟩ : Entry)) = es := by
    rw [List.map_congr_left (g := id) fun e he => ?_, List.map_id]
    obtain ⟨k, v⟩ := e
    exact congrArg₂ Entry.mk (hes _ he).1.2 (hes _ he).2.2
  rw [stored, storedEntries_eq_map, hsame]

/-- A key that is inserted is one of the keys, and no other is added. -/
theorem map_hash_insertEntry (key value : Value) (es : List Entry) :
    (insertEntry key value es).map (·.key.hash) =
      if key.hash ∈ es.map (·.key.hash) then es.map (·.key.hash) else es.map (·.key.hash) ++ [key.hash] := by
  induction es with
  | nil => rfl
  | cons e es ih =>
    by_cases he : e.key.hash = key.hash
    · simp [insertEntry, he]
    · simp only [insertEntry, if_neg he, List.map_cons, ih, List.mem_cons, Ne.symm he, false_or]
      split <;> rfl

theorem mem_insertEntry {key value : Value} {es : List Entry} {e : Entry} (h : e ∈ insertEntry key value es) :
    e ∈ es ∨ e.value = value ∧ (e.key = key ∨ ∃ e' ∈ es, e.key = e'.key) := by
  induction es with
  | nil =>
    rw [insertEntry, List.mem_singleton] at h
    exact .inr ⟨by rw [h]; rfl, .inl (by rw [h]; rfl)⟩
  | cons f es ih =>
    unfold insertEntry at h
    split at h
    · rcases List.mem_cons.mp h with rfl | h
      · exact .inr ⟨rfl, .inr ⟨f, by simp, rfl⟩⟩
      · exact .inl (List.mem_cons_of_mem f h)
    · rcases List.mem_cons.mp h with rfl | h
      · exact .inl (by simp)
      · rcases ih h with h | ⟨hv, hk | ⟨e', he', hk⟩⟩
        · exact .inl (List.mem_cons_of_mem f h)
        · exact .inr ⟨hv, .inl hk⟩
        · exact .inr ⟨hv, .inr ⟨e', List.mem_cons_of_mem f he', hk⟩⟩

theorem isStored_ofEntries {es : List Entry} (hes : ∀ e ∈ es, EntryIsStored e) : (ofEntries es true).IsStored := by
  have hfold : ∀ acc : List Entry, (acc.map (·.key.hash)).Nodup → (∀ e ∈ acc, EntryIsStored e) →
      let r := es.foldl (fun acc e => insertEntry e.key e.value acc) acc
      (r.map (·.key.hash)).Nodup ∧ ∀ e ∈ r, EntryIsStored e := by
    induction es with
    | nil => exact fun acc hn hacc => ⟨hn, hacc⟩
    | cons e es ih =>
      intro acc hn hacc
      have he := hes e (by simp)
      refine ih (fun f hf => hes f (by simp [hf])) (insertEntry e.key e.value acc) ?_ fun f hf => ?_
      · rw [map_hash_insertEntry]
        split
        · exact hn
        · rename_i hnew
          rw [List.nodup_append]
          refine ⟨hn, by simp, fun a ha b hb => ?_⟩
          rw [List.mem_singleton.mp hb]
          exact fun heq => hnew (heq ▸ ha)
      · rcases mem_insertEntry hf with hf | ⟨hv, hk | ⟨f', hf', hk⟩⟩
        · exact hacc f hf
        · exact ⟨hk ▸ he.1, hv ▸ he.2⟩
        · exact ⟨hk ▸ (hacc f' hf').1, hv ▸ he.2⟩
  obtain ⟨hnodup, hstored⟩ := hfold [] List.nodup_nil (by simp)
  exact isStored_dictionary hnodup hstored

end Value

namespace Wire

open Reading

theorem isStored_pairUp (vs : List Value) (h : ∀ v ∈ vs, v.IsStored) :
    ∀ e ∈ pairUp vs, Value.EntryIsStored e := by
  match vs with
  | [] | [_] => simp [pairUp]
  | k :: v :: vs =>
    have hrest := isStored_pairUp vs fun w hw => h w (by simp [hw])
    rw [pairUp, List.forall_mem_cons]
    exact ⟨⟨h k (by simp), h v (by simp)⟩, hrest⟩

theorem ConstantFields.isStored_value {c : ConstantFields} {v : Value} (hc : ∀ w ∈ c.elements, w.IsStored)
    (h : c.value = .ok v) : v.IsStored := by
  unfold ConstantFields.value at h
  dsimp only at h
  split at h
  · cases h
  · split at h
    case h_9 =>
      split at h
      all_goals cases h
      exact Value.isStored_ofEntries (isStored_pairUp _ hc)
    case h_17 =>
      split at h
      · rename_i hkind
        cases h
        exact Value.isStored_array (by simpa using hkind) hc
      · cases h
    all_goals cases h
    all_goals exact ⟨trivial, rfl⟩

theorem readConstant_isStored {fuel : Nat} {data : List UInt8} {v : Value}
    (h : readConstant fuel data = .ok v) : v.IsStored := by
  induction fuel generalizing data v with
  | zero => cases h
  | succ fuel ih =>
    rw [readConstant] at h
    cases hread : readMessage (constantStep (readConstant fuel)) {} data with
    | error f =>
      rw [hread] at h
      cases h
    | ok c =>
      rw [hread] at h
      refine ConstantFields.isStored_value ?_ h
      refine readMessage_ensures (P := fun c => ∀ w ∈ c.elements, w.IsStored) hread (by simp)
        fun num type c hc => ?_
      unfold constantStep
      split
      case h_5 =>
        refine ensures_bind fun part => (ensures_ofPart fun w hw => ih hw).bind fun w hw => ensures_pure ?_
        rintro u hu
        rcases List.mem_append.mp hu with hu | hu
        · exact hc u hu
        · rw [List.mem_singleton.mp hu]
          exact hw
      all_goals exact ensures_bind fun _ => ensures_pure hc

/-! ### Functions -/

theorem slotOf_fits {data : List UInt8} {s : VarSlot} (h : slotOf data = .ok s) : s.place.Fits := by
  unfold slotOf at h
  extract_lets step at h
  refine readMessage_ensures (P := fun s => s.place.Fits) h ⟨by simp [Fits32], by simp [Fits32]⟩
    fun num type s hs => ?_
  simp only [step]
  split
  · exact ensures_bind fun _ => ensures_pure hs
  · refine ensures_word32 (g := fun line => { s with place := { s.place with line } }) fun i hi => ?_
    exact ⟨hi, hs.col⟩
  · refine ensures_word32 (g := fun col => { s with place := { s.place with col } }) fun i hi => ?_
    exact ⟨hs.line, hi⟩
  · exact ensures_bind fun _ => ensures_bind fun _ => ensures_pure hs
  · exact ensures_bind fun _ => ensures_pure hs

theorem lineEntries_fits : ∀ ns : List Nat, ∀ e ∈ lineEntries ns, e.pc < 2 ^ 32 ∧ Fits32 e.line
  | [] | [_] => by simp [lineEntries]
  | pc :: line :: ns => by
    rw [lineEntries, List.forall_mem_cons]
    have h32 : twoTo 32 = 2 ^ 32 := by decide
    exact ⟨⟨by rw [h32]; exact Nat.mod_lt _ (by decide), fits32_signed _⟩, lineEntries_fits ns⟩

end Wire

/-- A function as it is read. -/
structure Function.IsStored (scripts : Nat) (f : Function) : Prop extends f.Fits scripts where
  allocated : f.allocated = 0
  released : f.released = 0

namespace Wire

open Reading

theorem functionOf_isStored {scripts : Nat} {data : List UInt8} {f : Function}
    (h : functionOf scripts data = .ok f) : f.IsStored scripts := by
  have h32 : twoTo 32 = 2 ^ 32 := by decide
  unfold functionOf at h
  extract_lets step at h
  refine readMessage_ensures (P := fun f => f.IsStored scripts) h ?_ fun num type f hf => ?_
  · have hzero : Fits32 0 := by simp [Fits32]
    have hzero' : Fits64 0 := by simp [Fits64]
    constructor
    · constructor
      case place => exact ⟨hzero, hzero⟩
      all_goals first | exact hzero' | simp
    · rfl
    · rfl
  simp only [step]
  split
  · exact ensures_bind fun _ => ensures_pure { hf with }
  · -- the script
    refine ensures_bind fun i => ?_
    split
    · exact (ensures_throw (Q := fun _ => False) _).bind fun _ h => h.elim
    · rename_i hi
      refine ensures_pure { hf with script := fun j hj => ?_ }
      cases hj
      simp only [Bool.or_eq_true, decide_eq_true_eq, not_or] at hi
      omega
  · refine ensures_word32 (g := fun line => { f with place := { f.place with line } }) fun i hi => ?_
    exact { hf with place := ⟨hi, hf.place.col⟩ }
  · refine ensures_word32 (g := fun col => { f with place := { f.place with col } }) fun i hi => ?_
    exact { hf with place := ⟨hf.place.line, hi⟩ }
  · exact ensures_bind fun _ => ensures_pure { hf with }
  · refine ensures_bind fun part => (ensures_ofPart fun s hs => slotOf_fits hs).bind fun s hs => ensures_pure ?_
    exact { hf with params := List.forall_mem_append.mpr ⟨hf.params, by simpa using hs⟩ }
  · refine ensures_bind fun part => (ensures_ofPart fun s hs => slotOf_fits hs).bind fun s hs => ensures_pure ?_
    exact { hf with locals := List.forall_mem_append.mpr ⟨hf.locals, by simpa using hs⟩ }
  · refine ensures_word64 (g := fun captures => { f with captures }) fun i hi => ?_
    exact { hf with captures := hi }
  · refine ensures_word64 (g := fun minArgs => { f with minArgs }) fun i hi => ?_
    exact { hf with minArgs := hi }
  · refine ensures_word64 (g := fun maxArgs => { f with maxArgs }) fun i hi => ?_
    exact { hf with maxArgs := hi }
  · refine ensures_bind fun ns => ensures_pure ?_
    refine { hf with entries := List.forall_mem_append.mpr ⟨hf.entries, fun pc hpc => ?_⟩ }
    obtain ⟨n, -, rfl⟩ := List.mem_map.mp hpc
    rw [h32]
    exact Nat.mod_lt _ (by decide)
  · refine ensures_word64 (g := fun maxTemps => { f with maxTemps }) fun i hi => ?_
    exact { hf with maxTemps := hi }
  · exact ensures_bind fun _ => ensures_bind fun _ => ensures_pure { hf with }
  · exact ensures_bind fun _ => ensures_pure { hf with }
  · exact ensures_bind fun _ => ensures_pure { hf with }
  · -- the line table
    refine ensures_bind fun ns => ?_
    split
    · exact (ensures_throw (Q := fun _ => False) _).bind fun _ h => h.elim
    · exact ensures_pure { hf with lines := List.forall_mem_append.mpr ⟨hf.lines, lineEntries_fits ns⟩ }
  · exact ensures_bind fun _ => ensures_pure hf

end Wire

/-! ### Scripts -/

/-- A script as it is read from a program with so many scripts and functions. Its constants may lack values. -/
structure Script.IsStored (scripts functions : Nat) (s : Script) : Prop where
  base : ∀ b ∈ s.base, ∃ i < scripts, b = .own i
  outer : ∀ i ∈ s.outer, i < scripts
  members : ∀ m ∈ s.members, Fits64 m.index
  constants : ∀ c ∈ s.constants, ∀ v ∈ c.value, v.IsStored
  subclasses : ∀ i ∈ s.subclasses, i < scripts
  methods : ∀ i ∈ s.methods, i < functions
  init : ∀ i ∈ s.init, i < functions
  ready : ∀ i ∈ s.ready, i < functions

namespace Wire

open Reading

theorem memberOf_fits {data : List UInt8} {m : MemberSlot} (h : memberOf data = .ok m) : Fits64 m.index := by
  unfold memberOf at h
  extract_lets step at h
  refine readMessage_ensures (P := fun m => Fits64 m.index) h (by simp [Fits64]) fun num type m hm => ?_
  simp only [step]
  split
  case h_2 =>
    refine ensures_word64 (g := fun index => { m with index }) fun i hi => ?_
    exact hi
  case h_5 => exact ensures_bind fun _ => ensures_bind fun _ => ensures_pure hm
  all_goals exact ensures_bind fun _ => ensures_pure hm

theorem namedConstantOf_isStored {data : List UInt8} {c : NamedConstant} (h : namedConstantOf data = .ok c) :
    ∀ v ∈ c.value, v.IsStored := by
  unfold namedConstantOf at h
  extract_lets step at h
  refine readMessage_ensures (P := fun c => ∀ v ∈ c.value, v.IsStored) h (by simp) fun num type c hc => ?_
  simp only [step]
  split
  case h_2 =>
    refine ensures_bind fun part => ?_
    split
    · rename_i v hv
      exact ensures_pure fun w hw => by
        cases hw
        exact readConstant_isStored hv
    · exact ensures_throw _
  all_goals exact ensures_bind fun _ => ensures_pure hc

theorem scriptOf_isStored {scripts functions : Nat} {data : List UInt8} {s : Script}
    (h : scriptOf scripts functions data = .ok s) : s.IsStored scripts functions := by
  unfold scriptOf at h
  extract_lets scriptAt functionAt step at h
  refine readMessage_ensures (P := fun s => s.IsStored scripts functions) h (by constructor <;> simp)
    fun num type s hs => ?_
  simp only [step]
  split
  case h_5 =>
    refine ensures_bind fun n => (ensures_checkIndex _ scripts _).bind fun i hi => ensures_pure ?_
    exact { hs with base := fun b hb => ⟨i, hi, by cases hb; rfl⟩ }
  case h_6 =>
    refine ensures_bind fun n => (ensures_checkIndex _ scripts _).bind fun i hi => ensures_pure ?_
    exact { hs with outer := fun j hj => by cases hj; exact hi }
  case h_9 =>
    refine ensures_bind fun part => (ensures_ofPart fun m hm => memberOf_fits hm).bind fun m hm =>
      ensures_pure ?_
    exact { hs with members := List.forall_mem_append.mpr ⟨hs.members, by simpa using hm⟩ }
  case h_10 =>
    refine ensures_bind fun part => (ensures_ofPart fun c hc => namedConstantOf_isStored hc).bind fun c hc =>
      ensures_pure ?_
    exact { hs with constants := List.forall_mem_append.mpr ⟨hs.constants, by simpa using hc⟩ }
  case h_11 =>
    refine ensures_bind fun part => ?_
    split
    · exact ensures_pure { hs with }
    · exact ensures_bind fun _ => ensures_pure hs
  case h_12 =>
    refine ensures_bind fun is => (ensures_checkIndices _ scripts is).bind fun js hjs => ensures_pure ?_
    exact { hs with subclasses := List.forall_mem_append.mpr ⟨hs.subclasses, hjs⟩ }
  case h_13 =>
    refine ensures_bind fun is => (ensures_checkIndices _ functions is).bind fun js hjs => ensures_pure ?_
    exact { hs with methods := List.forall_mem_append.mpr ⟨hs.methods, hjs⟩ }
  case h_14 =>
    refine ensures_bind fun n => (ensures_checkIndex _ functions _).bind fun i hi => ensures_pure ?_
    exact { hs with init := fun j hj => by cases hj; exact hi }
  case h_15 =>
    refine ensures_bind fun n => (ensures_checkIndex _ functions _).bind fun i hi => ensures_pure ?_
    exact { hs with ready := fun j hj => by cases hj; exact hi }
  all_goals exact ensures_bind fun _ => ensures_pure { hs with }

/-! ### Programs -/

theorem partsOf_isStored {data : List UInt8} {p : Parts} (h : partsOf data = .ok p) :
    p.program.buildId.length = 16 ∧ ∀ v ∈ p.program.constants, v.IsStored := by
  unfold partsOf at h
  extract_lets step at h
  refine readMessage_ensures
    (P := fun p => p.program.buildId.length = 16 ∧ ∀ v ∈ p.program.constants, v.IsStored) h ⟨rfl, by simp⟩
    fun num type p hp => ?_
  simp only [step]
  split
  case h_1 =>
    refine ensures_bind fun id => ?_
    split
    · exact ensures_bind fun _ => ensures_pure hp
    · rename_i hid
      exact ensures_pure ⟨not_not.mp hid, hp.2⟩
  case h_4 =>
    refine ensures_bind fun part => ?_
    split
    · rename_i v hv
      refine ensures_pure ⟨hp.1, List.forall_mem_append.mpr ⟨hp.2, ?_⟩⟩
      simpa using readConstant_isStored hv
    · exact ensures_bind fun _ => ensures_pure hp
  all_goals exact ensures_bind fun _ => ensures_pure hp

theorem readAll_ensures {α : Type} {read : List UInt8 → Except DecodeFault α}
    {fault : Nat → DecodeFault → ProgramFault} {Q : α → Prop} (hread : ∀ data a, read data = .ok a → Q a)
    {i : Nat} {parts : List (List UInt8)} {as : List α} (h : readAll read fault i parts = .ok as) :
    as.length = parts.length ∧ ∀ a ∈ as, Q a := by
  induction parts generalizing i as with
  | nil =>
    cases h
    simp
  | cons data parts ih =>
    rw [readAll] at h
    split at h
    · cases h
    · rename_i a ha
      cases hrest : readAll read fault (i + 1) parts with
      | error f =>
        rw [hrest] at h
        cases h
      | ok rest =>
        rw [hrest] at h
        cases h
        obtain ⟨hlength, hall⟩ := ih hrest
        exact ⟨by simp [hlength], List.forall_mem_cons.mpr ⟨hread _ _ ha, hall⟩⟩

end Wire

namespace Program

/-- What holds of every program that is read: its build id is complete, all references are to scripts and
functions of the program, numbers have the size that is stored of them, and nothing is lost when the program is
stored again. -/
structure Sound (p : Program) : Prop where
  buildId : p.buildId.length = 16
  constants : ∀ v ∈ p.constants, v.IsStored
  functions : ∀ f ∈ p.functions, f.IsStored p.scripts.length
  scripts : ∀ s ∈ p.scripts, s.IsStored p.scripts.length p.functions.length

theorem parts_of_decode {data : List UInt8} {p : Program} (h : decode data = .ok p) :
    ∃ rest parts functions scripts, Wire.partsOf rest = .ok parts ∧
      Wire.readAll (Wire.functionOf parts.scripts.length) .inFunction 0 parts.functions = .ok functions ∧
      Wire.readAll (Wire.scriptOf parts.scripts.length functions.length) .inScript 0 parts.scripts = .ok scripts ∧
      p = { parts.program with functions, scripts } := by
  unfold decode at h
  cases hmark : Wire.mark.isPrefixOf data with
  | false =>
    rw [hmark] at h
    cases h
  | true =>
    rw [hmark] at h
    cases hversion : Varint.decode (data.drop Wire.mark.length) with
    | error f =>
      rw [hversion] at h
      cases h
    | ok r =>
      obtain ⟨v, rest⟩ := r
      rw [hversion] at h
      by_cases hv : v ≠ Wire.version
      · simp only [if_pos hv] at h
        cases h
      simp only [if_neg hv] at h
      cases hparts : Wire.partsOf rest with
      | error f =>
        rw [hparts] at h
        cases h
      | ok parts =>
        rw [hparts] at h
        cases hfunctions : Wire.readAll (Wire.functionOf parts.scripts.length) .inFunction 0 parts.functions with
        | error f =>
          simp only [hfunctions] at h
          cases h
        | ok functions =>
          simp only [hfunctions] at h
          cases hscripts : Wire.readAll (Wire.scriptOf parts.scripts.length functions.length) .inScript 0
              parts.scripts with
          | error f =>
            change (Wire.readAll _ _ _ _ >>= _) = _ at h
            rw [hscripts] at h
            cases h
          | ok scripts =>
            change (Wire.readAll _ _ _ _ >>= _) = _ at h
            rw [hscripts] at h
            cases h
            exact ⟨rest, parts, functions, scripts, hparts, hfunctions, hscripts, rfl⟩

/-- **Whatever bytes are decoded, the program is sound.** -/
theorem sound_of_decode {data : List UInt8} {p : Program} (h : decode data = .ok p) : p.Sound := by
  obtain ⟨rest, parts, functions, scripts, hparts, hfunctions, hscripts, rfl⟩ := parts_of_decode h
  obtain ⟨hid, hconstants⟩ := Wire.partsOf_isStored hparts
  obtain ⟨-, hf⟩ := Wire.readAll_ensures (fun _ _ h => Wire.functionOf_isStored h) hfunctions
  obtain ⟨hlength, hs⟩ := Wire.readAll_ensures (fun _ _ h => Wire.scriptOf_isStored h) hscripts
  exact ⟨hid, hconstants, hlength ▸ hf, hlength ▸ hs⟩

end Program

end GameScript
