import GameScript.Proofs.Code.Wire.Constants

/-!
# Reading programs back

* `Program.WellFormed` — what holds of the numbers and references of a compiled program;
* `Program.stored` — a program as it is read from its bytes;
* `Program.decode_encode` — the bytes of a program read as the stored program, which has the same bytes.
-/

namespace GameScript

/-! ### Scripts -/

/-- What holds of the references and numbers of a script in a program with so many scripts and
functions. -/
structure Script.Fits (scripts functions : Nat) (s : Script) : Prop where
  base : ∀ i, s.base = some (.own i) → i < scripts
  outer : ∀ i ∈ s.outer, i < scripts
  members : ∀ m ∈ s.members, Fits64 m.index
  constants : ∀ c ∈ s.constants, ∃ v, c.value = some v ∧ v.Storable
  subclasses : ∀ i ∈ s.subclasses, i < scripts
  methods : ∀ i ∈ s.methods, i < functions
  init : ∀ i ∈ s.init, i < functions
  ready : ∀ i ∈ s.ready, i < functions

def NamedConstant.stored (c : NamedConstant) : NamedConstant := { c with value := c.value.map Value.stored }

/-- A script as it is read: a base in another program is not recorded. -/
def Script.stored (s : Script) : Script :=
  { s with
    base := (Wire.ownBase? s).map ScriptRef.own
    constants := s.constants.map NamedConstant.stored }

namespace Wire

open Reading

theorem constantOf_constant {v : Value} (hv : v.Storable) (hl : (constant v).length < 2 ^ 64) :
    constantOf (constant v) = .ok v.stored :=
  readConstant_constant v hv _ (by omega) hl

theorem namedConstantOf_namedConstant {c : NamedConstant} {v : Value} (hc : c.value = some v)
    (hv : v.Storable) (hl : (namedConstant c).length < 2 ^ 64) :
    namedConstantOf (namedConstant c) = .ok c.stored := by
  obtain ⟨name, value⟩ := c
  obtain rfl : value = some v := hc
  have hname := length_le_textField 1 name
  have hval := length_le_bytesField 2 (constant v)
  simp only [namedConstant, Option.getD_some, List.length_append] at hl
  unfold namedConstantOf namedConstant
  extract_lets step
  refine readMessage_of_consumes ?_
  have h₁ : Consumes step (textField 1 name) {} { name := name } :=
    consumes_text (by decide) (by omega) rfl rfl rfl
  have h₂ : Consumes step (bytesField 2 (constant v)) { name := name }
      { name, value := some v.stored } := by
    refine consumes_bytesField (by decide) ((gives_bytes (by omega)).then ?_)
    rw [constantOf_constant hv (by omega)]
    exact gives_pure _
  exact h₁.append h₂

theorem signalOf_signal {x : SignalInfo} (hl : (signal x).length < 2 ^ 64) :
    signalOf (signal x) = .ok x := by
  obtain ⟨name, params⟩ := x
  have hname := length_le_textField 1 name
  simp only [signal, List.length_append] at hl
  unfold signalOf signal
  extract_lets step
  refine readMessage_of_consumes ?_
  have h₁ : Consumes step (textField 1 name) {} { name := name } :=
    consumes_text (by decide) (by omega) rfl rfl rfl
  have h₂ : Consumes step (params.flatMap fun p => bytesField 2 p.bytes) { name := name }
      { name, params } := by
    refine consumes_list (f := fun params => { name, params }) (fun p hp l => ?_) rfl rfl
    have h₃ := length_le_flatMap (fun p : Text => bytesField 2 p.bytes) hp
    have h₄ := length_le_bytesField 2 p.bytes
    exact consumes_bytesField (by decide) ((gives_text (by omega)).then (gives_pure _))
  exact h₁.append h₂

theorem gives_checkIndex {fault : Nat → DecodeFault} {bound i : Nat} (h : i < bound) :
    Gives (checkIndex fault bound i) [] i := by
  unfold checkIndex
  rw [if_neg (by omega)]
  exact gives_pure i

theorem gives_checkIndices {fault : Nat → DecodeFault} {bound : Nat} {is : List Nat}
    (h : ∀ i ∈ is, i < bound) : Gives (is.mapM (checkIndex fault bound)) [] is := by
  induction is with
  | nil => exact gives_pure []
  | cons i is ih =>
    rw [List.mapM_cons]
    exact (gives_checkIndex (h i (by simp))).then ((ih fun j hj => h j (by simp [hj])).then (gives_pure _))

/-- A reference is left out if there is none. -/
theorem consumes_reference {σ : Type} {step : Nat → Nat → σ → Reading σ} {s s' : σ} {num bound : Nat}
    {fault : Nat → DecodeFault} {r : Option Nat} {f : Option Nat → σ} (hnum : 0 < num ∧ num < 1000)
    (hr : ∀ i ∈ r, i < bound) (hbound : bound < 2 ^ 63)
    (hstep : step num varintType s = do
      return f (some (← checkIndex fault bound (before (← number varintType)))))
    (hs : f none = s) (hs' : f r = s') : Consumes step (reference num r) s s' := by
  cases r with
  | none =>
    rw [← hs', hs]
    exact consumes_nil s
  | some i =>
    have hi := hr i rfl
    refine consumes_numberField hnum ?_ (by simp)
    rw [hstep]
    refine (gives_number (n := i + 1) (by omega)).then ?_
    exact (gives_checkIndex hi).then (gives_of_eq hs')

theorem scriptOf_script {scripts functions : Nat} {s : Script} (h : s.Fits scripts functions)
    (hscripts : scripts < 2 ^ 63) (hfunctions : functions < 2 ^ 63)
    (hl : (script s).length < 2 ^ 64) : scriptOf scripts functions (script s) = .ok s.stored := by
  have hname := length_le_textField 1 s.name
  have hfull := length_le_textField 2 s.fullName
  have hpath := length_le_textField 3 s.path
  have hnative := length_le_textField 4 s.native
  have hsub := length_le_packedField 12 s.subclasses
  have hmethods := length_le_packedField 13 s.methods
  unfold script at hl
  simp only [List.length_append] at hl
  unfold scriptOf script
  extract_lets scriptAt functionAt step
  refine readMessage_of_consumes ?_
  have h₁ (g : Script) (hg : g.name = "") :
      Consumes step (textField 1 s.name) g { g with name := s.name } :=
    consumes_text (by decide) (by omega) rfl (by rw [← hg]) rfl
  have h₂ (g : Script) (hg : g.fullName = "") :
      Consumes step (textField 2 s.fullName) g { g with fullName := s.fullName } :=
    consumes_text (by decide) (by omega) rfl (by rw [← hg]) rfl
  have h₃ (g : Script) (hg : g.path = "") :
      Consumes step (textField 3 s.path) g { g with path := s.path } :=
    consumes_text (by decide) (by omega) rfl (by rw [← hg]) rfl
  have h₄ (g : Script) (hg : g.native = "") :
      Consumes step (textField 4 s.native) g { g with native := s.native } :=
    consumes_text (by decide) (by omega) rfl (by rw [← hg]) rfl
  have h₅ (g : Script) (hg : g.base = none) :
      Consumes step (reference 5 (ownBase? s)) g { g with base := (ownBase? s).map .own } := by
    refine consumes_reference (f := fun r => { g with base := r.map .own }) (by decide) ?_ hscripts rfl
      (by rw [Option.map_none, ← hg]) rfl
    intro i hi
    apply h.base i
    unfold ownBase? at hi
    split at hi
    · rename_i i' heq
      cases hi
      exact heq
    · cases hi
  have h₆ (g : Script) (hg : g.outer = none) :
      Consumes step (reference 6 s.outer) g { g with outer := s.outer } :=
    consumes_reference (f := fun outer => { g with outer }) (by decide) h.outer hscripts rfl
      (by rw [← hg]) rfl
  have h₇ (g : Script) (hg : g.isTool = false) :
      Consumes step (flagField 7 s.isTool) g { g with isTool := s.isTool } :=
    consumes_flag (by decide) rfl (by rw [← hg]) rfl
  have h₈ (g : Script) (hg : g.isValid = false) :
      Consumes step (flagField 8 s.isValid) g { g with isValid := s.isValid } :=
    consumes_flag (by decide) rfl (by rw [← hg]) rfl
  have h₉ (g : Script) (hg : g.members = []) :
      Consumes step (s.members.flatMap fun m => bytesField 9 (member m)) g
        { g with members := s.members } := by
    refine consumes_list (f := fun members => { g with members }) (fun m hm l => ?_) (by rw [← hg]) rfl
    have hm₁ := length_le_flatMap (fun m => bytesField 9 (member m)) hm
    have hm₂ := length_le_bytesField 9 (member m)
    exact consumes_part (by decide) (by omega) (memberOf_member (h.members m hm) (by omega)) rfl rfl
  have h₁₀ (g : Script) (hg : g.constants = []) :
      Consumes step (s.constants.flatMap fun c => bytesField 10 (namedConstant c)) g
        { g with constants := s.constants.map NamedConstant.stored } := by
    refine consumes_map (f := fun constants => { g with constants }) (fun c hc l => ?_) (by rw [← hg]) rfl
    have hc₁ := length_le_flatMap (fun c => bytesField 10 (namedConstant c)) hc
    have hc₂ := length_le_bytesField 10 (namedConstant c)
    obtain ⟨v, hv, hstorable⟩ := h.constants c hc
    exact consumes_part (by decide) (by omega)
      (namedConstantOf_namedConstant hv hstorable (by omega)) rfl rfl
  have h₁₁ (g : Script) (hg : g.signals = []) :
      Consumes step (s.signals.flatMap fun x => bytesField 11 (signal x)) g
        { g with signals := s.signals } := by
    refine consumes_list (f := fun signals => { g with signals }) (fun x hx l => ?_) (by rw [← hg]) rfl
    have hx₁ := length_le_flatMap (fun x => bytesField 11 (signal x)) hx
    have hx₂ := length_le_bytesField 11 (signal x)
    refine consumes_bytesField (by decide) ((gives_bytes (by omega)).then ?_)
    rw [signalOf_signal (by omega)]
    exact gives_pure _
  have h₁₂ (g : Script) (hg : g.subclasses = []) :
      Consumes step (packedField 12 s.subclasses) g { g with subclasses := s.subclasses } := by
    refine consumes_packedField (by decide) ((gives_packed ?_ (by omega)).then ?_) fun he => ?_
    · exact fun i hi => lt_trans (h.subclasses i hi) (by omega)
    · exact (gives_checkIndices h.subclasses).then (gives_of_eq (by rw [hg, List.nil_append]))
    · rw [he, ← hg]
  have h₁₃ (g : Script) (hg : g.methods = []) :
      Consumes step (packedField 13 s.methods) g { g with methods := s.methods } := by
    refine consumes_packedField (by decide) ((gives_packed ?_ (by omega)).then ?_) fun he => ?_
    · exact fun i hi => lt_trans (h.methods i hi) (by omega)
    · exact (gives_checkIndices h.methods).then (gives_of_eq (by rw [hg, List.nil_append]))
    · rw [he, ← hg]
  have h₁₄ (g : Script) (hg : g.init = none) :
      Consumes step (reference 14 s.init) g { g with init := s.init } :=
    consumes_reference (f := fun init => { g with init }) (by decide) h.init hfunctions rfl
      (by rw [← hg]) rfl
  have h₁₅ (g : Script) (hg : g.ready = none) :
      Consumes step (reference 15 s.ready) g { g with ready := s.ready } :=
    consumes_reference (f := fun ready => { g with ready }) (by decide) h.ready hfunctions rfl
      (by rw [← hg]) rfl
  exact ((((((((((((((h₁ {} rfl).append (h₂ _ rfl)).append (h₃ _ rfl)).append (h₄ _ rfl)).append
    (h₅ _ rfl)).append (h₆ _ rfl)).append (h₇ _ rfl)).append (h₈ _ rfl)).append (h₉ _ rfl)).append
    (h₁₀ _ rfl)).append (h₁₁ _ rfl)).append (h₁₂ _ rfl)).append (h₁₃ _ rfl)).append (h₁₄ _ rfl)).append
    (h₁₅ _ rfl)

/-! ### Programs -/

/-- The fields of a program, after its mark and its version. -/
def programFields (p : Program) : List UInt8 :=
  bytesField 1 p.buildId ++ textField 2 p.path ++ p.names.flatMap (fun n => bytesField 3 n.bytes) ++
    p.constants.flatMap (fun c => bytesField 4 (constant c)) ++
    p.functions.flatMap (fun f => bytesField 5 (function f)) ++
    p.scripts.flatMap (fun s => bytesField 6 (script s))

theorem encode_eq (p : Program) : p.encode = mark ++ (Varint.encode version ++ programFields p) := by
  simp only [Program.encode, programFields, List.append_assoc]

/-- The parts of a program are found; its functions and scripts are not read yet. -/
theorem partsOf_programFields {p : Program} (hid : p.buildId.length = 16)
    (hconstants : ∀ v ∈ p.constants, v.Storable) (hl : (programFields p).length < 2 ^ 64) :
    partsOf (programFields p) = .ok
      { program :=
          { buildId := p.buildId, path := p.path, names := p.names
            constants := p.constants.map Value.stored }
        functions := p.functions.map function
        scripts := p.scripts.map script } := by
  have hpath := length_le_textField 2 p.path
  unfold programFields at hl ⊢
  simp only [List.length_append] at hl
  unfold partsOf
  extract_lets step
  refine readMessage_of_consumes ?_
  have h₁ (g : Parts) :
      Consumes step (bytesField 1 p.buildId) g { g with program.buildId := p.buildId } := by
    refine consumes_bytesField (by decide) ((gives_bytes (by rw [hid]; decide)).then ?_)
    simp only [hid, ne_eq, not_true_eq_false, if_false]
    exact gives_pure _
  have h₂ (g : Parts) (hg : g.program.path = "") :
      Consumes step (textField 2 p.path) g { g with program.path := p.path } :=
    consumes_text (by decide) (by omega) rfl (by rw [← hg]) rfl
  have h₃ (g : Parts) (hg : g.program.names = []) :
      Consumes step (p.names.flatMap fun n => bytesField 3 n.bytes) g
        { g with program.names := p.names } := by
    refine consumes_list (f := fun names => { g with program.names := names }) (fun n hn l => ?_)
      (by rw [← hg]) rfl
    have hn₁ := length_le_flatMap (fun n : Text => bytesField 3 n.bytes) hn
    have hn₂ := length_le_bytesField 3 n.bytes
    exact consumes_bytesField (by decide) ((gives_text (by omega)).then (gives_pure _))
  have h₄ (g : Parts) (hg : g.program.constants = []) :
      Consumes step (p.constants.flatMap fun c => bytesField 4 (constant c)) g
        { g with program.constants := p.constants.map Value.stored } := by
    refine consumes_map (f := fun vs => { g with program.constants := vs }) (fun v hv l => ?_)
      (by rw [← hg]) rfl
    have hv₁ := length_le_flatMap (fun c => bytesField 4 (constant c)) hv
    have hv₂ := length_le_bytesField 4 (constant v)
    refine consumes_bytesField (by decide) ((gives_bytes (by omega)).then ?_)
    rw [constantOf_constant (hconstants v hv) (by omega)]
    exact gives_pure _
  have h₅ (g : Parts) (hg : g.functions = []) :
      Consumes step (p.functions.flatMap fun f => bytesField 5 (function f)) g
        { g with functions := p.functions.map function } := by
    refine consumes_map (f := fun functions => { g with functions }) (fun f hf l => ?_) (by rw [← hg]) rfl
    have hf₁ := length_le_flatMap (fun f => bytesField 5 (function f)) hf
    have hf₂ := length_le_bytesField 5 (function f)
    exact consumes_bytesField (by decide) ((gives_bytes (by omega)).then (gives_pure _))
  have h₆ (g : Parts) (hg : g.scripts = []) :
      Consumes step (p.scripts.flatMap fun s => bytesField 6 (script s)) g
        { g with scripts := p.scripts.map script } := by
    refine consumes_map (f := fun scripts => { g with scripts }) (fun s hs l => ?_) (by rw [← hg]) rfl
    have hs₁ := length_le_flatMap (fun s => bytesField 6 (script s)) hs
    have hs₂ := length_le_bytesField 6 (script s)
    exact consumes_bytesField (by decide) ((gives_bytes (by omega)).then (gives_pure _))
  exact (((((h₁ {}).append (h₂ _ rfl)).append (h₃ _ rfl)).append (h₄ _ rfl)).append (h₅ _ rfl)).append
    (h₆ _ rfl)

theorem readAll_of_forall {α β : Type} {read : List UInt8 → Except DecodeFault β}
    (fault : Nat → DecodeFault → ProgramFault) {write : α → List UInt8} {g : α → β} {as : List α}
    (h : ∀ a ∈ as, read (write a) = .ok (g a)) (i : Nat) :
    readAll read fault i (as.map write) = .ok (as.map g) := by
  induction as generalizing i with
  | nil => rfl
  | cons a as ih =>
    rw [List.map_cons, readAll, h a (by simp), ih (fun b hb => h b (by simp [hb]))]
    rfl

end Wire

namespace Program

/-- What holds of a compiled program: numbers have the size that is stored of them, references are to
scripts and functions of the program, and its bytes are fewer than `2 ^ 63`. -/
structure WellFormed (p : Program) : Prop where
  buildId : p.buildId.length = 16
  constants : ∀ v ∈ p.constants, v.Storable
  functions : ∀ f ∈ p.functions, f.Fits p.scripts.length
  scripts : ∀ s ∈ p.scripts, s.Fits p.scripts.length p.functions.length
  size : p.encode.length < 2 ^ 63

/-- A program as it is read from its bytes. -/
def stored (p : Program) : Program :=
  { p with
    constants := p.constants.map Value.stored
    functions := p.functions.map Function.stored
    scripts := p.scripts.map Script.stored }

end Program

namespace Wire

theorem length_le_flatMap_bytesField {α : Type} (num : Nat) (write : α → List UInt8) (as : List α) :
    as.length ≤ (as.flatMap fun a => bytesField num (write a)).length := by
  induction as with
  | nil => simp
  | cons a as ih =>
    have := length_le_bytesField num (write a)
    simp only [List.flatMap_cons, List.length_cons, List.length_append]
    omega

end Wire

open Wire in
theorem Program.decode_encode_eq {p : Program} (h : p.WellFormed) : decode p.encode = .ok p.stored := by
  have hsize := h.size
  have hscripts := length_le_flatMap_bytesField 6 script p.scripts
  have hfunctions := length_le_flatMap_bytesField 5 function p.functions
  rw [encode_eq] at hsize
  have hl : (programFields p).length < 2 ^ 63 := by
    simp only [List.length_append] at hsize
    omega
  have hparts := partsOf_programFields h.buildId h.constants (by omega)
  unfold programFields at hl
  simp only [List.length_append] at hl
  have hfs := readAll_of_forall .inFunction (fun f hf =>
    functionOf_function (h.functions f hf) (by omega) (by
      have h₁ := length_le_flatMap (fun f => bytesField 5 (function f)) hf
      have h₂ := length_le_bytesField 5 (function f)
      omega)) 0
  have hss := readAll_of_forall .inScript (fun s hs =>
    scriptOf_script (h.scripts s hs) (by omega) (by omega) (by
      have h₁ := length_le_flatMap (fun s => bytesField 6 (script s)) hs
      have h₂ := length_le_bytesField 6 (script s)
      omega)) 0
  have hmark : (mark.isPrefixOf (mark ++ (Varint.encode version ++ programFields p))) = true := by
    simp
  have hversion := Varint.decode_encode version (programFields p) (by decide)
  rw [encode_eq]
  unfold decode
  simp only [hmark, Bool.not_true, Bool.false_eq_true, if_false, List.drop_left, hversion, ne_eq,
    not_true_eq_false, hparts, List.length_map, hfs]
  show (readAll (scriptOf p.scripts.length (p.functions.map Function.stored).length) _ 0 _ >>= _) = _
  rw [List.length_map, hss]
  rfl

/-! ### The bytes of a stored program -/

namespace Wire

mutual

theorem constantFields_stored (v : Value) : constantFields v.stored = constantFields v := by
  cases v with
  | array kind element elementName elements frozen =>
    simp only [Value.stored, constantFields, elementFields_storedAll elements]
  | dictionary entries frozen =>
    simp only [Value.stored, constantFields, entryFields_storedEntries entries]
  | _ => simp only [Value.stored, constantFields]

theorem elementFields_storedAll (vs : List Value) :
    elementFields (Value.storedAll vs) = elementFields vs := by
  match vs with
  | [] => rfl
  | v :: vs =>
    simp only [Value.storedAll, elementFields, Value.type_stored, constantFields_stored v,
      elementFields_storedAll vs]

theorem entryFields_storedEntries (es : List Entry) :
    entryFields (Value.storedEntries es) = entryFields es := by
  match es with
  | [] => rfl
  | ⟨k, v⟩ :: es =>
    simp only [Value.storedEntries, entryFields, Value.type_stored, constantFields_stored k,
      constantFields_stored v, entryFields_storedEntries es]

end

theorem constant_stored (v : Value) : constant v.stored = constant v := by
  rw [constant, constant, Value.type_stored, constantFields_stored]

theorem namedConstant_stored (c : NamedConstant) : namedConstant c.stored = namedConstant c := by
  obtain ⟨name, value⟩ := c
  cases value with
  | none => rfl
  | some v => simp only [namedConstant, NamedConstant.stored, Option.map_some, Option.getD_some,
      constant_stored]

theorem ownBase?_stored (s : Script) : ownBase? s.stored = ownBase? s := by
  have hbase : s.stored.base = (ownBase? s).map ScriptRef.own := rfl
  cases h : ownBase? s with
  | none => rw [ownBase?, hbase, h, Option.map_none]
  | some i => rw [ownBase?, hbase, h, Option.map_some]

theorem script_stored (s : Script) : script s.stored = script s := by
  have hconstants : (s.stored.constants.flatMap fun c => bytesField 10 (namedConstant c)) =
      s.constants.flatMap fun c => bytesField 10 (namedConstant c) := by
    simp only [Script.stored, List.flatMap_map, namedConstant_stored]
  unfold script
  rw [ownBase?_stored, hconstants]
  rfl

end Wire

theorem Program.encode_stored (p : Program) : p.stored.encode = p.encode := by
  simp only [encode, stored, List.flatMap_map, Wire.constant_stored, Wire.script_stored]
  rfl

/-- A program with a class inside of the class of its file, which extends it, and a constant with
containers in each other and a number that is none. -/
def Program.nested : Program where
  path := "a.gd"
  names := ["x", ""]
  constants :=
    [.dictionary [⟨.string "k", .array .array .float "" [.float ⟨0x7ff8000000000001⟩] false⟩,
      ⟨.int (-3), .array .packedByteArray .nil "" [.int 255] false⟩] false,
     .resource "b.png" "Texture" 7]
  functions :=
    [{ name := "f", script := some 1, place := ⟨3, 2⟩, code := [51, 2], maxTemps := 2, minArgs := 1,
       maxArgs := 1, params := [{ name := "p", place := ⟨3, 9⟩ }], entries := [0, 300],
       lines := [⟨0, 3⟩], allocated := 2, released := 2 }]
  scripts :=
    [{ fullName := "a.gd", native := "Node", base := some (.foreign 4 0), subclasses := [1],
       isValid := true },
     { name := "I", base := some (.own 0), outer := some 0, methods := [0], init := some 0,
       constants := [⟨"N", some .nil⟩] }]

end GameScript
