import GameScript.Code.Wire.Read
import GameScript.Proofs.Code.Layout

/-!
# Reading fields back

* `Reading.Gives x bytes a` — the step `x` reads exactly `bytes`, whatever follows them, and returns `a`;
* `Consumes step bytes s s'` — the fields in `bytes` take a reader from `s` to `s'`;
* `readMessage_of_consumes` — a message whose fields lead to `s` reads as `s`.

The lemmas about fields say what a reader does where a field was written: nothing, if the field is left
out because it is empty or zero.
-/

namespace GameScript.Wire

namespace Reading

variable {α β : Type}

/-- The step `x` reads `bytes` and returns `a`. -/
def Gives (x : Reading α) (bytes : List UInt8) (a : α) : Prop :=
  ∀ rest, x.run { rest := bytes ++ rest } = (.ok a, { rest })

theorem run_bind (x : Reading α) (f : α → Reading β) (c : Cursor) :
    (x >>= f).run c = match x.run c with
      | (.ok a, c') => (f a).run c'
      | (.error e, c') => (.error e, c') := by
  show (match x.run c with | (r, c') => (ExceptT.bindCont f r) c') = _
  rcases x.run c with ⟨_ | _, _⟩ <;> rfl

theorem run_get (c : Cursor) : (get : Reading Cursor).run c = (.ok c, c) := rfl

theorem gives_pure (a : α) : Gives (pure a) [] a := fun _ => rfl

theorem gives_of_eq {a b : α} (h : a = b) : Gives (pure a) [] b := h ▸ gives_pure a

theorem Gives.bind {x : Reading α} {f : α → Reading β} {b₁ b₂ : List UInt8} {a : α} {b : β}
    (hx : Gives x b₁ a) (hf : Gives (f a) b₂ b) : Gives (x >>= f) (b₁ ++ b₂) b := by
  intro rest
  rw [run_bind, List.append_assoc, hx]
  exact hf rest

/-- A step after which nothing more is read. -/
theorem Gives.then {x : Reading α} {f : α → Reading β} {bytes : List UInt8} {a : α} {b : β}
    (hx : Gives x bytes a) (hf : Gives (f a) [] b) : Gives (x >>= f) bytes b := by
  have := hx.bind hf
  rwa [List.append_nil] at this

/-! ### Contents -/

theorem gives_content {read : List UInt8 → Except WireFault (α × List UInt8)} {bytes : List UInt8}
    {a : α} (h : ∀ rest, read (bytes ++ rest) = .ok (a, rest)) (zero : α) (type : Nat) :
    Gives (content read zero type type) bytes a := by
  intro rest
  unfold content
  rw [run_bind, run_get]
  simp only [Option.isSome_none, Bool.false_eq_true, if_false, ne_eq, not_true_eq_false, h rest]
  rfl

theorem gives_number {n : Nat} (h : n < 2 ^ 64) : Gives (number varintType) (Varint.encode n) n :=
  gives_content (fun rest => Varint.decode_encode n rest h) 0 _

theorem gives_flag (b : Bool) : Gives (flag varintType) (Varint.encode (if b then 1 else 0)) b := by
  refine (gives_number (by split <;> omega)).then ?_
  cases b <;> exact gives_pure _

theorem splitBytes_append (data rest : List UInt8) :
    splitBytes data.length (data ++ rest) = .ok (data, rest) := by
  have : ¬ (data ++ rest).length < data.length := by simp
  rw [splitBytes, if_neg this, List.take_left', List.drop_left']
  · rfl
  · rfl

theorem gives_bytes {data : List UInt8} (h : data.length < 2 ^ 64) :
    Gives (bytes bytesType) (Varint.encode data.length ++ data) data := by
  refine gives_content (fun rest => ?_) [] _
  unfold readBytes
  rw [List.append_assoc, Varint.decode_encode _ _ h]
  exact splitBytes_append data rest

theorem gives_text {t : Text} (h : t.bytes.length < 2 ^ 64) :
    Gives (text bytesType) (Varint.encode t.bytes.length ++ t.bytes) t :=
  (gives_bytes h).then (gives_pure t)

theorem length_littleEndian (k n : Nat) : (littleEndian k n).length = k := by
  induction k generalizing n with
  | zero => rfl
  | succ k ih => simp [littleEndian, ih]

theorem ofLittleEndian_littleEndian (k : Nat) {n : Nat} (h : n < 256 ^ k) :
    ofLittleEndian (littleEndian k n) = n := by
  induction k generalizing n with
  | zero =>
    have : n = 0 := by simpa using h
    rw [this]
    rfl
  | succ k ih =>
    have hdiv : n / 256 < 256 ^ k := by
      rw [Nat.div_lt_iff_lt_mul (by omega), ← Nat.pow_succ]
      exact h
    have hb : n.toUInt8.toNat = n % 256 := by rw [Nat.toUInt8, UInt8.toNat_ofNat']
    rw [littleEndian, ofLittleEndian, ih hdiv, hb]
    omega

theorem gives_fixed64 {n : Nat} (h : n < 2 ^ 64) :
    Gives (fixed64 fixed64Type) (littleEndian 8 n) n := by
  refine gives_content (fun rest => ?_) 0 _
  have hsplit := splitBytes_append (littleEndian 8 n) rest
  rw [length_littleEndian] at hsplit
  unfold readFixed64
  rw [hsplit]
  show Except.ok (ofLittleEndian (littleEndian 8 n), rest) = _
  rw [ofLittleEndian_littleEndian 8 (by norm_num at h ⊢; exact h)]

theorem numbersFrom_encode {ns : List Nat} (h : ∀ n ∈ ns, n < 2 ^ 64) (fuel : Nat)
    (hf : ns.length ≤ fuel) : numbersFrom fuel (ns.flatMap Varint.encode) = .ok ns := by
  induction ns generalizing fuel with
  | nil => cases fuel <;> rfl
  | cons n ns ih =>
    obtain ⟨fuel, rfl⟩ : ∃ k, fuel = k + 1 := ⟨fuel - 1, by simp at hf; omega⟩
    obtain ⟨b, bs, hb⟩ := List.exists_cons_of_ne_nil (Varint.encodeUpTo_ne_nil 9 n)
    have hn := Varint.decode_encode n (ns.flatMap Varint.encode) (h n (by simp))
    have hns := ih (fun m hm => h m (by simp [hm])) fuel (by simpa using hf)
    unfold Varint.encode at hn hns ⊢
    rw [List.flatMap_cons]
    rw [hb] at hn ⊢
    simp only [List.cons_append, numbersFrom] at hn ⊢
    rw [hn]
    show (numbersFrom fuel _ >>= fun rest => pure (n :: rest)) = _
    rw [hns]
    rfl

theorem length_le_flatMap_encode (ns : List Nat) : ns.length ≤ (ns.flatMap Varint.encode).length := by
  induction ns with
  | nil => simp
  | cons n ns ih =>
    have := Varint.size_pos n
    simp only [Varint.size] at this
    simp only [List.flatMap_cons, List.length_append, List.length_cons]
    omega

theorem gives_packed {ns : List Nat} (h : ∀ n ∈ ns, n < 2 ^ 64)
    (hl : (ns.flatMap Varint.encode).length < 2 ^ 64) :
    Gives (packed bytesType) (Varint.encode (ns.flatMap Varint.encode).length ++
      ns.flatMap Varint.encode) ns := by
  refine (gives_bytes hl).then ?_
  rw [numbersFrom_encode h _ (length_le_flatMap_encode ns)]
  exact gives_pure ns

end Reading

open Reading

variable {σ : Type} {step : Nat → Nat → σ → Reading σ} {s s₁ s₂ : σ}

theorem gives_ofPart {α : Type} {r : Except DecodeFault α} {a : α} (h : r = .ok a) :
    Gives (ofPart r) [] a := by
  rw [h]
  exact gives_pure a

/-! ### Sequences of fields -/

/-- The fields in `bytes` take the reader from `s` to `s'`, in at most one step for each byte. -/
def Consumes (step : Nat → Nat → σ → Reading σ) (bytes : List UInt8) (s s' : σ) : Prop :=
  ∃ k ≤ bytes.length, ∀ fuel rest,
    (fieldsFrom step (fuel + k) s).run { rest := bytes ++ rest } = (fieldsFrom step fuel s').run { rest }

theorem consumes_nil (s : σ) : Consumes step [] s s := ⟨0, le_rfl, fun _ _ => rfl⟩

theorem Consumes.append {b₁ b₂ : List UInt8} (h₁ : Consumes step b₁ s s₁) (h₂ : Consumes step b₂ s₁ s₂) :
    Consumes step (b₁ ++ b₂) s s₂ := by
  obtain ⟨k₁, hk₁, h₁⟩ := h₁
  obtain ⟨k₂, hk₂, h₂⟩ := h₂
  refine ⟨k₁ + k₂, by simp only [List.length_append]; omega, fun fuel rest => ?_⟩
  rw [List.append_assoc, show fuel + (k₁ + k₂) = fuel + k₂ + k₁ by omega, h₁, h₂]

theorem readMessage_of_consumes {bytes : List UInt8} (h : Consumes step bytes s s₁) :
    readMessage step s bytes = .ok s₁ := by
  obtain ⟨k, hk, h⟩ := h
  have hend : ∀ fuel, (fieldsFrom step fuel s₁).run { rest := [] } = (.ok s₁, { rest := [] }) := by
    intro fuel
    cases fuel <;> rfl
  have hrun := h (bytes.length - k) []
  rw [Nat.sub_add_cancel hk, List.append_nil, hend] at hrun
  rw [readMessage, hrun]

/-! ### One field -/

theorem readTag_tag {num type : Nat} (hnum : 0 < num ∧ num < 1000) (htype : type < 8)
    (rest : List UInt8) : readTag (tag num type ++ rest) = .ok ((num, type), rest) := by
  unfold readTag tag
  rw [Varint.decode_encode _ _ (by omega)]
  have hdiv : (num * 8 + type) / 8 = num := by omega
  have hmod : (num * 8 + type) % 8 = type := by omega
  have hlo : num ≠ 0 := by omega
  have hhi : ¬ twoTo 31 ≤ num := by
    have : 1000 ≤ twoTo 31 := by decide
    omega
  show (if (num * 8 + type) / 8 = 0 || twoTo 31 ≤ (num * 8 + type) / 8 then _ else _) = _
  simp [hdiv, hmod, hlo, hhi]

/-- A field with the content that its step reads. -/
theorem consumes_field {num type : Nat} (hnum : 0 < num ∧ num < 1000) (htype : type < 8)
    {content : List UInt8} (h : Gives (step num type s) content s₁) :
    Consumes step (tag num type ++ content) s s₁ := by
  have hne : tag num type ≠ [] := Varint.encodeUpTo_ne_nil 9 _
  refine ⟨1, ?_, fun fuel rest => ?_⟩
  · have := List.length_pos_iff.mpr hne
    simp only [List.length_append]
    omega
  · have hemp : (tag num type ++ (content ++ rest)).isEmpty = false := by
      rw [List.isEmpty_eq_false_iff]
      exact fun he => hne (List.append_eq_nil_iff.mp he).1
    have hnext : next.run { rest := tag num type ++ (content ++ rest) } =
        (.ok (some (num, type)), { rest := content ++ rest }) := by
      unfold next
      rw [run_bind, run_get]
      simp only [Option.isSome_none, hemp, Bool.or_false, Bool.false_eq_true, if_false,
        readTag_tag hnum htype]
      rfl
    rw [List.append_assoc, fieldsFrom, run_bind, hnext]
    show (step num type s >>= fun s' => fieldsFrom step fuel s').run { rest := content ++ rest } = _
    rw [run_bind, h rest]

section Fields

variable {num : Nat} (hnum : 0 < num ∧ num < 1000)
include hnum

theorem consumes_bytesField {data : List UInt8}
    (h : Gives (step num bytesType s) (Varint.encode data.length ++ data) s₁) :
    Consumes step (bytesField num data) s s₁ := by
  rw [bytesField, List.append_assoc]
  exact consumes_field hnum (by decide) h

/-- A text is left out if it is empty. -/
theorem consumes_textField {t : Text}
    (h : Gives (step num bytesType s) (Varint.encode t.bytes.length ++ t.bytes) s₁)
    (hempty : t = "" → s₁ = s) : Consumes step (textField num t) s s₁ := by
  unfold textField
  split
  · rename_i he
    have ht : t = "" := by
      cases t with
      | mk bytes => rw [show bytes = [] by simpa [Text.isEmpty] using he]; rfl
    rw [hempty ht]
    exact consumes_nil s
  · exact consumes_bytesField hnum h

/-- A number is left out if it is zero. -/
theorem consumes_numberField {n : Nat} (h : Gives (step num varintType s) (Varint.encode n) s₁)
    (hzero : n = 0 → s₁ = s) : Consumes step (numberField num n) s s₁ := by
  unfold numberField
  split
  · rename_i hn
    rw [hzero hn]
    exact consumes_nil s
  · exact consumes_field hnum (by decide) h

/-- No numbers are left out. -/
theorem consumes_packedField {ns : List Nat}
    (h : Gives (step num bytesType s) (Varint.encode (ns.flatMap Varint.encode).length ++
      ns.flatMap Varint.encode) s₁)
    (hempty : ns = [] → s₁ = s) : Consumes step (packedField num ns) s s₁ := by
  unfold packedField
  split
  · rename_i hn
    rw [hempty (by simpa using hn)]
    exact consumes_nil s
  · exact consumes_bytesField hnum h

end Fields

/-! ### Sizes -/

theorem length_le_bytesField (num : Nat) (data : List UInt8) :
    data.length < (bytesField num data).length := by
  have := Varint.size_pos data.length
  simp only [Varint.size] at this
  simp only [bytesField, List.length_append]
  omega

theorem length_le_textField (num : Nat) (t : Text) : t.bytes.length ≤ (textField num t).length := by
  unfold textField
  split
  · rename_i h
    simpa [Text.isEmpty] using h
  · exact le_of_lt (length_le_bytesField num t.bytes)

theorem length_le_packedField (num : Nat) (ns : List Nat) :
    (ns.flatMap Varint.encode).length ≤ (packedField num ns).length := by
  unfold packedField
  split
  · rename_i h
    simp [show ns = [] by simpa using h]
  · exact le_of_lt (length_le_bytesField num _)

/-! ### Signed numbers -/

theorem word_lt (i : Int) : word i < 2 ^ 64 := by
  have h : ((twoTo 64 : Nat) : Int) = 2 ^ 64 := by decide
  unfold word
  rw [h]
  omega

theorem signed_word_32 {i : Int} (h₁ : -2 ^ 31 ≤ i) (h₂ : i < 2 ^ 31) : signed 32 (word i) = i := by
  have h64 : ((twoTo 64 : Nat) : Int) = 2 ^ 64 := by decide
  have h32 : twoTo 32 = 2 ^ 32 := by decide
  unfold signed word
  rw [h64, h32, Int.bmod_def]
  omega

theorem signed_word_64 {i : Int} (h₁ : -2 ^ 63 ≤ i) (h₂ : i < 2 ^ 63) : signed 64 (word i) = i := by
  have h64 : ((twoTo 64 : Nat) : Int) = 2 ^ 64 := by decide
  have h64' : twoTo 64 = 2 ^ 64 := by decide
  unfold signed word
  rw [h64, h64', Int.bmod_def]
  omega

theorem eq_zero_of_word {i : Int} (h₁ : -2 ^ 63 ≤ i) (h₂ : i < 2 ^ 63) (h : word i = 0) : i = 0 := by
  have := signed_word_64 h₁ h₂
  rw [h] at this
  exact this.symm

end GameScript.Wire
