import GameScript.Code.Address
import GameScript.Proofs.Code.Reading

/-!
# Temporaries among operands

An operand is a number, and so is a temporary among the operands. Numbers that are too great for the
code may read back as smaller ones, but with the same three lowest bits, so that a temporary below a
bound stays one: `Assembly.tempsBelow_machineCode`.
-/

namespace GameScript

/-! ### Addresses and instructions -/

namespace Address

/-- A temporary has an index below `m`. -/
def Below (a : Address) (m : Nat) : Prop := a.isTemporary = true → a.index < m

theorem Below.mono {a : Address} {m n : Nat} (h : a.Below m) (hmn : m ≤ n) : a.Below n :=
  fun ht => lt_of_lt_of_le (h ht) hmn

theorem number_lt (m : Mode) : m.number < 8 := by cases m <;> decide

theorem encode_div (a : Address) : a.encode / 8 = a.index := by
  have := number_lt a.mode
  unfold encode
  omega

theorem ofNumber_encode (a : Address) : Mode.ofNumber a.encode = a.mode := by
  have hmod : a.encode % 8 = a.mode.number % 8 := by
    unfold encode
    omega
  rw [← Mode.ofNumber_number a.mode, Mode.ofNumber, hmod]
  rfl

end Address

/-- A number that stands for an address below `m`. -/
def TempBelow (m n : Nat) : Prop := Mode.ofNumber n = .temporary → n / 8 < m

theorem Address.Below.encode {a : Address} {m : Nat} (h : a.Below m) : TempBelow m a.encode := by
  intro ht
  rw [ofNumber_encode] at ht
  rw [encode_div]
  exact h (by simp [isTemporary, ht])

theorem TempBelow.mono {m n x : Nat} (h : TempBelow m x) (hmn : m ≤ n) : TempBelow n x :=
  fun ht => lt_of_lt_of_le (h ht) hmn

/-- The temporaries among the operands of an instruction are below `m`. -/
def Instruction.TempsBelow (m : Nat) (i : Instruction) : Prop :=
  ∀ o ∈ i.operands, o.1 = .address → TempBelow m o.2

theorem Instruction.TempsBelow.mono {m n : Nat} {i : Instruction} (h : i.TempsBelow m) (hmn : m ≤ n) :
    i.TempsBelow n :=
  fun o ho ha => (h o ho ha).mono hmn

namespace Varint

/-- What is read where a number was written, however great the number is. -/
theorem decodeUpTo_encodeUpTo_le {k n m : Nat} {rest rest' : List UInt8}
    (h : decodeUpTo k (encodeUpTo k n ++ rest) = .ok (m, rest')) :
    rest' = rest ∧ m ≤ n ∧ m % 128 = n % 128 := by
  induction k generalizing n m with
  | zero =>
    have hb : n.toUInt8.toNat = n % 256 := by rw [Nat.toUInt8, UInt8.toNat_ofNat']
    simp only [encodeUpTo_zero, List.singleton_append, decodeUpTo] at h
    split at h
    · cases h
      rw [hb]
      exact ⟨rfl, Nat.mod_le _ _, by omega⟩
    · cases h
  | succ k ih =>
    rw [encodeUpTo_succ] at h
    by_cases hn : n < 128
    · have hb : n.toUInt8.toNat = n := toNat_toUInt8_of_lt (by omega)
      have hlt : n.toUInt8 < 128 := by
        rw [UInt8.lt_iff_toNat_lt, hb]
        exact hn
      rw [if_pos hn, List.singleton_append, decodeUpTo, if_pos hlt, hb] at h
      cases h
      exact ⟨rfl, le_rfl, rfl⟩
    · have hb : (n % 128 + 128).toUInt8.toNat = n % 128 + 128 := toNat_toUInt8_of_lt (by omega)
      have hge : ¬ (n % 128 + 128).toUInt8 < 128 := by
        rw [UInt8.lt_iff_toNat_lt, hb]
        show ¬ n % 128 + 128 < 128
        omega
      rw [if_neg hn, List.cons_append, decodeUpTo, if_neg hge, hb] at h
      cases hd : decodeUpTo k (encodeUpTo k (n / 128) ++ rest) with
      | error e => rw [hd] at h; cases h
      | ok r =>
        rw [hd] at h
        cases h
        obtain ⟨hr, hle, -⟩ := ih hd
        exact ⟨hr, by omega, by omega⟩

end Varint

namespace Instruction

/-- A number that may be read where `a` was written. -/
def Reads (b a : Nat) : Prop := b ≤ a ∧ b % 8 = a % 8

theorem Reads.tempBelow {a b m : Nat} (h : Reads b a) (ha : TempBelow m a) : TempBelow m b := by
  intro hb
  have hmode : Mode.ofNumber a = Mode.ofNumber b := by rw [Mode.ofNumber, Mode.ofNumber, h.2]
  have hlt := ha (hmode.trans hb)
  have hle := h.1
  omega

theorem reads_of_decodeOperand {n m : Nat} {rest rest' : List UInt8}
    (h : decodeOperand (Varint.encode n ++ rest) = some (m, rest')) :
    rest' = rest ∧ Reads m n ∧ (n < 2 ^ 64 → m = n) := by
  unfold decodeOperand at h
  cases hd : Varint.decode (Varint.encode n ++ rest) with
  | error e => simp [hd] at h
  | ok r =>
    obtain ⟨m', rest''⟩ := r
    rw [hd] at h
    simp only [Option.ite_none_right_eq_some, Option.some.injEq, Prod.mk.injEq] at h
    obtain ⟨-, rfl, rfl⟩ := h
    obtain ⟨hr, hle, hmod⟩ := Varint.decodeUpTo_encodeUpTo_le hd
    refine ⟨hr, ⟨hle, by omega⟩, fun hn => ?_⟩
    rw [Varint.decode_encode n rest hn] at hd
    cases hd
    rfl

theorem reads_of_decodeOperands {as bs : List Nat} {rest rest' : List UInt8}
    (h : decodeOperands as.length (as.flatMap Varint.encode ++ rest) = some (bs, rest')) :
    rest' = rest ∧ List.Forall₂ Reads bs as := by
  induction as generalizing bs with
  | nil =>
    cases h
    exact ⟨rfl, .nil⟩
  | cons a as ih =>
    simp only [List.length_cons, List.flatMap_cons, List.append_assoc, decodeOperands,
      Option.bind_eq_bind, Option.bind_eq_some_iff] at h
    obtain ⟨⟨b, r₁⟩, hb, ⟨bs', r₂⟩, hbs, h⟩ := h
    cases h
    obtain ⟨rfl, hba, -⟩ := reads_of_decodeOperand hb
    obtain ⟨hr, hbs⟩ := ih hbs
    exact ⟨hr, .cons hba hbs⟩

theorem reads_of_decodeShape {ks : List OperandKind} {as bs : List Nat} (hf : Fits ks as)
    {rest rest' : List UInt8} (hlen : as.length < 2 ^ 64)
    (h : decodeShape ks (as.flatMap Varint.encode ++ rest) = some (bs, rest')) :
    rest' = rest ∧ List.Forall₂ Reads bs as := by
  induction hf generalizing bs with
  | nil =>
    cases h
    exact ⟨rfl, .nil⟩
  | @cons k ks a as hk _ ih =>
    simp only [List.flatMap_cons, List.append_assoc, decodeShape, hk, ↓reduceIte,
      Option.bind_eq_bind, Option.bind_some, Option.bind_eq_some_iff] at h
    obtain ⟨⟨b, r₁⟩, hb, ⟨bs', r₂⟩, hbs, h⟩ := h
    cases h
    obtain ⟨rfl, hba, -⟩ := reads_of_decodeOperand hb
    obtain ⟨hr, hbs⟩ := ih (by simp only [List.length_cons] at hlen; omega) hbs
    exact ⟨hr, .cons hba hbs⟩
  | list members =>
    simp only [List.flatMap_cons, List.append_assoc, decodeShape, ↓reduceIte,
      Option.bind_eq_bind, Option.bind_some] at h
    obtain ⟨⟨n, r₁⟩, hn, h⟩ := Option.bind_eq_some_iff.mp h
    -- the length of the list fits a number of 64 bits, so the members are read as they were written
    obtain ⟨rfl, hr, hexact⟩ := reads_of_decodeOperand hn
    obtain rfl := hexact (by simp only [List.length_cons] at hlen; omega)
    split at h
    · cases h
    · obtain ⟨⟨ms, r₂⟩, hms, h⟩ := Option.bind_eq_some_iff.mp h
      cases h
      obtain ⟨hr', hms⟩ := reads_of_decodeOperands hms
      exact ⟨hr', by simpa using ⟨hr, hms⟩⟩

/-- What is read where an instruction was written. -/
theorem reads_of_decode {i j : Instruction} (hf : Fits i.op.shape i.args) (hlen : i.args.length < 2 ^ 64)
    {pc : Nat} {rest rest' : List UInt8}
    (h : decode pc i.op.number.toUInt8 (i.args.flatMap Varint.encode ++ rest) = .ok (j, rest')) :
    rest' = rest ∧ j.op = i.op ∧ List.Forall₂ Reads j.args i.args := by
  have hop : i.op.number.toUInt8.toNat = i.op.number := by
    cases i with
    | mk op args => cases op <;> rfl
  rw [decode, hop, Opcode.ofNumber?_number] at h
  simp only at h
  cases hd : decodeShape i.op.shape (i.args.flatMap Varint.encode ++ rest) with
  | none => simp [hd] at h
  | some r =>
    obtain ⟨bs, r⟩ := r
    rw [hd] at h
    cases h
    obtain ⟨hr, hbs⟩ := reads_of_decodeShape hf hlen hd
    exact ⟨hr, rfl, hbs⟩

/-- Every instruction that is read was written, up to numbers that are too great. -/
theorem reads_of_decodeFrom {is : List Instruction} (hf : ∀ i ∈ is, Fits i.op.shape i.args)
    (hlen : (is.flatMap encode).length < 2 ^ 64) (fuel pc : Nat) :
    ∀ x ∈ (decodeFrom fuel pc (is.flatMap encode)).1,
      ∃ i ∈ is, x.2.op = i.op ∧ List.Forall₂ Reads x.2.args i.args := by
  induction is generalizing fuel pc with
  | nil => simp [decodeFrom]
  | cons i is ih =>
    cases fuel with
    | zero => simp [encode, decodeFrom]
    | succ fuel =>
      have hsum : (is.flatMap encode).length < 2 ^ 64 ∧ i.args.length < 2 ^ 64 := by
        have := length_le_length_flatMap_encode i.args
        simp only [List.flatMap_cons, encode, List.length_append, List.length_cons] at hlen
        exact ⟨by omega, by omega⟩
      simp only [List.flatMap_cons, encode, List.cons_append, decodeFrom]
      cases hd : decode pc i.op.number.toUInt8 (i.args.flatMap Varint.encode ++ is.flatMap encode) with
      | error f => simp
      | ok r =>
        obtain ⟨j, rest⟩ := r
        obtain ⟨rfl, hop, hargs⟩ := reads_of_decode (hf i (by simp)) hsum.2 hd
        intro x hx
        rcases List.mem_cons.mp hx with rfl | hx
        · exact ⟨i, by simp, hop, hargs⟩
        · obtain ⟨i', hi', h⟩ := ih (fun j hj => hf j (by simp [hj])) hsum.1 _ _ x hx
          exact ⟨i', by simp [hi'], h⟩

/-! ### Instructions whose temporaries are below a bound -/

theorem tempsBelow_mk {m : Nat} {op : Opcode} {args : List Nat} :
    (⟨op, args⟩ : Instruction).TempsBelow m ↔
      ∀ o ∈ operandsFrom op.shape args, o.1 = .address → TempBelow m o.2 := Iff.rfl

attribute [simp] tempsBelow_mk operandsFrom Opcode.shape

theorem tempsBelow_of_reads {i j : Instruction} {m : Nat} (hi : i.TempsBelow m) (hop : j.op = i.op)
    (hargs : List.Forall₂ Reads j.args i.args) : j.TempsBelow m := by
  have key : ∀ {ks as bs}, List.Forall₂ Reads bs as →
      (∀ o ∈ operandsFrom ks as, o.1 = .address → TempBelow m o.2) →
      ∀ o ∈ operandsFrom ks bs, o.1 = .address → TempBelow m o.2 := by
    intro ks as bs h
    induction h generalizing ks with
    | nil => exact id
    | @cons b a bs as hba _ ih =>
      intro hall o ho ha
      cases ks with
      | nil =>
        have hall' : ∀ o ∈ operandsFrom [] as, o.1 = .address → TempBelow m o.2 := fun o ho =>
          hall o (by simp only [operandsFrom, List.map_cons] at ho ⊢; exact List.mem_cons_of_mem _ ho)
        simp only [operandsFrom, List.map_cons] at ho
        rcases List.mem_cons.mp ho with rfl | ho
        · exact hba.tempBelow (hall (.address, a) (by simp [operandsFrom]) rfl)
        · exact ih hall' o (by simpa only [operandsFrom] using ho) ha
      | cons k ks =>
        simp only [operandsFrom] at ho hall
        rcases List.mem_cons.mp ho with rfl | ho
        · exact hba.tempBelow (hall (k, a) (by simp) ha)
        · exact ih (fun o ho => hall o (List.mem_cons_of_mem _ ho)) o ho ha
  unfold TempsBelow operands at hi ⊢
  rw [hop]
  exact key hargs hi

theorem operands_resolve (i : Instruction) (f : Nat → Nat) :
    (i.resolve f).operands = i.operands.map fun (k, a) => (k, if k = .label then f a else a) := by
  have key : ∀ ks as, operandsFrom ks ((operandsFrom ks as).map
      fun (k, a) => if k = .label then f a else a) =
      (operandsFrom ks as).map fun (k, a) => (k, if k = .label then f a else a) := by
    intro ks as
    induction ks generalizing as with
    | nil => simp [operandsFrom, Function.comp_def]
    | cons k ks ih =>
      cases as with
      | nil => rfl
      | cons a as => simp [operandsFrom, ih]
  exact key _ _

theorem TempsBelow.resolve {i : Instruction} {m : Nat} (h : i.TempsBelow m) (f : Nat → Nat) :
    (i.resolve f).TempsBelow m := by
  intro o ho ha
  rw [operands_resolve] at ho
  obtain ⟨⟨k, a⟩, hka, rfl⟩ := List.mem_map.mp ho
  simp only at ha
  subst ha
  simpa using h _ hka rfl

end Instruction

/-- The temporaries that code refers to are below what its instructions say. -/
theorem Assembly.tempsBelow_machineCode {a : Assembly} {m : Nat}
    (hf : ∀ s ∈ a.instructions, Instruction.Fits s.instruction.op.shape s.instruction.args)
    (ht : ∀ s ∈ a.instructions, s.instruction.TempsBelow m)
    (hlen : a.machineCode.code.length < 2 ^ 64) :
    ∀ x ∈ (Instruction.decodeAll a.machineCode.code).1, x.2.TempsBelow m := by
  have hf' : ∀ i ∈ a.resolved a.places, Instruction.Fits i.op.shape i.args := by
    intro i hi
    obtain ⟨s, hs, rfl⟩ := List.mem_map.mp hi
    exact (hf s hs).resolve _
  intro x hx
  obtain ⟨i, hi, hop, hargs⟩ := Instruction.reads_of_decodeFrom hf' hlen _ _ x hx
  obtain ⟨s, hs, rfl⟩ := List.mem_map.mp hi
  exact Instruction.tempsBelow_of_reads ((ht s hs).resolve _) hop hargs

/-! ### Compiled functions -/

/-- The temporaries of a compiled function: as many are released as allocated, and every one that its
code refers to is below the greatest depth of the stack. Code has fewer than `2 ^ 64` bytes. -/
structure Function.Balanced (f : Function) : Prop where
  released : f.allocated = f.released
  below : f.code.length < 2 ^ 64 → ∀ x ∈ (Instruction.decodeAll f.code).1,
    x.2.TempsBelow f.maxTemps.toNat

end GameScript
