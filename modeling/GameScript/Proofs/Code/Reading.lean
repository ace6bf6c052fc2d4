import GameScript.Code.Listing
import GameScript.Proofs.Code.Layout
import Mathlib.Data.List.GetD

/-!
# Code reads back

* `Instruction.Fits` — operands that an operation can have, as `Gen.emit` checks them;
* `Instruction.decode_encode` — an instruction is read back, whatever follows it;
* `Assembly.decodeAll_machineCode` — the code of an assembly reads back as its instructions, with every
  label replaced by the place it stands for;
* `Assembly.placeAt_machineCode` — the line table gives every instruction its line.
-/

namespace GameScript

namespace Instruction

/-! ### Operands that fit a shape -/

/-- Operands for the kinds of a shape: one for each, and at the end of a list as many addresses as it
says. -/
inductive Fits : List OperandKind → List Nat → Prop
  | nil : Fits [] []
  | cons {k ks a as} : k ≠ .list → Fits ks as → Fits (k :: ks) (a :: as)
  | list (members : List Nat) : Fits [.list] (members.length :: members)

theorem fits_of_length {ks : List OperandKind} {as : List Nat} (hk : .list ∉ ks)
    (h : as.length = ks.length) : Fits ks as := by
  induction ks generalizing as with
  | nil =>
    rw [List.length_eq_zero_iff.mp h]
    exact .nil
  | cons k ks ih =>
    cases as with
    | nil => simp at h
    | cons a as =>
      simp only [List.mem_cons, not_or] at hk
      exact .cons (Ne.symm hk.1) (ih hk.2 (by simpa using h))

theorem fits_of_length_list {ks : List OperandKind} {as : List Nat} (hk : .list ∉ ks)
    (h : as.length = ks.length + 1 + as.getD ks.length 0) : Fits (ks ++ [.list]) as := by
  induction ks generalizing as with
  | nil =>
    cases as with
    | nil => simp at h
    | cons n members =>
      have hn : n = members.length := by
        simp only [List.length_cons, List.length_nil, List.getD_cons_zero] at h
        omega
      subst hn
      exact .list members
  | cons k ks ih =>
    cases as with
    | nil => simp at h
    | cons a as =>
      simp only [List.mem_cons, not_or] at hk
      refine .cons (Ne.symm hk.1) (ih hk.2 ?_)
      simp only [List.length_cons, List.getD_cons_succ] at h
      omega

/-- A list is the last operand of an operation, if it has one. -/
theorem shape_cases (op : Opcode) :
    .list ∉ op.shape ∨ ∃ ks, .list ∉ ks ∧ op.shape = ks ++ [.list] := by
  by_cases h : .list ∈ op.shape
  · refine .inr ⟨op.shape.dropLast, ?_, ?_⟩ <;> revert h <;> cases op <;> decide
  · exact .inl h

/-- The operands that `Gen.emit` accepts fit the operation. -/
theorem fits_of_arity {op : Opcode} {args : List Nat} (h : args.length = arity op args) :
    Fits op.shape args := by
  unfold arity at h
  rcases shape_cases op with hn | ⟨ks, hk, hs⟩
  · have hl : op.shape.getLast? ≠ some .list := fun hl => hn (List.mem_of_getLast? hl)
    split at h
    · exact absurd (by assumption) hl
    · exact fits_of_length hn h
  · rw [hs] at h ⊢
    simp only [List.getLast?_append, List.getLast?_singleton, Option.some_or, List.length_append,
      List.length_singleton, Nat.add_sub_cancel] at h
    exact fits_of_length_list hk h

/-- Replacing the labels leaves operands fitting: no length of a list is a label. -/
theorem Fits.resolve {i : Instruction} (h : Fits i.op.shape i.args) (f : Nat → Nat) :
    Fits (i.resolve f).op.shape (i.resolve f).args := by
  have key : ∀ {ks as}, Fits ks as →
      Fits ks ((operandsFrom ks as).map fun o => if o.1 = .label then f o.2 else o.2) := by
    intro ks as hf
    induction hf with
    | nil => exact .nil
    | cons hk _ ih => exact .cons hk ih
    | list members =>
      have hm : (operandsFrom [.list] (members.length :: members)).map
          (fun o => if o.1 = .label then f o.2 else o.2) = members.length :: members := by
        simp [operandsFrom, Function.comp_def]
      rw [hm]
      exact .list members
  exact key h

/-! ### One instruction -/

theorem decodeOperand_encode (n : Nat) (rest : List UInt8) (h : n < twoTo 32) :
    decodeOperand (Varint.encode n ++ rest) = some (n, rest) := by
  have h64 : n < 2 ^ 64 := lt_of_lt_of_le h (by decide)
  simp [decodeOperand, Varint.decode_encode n rest h64, h]

theorem decodeOperands_encode (as : List Nat) (rest : List UInt8) (h : ∀ a ∈ as, a < twoTo 32) :
    decodeOperands as.length (as.flatMap Varint.encode ++ rest) = some (as, rest) := by
  induction as with
  | nil => rfl
  | cons a as ih =>
    have ha := decodeOperand_encode a (as.flatMap Varint.encode ++ rest) (h a (by simp))
    have has := ih fun x hx => h x (by simp [hx])
    simp only [List.length_cons, List.flatMap_cons, List.append_assoc, decodeOperands]
    rw [ha]
    simp [has]

theorem length_le_length_flatMap_encode (as : List Nat) :
    as.length ≤ (as.flatMap Varint.encode).length := by
  induction as with
  | nil => simp
  | cons a as ih =>
    have := Varint.size_pos a
    simp only [List.flatMap_cons, List.length_append, List.length_cons]
    simp only [Varint.size] at this
    omega

theorem decodeShape_encode {ks : List OperandKind} {as : List Nat} (hf : Fits ks as)
    (rest : List UInt8) (h : ∀ a ∈ as, a < twoTo 32) :
    decodeShape ks (as.flatMap Varint.encode ++ rest) = some (as, rest) := by
  induction hf with
  | nil => rfl
  | @cons k ks a as hk _ ih =>
    have ha := decodeOperand_encode a (as.flatMap Varint.encode ++ rest) (h a (by simp))
    have has := ih fun x hx => h x (by simp [hx])
    simp only [List.flatMap_cons, List.append_assoc, decodeShape]
    rw [ha]
    simp [hk, has]
  | list members =>
    have ha := decodeOperand_encode members.length (members.flatMap Varint.encode ++ rest)
      (h _ (by simp))
    have hms := decodeOperands_encode members rest fun x hx => h x (by simp [hx])
    have hlen : ¬ (members.flatMap Varint.encode ++ rest).length < members.length := by
      have := length_le_length_flatMap_encode members
      simp only [List.length_append]
      omega
    simp only [List.flatMap_cons, List.append_assoc, decodeShape]
    rw [ha]
    simp only [Option.bind_eq_bind, Option.bind_some, ↓reduceIte, hlen, hms]
    simp

/-- **An instruction reads back**, and what follows it is left. -/
theorem decode_encode {i : Instruction} (hf : Fits i.op.shape i.args)
    (h : ∀ a ∈ i.args, a < twoTo 32) (pc : Nat) (rest : List UInt8) :
    decode pc i.op.number.toUInt8 (i.args.flatMap Varint.encode ++ rest) = .ok (i, rest) := by
  have hop : i.op.number.toUInt8.toNat = i.op.number := by
    cases i with
    | mk op args => cases op <;> rfl
  rw [decode, hop, Opcode.ofNumber?_number]
  simp only [decodeShape_encode hf rest h]

/-! ### All instructions -/

theorem decodeFrom_encode {is : List Instruction} (hf : ∀ i ∈ is, Fits i.op.shape i.args)
    (h : ∀ i ∈ is, ∀ a ∈ i.args, a < twoTo 32) (fuel pc : Nat) (hfuel : is.length ≤ fuel) :
    decodeFrom fuel pc (is.flatMap encode) =
      ((Assembly.starts pc (is.map size)).zip is, none) := by
  induction is generalizing fuel pc with
  | nil => simp [decodeFrom]
  | cons i is ih =>
    obtain ⟨fuel, rfl⟩ : ∃ n, fuel = n + 1 := ⟨fuel - 1, by simp at hfuel; omega⟩
    have hi := decode_encode (hf i (by simp)) (h i (by simp)) pc (is.flatMap encode)
    have hnext : pc + ((i.args.flatMap Varint.encode ++ is.flatMap encode).length + 1 -
        (is.flatMap encode).length) = pc + i.size := by
      have := length_encode i
      simp only [encode, List.length_cons] at this
      simp only [List.length_append]
      omega
    have his := ih (fun j hj => hf j (by simp [hj])) (fun j hj => h j (by simp [hj])) fuel
      (pc + i.size) (by simpa using hfuel)
    simp only [List.flatMap_cons, encode, List.cons_append, decodeFrom]
    rw [hi]
    simp only [hnext]
    rw [his]
    rfl

end Instruction

namespace Assembly

/-! ### The code of an assembly -/

/-- What `Gen.emit`, `Gen.newLabel` and `Gen.bind` keep up: operands fit, and labels are bound to places
among the instructions. -/
structure WellFormed (a : Assembly) : Prop where
  fits : ∀ s ∈ a.instructions, Instruction.Fits s.instruction.op.shape s.instruction.args
  binds : ∀ i, some i ∈ a.binds → i ≤ a.instructions.length

theorem getLast?_starts (pc : Nat) (ns : List Nat) : (starts pc ns).getLast? = some (pc + total ns) := by
  induction ns generalizing pc with
  | nil => simp [starts, total]
  | cons n ns ih =>
    have hne : starts (pc + n) ns ≠ [] := by
      cases ns <;> simp [starts]
    rw [starts, List.getLast?_cons_of_ne_nil hne, ih, total]
    congr 1
    omega

theorem starts_le_total {pc : Nat} {ns : List Nat} {p : Nat} (h : p ∈ starts pc ns) :
    p ≤ pc + total ns := by
  induction ns generalizing pc with
  | nil =>
    simp only [starts, List.mem_singleton] at h
    omega
  | cons n ns ih =>
    simp only [total]
    rcases List.mem_cons.mp h with rfl | h
    · omega
    · have := ih h
      omega

theorem length_code (a : Assembly) : a.machineCode.code.length = total (a.sizes a.places) := by
  show ((a.resolved a.places).flatMap Instruction.encode).length = _
  unfold sizes
  induction a.resolved a.places with
  | nil => rfl
  | cons i is ih => simp [total, ih, Instruction.length_encode]

/-- The last place is the end of the code. -/
theorem getLast?_places (a : Assembly) : a.places.getLast? = some a.machineCode.code.length := by
  rw [places_eq_starts, getLast?_starts, length_code, Nat.zero_add]

theorem places_le_length_code (a : Assembly) {pc : Nat} (h : pc ∈ a.places) :
    pc ≤ a.machineCode.code.length := by
  rw [places_eq_starts] at h
  have := starts_le_total h
  rwa [Nat.zero_add, ← length_code] at this

theorem target_le_length_code (a : Assembly) (l : Nat) :
    a.target a.places l ≤ a.machineCode.code.length := by
  unfold target
  split
  · rename_i i _
    rcases Nat.lt_or_ge i a.places.length with hi | hi
    · rw [List.getD_eq_getElem _ _ hi]
      exact a.places_le_length_code (List.getElem_mem hi)
    · rw [List.getD_eq_default _ _ hi]
      exact Nat.zero_le _
  · exact Nat.zero_le _

/-- The operands of resolved instructions are those that were given, or places in the code. -/
theorem mem_resolve_args {f : Nat → Nat} {i : Instruction} {x : Nat} (h : x ∈ (i.resolve f).args) :
    x ∈ i.args ∨ ∃ l, x = f l := by
  have key : ∀ (ks : List OperandKind) (as : List Nat),
      ∀ o ∈ Instruction.operandsFrom ks as, o.2 ∈ as := by
    intro ks
    induction ks with
    | nil => simp [Instruction.operandsFrom]
    | cons k ks ih =>
      intro as o ho
      cases as with
      | nil => simp [Instruction.operandsFrom] at ho
      | cons a as =>
        rcases List.mem_cons.mp ho with rfl | ho
        · simp
        · exact List.mem_cons_of_mem _ (ih as o ho)
  obtain ⟨⟨k, a⟩, ho, rfl⟩ := List.mem_map.mp h
  dsimp only
  split
  · exact .inr ⟨a, rfl⟩
  · exact .inl (key _ _ _ ho)

/-- **Code reads back**: if operands and places fit 32 bits, the code of an assembly reads as its
instructions, each at its place and with its labels replaced by places. -/
theorem decodeAll_machineCode (a : Assembly) (hw : a.WellFormed)
    (hargs : ∀ s ∈ a.instructions, ∀ x ∈ s.instruction.args, x < twoTo 32)
    (hsize : a.machineCode.code.length < twoTo 32) :
    Instruction.decodeAll a.machineCode.code = (a.places.zip (a.resolved a.places), none) := by
  have hfits : ∀ i ∈ a.resolved a.places, Instruction.Fits i.op.shape i.args := by
    intro i hi
    obtain ⟨s, hs, rfl⟩ := List.mem_map.mp hi
    exact (hw.fits s hs).resolve _
  have hlt : ∀ i ∈ a.resolved a.places, ∀ x ∈ i.args, x < twoTo 32 := by
    intro i hi x hx
    obtain ⟨s, hs, rfl⟩ := List.mem_map.mp hi
    rcases mem_resolve_args hx with hx | ⟨l, rfl⟩
    · exact hargs s hs x hx
    · exact lt_of_le_of_lt (a.target_le_length_code l) hsize
  have hfuel : (a.resolved a.places).length ≤ a.machineCode.code.length := by
    rw [length_code, length_resolved]
    exact a.length_instructions_le_total_sizes _
  have hstarts : starts 0 ((a.resolved a.places).map Instruction.size) = a.places := a.layout_places
  show Instruction.decodeFrom _ 0 ((a.resolved a.places).flatMap Instruction.encode) = _
  rw [Instruction.decodeFrom_encode hfits hlt _ 0 hfuel, hstarts]

/-! ### Lines -/

theorem pairwise_starts {ns : List Nat} (h : ∀ n ∈ ns, 1 ≤ n) (pc : Nat) :
    (starts pc ns).Pairwise (· < ·) := by
  have ge : ∀ (ns : List Nat) (pc p : Nat), p ∈ starts pc ns → pc ≤ p := by
    intro ns
    induction ns with
    | nil => simp [starts]
    | cons n ns ih =>
      intro pc p hp
      rcases List.mem_cons.mp hp with rfl | hp
      · exact le_rfl
      · have := ih _ _ hp
        omega
  induction ns generalizing pc with
  | nil => simp [starts]
  | cons n ns ih =>
    refine List.Pairwise.cons ?_ (ih (fun m hm => h m (by simp [hm])) _)
    intro p hp
    have h1 := h n (by simp)
    have h2 := ge _ _ _ hp
    omega

/-- Instructions start one after another. -/
theorem pairwise_places (a : Assembly) : a.places.Pairwise (· < ·) := by
  rw [places_eq_starts]
  apply pairwise_starts
  intro n hn
  obtain ⟨i, -, rfl⟩ := List.mem_map.mp hn
  exact i.size_pos

theorem exists_of_mem_lineTable {line : Int} {ps : List (Nat × SourceInstruction)} {e : LineEntry}
    (h : e ∈ lineTable line ps) : ∃ x ∈ ps, x.1 = e.pc := by
  induction ps generalizing line with
  | nil => simp [lineTable] at h
  | cons p ps ih =>
    obtain ⟨pc, s⟩ := p
    simp only [lineTable] at h
    split at h
    · obtain ⟨x, hx, he⟩ := ih h
      exact ⟨x, by simp [hx], he⟩
    · rcases List.mem_cons.mp h with rfl | h
      · exact ⟨(pc, s), by simp, rfl⟩
      · obtain ⟨x, hx, he⟩ := ih h
        exact ⟨x, by simp [hx], he⟩

/-- The place that the entries of a line table up to `pc` leave, starting from `p`. -/
def placeFrom (p : Place) (pc : Nat) (es : List LineEntry) : Place :=
  (es.takeWhile (·.pc ≤ pc)).foldl (fun _ e => ⟨e.line, 1⟩) p

theorem placeFrom_of_lt {p : Place} {pc : Nat} {es : List LineEntry} (h : ∀ e ∈ es, pc < e.pc) :
    placeFrom p pc es = p := by
  cases es with
  | nil => rfl
  | cons e es =>
    have := h e (by simp)
    have hle : ¬ e.pc ≤ pc := by omega
    simp [placeFrom, hle]

theorem placeFrom_cons {p : Place} {pc : Nat} {e : LineEntry} {es : List LineEntry} (h : e.pc ≤ pc) :
    placeFrom p pc (e :: es) = placeFrom ⟨e.line, 1⟩ pc es := by
  simp [placeFrom, h]

/-- The line table of instructions at increasing places gives each its line. Before the first of them
the line is either known or none of theirs. -/
theorem line_placeFrom_lineTable {ps : List (Nat × SourceInstruction)}
    (hps : (ps.map Prod.fst).Pairwise (· < ·)) {line : Int} {p : Place}
    (hp : p.line = line ∨ ∀ x ∈ ps, x.2.line ≠ line) {pc : Nat} {s : SourceInstruction}
    (hs : (pc, s) ∈ ps) : (placeFrom p pc (lineTable line ps)).line = s.line := by
  induction ps generalizing line p with
  | nil => simp at hs
  | cons x ps ih =>
    obtain ⟨pc₀, s₀⟩ := x
    rw [List.map_cons, List.pairwise_cons] at hps
    obtain ⟨hlt, hps⟩ := hps
    have hpast : ∀ l, ∀ e ∈ lineTable l ps, pc₀ < e.pc := by
      intro l e he
      obtain ⟨y, hy, hye⟩ := exists_of_mem_lineTable he
      rw [← hye]
      exact hlt _ (List.mem_map_of_mem hy)
    simp only [lineTable]
    by_cases hl : s₀.line = line
    · have hpl : p.line = line := by
        rcases hp with hp | hp
        · exact hp
        · exact absurd hl (hp (pc₀, s₀) (by simp))
      rw [if_pos hl]
      rcases List.mem_cons.mp hs with heq | hs
      · obtain ⟨rfl, rfl⟩ := Prod.mk.inj heq
        rw [placeFrom_of_lt (hpast line), hpl, hl]
      · exact ih hps (.inl hpl) hs
    · rw [if_neg hl]
      rcases List.mem_cons.mp hs with heq | hs
      · obtain ⟨rfl, rfl⟩ := Prod.mk.inj heq
        rw [placeFrom_cons (by simp), placeFrom_of_lt (hpast _)]
      · have hle : pc₀ ≤ pc := le_of_lt (hlt pc (List.mem_map_of_mem (f := Prod.fst) hs))
        rw [placeFrom_cons (by simpa using hle)]
        exact ih hps (.inl rfl) hs

theorem map_fst_zip_sublist {α β : Type} (xs : List α) (ys : List β) :
    ((xs.zip ys).map Prod.fst).Sublist xs := by
  induction xs generalizing ys with
  | nil => simp
  | cons x xs ih =>
    cases ys with
    | nil => simp
    | cons y ys => exact (ih ys).cons_cons x

/-- **Every instruction has its line**, if lines are not negative. -/
theorem placeAt_machineCode (a : Assembly) (hlines : ∀ s ∈ a.instructions, 0 ≤ s.line) {f : Function}
    (hf : f.lines = a.machineCode.lines) {pc : Nat} {s : SourceInstruction}
    (hs : (pc, s) ∈ a.places.zip a.instructions) : (f.placeAt pc).line = s.line := by
  have hps : ((a.places.zip a.instructions).map Prod.fst).Pairwise (· < ·) := by
    exact a.pairwise_places.sublist (map_fst_zip_sublist _ _)
  have hne : ∀ x ∈ a.places.zip a.instructions, x.2.line ≠ -1 := by
    intro x hx
    have := hlines x.2 (List.of_mem_zip hx).2
    omega
  show (placeFrom f.place pc f.lines).line = s.line
  rw [hf]
  exact line_placeFrom_lineTable hps (.inr hne) hs

end Assembly

end GameScript
