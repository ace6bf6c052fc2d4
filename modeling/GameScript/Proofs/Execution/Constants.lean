import GameScript.Proofs.Execution.Tests
import GameScript.Proofs.Lowering.Pools
import GameScript.Proofs.Syntax.Spelling

/-!
# Code of constant expressions

A constant expression is computed to a value that compares as the value the analysis has found for it does
(`Value.Twin`): the constant itself, or a new array or dictionary.
-/

namespace GameScript

/-! ### Values that compare alike -/

/-- The value `u` does as well as `v` as a constant to compare with and as a key. -/
structure Value.Twin (u v : Value) : Prop where
  type : u.type = v.type
  repr : u.repr = v.repr
  hash : u.hash = v.hash
  equal : ∀ x : Value, x.equal u = x.equal v

namespace Value

variable {u v : Value} {us vs : List Value}

theorem Alike.twin (h : u.Alike v) : u.Twin v := by
  have h : u.unify = v.unify := h
  refine ⟨?_, ?_, ?_, fun x => ?_⟩
  · rw [← type_unify u, h, type_unify]
  · rw [← repr_unify u, h, repr_unify]
  · rw [← hash_unify u, h, hash_unify]
  · rw [← equal_unify x u, h, equal_unify]

theorem equalElements_twins (xs : List Value) (h : List.Forall₂ Twin us vs) :
    equalElements xs us = equalElements xs vs := by
  induction h generalizing xs with
  | nil => rfl
  | cons huv _ ih => cases xs <;> simp [equalElements, huv.equal, ih]

theorem reprs_twins (h : List.Forall₂ Twin us vs) : reprs us = reprs vs := by
  induction h with
  | nil => rfl
  | cons huv _ ih => simp [reprs, huv.repr, ih]

/-- Arrays of twins. -/
theorem twin_array (h : List.Forall₂ Twin us vs) : (ofList us).Twin (.array .array .nil "" vs true) := by
  have hrepr : (ofList us).repr = (array .array .nil "" vs true).repr := by
    simp [ofList, repr, reprs_twins h]
  refine ⟨rfl, hrepr, ?_, fun x => ?_⟩
  · simpa [hash, ofList, type] using congrArg (BuiltinType.array.name ++ ":" ++ ·) hrepr
  · cases x <;> simp [equal, ofList, h.length_eq, equalElements_twins _ h]

/-- Entries with twins for keys and values. -/
def Twins (e e' : Entry) : Prop := e.key.Twin e'.key ∧ e.value.Twin e'.value

variable {es es' : List Entry}

theorem lookup?_twins (h : List.Forall₂ Twins es es') {k k' : Value} (hk : k.hash = k'.hash) :
    Option.Rel Twin (lookup? k es) (lookup? k' es') := by
  induction h with
  | nil => exact .none
  | @cons e e' _ _ he _ ih =>
    unfold lookup? at ih ⊢
    rw [List.find?_cons, List.find?_cons, he.1.hash, hk]
    cases hd : decide (e'.key.hash = k'.hash) with
    | true => exact .some he.2
    | false => exact hk ▸ ih

theorem insertEntry_twins (h : List.Forall₂ Twins es es') {k k' : Value} (hk : k.Twin k') (hv : u.Twin v) :
    List.Forall₂ Twins (insertEntry k u es) (insertEntry k' v es') := by
  induction h with
  | nil => exact .cons ⟨hk, hv⟩ .nil
  | cons he hes ih =>
    unfold insertEntry
    rw [he.1.hash, hk.hash]
    split
    · exact .cons ⟨he.1, hv⟩ hes
    · exact .cons he ih

theorem reprEntries_twins (h : List.Forall₂ Twins es es') : reprEntries es = reprEntries es' := by
  induction h with
  | nil => rfl
  | @cons e e' _ _ he _ ih =>
    obtain ⟨k, v⟩ := e
    obtain ⟨k', v'⟩ := e'
    have hk : k.repr = k'.repr := he.1.repr
    have hv : v.repr = v'.repr := he.2.repr
    simp [reprEntries, hk, hv, ih]

theorem equalEntries_twins (xs : List Entry) (h : List.Forall₂ Twins es es') :
    equalEntries xs es = equalEntries xs es' := by
  induction xs with
  | nil => rfl
  | cons x xs ih =>
    obtain ⟨k, v⟩ := x
    have hlookup := lookup?_twins h (rfl : k.hash = k.hash)
    unfold equalEntries
    rw [ih]
    generalize lookup? k es = r at hlookup
    generalize lookup? k es' = r' at hlookup
    cases hlookup with
    | none => rfl
    | some ht => simp [ht.equal]

/-- Dictionaries of twins. -/
theorem twin_ofEntries (h : List.Forall₂ Twins es es') : (ofEntries es false).Twin (ofEntries es' true) := by
  have hfold : ∀ {acc acc' : List Entry}, List.Forall₂ Twins acc acc' →
      List.Forall₂ Twins (es.foldl (fun acc e => insertEntry e.key e.value acc) acc)
        (es'.foldl (fun acc e => insertEntry e.key e.value acc) acc') := by
    induction h with
    | nil => exact id
    | cons he _ ih => exact fun hacc => ih (insertEntry_twins hacc he.1 he.2)
  have hall := hfold .nil
  have hrepr : (ofEntries es false).repr = (ofEntries es' true).repr := by
    simp [ofEntries, repr, reprEntries_twins hall]
  refine ⟨rfl, hrepr, ?_, fun x => ?_⟩
  · simpa [hash, ofEntries, type] using congrArg (BuiltinType.dictionary.name ++ ":" ++ ·) hrepr
  · cases x <;> simp [equal, ofEntries, hall.length_eq, equalEntries_twins _ hall]

end Value

/-! ### Integers as constants -/

/-- An integer that is not negative is told from all other constants. -/
theorem Pool.told_int (cs : List Value) {n : Nat} (hn : n < 2 ^ 63) : Pool.Told cs (.int (Int64.ofNat n)) := by
  intro c _ h
  have hint : (Int64.ofNat n).toInt = n := Int64.toInt_ofNat_of_lt hn
  have hwritten : Pool.written (.int (Int64.ofNat n)) = Text.ofNat n := by
    show Text.ofInt (Int64.ofNat n).toInt = _
    rw [hint]
    rfl
  obtain ⟨hne, hdigits, hnumber⟩ := Scan.ofNat_spells n
  cases c with
  | int j =>
    have hj : Text.ofInt j.toInt = Text.ofNat n := (Pool.key_eq_iff.mp h).written.trans hwritten
    have hjn : j.toInt = n := by
      cases hji : j.toInt with
      | ofNat m =>
        rw [hji] at hj
        have hm := (Scan.ofNat_spells m).2.2
        rw [show Text.ofNat m = Text.ofNat n from hj, hnumber] at hm
        exact congrArg Int.ofNat (Option.some.inj hm).symm
      | negSucc m =>
        -- A negative number is written with a minus sign, which is no digit.
        rw [hji] at hj
        have hminus : (45 : UInt8) ∈ (Text.ofNat n).bytes := by
          rw [← hj]
          exact List.mem_append_left _ (by decide)
        exact absurd (hdigits 45 hminus) (by decide)
    rw [Int64.toInt_inj.mp (hjn.trans hint.symm)]
    rfl
  | array =>
    obtain ⟨b, bs, hb⟩ := List.exists_cons_of_ne_nil hne
    refine absurd h (Pool.key_array_ne b bs ?_ fun hb' => ?_)
    · rw [Pool.bytes_key, hwritten, hb]
    · exact absurd (hdigits b (hb ▸ List.mem_cons_self)) (by rw [hb']; decide)
  | _ => cases Pool.type_eq_of_key h

/-! ### Constant expressions -/

/-- An entry of a constant dictionary. -/
def DictEntry.constant? (e : DictEntry) : Option Entry := do return ⟨← e.key.value?, ← e.value.value?⟩

mutual

/-- A constant expression as the analysis leaves it. The value of an array or a dictionary that is written
out is made of the values of its parts, and its code has numbers of 32 bits; any other expression is a
constant of the program that is told from those of `cs`, or a script, which is found when the program runs. -/
def Expr.Known (cs : List Value) (found : Expr → Prop) : Expr → Prop
  | .list _ items _ i => i.reduced = true ∧ i.type.isScriptValue = false ∧ i.type.elementType.Untyped ∧
    items.length < 2 ^ 32 ∧ Expr.AllKnown cs found items ∧
    i.value = (items.mapM Expr.value?).map fun vs => .array .array .nil "" vs true
  | .dict _ es _ _ i => i.reduced = true ∧ i.type.isScriptValue = false ∧ 2 * es.length < 2 ^ 32 ∧
    Expr.EntriesKnown cs found es ∧ i.value = (es.mapM DictEntry.constant?).map (Value.ofEntries · true)
  | x => found x ∨ x.info.reduced = true ∧ x.info.type.isScriptValue = false ∧
    ∃ v, x.value? = some v ∧ Pool.Told cs v

def Expr.AllKnown (cs : List Value) (found : Expr → Prop) : List Expr → Prop
  | [] => True
  | x :: xs => x.Known cs found ∧ Expr.AllKnown cs found xs

def Expr.EntriesKnown (cs : List Value) (found : Expr → Prop) : List DictEntry → Prop
  | [] => True
  | ⟨k, v⟩ :: es => k.Known cs found ∧ v.Known cs found ∧ Expr.EntriesKnown cs found es

end

variable {cs : List Value} {E : Scene}
  {S : Setup cs (Value.host E)}

/-- The code between `s` and `s'` computes values into addresses, one after another, and tests nothing. -/
structure SuppliedAll (S : Setup cs (Value.host E)) (s : Lowering) (as : List Address) (s' : Lowering)
    (us : List Value) : Prop where
  grows : Grows [] s s'
  ready : s'.Ready
  holds : HoldsAll s.gen.temps as s'.gen.temps
  nesting : s'.nesting = s.nesting.withTemps s'.gen.temps
  runs : S.Covers s' → ∀ m w, S.Full m → ∃ m' l, S.hosted.Reaches (S.atEnd s m w) (S.atEnd s' m' (w ++ l)) ∧
    Cells.Same s.gen.temps.length m m' ∧ Pattern.Passed l ∧ List.Forall₂ (S.Steady m') as us

theorem operand_values {V : Type} (n : Nat) (us : List V) :
    Operand.values (.number n :: us.map Operand.value) = us := by
  simp [Operand.values, List.filterMap_map]

theorem length_eq_of_mapM {α β : Type} {f : α → Option β} {xs : List α} {ys : List β}
    (h : xs.mapM f = some ys) : xs.length = ys.length := by
  induction xs generalizing ys with
  | nil =>
    obtain rfl : [] = ys := Option.some.inj h
    rfl
  | cons x xs ih =>
    rw [List.mapM_cons] at h
    obtain ⟨y, -, h⟩ := Option.bind_eq_some_iff.mp h
    obtain ⟨ys', hys, h⟩ := Option.bind_eq_some_iff.mp h
    obtain rfl := Option.some.inj h
    simp [ih hys]

namespace Lower

variable {ctx : LowerContext} {s s₁ s₂ s₃ : Lowering} {a : Address} {as : List Address} {u v : Value}
  {us vs : List Value} {x : Expr} {found : Expr → Prop}

/-- Code that computes a value which does as well as `v`. -/
def Supplies (S : Setup cs (Value.host E)) (ctx : LowerContext) (x : Lower Address) (v : Value) : Prop :=
  ∀ s, s.Ready → Ends x ctx s fun a s' => ∃ u, (S.Covers s' → u.Twin v) ∧ Supplied S s a s' u

/-- Code that computes values which do as well as those of `vs`. -/
def SuppliesAll (S : Setup cs (Value.host E)) (ctx : LowerContext) (x : Lower (List Address))
    (vs : List Value) : Prop :=
  ∀ s, s.Ready → Ends x ctx s fun as s' =>
    ∃ us, (S.Covers s' → List.Forall₂ Value.Twin us vs) ∧ SuppliedAll S s as s' us

theorem supplied_nil (hs : s.Ready) : SuppliedAll S s [] s [] := by
  refine ⟨.refl s, hs, .nil _, rfl, fun hi m w hm => ⟨m, [], ?_, .refl _ m, Pattern.passed_nil, .nil⟩⟩
  rw [List.append_nil]
  exact .refl _

theorem supplied_cons (h : Supplied S s a s₁ u) (h₁ : SuppliedAll S s₁ as s₂ us) :
    SuppliedAll S s (a :: as) s₂ (u :: us) := by
  refine ⟨h.grows.then h₁.grows, h₁.ready, .cons h.holds h₁.holds, ?_, fun hi m w hm => ?_⟩
  · rw [h₁.nesting, h.nesting]
    rfl
  obtain ⟨m₁, l₁, hreach₁, hsame₁, hl₁, ha⟩ := h.runs (hi.of_grows h₁.grows) m w hm
  obtain ⟨m₂, l₂, hreach₂, hsame₂, hl₂, has⟩ := h₁.runs hi m₁ (w ++ l₁) (hm.same hsame₁)
  rw [List.append_assoc] at hreach₂
  exact ⟨m₂, l₁ ++ l₂, hreach₁.trans hreach₂, hsame₁.trans (hsame₂.mono h.depth_le), hl₁.append hl₂,
    .cons (ha.same hsame₂ fun ht => (h.index ht).2) has⟩

/-- The operands of an operation that makes a container. -/
theorem operands_container {op : Opcode} {d n : Nat} {m : Cells Value} {w : List Probe}
    (hop : op.shape = [.address, .list]) (has : List.Forall₂ (S.Steady m) as us) :
    S.hosted.operands m w .written ⟨op, d :: n :: as.map Address.encode⟩ =
      some (.number n :: us.map Operand.value) := by
  have hvalues : ((as.map Address.encode).map (OperandKind.address, ·)).mapM (S.hosted.operand m w) =
      some (us.map Operand.value) := by
    induction has with
    | nil => rfl
    | cons ha _ ih =>
      rw [List.map_cons, List.map_cons, List.mapM_cons, ih, Setup.operand_address (ha.reads w)]
      rfl
  unfold HostMachine.operands Instruction.operands
  simp only [hop, Instruction.operandsFrom, if_true, List.drop_succ_cons, List.drop_zero, List.mapM_cons, hvalues]
  rfl

theorem steady_narrow {m : Cells Value} (h : List.Forall₂ (S.Steady m) as us) :
    ∀ a ∈ as, a.encode < twoTo 32 := by
  induction h with
  | nil => exact nofun
  | cons ha _ ih => exact List.forall_mem_cons.mpr ⟨ha.narrow, ih⟩

/-- Releasing the values of a list leaves the stack as it was before them. -/
theorem releaseAll_adds {before : List StaticType} (hs : s.Ready) (hh : HoldsAll before as s.gen.temps) :
    Ends (Gen.releaseAll as) ctx s fun _ s' => Adds s [] (s.nesting.withTemps before) s' := by
  induction as using List.reverseRecOn generalizing s with
  | nil =>
    generalize hafter : s.gen.temps = after at hh
    cases hh
    subst hafter
    exact .refl hs
  | append_singleton as a ih =>
    obtain ⟨mid, has, ha⟩ := hh.snoc
    rw [releaseAll_snoc, lift_bind]
    refine (release_adds hs ha).bind fun _ s₁ h₁ => ?_
    refine (ih h₁.ready (h₁.temps ▸ has)).post fun _ s₂ h₂ => ?_
    have h := h₁.trans h₂
    rwa [h₁.nesting] at h

/-- A new container made of values that have been computed. -/
theorem container_supplies {op : Opcode} {code : Lower (List Address)} {t : StaticType} (f : List Value → Value)
    (hop : op = .constructArray ∨ op = .constructDictionary)
    (hf : ∀ n us, Value.operate E.lookup op (.number n :: us.map Operand.value) = some (f us))
    (hlen : vs.length < 2 ^ 32) (hcode : SuppliesAll S ctx code vs)
    (htwin : ∀ us, List.Forall₂ Value.Twin us vs → (f us).Twin v) :
    Supplies S ctx (do
      let dst ← Gen.addTemporary t
      let items ← code
      Gen.emitList op items [dst.encode]
      Gen.releaseAll items
      return dst) v := by
  intro s hs
  have hshape : op.shape = [.address, .list] := by rcases hop with rfl | rfl <;> rfl
  have htarget : op.target? = some .written := by rcases hop with rfl | rfl <;> rfl
  refine (addTemporary_adds hs t).bind fun dst s₁ hpost => ?_
  obtain ⟨h₁, hdst⟩ := hpost
  subst hdst
  refine (hcode s₁ h₁.ready).bind fun as s₂ hpost => ?_
  obtain ⟨us, hus, h₂⟩ := hpost
  refine (emit_adds h₂.ready _ _).bind fun _ s₃ h₃ => ?_
  have htemps₃ : s₃.gen.temps = s₂.gen.temps := h₃.temps
  refine (releaseAll_adds h₃.ready (htemps₃ ▸ h₂.holds)).bind fun _ s₄ h₄ => ?_
  refine ⟨f us, fun hi => htwin us (hus (hi.of_grows (h₃.grows.then h₄.grows))), ?_⟩
  have hnest : s₄.nesting = s.nesting.withTemps (t :: s.gen.temps) := by
    rw [h₄.nesting, h₃.nesting, h₂.nesting, h₁.temps, h₁.nesting]
    rfl
  have htemps : s₄.gen.temps = t :: s.gen.temps := congrArg Nesting.temps hnest
  refine ⟨h₁.grows.then (h₂.grows.then (h₃.grows.then h₄.grows)), h₄.ready, htemps ▸ holds_temporary _ _ _,
    htemps ▸ hnest, ⟨nofun, nofun⟩, fun hi m w hm => ?_⟩
  have hi₃ := hi.of_grows h₄.grows
  have hi₂ := hi₃.of_grows h₃.grows
  obtain ⟨m₁, l, hreach, hsame, hl, has⟩ := h₂.runs hi₂ m w hm
  rw [Setup.atEnd_of_adds h₁] at hreach
  have hroom := (hm.same hsame).room hi₂ h₂.ready (h₁.depth_lt.trans_le h₂.holds.length_le)
  have hlen' : as.length < twoTo 32 := by
    rw [has.length_eq, (hus hi₂).length_eq]
    exact hlen
  have hr := Instruction.readable_list [Address.encode ⟨.temporary, s.gen.temps.length, t⟩] as
    (show op.shape.getLast? = _ by rw [hshape]; rfl) (by rw [hshape]; rfl)
    (by simpa using hroom.narrow t) hlen' (steady_narrow has)
  have hdone : (Value.host E).act op (.number as.length :: us.map Operand.value) (w ++ l) =
      some (f us, w ++ l ++ [⟨op, .number as.length :: us.map Operand.value, f us⟩]) := by
    simp [Value.host, hf]
  have hresult := Setup.reaches_result htarget h₃ hi₃ hr hroom (operands_container hshape has) hdone
  rw [List.append_assoc, ← Setup.atEnd_of_adds h₄] at hresult
  refine ⟨_, _, hreach.trans hresult, (hsame.mono h₁.depth_lt.le).trans (m₁.same_setTemp le_rfl _),
    hl.append (Pattern.passed_singleton fun ht => ?_), Setup.steady_setTemp hroom _⟩
  rcases hop with rfl | rfl <;> rcases ht with ht | ht | ht <;> cases ht

/-! ### Expressions -/

theorem denotes_eq_false {t : StaticType} (h : t.isScriptValue = false) (cls : DeclId) :
    t.denotes cls = false := by
  unfold StaticType.isScriptValue at h
  unfold StaticType.denotes
  cases hm : t.isMeta with
  | false => rfl
  | true =>
    cases hs : t.shape with
    | cls => simp [hm, hs] at h
    | _ => rfl

/-- A container that is written out is no constant of the program. -/
theorem direct?_container (hc : x.isContainer = true) (hr : x.info.reduced = true)
    (ht : x.info.type.isScriptValue = false) :
    Ends (direct? x) ctx s fun r s' => r = none ∧ s' = s := by
  unfold direct? Ends
  simp only [hr, hc, ht, denotes_eq_false ht, Bool.not_true, Bool.false_eq_true, if_false, Bool.false_and, after_bind,
    after_read]
  cases x.info.value <;> exact ⟨rfl, rfl⟩

/-- Any other constant is one of the program, if it is no script. -/
theorem direct?_supplies (hc : x.isContainer = false) (hr : x.info.reduced = true)
    (ht : x.info.type.isScriptValue = false) (hv : x.value? = some v) (htold : Pool.Told cs v) (hs : s.Ready) :
    Ends (direct? x) ctx s fun r s' =>
      ∃ a, r = some a ∧ ∃ u, (S.Covers s' → u.Twin v) ∧ Supplied S s a s' u := by
  have hv : x.info.value = some v := hv
  unfold direct? Ends
  simp only [hr, hc, ht, hv, denotes_eq_false ht, Bool.not_true, Bool.not_false, Bool.and_self, if_true,
    Bool.false_eq_true, if_false, after_bind, after_pure, after_read]
  refine (constant_steady htold hs S).post fun a s' hpost => ?_
  obtain ⟨h, hmode, u, hu⟩ := hpost
  exact ⟨a, rfl, u, fun hi => (hu hi).1.twin, supplied_constant h hmode fun hi => (hu hi).2⟩

/-- The code of a constant that is no container. -/
theorem direct_supplies (hc : x.isContainer = false) (hr : x.info.reduced = true)
    (ht : x.info.type.isScriptValue = false) (hv : x.value? = some v) (htold : Pool.Told cs v) :
    Supplies S ctx (expr x) v := by
  intro s hs
  unfold expr
  refine (direct?_supplies (S := S) hc hr ht hv htold hs).bind fun r s₁ hpost => ?_
  obtain ⟨a, hra, hsupplied⟩ := hpost
  subst hra
  exact hsupplied

theorem known_list {pos close : Pos} {items : List Expr} {i : Info}
    (h : (Expr.list pos items close i).Known cs found) : i.reduced = true ∧ i.type.isScriptValue = false ∧
      i.type.elementType.Untyped ∧ items.length < 2 ^ 32 ∧ Expr.AllKnown cs found items ∧
      i.value = (items.mapM Expr.value?).map fun vs => .array .array .nil "" vs true := by
  rwa [Expr.Known] at h

theorem array_supplies {items : List Expr} {t : StaticType} (ht : t.elementType.Untyped)
    (hlen : vs.length < 2 ^ 32) (h : SuppliesAll S ctx (exprs items) vs) :
    Supplies S ctx (array t (exprs items)) (.array .array .nil "" vs true) := by
  have hplain : (t.elementType.isHard && !t.elementType.isVariant) = false := by
    rcases ht with h | h <;> simp [h]
  have hcode := container_supplies (t := t) Value.ofList (.inl rfl)
    (fun n us => congrArg (some ∘ Value.ofList) (operand_values n us)) hlen h fun us hus => Value.twin_array hus
  intro s hs
  unfold array
  simp only [hplain, Bool.false_eq_true, if_false]
  exact hcode s hs

theorem known_dict {pos close : Pos} {es : List DictEntry} {style : DictStyle} {i : Info}
    (h : (Expr.dict pos es style close i).Known cs found) : i.reduced = true ∧ i.type.isScriptValue = false ∧
      2 * es.length < 2 ^ 32 ∧ Expr.EntriesKnown cs found es ∧
      i.value = (es.mapM DictEntry.constant?).map (Value.ofEntries · true) := by
  rwa [Expr.Known] at h

theorem pairUp_twins {es : List Entry} (h : List.Forall₂ Value.Twin us (es.flatMap fun e => [e.key, e.value])) :
    List.Forall₂ Value.Twins (Value.pairUp us) es := by
  induction es generalizing us with
  | nil =>
    cases h
    exact .nil
  | cons e es ih =>
    obtain _ | ⟨hk, _ | ⟨hv, h⟩⟩ := h
    exact .cons ⟨hk, hv⟩ (ih h)

theorem length_flatMap_pair (es : List Entry) : (es.flatMap fun e => [e.key, e.value]).length = 2 * es.length := by
  induction es with
  | nil => rfl
  | cons e es ih => simp [ih]; omega

theorem dictionary_supplies {items : Lower (List Address)} {es : List Entry} {t : StaticType}
    (hlen : 2 * es.length < 2 ^ 32) (h : SuppliesAll S ctx items (es.flatMap fun e => [e.key, e.value])) :
    Supplies S ctx (dictionary t items) (.ofEntries es true) :=
  container_supplies (fun us => .ofEntries (Value.pairUp us) false) (.inr rfl)
    (fun n us => congrArg (fun vs => some (Value.ofEntries (Value.pairUp vs) false)) (operand_values n us))
    (length_flatMap_pair es ▸ hlen) h
    fun _ hus => Value.twin_ofEntries (pairUp_twins hus)

/-- The code of expressions of a kind finds their values. -/
def FindsConstants (S : Setup cs (Value.host E)) (ctx : LowerContext) (found : Expr → Prop) : Prop :=
  ∀ x v, found x → x.value? = some v → Supplies S ctx (expr x) v

mutual

/-- The code of a constant expression computes a value that does as well as its own. -/
theorem expr_supplies (hf : FindsConstants S ctx found) (x : Expr) (h : x.Known cs found) {v : Value}
    (hv : x.value? = some v) : Supplies S ctx (expr x) v := by
  cases x with
  | list p items c i =>
    obtain ⟨hr, ht, huntyped, hlen, hitems, hvalue⟩ := known_list h
    have hv : i.value = some v := hv
    rw [hvalue] at hv
    obtain ⟨vs, hvs, rfl⟩ := Option.map_eq_some_iff.mp hv
    have hvslen : vs.length < 2 ^ 32 := (length_eq_of_mapM hvs) ▸ hlen
    intro s hs
    rw [expr]
    refine (direct?_container (x := .list p items c i) rfl hr ht).bind fun r s₁ hpost => ?_
    obtain ⟨hr₁, hs₁⟩ := hpost
    subst hr₁ hs₁
    exact array_supplies huntyped hvslen (exprs_supply hf items hitems hvs) s₁ hs
  | dict p es l c i =>
    obtain ⟨hr, ht, hlen, hes, hvalue⟩ := known_dict h
    have hv : i.value = some v := hv
    rw [hvalue] at hv
    obtain ⟨entries, hentries, rfl⟩ := Option.map_eq_some_iff.mp hv
    have hlen' : 2 * entries.length < 2 ^ 32 := (length_eq_of_mapM hentries) ▸ hlen
    intro s hs
    rw [expr]
    refine (direct?_container (x := .dict p es l c i) rfl hr ht).bind fun r s₁ hpost => ?_
    obtain ⟨hr₁, hs₁⟩ := hpost
    subst hr₁ hs₁
    exact dictionary_supplies hlen' (entries_supply hf es hes hentries) s₁ hs
  | _ =>
    simp only [Expr.Known] at h
    rcases h with h | ⟨hr, ht, u, hu, htold⟩
    · exact hf _ v h hv
    · obtain rfl : u = v := Option.some.inj (hu.symm.trans hv)
      exact direct_supplies rfl hr ht hu htold

theorem exprs_supply (hf : FindsConstants S ctx found) (xs : List Expr) (h : Expr.AllKnown cs found xs) {vs : List Value}
    (hv : xs.mapM Expr.value? = some vs) : SuppliesAll S ctx (exprs xs) vs := by
  intro s hs
  cases xs with
  | nil =>
    obtain rfl : [] = vs := Option.some.inj hv
    rw [exprs]
    exact ⟨[], fun _ => .nil, supplied_nil hs⟩
  | cons x xs =>
    rw [Expr.AllKnown] at h
    rw [List.mapM_cons] at hv
    obtain ⟨v, hv₁, hv⟩ := Option.bind_eq_some_iff.mp hv
    obtain ⟨vs, hv₂, hv⟩ := Option.bind_eq_some_iff.mp hv
    obtain rfl := Option.some.inj hv
    rw [exprs]
    refine (expr_supplies hf x h.1 hv₁ s hs).bind fun a s₁ hpost => ?_
    obtain ⟨u, hu, h₁⟩ := hpost
    refine (exprs_supply hf xs h.2 hv₂ s₁ h₁.ready).bind fun as s₂ hpost => ?_
    obtain ⟨us, hus, h₂⟩ := hpost
    exact ⟨u :: us, fun hi => .cons (hu (hi.of_grows h₂.grows)) (hus hi), supplied_cons h₁ h₂⟩

theorem entries_supply (hf : FindsConstants S ctx found) (es : List DictEntry) (h : Expr.EntriesKnown cs found es)
    {vs : List Entry} (hv : es.mapM DictEntry.constant? = some vs) :
    SuppliesAll S ctx (entries es) (vs.flatMap fun e => [e.key, e.value]) := by
  intro s hs
  cases es with
  | nil =>
    obtain rfl : [] = vs := Option.some.inj hv
    rw [entries]
    exact ⟨[], fun _ => .nil, supplied_nil hs⟩
  | cons e es =>
    obtain ⟨x, y⟩ := e
    rw [Expr.EntriesKnown] at h
    rw [List.mapM_cons] at hv
    obtain ⟨w, hv₁, hv⟩ := Option.bind_eq_some_iff.mp hv
    obtain ⟨ws, hv₂, hv⟩ := Option.bind_eq_some_iff.mp hv
    obtain rfl := Option.some.inj hv
    obtain ⟨k, hk, hv₁⟩ := Option.bind_eq_some_iff.mp hv₁
    obtain ⟨v, hy, hv₁⟩ := Option.bind_eq_some_iff.mp hv₁
    obtain rfl := Option.some.inj hv₁
    rw [entries]
    refine (expr_supplies hf x h.1 hk s hs).bind fun a s₁ hpost => ?_
    obtain ⟨t, ht, h₁⟩ := hpost
    refine (expr_supplies hf y h.2.1 hy s₁ h₁.ready).bind fun b s₂ hpost => ?_
    obtain ⟨u, hu, h₂⟩ := hpost
    refine (entries_supply hf es h.2.2 hv₂ s₂ h₂.ready).bind fun as s₃ hpost => ?_
    obtain ⟨us, hus, h₃⟩ := hpost
    refine ⟨t :: u :: us, fun hi => ?_, supplied_cons h₁ (supplied_cons h₂ h₃)⟩
    have hi₂ := hi.of_grows h₃.grows
    exact .cons (ht (hi₂.of_grows h₂.grows)) (.cons (hu hi₂) (hus hi))

end

end Lower

end GameScript
