import GameScript.Analysis.Lookup
import GameScript.Proofs.Text.Paths
import GameScript.Proofs.Types.Ancestors

/-!
# Classes that declare a member

A name is looked up in a native class and then in its parents, so the nearest class that declares it counts. The
class that is named as the declaring one is found the other way round, by following parents as long as a lookup there
succeeds.

* `Catalog.Ascends` — a class and its ancestors up to a root; `Catalog.chain_ascends` — in a catalog that was built
  they are finitely many, and the chain has all of them;
* `Catalog.Nearest`, `Catalog.Farthest` — the first and the last class of a chain with a property;
* `Catalog.declarers_of_built` — **a lookup finds what the nearest class declares, and the declaring class is the
  farthest one**. So an enumeration and its constants go together where only one class declares them;
* `Catalog.redeclared_apart` — the exception: a class that declares an enumeration or a constant again.
-/

namespace GameScript

namespace NativeClass

variable {c : NativeClass} {name enum : Text}

theorem mem_of_last? {nameOf : α → Text} {xs : List α} {x : α} (h : last? nameOf name xs = some x) :
    x ∈ xs ∧ nameOf x = name := by
  unfold last? at h
  exact ⟨List.mem_reverse.mp (List.mem_of_find?_eq_some h), by simpa using List.find?_some h⟩

/-- The constants of the last enumeration with a name come before those of all other enumerations. -/
theorem constant?_of_enumOf? (h : c.enumOf? name = some enum) :
    ∃ es, (enum, es) ∈ c.enums ∧ ∃ e ∈ es, e.name = name ∧ c.constant? name = some e.value := by
  obtain ⟨⟨enum', es⟩, hfind, rfl⟩ := Option.map_eq_some_iff.mp h
  obtain ⟨hany, before, after, hsplit, hbefore⟩ := List.find?_eq_some_iff_append.mp hfind
  have henums : c.enums = after.reverse ++ (enum', es) :: before.reverse := by
    rw [← List.reverse_reverse c.enums, hsplit]
    simp
  -- behind the enumeration no constant has the name
  have hnone : (before.reverse.flatMap Prod.snd).reverse.find? (·.name = name) = none := by
    rw [List.find?_eq_none]
    intro e he
    obtain ⟨p, hp, hmem⟩ := List.mem_flatMap.mp (List.mem_reverse.mp he)
    have hother : p.2.any (·.name = name) = false := by simpa using hbefore p (List.mem_reverse.mp hp)
    exact List.any_eq_false.mp hother e hmem
  obtain ⟨e, hlast⟩ : ∃ e, es.reverse.find? (·.name = name) = some e := by
    apply Option.isSome_iff_exists.mp
    rw [List.find?_isSome]
    obtain ⟨e, he, hname⟩ := List.any_eq_true.mp hany
    exact ⟨e, List.mem_reverse.mpr he, hname⟩
  have hconstants : c.allConstants.reverse = (before.reverse.flatMap Prod.snd).reverse ++
      (es.reverse ++ (c.constants ++ after.reverse.flatMap Prod.snd).reverse) := by
    rw [allConstants, henums]
    simp
  refine ⟨es, henums ▸ by simp, e, List.mem_reverse.mp (List.mem_of_find?_eq_some hlast),
    by simpa using List.find?_some hlast, ?_⟩
  rw [constant?, last?, hconstants, List.find?_append, hnone, Option.none_or, List.find?_append, hlast]
  rfl

/-- If the names of its enumerations differ, a class has each under its name. -/
theorem enum?_of_mem (hnodup : (c.enums.map Prod.fst).Nodup) {es : List EnumEntry} (h : (enum, es) ∈ c.enums) :
    c.enum? enum = some es := by
  obtain ⟨p, hlast⟩ : ∃ p, last? Prod.fst enum c.enums = some p := by
    apply Option.isSome_iff_exists.mp
    rw [last?, List.find?_isSome]
    exact ⟨_, List.mem_reverse.mpr h, by simp⟩
  obtain ⟨hmem, hname⟩ := mem_of_last? hlast
  rw [enum?, hlast, List.inj_on_of_nodup_map hnodup hmem h hname]
  rfl

end NativeClass

namespace Catalog

variable {db : Catalog} {cls name : Text} {c d : NativeClass} {cs ds : List NativeClass}

/-! ### Following parents -/

/-- **The ancestors of a class**: the class itself, then those of its parent, up to a root. What is no class has
none. -/
inductive Ascends (db : Catalog) : Text → List NativeClass → Prop
  | ends {cls : Text} (h : cls = "" ∨ db.class? cls = none) : Ascends db cls []
  | climbs {cls : Text} {c : NativeClass} {cs : List NativeClass} (hne : cls ≠ "") (hclass : db.class? cls = some c)
      (hrest : Ascends db c.parent cs) : Ascends db cls (c :: cs)

theorem Ascends.unique (h : db.Ascends cls cs) (h' : db.Ascends cls ds) : cs = ds := by
  induction h generalizing ds with
  | ends h =>
    cases h' with
    | ends => rfl
    | climbs hne hclass _ =>
      rcases h with h | h
      · exact absurd h hne
      · rw [h] at hclass
        cases hclass
  | climbs hne hclass _ ih =>
    cases h' with
    | ends h =>
      rcases h with h | h
      · exact absurd h hne
      · rw [h] at hclass
        cases hclass
    | climbs _ hclass' hrest' =>
      obtain rfl := Option.some.inj (hclass.symm.trans hclass')
      rw [ih hrest']

/-- From a class on the way the rest of the way goes on. -/
theorem Ascends.suffix {below above : List NativeClass} (h : db.Ascends cls (below ++ c :: above)) :
    db.Ascends c.name (c :: above) := by
  induction below generalizing cls with
  | nil =>
    cases h with
    | climbs hne hclass hrest =>
      obtain ⟨hname, -⟩ := getElem?_of_class? hclass
      rw [← hname] at hne hclass
      exact .climbs hne hclass hrest
  | cons d below ih =>
    cases h with
    | climbs _ _ hrest => exact ih hrest

/-- No class comes twice on the way. -/
theorem Ascends.nodup (h : db.Ascends cls cs) : cs.Nodup := by
  induction h with
  | ends => exact List.nodup_nil
  | @climbs cls c cs hne hclass hrest ih =>
    refine List.nodup_cons.mpr ⟨fun hmem => ?_, ih⟩
    obtain ⟨below, above, rfl⟩ := List.append_of_mem hmem
    -- the way from the class would be as long as a part of itself
    have hwhole : db.Ascends cls ([] ++ c :: (below ++ c :: above)) := .climbs hne hclass hrest
    have hlength := congrArg List.length (hwhole.suffix.unique hrest.suffix)
    simp at hlength
    omega

theorem chainFrom_ascends (h : db.Ordered) {i fuel : Nat} (hi : db.classes[i]? = some c) (hc : c.name ≠ "")
    (hfuel : i < fuel) : db.Ascends c.name (db.chainFrom fuel c.name) := by
  induction i using Nat.strongRecOn generalizing c fuel with
  | ind i ih =>
    obtain ⟨fuel, rfl⟩ : ∃ n, fuel = n + 1 := ⟨fuel - 1, by omega⟩
    have hclass := class?_of_getElem? h hi
    rw [chainFrom, if_neg (by simpa [Text.isEmpty_iff] using hc), hclass]
    refine .climbs hc hclass ?_
    by_cases hroot : c.parent = ""
    · have hnone : db.chainFrom fuel c.parent = [] := by
        cases fuel with
        | zero => rfl
        | succ fuel => rw [chainFrom, if_pos (Text.isEmpty_iff.mpr hroot)]
      rw [hnone]
      exact .ends (.inl hroot)
    · obtain ⟨j, hj, p, hp, hname⟩ := h.parents i c hi hroot
      rw [← hname]
      exact ih j hj hp (hname ▸ hroot) (by omega)

/-- **Following parents ends**, and the chain of a class has all of its ancestors. -/
theorem chain_ascends (h : db.Built) (cls : Text) : db.Ascends cls (db.chain cls) := by
  have hnone (hends : cls = "" ∨ db.class? cls = none) : db.chain cls = [] := by
    unfold chain
    cases db.classes.length with
    | zero => rfl
    | succ n =>
      rw [chainFrom]
      rcases hends with rfl | hclass
      · rfl
      · rw [hclass]
        split <;> rfl
  by_cases hempty : cls = ""
  · rw [hnone (.inl hempty)]
    exact .ends (.inl hempty)
  cases hclass : db.class? cls with
  | none =>
    rw [hnone (.inr hclass)]
    exact .ends (.inr hclass)
  | some c =>
    obtain ⟨rfl, i, hi⟩ := getElem?_of_class? hclass
    exact chainFrom_ascends h.ordered hi hempty (List.getElem?_eq_some_iff.mp hi).1

theorem chainFrom_length_le (db : Catalog) (fuel : Nat) (cls : Text) : (db.chainFrom fuel cls).length ≤ fuel := by
  induction fuel generalizing cls with
  | zero => exact Nat.le_refl 0
  | succ fuel ih =>
    rw [chainFrom]
    split
    · exact Nat.zero_le _
    · split
      · exact Nat.succ_le_succ (ih _)
      · exact Nat.zero_le _

/-! ### The nearest and the farthest class -/

/-- The **nearest** class with a property: none below it has it. -/
def Nearest (cs : List NativeClass) (has : NativeClass → Bool) (c : NativeClass) : Prop :=
  ∃ below above, cs = below ++ c :: above ∧ has c = true ∧ ∀ d ∈ below, has d = false

/-- The **farthest** class with a property: none above it has it. -/
def Farthest (cs : List NativeClass) (has : NativeClass → Bool) (c : NativeClass) : Prop :=
  ∃ below above, cs = below ++ c :: above ∧ has c = true ∧ ∀ d ∈ above, has d = false

variable {has : NativeClass → Bool} {f : NativeClass → Option α} {a : α}

theorem Nearest.mem (h : Nearest cs has c) : c ∈ cs := by
  obtain ⟨below, above, rfl, -, -⟩ := h
  simp

theorem Nearest.holds (h : Nearest cs has c) : has c = true := by
  obtain ⟨below, above, -, hhas, -⟩ := h
  exact hhas

theorem Farthest.mem (h : Farthest cs has c) : c ∈ cs := by
  obtain ⟨below, above, rfl, -, -⟩ := h
  simp

theorem Farthest.holds (h : Farthest cs has c) : has c = true := by
  obtain ⟨below, above, -, hhas, -⟩ := h
  exact hhas

theorem Farthest.cons (h : Farthest cs has c) (d : NativeClass) : Farthest (d :: cs) has c := by
  obtain ⟨below, above, rfl, hhas, habove⟩ := h
  exact ⟨d :: below, above, rfl, hhas, habove⟩

/-- The nearest class is the farthest one just if no other class has the property. -/
theorem nearest_eq_farthest_iff (hnodup : cs.Nodup) (hc : Nearest cs has c) (hd : Farthest cs has d) :
    c = d ↔ ∀ e ∈ cs, has e = true → e = c := by
  constructor
  · rintro rfl e he hhas
    obtain ⟨below, above, rfl, -, hbelow⟩ := hc
    obtain ⟨below', above', hsplit, -, habove⟩ := hd
    -- the class stands at one place only
    have hnotMem := (List.nodup_cons.mp (List.nodup_middle.mp hnodup)).1
    rw [List.mem_append, not_or] at hnotMem
    obtain ⟨-, -, rfl⟩ := (List.append_cons_inj_of_notMem hnotMem.1 hnotMem.2).mp hsplit
    rcases List.mem_append.mp he with hin | hin
    · rw [hbelow e hin] at hhas
      cases hhas
    · rcases List.mem_cons.mp hin with rfl | hin
      · rfl
      · rw [habove e hin] at hhas
        cases hhas
  · intro honly
    exact (honly d hd.mem hd.holds).symm

/-- **A lookup** finds what the nearest class has, if one has it at all. -/
theorem nearest?_cases (db : Catalog) (f : NativeClass → Option α) (cls : Text) :
    (db.nearest? f cls = none ∧ ∀ c ∈ db.chain cls, f c = none) ∨
      ∃ c, Nearest (db.chain cls) (fun c => (f c).isSome) c ∧ db.nearest? f cls = f c := by
  cases hfound : db.nearest? f cls with
  | none => exact .inl ⟨rfl, fun c hc => List.findSome?_eq_none_iff.mp hfound c hc⟩
  | some a =>
    obtain ⟨below, c, above, hsplit, hc, hbelow⟩ := List.findSome?_eq_some_iff.mp hfound
    refine .inr ⟨c, ⟨below, above, hsplit, by simp [hc], fun d hd => ?_⟩, hc.symm⟩
    simp [hbelow d hd]

theorem nearest?_eq_of_nearest {c : NativeClass} (h : Nearest (db.chain cls) (fun c => (f c).isSome) c) :
    db.nearest? f cls = f c := by
  obtain ⟨below, above, hsplit, hc, hbelow⟩ := h
  obtain ⟨a, ha⟩ := Option.isSome_iff_exists.mp hc
  rw [ha]
  exact List.findSome?_eq_some_iff.mpr ⟨below, c, above, hsplit, ha, fun d hd => by simpa using hbelow d hd⟩

/-- A lookup from a class on the chain starts with that class. -/
theorem nearest?_of_mem (h : db.Built) (hc : c ∈ db.chain cls) (hf : (f c).isSome) : db.nearest? f c.name = f c := by
  obtain ⟨below, above, hsplit⟩ := List.append_of_mem hc
  have hway := chain_ascends h cls
  rw [hsplit] at hway
  have hchain := (chain_ascends h c.name).unique hway.suffix
  exact nearest?_eq_of_nearest ⟨[], above, hchain, hf, by simp⟩

/-- To follow parents as long as a lookup succeeds leads to the farthest class. -/
theorem declaringFrom_farthest (hbuilt : db.Built) (f : NativeClass → Option α) (h : db.Ascends cls cs) {fuel : Nat}
    (hfuel : cs.length ≤ fuel) (hfound : ∃ c ∈ cs, (f c).isSome) :
    ∃ d, Farthest cs (fun c => (f c).isSome) d ∧
      Analysis.declaringFrom db (fun c => (db.nearest? f c).isSome) fuel cls = d.name := by
  induction h generalizing fuel with
  | ends =>
    obtain ⟨c, hc, -⟩ := hfound
    cases hc
  | @climbs cls c cs hne hclass hrest ih =>
    obtain ⟨fuel, rfl⟩ : ∃ n, fuel = n + 1 := ⟨fuel - 1, by rw [List.length_cons] at hfuel; omega⟩
    have hparent : db.parent cls = c.parent := by simp [parent, hclass]
    have hchain : db.chain c.parent = cs := (chain_ascends hbuilt c.parent).unique hrest
    rw [Analysis.declaringFrom, hparent]
    by_cases hup : ∃ d ∈ cs, (f d).isSome
    · -- an ancestor has it, so the parent is there and has it too
      have hroot : c.parent ≠ "" := by
        rintro hroot
        obtain rfl : cs = [] := hrest.unique (.ends (.inl hroot))
        obtain ⟨d, hd, -⟩ := hup
        cases hd
      have hhas : (db.nearest? f c.parent).isSome = true := by
        rw [nearest?, hchain, List.findSome?_isSome_iff]
        exact hup
      obtain ⟨d, hd, hname⟩ := ih (Nat.le_of_succ_le_succ hfuel) hup
      refine ⟨d, hd.cons c, ?_⟩
      rw [if_pos (by simp [Text.isEmpty_eq_false_iff.mpr hroot, hhas])]
      exact hname
    · have hhas : (db.nearest? f c.parent).isSome = false := by
        rw [nearest?, hchain, Option.isSome_eq_false_iff, Option.isNone_iff_eq_none, List.findSome?_eq_none_iff]
        intro d hd
        by_contra hsome
        exact hup ⟨d, hd, Option.isSome_iff_ne_none.mpr hsome⟩
      have hown : (f c).isSome := by
        obtain ⟨d, hd, hsome⟩ := hfound
        rcases List.mem_cons.mp hd with rfl | hd
        · exact hsome
        · exact absurd ⟨d, hd, hsome⟩ hup
      refine ⟨c, ⟨[], cs, rfl, hown, fun d hd => ?_⟩, ?_⟩
      · by_contra hsome
        exact hup ⟨d, hd, Bool.eq_true_of_not_eq_false hsome⟩
      · rw [if_neg (by simp [hhas])]
        exact (getElem?_of_class? hclass).1.symm

theorem declaringClass_farthest (h : db.Built) (f : NativeClass → Option α) {c : NativeClass} (hc : c ∈ db.chain cls)
    (hf : (f c).isSome) : ∃ d, Farthest (db.chain cls) (fun c => (f c).isSome) d ∧
      Analysis.declaringClass db cls (fun c => (db.nearest? f c).isSome) = d.name :=
  declaringFrom_farthest h f (chain_ascends h cls) (chainFrom_length_le db _ cls) ⟨c, hc, hf⟩

/-! ### Enumerations and their constants -/

/-- A qualified name names the enumeration of a class, if no global enumeration has it. -/
theorem enumType?_qualified {owner enum : Text} (hglobal : db.globalEnum? (owner ++ "." ++ enum) = none)
    (howner : owner ≠ "") (hdot : 46 ∉ enum.bytes) :
    db.enumType? (owner ++ "." ++ enum) = (db.enum? owner enum).map (.ofEnum enum owner) := by
  have hlast : (owner ++ "." ++ enum : Text).lastIndexOf? 46 = some owner.size := Text.lastIndexOf?_append owner 46 enum hdot
  have hsize : owner.size ≠ 0 := by
    intro hzero
    obtain ⟨bytes⟩ := owner
    exact howner (congrArg Text.mk (List.length_eq_zero_iff.mp hzero))
  have htake : (owner ++ "." ++ enum : Text).take owner.size = owner := by
    show Text.mk (((owner.bytes ++ [46]) ++ enum.bytes).take owner.bytes.length) = owner
    rw [List.append_assoc, List.take_left]
  have hdrop : (owner ++ "." ++ enum : Text).drop (owner.size + 1) = enum := by
    show Text.mk (((owner.bytes ++ [46]) ++ enum.bytes).drop (owner.bytes.length + 1)) = enum
    rw [List.append_assoc, ← List.drop_drop, List.drop_left]
    rfl
  rw [enumType?, hglobal]
  simp only [hlast, if_neg hsize, htake, hdrop]

/-- What the nearest class with a constant does not say of its enumeration, the classes before it do not say either. -/
theorem enumOf?_of_nearest {enum : Text} (h : Nearest (db.chain cls) (fun c => (c.constant? name).isSome) c)
    (henum : c.enumOf? name = some enum) : db.enumOf? cls name = some enum := by
  obtain ⟨below, above, hsplit, -, hbelow⟩ := h
  have hnearest : Nearest (db.chain cls) (fun c => (c.enumOf? name).isSome) c := by
    refine ⟨below, above, hsplit, by simp [henum], fun d hd => ?_⟩
    show (d.enumOf? name).isSome = false
    cases hd' : d.enumOf? name with
    | none => rfl
    | some enum' =>
      obtain ⟨es, -, e, -, -, hconstant⟩ := NativeClass.constant?_of_enumOf? hd'
      have hnone := hbelow d hd
      simp only [hconstant] at hnone
      cases hnone
  rw [enumOf?, nearest?_eq_of_nearest hnearest, henum]

/-- **The type of a constant of an enumeration** has the values of the enumeration in the class that declares the
constant, if no other class declares an enumeration of that name. -/
theorem constantType_of_nearest (h : db.Built) {enum : Text} {v : Int64}
    (hnearest : Nearest (db.chain cls) (fun c => (c.constant? name).isSome) c) (hv : c.constant? name = some v)
    (henum : c.enumOf? name = some enum) (honly : ∀ d ∈ db.chain cls, (d.enum? enum).isSome = true → d = c)
    (hnodup : (c.enums.map Prod.fst).Nodup) (hdot : 46 ∉ enum.bytes)
    (hglobal : db.globalEnum? (c.name ++ "." ++ enum) = none) :
    ∃ es, (enum, es) ∈ c.enums ∧ (∃ e ∈ es, e.name = name ∧ e.value = v) ∧
      Analysis.constantType db cls name = .ofEnum enum c.name es := by
  obtain ⟨es, hes, e, he, hname, hconstant⟩ := NativeClass.constant?_of_enumOf? henum
  have hdeclared : c.enum? enum = some es := NativeClass.enum?_of_mem hnodup hes
  obtain ⟨d, hfar, howner⟩ := declaringClass_farthest h (fun c => c.enum? enum) hnearest.mem
    (by simp [hdeclared])
  obtain rfl := honly d hfar.mem hfar.holds
  have hfound : db.enum? d.name enum = some es := by
    rw [enum?, nearest?_of_mem h hnearest.mem (f := fun c => c.enum? enum) (by simp [hdeclared]), hdeclared]
  have hne : d.name ≠ "" := by
    obtain ⟨below, above, hsplit⟩ := List.append_of_mem hnearest.mem
    have hway := chain_ascends h cls
    rw [hsplit] at hway
    cases hway.suffix with
    | climbs hne _ _ => exact hne
  refine ⟨es, hes, ⟨e, he, hname, Option.some.inj (hconstant.symm.trans hv)⟩, ?_⟩
  rw [Analysis.constantType, enumOf?_of_nearest hnearest henum]
  simp only [enum?] at howner ⊢
  rw [howner, enumType?_qualified hglobal hne hdot, hfound]
  rfl

/-- **Members of native classes.** In a catalog that was built class by class, the parents of a class lead to a root,
and a lookup along them finds what the nearest class declares. The class that is named as the declaring one is the
farthest class that declares the name; it is the nearest one just if no other class on the way declares the name. So
an enumeration has the values of the nearest class and the name of the farthest one; and a constant of an enumeration
has the enumeration's values, its own among them, if only the class that declares the constant declares an
enumeration of that name, once and with a name that can be qualified. -/
theorem declarers_of_built (α : Type) (db : Catalog) (h : db.Built) (cls : Text) :
    db.Ascends cls (db.chain cls) ∧
    (∀ f : NativeClass → Option α,
      (db.nearest? f cls = none ∧ ∀ c ∈ db.chain cls, f c = none) ∨
      ∃ near far, Nearest (db.chain cls) (fun c => (f c).isSome) near ∧ db.nearest? f cls = f near ∧
        Farthest (db.chain cls) (fun c => (f c).isSome) far ∧
        Analysis.declaringClass db cls (fun c => (db.nearest? f c).isSome) = far.name ∧
        (near = far ↔ ∀ c ∈ db.chain cls, (f c).isSome = true → c = near)) ∧
    ∀ name found, Analysis.nativeMember? db cls name = some found →
      (found.kind = .enum → ∃ near far es, Nearest (db.chain cls) (fun c => (c.enum? name).isSome) near ∧
        near.enum? name = some es ∧ Farthest (db.chain cls) (fun c => (c.enum? name).isSome) far ∧
        found.type = (StaticType.ofEnum name far.name es).named) ∧
      (found.kind = .const → ∃ near v, Nearest (db.chain cls) (fun c => (c.constant? name).isSome) near ∧
        near.constant? name = some v ∧ found.value = some (.int v) ∧
        ((∀ c ∈ db.chain cls, c.enumOf? name = none) →
          found.type = { StaticType.ofBuiltin .int with isConst := true }) ∧
        ∀ enum, near.enumOf? name = some enum → (∀ c ∈ db.chain cls, (c.enum? enum).isSome = true → c = near) →
          (near.enums.map Prod.fst).Nodup → 46 ∉ enum.bytes → db.globalEnum? (near.name ++ "." ++ enum) = none →
          ∃ es, (enum, es) ∈ near.enums ∧ (∃ e ∈ es, e.name = name ∧ e.value = v) ∧
            found.type = { StaticType.ofEnum enum near.name es with isConst := true }) := by
  refine ⟨chain_ascends h cls, fun f => ?_, fun name found hfound => ?_⟩
  · rcases nearest?_cases db f cls with hnone | ⟨near, hnear, heq⟩
    · exact .inl hnone
    · obtain ⟨far, hfar, hname⟩ := declaringClass_farthest h f hnear.mem hnear.holds
      exact .inr ⟨near, far, hnear, heq, hfar, hname,
        nearest_eq_farthest_iff (chain_ascends h cls).nodup hnear hfar⟩
  · unfold Analysis.nativeMember? at hfound
    cases hproperty : db.property? cls name with
    | some p =>
      rw [hproperty] at hfound
      obtain rfl := Option.some.inj hfound
      exact ⟨nofun, nofun⟩
    | none =>
    cases hmethod : db.method? cls name with
    | some m =>
      rw [hproperty, hmethod] at hfound
      obtain rfl := Option.some.inj hfound
      exact ⟨nofun, nofun⟩
    | none =>
    simp only [hproperty, hmethod] at hfound
    split at hfound
    · obtain rfl := Option.some.inj hfound
      exact ⟨nofun, nofun⟩
    cases henum : db.enum? cls name with
    | some es =>
      rw [henum] at hfound
      obtain rfl := Option.some.inj hfound
      refine ⟨fun _ => ?_, nofun⟩
      rcases nearest?_cases db (fun c => c.enum? name) cls with ⟨hnone, -⟩ | ⟨near, hnear, heq⟩
      · rw [enum?, hnone] at henum
        cases henum
      · obtain ⟨far, hfar, hname⟩ := declaringClass_farthest h (fun c => c.enum? name) hnear.mem hnear.holds
        exact ⟨near, far, es, hnear, heq.symm.trans henum, hfar, congrArg (fun o => (StaticType.ofEnum name o es).named) hname⟩
    | none =>
      rw [henum] at hfound
      obtain ⟨v, hv, rfl⟩ := Option.map_eq_some_iff.mp hfound
      refine ⟨nofun, fun _ => ?_⟩
      rcases nearest?_cases db (fun c => c.constant? name) cls with ⟨hnone, -⟩ | ⟨near, hnear, heq⟩
      · rw [constant?, hnone] at hv
        cases hv
      · have hv' : near.constant? name = some v := heq.symm.trans hv
        refine ⟨near, v, hnear, hv', rfl, fun hplain => ?_, fun enum hof honly hnodup hdot hglobal => ?_⟩
        · have hnone : db.enumOf? cls name = none := List.findSome?_eq_none_iff.mpr hplain
          show { Analysis.constantType db cls name with isConst := true } = _
          rw [Analysis.constantType, hnone]
        · obtain ⟨es, hes, he, htype⟩ := constantType_of_nearest h hnear hv' hof honly hnodup hdot hglobal
          exact ⟨es, hes, he, congrArg (fun t : StaticType => { t with isConst := true }) htype⟩

/-! ### Declaring again -/

/-- A class with two enumerations. -/
def base : NativeClass :=
  { name := "A", enums := [("E", [⟨"K", 0⟩, ⟨"L", 1⟩]), ("F", [⟨"X", 0⟩])] }

/-- A class derived from it that has another enumeration of a name there, and a constant outside of enumerations with
the name of one that is in an enumeration there. -/
def derived : NativeClass := { name := "B", parent := "A", enums := [("E", [⟨"M", 0⟩])], constants := [⟨"L", 0⟩] }

def redeclared : Catalog := { classes := [base, derived] }

theorem redeclared_built : redeclared.Built := by
  have hbase : ({} : Catalog).add base = .ok { classes := [base] } := rfl
  have hhas : ({ classes := [base] } : Catalog).hasClass derived.name = false := by decide
  have hparent : ({ classes := [base] } : Catalog).hasClass derived.parent = true := by decide
  refine .add (.add .empty hbase) (c := derived) ?_
  rw [Catalog.add, if_neg (by simp [hhas]), if_neg (by simp [hparent])]
  rfl

theorem redeclared_chain : redeclared.chain "B" = [derived, base] := rfl

/-- The inherited constant of an enumeration that is declared once has the type of the enumeration. -/
theorem declarers_of_built_inherited : redeclared.Built ∧
    ∃ found, Analysis.nativeMember? redeclared "B" "X" = some found ∧ found.kind = .const ∧
      found.type = { StaticType.ofEnum "F" "A" [⟨"X", 0⟩] with isConst := true } := by
  refine ⟨redeclared_built, _, rfl, rfl, ?_⟩
  obtain ⟨-, -, hmembers⟩ := declarers_of_built Unit redeclared redeclared_built "B"
  obtain ⟨-, hconst⟩ := hmembers "X" _ rfl
  obtain ⟨near, v, hnear, -, -, -, henum⟩ := hconst rfl
  rw [redeclared_chain] at hnear henum
  obtain rfl : near = base := by
    rcases List.mem_cons.mp hnear.mem with rfl | hmem
    · have hnone : (derived.constant? "X").isSome = false := by decide
      exact absurd (hnone.symm.trans hnear.holds) (by decide)
    · exact List.mem_singleton.mp hmem
  have honly : ∀ c ∈ [derived, base], (c.enum? "F").isSome = true → c = base := by
    intro c hc hsome
    rcases List.mem_cons.mp hc with rfl | hmem
    · have hnone : (derived.enum? "F").isSome = false := by decide
      exact absurd (hnone.symm.trans hsome) (by decide)
    · exact List.mem_singleton.mp hmem
  obtain ⟨es, hes, -, htype⟩ := henum "F" (by decide) honly (by decide) (by decide) (by decide)
  obtain rfl : es = [⟨"X", 0⟩] := by
    rcases List.mem_cons.mp hes with heq | hmem
    · have hname : ("F" : Text) = "E" := congrArg Prod.fst heq
      exact absurd hname (by decide)
    · exact (Prod.mk.inj (List.mem_singleton.mp hmem)).2
  exact htype

/-- **What is declared again** is found in the nearest class but named after the farthest one: the constant M of the
derived class gets the values of the enumeration of its parent, of which it is none. And the constant L of the derived
class is in no enumeration, but the one of its parent is found. -/
theorem redeclared_apart : redeclared.Built ∧
    Nearest (redeclared.chain "B") (fun c => (c.enum? "E").isSome) derived ∧
    Analysis.declaringClass redeclared "B" (fun c => (redeclared.enum? c "E").isSome) = "A" ∧
    redeclared.enumOf? "B" "M" = some "E" ∧ redeclared.enum? "B" "E" = some [⟨"M", 0⟩] ∧
    Analysis.constantType redeclared "B" "M" = .ofEnum "E" "A" [⟨"K", 0⟩, ⟨"L", 1⟩] ∧
    Nearest (redeclared.chain "B") (fun c => (c.constant? "L").isSome) derived ∧ derived.enumOf? "L" = none ∧
    redeclared.enumOf? "B" "L" = some "E" := by
  refine ⟨redeclared_built, ⟨[], [base], rfl, by decide, nofun⟩, rfl, by decide, rfl, rfl,
    ⟨[], [base], rfl, by decide, nofun⟩, by decide, by decide⟩

end Catalog

end GameScript
