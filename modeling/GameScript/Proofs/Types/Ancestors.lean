import GameScript.Proofs.Inheritance.Walks
import Mathlib.Data.List.Nodup

/-!
# Ancestors of object types

The walk that decides whether a type derives from another one goes along the bases of classes and scripts and then
along the parents of native classes, with a bound for its length. Where bases are acyclic, and in a catalog that
was built class by class, it finds just the ancestors (`TypeContext.inheritsFrom_iff`), so object types are
compatible just with their ancestors (`TypeContext.compatible_ancestors`).

* `Catalog.Built`, `Catalog.Derives` — catalogs and the descent of native classes;
* `TypeContext.parent?`, `TypeContext.Descends` — the chain of ancestors of an object type;
* `TypeContext.Regular` — bases are acyclic and counted; `Session.types_counted` — in a session they are counted.
-/

namespace GameScript

open Relation

/-! ### Native classes -/

namespace Catalog

variable {db db' : Catalog} {c : NativeClass}

/-- **A catalog that was built** class by class. What else it holds can change freely. -/
inductive Built : Catalog → Prop
  | empty : Built {}
  | add {db db' : Catalog} {c : NativeClass} (h : Built db) (hadd : db.add c = .ok db') : Built db'
  | same {db db' : Catalog} (h : Built db) (hsame : db'.classes = db.classes) : Built db'

/-- A native class has another one for its parent. The empty name stands for no class. -/
def Parent (db : Catalog) (cls parent : Text) : Prop := cls ≠ "" ∧ db.parent cls = parent ∧ parent ≠ ""

/-- A native class is another one or derives from it. -/
def Derives (db : Catalog) : Text → Text → Prop := ReflTransGen db.Parent

/-- The names of the classes differ, and each parent stands before its children. -/
structure Ordered (db : Catalog) : Prop where
  nodup : (db.classes.map NativeClass.name).Nodup
  parents : ∀ (i : Nat) (c : NativeClass), db.classes[i]? = some c → c.parent ≠ "" →
    ∃ j < i, ∃ p, db.classes[j]? = some p ∧ p.name = c.parent

theorem class?_of_getElem? (h : db.Ordered) {i : Nat} (hi : db.classes[i]? = some c) : db.class? c.name = some c := by
  have hmem := List.mem_of_getElem? hi
  unfold class?
  cases hfind : db.classes.find? (·.name = c.name) with
  | none =>
    rw [List.find?_eq_none] at hfind
    exact absurd (decide_eq_true rfl) (hfind c hmem)
  | some d =>
    have hname : d.name = c.name := by simpa using List.find?_some hfind
    rw [List.inj_on_of_nodup_map h.nodup (List.mem_of_find?_eq_some hfind) hmem hname]

theorem getElem?_of_class? {name : Text} (h : db.class? name = some c) :
    c.name = name ∧ ∃ i : Nat, db.classes[i]? = some c := by
  refine ⟨by simpa using List.find?_some h, ?_⟩
  exact List.mem_iff_getElem?.mp (List.mem_of_find?_eq_some h)

theorem Built.ordered (h : db.Built) : db.Ordered := by
  induction h with
  | empty => exact ⟨List.nodup_nil, by simp⟩
  | same _ hsame ih => exact ⟨hsame ▸ ih.nodup, hsame ▸ ih.parents⟩
  | @add db db' c _ hadd ih =>
    unfold Catalog.add at hadd
    split at hadd
    · cases hadd
    · rename_i hnew
      split at hadd
      · cases hadd
      · rename_i hparent
        obtain rfl := Except.ok.inj hadd
        refine ⟨?_, fun i d hd hne => ?_⟩
        · rw [List.map_append, List.nodup_append]
          refine ⟨ih.nodup, by simp, fun a ha b hb heq => hnew ?_⟩
          obtain ⟨d, hd, rfl⟩ := List.mem_map.mp ha
          have hname : d.name = c.name := by simpa [heq] using hb
          unfold hasClass class?
          rw [List.find?_isSome]
          exact ⟨d, hd, by simpa using hname⟩
        · rcases Nat.lt_or_ge i db.classes.length with hlt | hge
          · rw [List.getElem?_append_left hlt] at hd
            obtain ⟨j, hj, p, hp, hname⟩ := ih.parents i d hd hne
            exact ⟨j, hj, p, by rw [List.getElem?_append_left (by omega), hp], hname⟩
          · -- the new class comes last, and its parent is one of the others
            rw [List.getElem?_append_right hge, List.getElem?_singleton] at hd
            split at hd
            · obtain rfl := Option.some.inj hd
              have hhas : db.hasClass c.parent = true := by
                by_contra hno
                exact hparent (by simp [Text.isEmpty_eq_false_iff.mpr hne, hno])
              obtain ⟨p, hp⟩ := Option.isSome_iff_exists.mp hhas
              obtain ⟨hname, j, hj⟩ := getElem?_of_class? hp
              have hjlt : j < db.classes.length := (List.getElem?_eq_some_iff.mp hj).1
              exact ⟨j, by omega, p, by rw [List.getElem?_append_left hjlt, hj], hname⟩
            · cases hd

/-- The chain of a class has the classes that it derives from. -/
theorem chainFrom_any_iff (h : db.Ordered) {ancestor : Text} (hancestor : ancestor ≠ "") {i fuel : Nat}
    (hi : db.classes[i]? = some c) (hc : c.name ≠ "") (hfuel : i < fuel) :
    (db.chainFrom fuel c.name).any (·.name = ancestor) = true ↔ db.Derives c.name ancestor := by
  induction i using Nat.strongRecOn generalizing c fuel with
  | ind i ih =>
    obtain ⟨fuel, rfl⟩ : ∃ n, fuel = n + 1 := ⟨fuel - 1, by omega⟩
    have hclass := class?_of_getElem? h hi
    have hchain : db.chainFrom (fuel + 1) c.name = c :: db.chainFrom fuel c.parent := by
      rw [chainFrom, if_neg (by simpa [Text.isEmpty_iff] using hc), hclass]
    have hparent : db.parent c.name = c.parent := by simp [parent, hclass]
    rw [hchain, List.any_cons, Bool.or_eq_true, decide_eq_true_eq]
    by_cases hroot : c.parent = ""
    · have hnone : db.chainFrom fuel c.parent = [] := by
        cases fuel with
        | zero => rfl
        | succ fuel => rw [chainFrom, if_pos (Text.isEmpty_iff.mpr hroot)]
      rw [hnone]
      constructor
      · rintro (rfl | h)
        · exact .refl
        · cases h
      · intro hderives
        rcases ReflTransGen.cases_head hderives with heq | ⟨p, ⟨-, hp, hne⟩, -⟩
        · exact .inl heq
        · exact absurd (hp.symm.trans (hparent.trans hroot)) hne
    · obtain ⟨j, hj, p, hp, hname⟩ := h.parents i c hi hroot
      have hrest : (db.chainFrom fuel p.name).any (·.name = ancestor) = true ↔ db.Derives p.name ancestor :=
        ih j hj hp (hname ▸ hroot) (by omega)
      rw [hname] at hrest
      rw [hrest]
      constructor
      · rintro (rfl | hderives)
        · exact .refl
        · exact .head ⟨hc, hparent, hroot⟩ hderives
      · intro hderives
        rcases ReflTransGen.cases_head hderives with heq | ⟨q, ⟨-, hq, -⟩, hrest⟩
        · exact .inl heq
        · rw [hparent] at hq
          exact .inr (hq ▸ hrest)

theorem ne_of_derives {cls ancestor : Text} (h : db.Derives cls ancestor) (hancestor : ancestor ≠ "") : cls ≠ "" := by
  rcases ReflTransGen.cases_head h with rfl | ⟨p, ⟨hne, -, -⟩, -⟩
  · exact hancestor
  · exact hne

/-- **The walk along native classes** finds just the classes that one derives from. -/
theorem isSubclass_iff (h : db.Built) {cls ancestor : Text} (hancestor : ancestor ≠ "") :
    db.isSubclass cls ancestor = true ↔ db.Derives cls ancestor := by
  unfold isSubclass
  simp only [Bool.and_eq_true, Bool.not_eq_true', Text.isEmpty_eq_false_iff, Bool.or_eq_true, decide_eq_true_eq]
  cases hclass : db.class? cls with
  | none =>
    have hchain : db.chain cls = [] := by
      unfold chain
      cases db.classes.length with
      | zero => rfl
      | succ n =>
        rw [chainFrom, hclass]
        split <;> rfl
    rw [hchain]
    constructor
    · rintro ⟨-, rfl | ⟨-, h⟩⟩
      · exact .refl
      · cases h
    · intro hderives
      refine ⟨ne_of_derives hderives hancestor, .inl ?_⟩
      rcases ReflTransGen.cases_head hderives with heq | ⟨p, ⟨-, hp, hne⟩, -⟩
      · exact heq
      · rw [parent, hclass] at hp
        exact absurd hp.symm hne
  | some c =>
    obtain ⟨rfl, i, hi⟩ := getElem?_of_class? hclass
    have hlt : i < db.classes.length := (List.getElem?_eq_some_iff.mp hi).1
    constructor
    · rintro ⟨hc, rfl | ⟨-, hany⟩⟩
      · exact .refl
      · exact (chainFrom_any_iff h.ordered hancestor hi hc hlt).mp hany
    · intro hderives
      have hc := ne_of_derives hderives hancestor
      exact ⟨hc, .inr ⟨hancestor, (chainFrom_any_iff h.ordered hancestor hi hc hlt).mpr hderives⟩⟩

end Catalog

/-! ### Chains of bases -/

/-- A class declared in source or a compiled script. -/
inductive ClassRef where
  | cls (id : DeclId)
  | script (id : Nat)
deriving DecidableEq

/-- The class or the script of which the values are instances. -/
def StaticType.classRef? (t : StaticType) : Option ClassRef :=
  match t.shape with
  | .cls id _ => some (.cls id)
  | .script id => some (.script id)
  | _ => none

/-- An object type that names a class: one declared in source, a compiled script, or a native class. -/
def StaticType.NamesClass (t : StaticType) : Prop :=
  match t.shape with
  | .native cls => cls ≠ ""
  | .cls .. | .script _ => True
  | _ => False

namespace TypeContext

variable {ctx : TypeContext} {r s t u : StaticType} {implicit : Bool}

/-- The base of a class or a script. -/
def base (ctx : TypeContext) : ClassRef → StaticType
  | .cls id => (ctx.classes id).base
  | .script id => (ctx.scripts id).base

/-- The base is a class or a script itself. -/
def Extends (ctx : TypeContext) (m n : ClassRef) : Prop := (ctx.base m).classRef? = some n

/-- What types refer to is **regular**: the catalog was built, no class or script extends itself along bases, and
those that have a base are counted. -/
structure Regular (ctx : TypeContext) : Prop where
  built : ctx.catalog.Built
  acyclic : ∀ n, ¬ TransGen ctx.Extends n n
  counted : ∃ nodes : List ClassRef, nodes.length ≤ ctx.depth ∧ ∀ n, (ctx.base n).isSet = true → n ∈ nodes

/-- **The next type on the chain of ancestors**: the base of a class or a script, for a class without a base the native
class that its type names, for a native class its parent. -/
def parent? (ctx : TypeContext) (t : StaticType) : Option StaticType :=
  match t.shape with
  | .cls id ancestor => some (if (ctx.classes id).base.isSet then (ctx.classes id).base else .ofNative ancestor)
  | .script id => some (ctx.scripts id).base
  | .native cls =>
    if cls = "" ∨ ctx.catalog.parent cls = "" then none else some (.ofNative (ctx.catalog.parent cls))
  | _ => none

/-- A type is on the chain of ancestors of another one. -/
def Chain (ctx : TypeContext) : StaticType → StaticType → Prop := ReflTransGen fun t u => ctx.parent? t = some u

/-- Two types name one class: native classes by their names, scripts by their paths, and classes by their full
names. -/
def Names (ctx : TypeContext) (t u : StaticType) : Prop :=
  match t.shape, u.shape with
  | .native a, .native b => a = b
  | .cls a _, .cls b _ => a = b ∨ (ctx.classes a).fqcn = (ctx.classes b).fqcn
  | .script a, .script b => (ctx.scripts a).path = (ctx.scripts b).path
  | _, _ => False

/-- **A type descends from another one** if that is named on its chain of ancestors. -/
def Descends (ctx : TypeContext) (source target : StaticType) : Prop :=
  ∃ t, ctx.Chain source t ∧ ctx.Names t target

/-! ### The length of chains -/

/-- The class or script of a type that goes on with a base. -/
def live? (ctx : TypeContext) (t : StaticType) : Option ClassRef := t.classRef?.filter fun n => (ctx.base n).isSet

theorem classRef?_of_live? {m : ClassRef} (h : ctx.live? t = some m) :
    t.classRef? = some m ∧ (ctx.base m).isSet = true := by
  unfold live? at h
  rwa [Option.filter_eq_some_iff] at h

theorem shape_of_not_set (h : t.isSet = false) : t.shape = .unresolved := by
  unfold StaticType.isSet at h
  split at h
  · assumption
  · cases h

theorem not_set_of_live? (h : ctx.live? t = none) {m : ClassRef} (hm : t.classRef? = some m) :
    (ctx.base m).isSet = false := by
  unfold live? at h
  rw [hm, Option.filter_eq_none_iff] at h
  simpa using h m rfl

theorem ends_of_dead (h : ctx.live? t = none) (n : Nat) : ctx.Ends n t := by
  refine .stop (fun id ancestor hshape => ?_) fun i hshape => ?_
  · exact shape_of_not_set (not_set_of_live? h (m := .cls id) (by simp [StaticType.classRef?, hshape]))
  · exact shape_of_not_set (not_set_of_live? h (m := .script i) (by simp [StaticType.classRef?, hshape]))

theorem ends_of_live {m : ClassRef} (h : t.classRef? = some m) {n : Nat} (hbase : ctx.Ends n (ctx.base m)) :
    ctx.Ends (n + 1) t := by
  unfold StaticType.classRef? at h
  split at h
  · rename_i hshape
    obtain rfl := Option.some.inj h
    exact .cls hshape hbase
  · rename_i hshape
    obtain rfl := Option.some.inj h
    exact .script hshape hbase
  · cases h

/-- A walk that has passed some nodes ends before it has passed all that have a base, since it comes to none of
them again. -/
theorem ends_of_passed (hacyclic : ∀ n, ¬ TransGen ctx.Extends n n) {nodes : List ClassRef}
    (hnodes : ∀ n, (ctx.base n).isSet = true → n ∈ nodes) (k : Nat) (passed : List ClassRef) (hnodup : passed.Nodup)
    (hsub : passed ⊆ nodes) (hlen : nodes.length ≤ passed.length + k)
    (hpassed : ∀ m ∈ passed, ∀ n, t.classRef? = some n → TransGen ctx.Extends m n) : ctx.Ends k t := by
  induction k generalizing t passed with
  | zero =>
    cases hlive : ctx.live? t with
    | none => exact ends_of_dead hlive _
    | some m =>
      obtain ⟨hnode, hset⟩ := classRef?_of_live? hlive
      have hnew : m ∉ passed := fun hmem => hacyclic m (hpassed m hmem m hnode)
      have hmore := (List.Nodup.subperm (List.nodup_cons.mpr ⟨hnew, hnodup⟩)
        (List.cons_subset.mpr ⟨hnodes m hset, hsub⟩)).length_le
      rw [List.length_cons] at hmore
      omega
  | succ k ih =>
    cases hlive : ctx.live? t with
    | none => exact ends_of_dead hlive _
    | some m =>
      obtain ⟨hnode, hset⟩ := classRef?_of_live? hlive
      have hnew : m ∉ passed := fun hmem => hacyclic m (hpassed m hmem m hnode)
      refine ends_of_live hnode (ih (m :: passed) (List.nodup_cons.mpr ⟨hnew, hnodup⟩)
        (List.cons_subset.mpr ⟨hnodes m hset, hsub⟩) (by rw [List.length_cons]; omega) fun n hn n' hn' => ?_)
      rcases List.mem_cons.mp hn with rfl | hn
      · exact .single hn'
      · exact (hpassed n hn m hnode).tail hn'

theorem Regular.ends (h : ctx.Regular) (t : StaticType) : ctx.Ends ctx.depth t := by
  obtain ⟨nodes, hlen, hnodes⟩ := h.counted
  exact ends_of_passed h.acyclic hnodes ctx.depth [] List.nodup_nil (by simp) (by simpa using hlen) (by simp)

/-! ### The walk -/

theorem descends_iff (s t : StaticType) :
    ctx.Descends s t ↔ ctx.Names s t ∨ ∃ u, ctx.parent? s = some u ∧ ctx.Descends u t := by
  constructor
  · rintro ⟨u, hchain, hnames⟩
    rcases ReflTransGen.cases_head hchain with rfl | ⟨v, hv, hrest⟩
    · exact .inl hnames
    · exact .inr ⟨v, hv, u, hrest, hnames⟩
  · rintro (hnames | ⟨u, hu, v, hchain, hnames⟩)
    · exact ⟨s, .refl, hnames⟩
    · exact ⟨v, .head hu hchain, hnames⟩

theorem chain_of_derives {cls other : Text} (h : ctx.catalog.Derives cls other) (hs : s.shape = .native cls) :
    ∃ t, ctx.Chain s t ∧ t.shape = .native other := by
  induction h with
  | refl => exact ⟨s, .refl, hs⟩
  | @tail b c _ hparent ih =>
    obtain ⟨t, hchain, hshape⟩ := ih
    obtain ⟨hb, hc, hne⟩ := hparent
    refine ⟨.ofNative c, hchain.tail ?_, rfl⟩
    subst hc
    simp only [parent?, hshape]
    rw [if_neg (by simp [hb, hne])]

theorem derives_of_chain {cls : Text} (h : ctx.Chain s t) (hs : s.shape = .native cls) :
    ∃ other, t.shape = .native other ∧ ctx.catalog.Derives cls other := by
  induction h with
  | refl => exact ⟨cls, hs, .refl⟩
  | @tail t u _ hu ih =>
    obtain ⟨other, hshape, hderives⟩ := ih
    simp only [parent?, hshape] at hu
    split at hu
    · cases hu
    · rename_i hne
      obtain rfl := Option.some.inj hu
      exact ⟨_, rfl, hderives.tail ⟨fun h => hne (.inl h), rfl, fun h => hne (.inr h)⟩⟩

/-- A native class descends just from native classes. -/
theorem descends_native_iff {cls : Text} (hs : s.shape = .native cls) :
    ctx.Descends s t ↔ ∃ other, t.shape = .native other ∧ ctx.catalog.Derives cls other := by
  constructor
  · rintro ⟨u, hchain, hnames⟩
    obtain ⟨other, hu, hderives⟩ := derives_of_chain hchain hs
    unfold Names at hnames
    rw [hu] at hnames
    cases ht : t.shape with
    | native b =>
      rw [ht] at hnames
      exact ⟨b, rfl, (show other = b from hnames) ▸ hderives⟩
    | _ =>
      rw [ht] at hnames
      exact hnames.elim
  · rintro ⟨other, ht, hderives⟩
    obtain ⟨u, hchain, hu⟩ := chain_of_derives hderives hs
    refine ⟨u, hchain, ?_⟩
    unfold Names
    rw [hu, ht]

theorem inheritsFrom_of_not_set {target : StaticType} (h : s.isSet = false) (fuel : Nat) :
    ctx.inheritsFrom target fuel s = false := by
  cases fuel with
  | zero => rfl
  | succ fuel => rw [inheritsFrom, shape_of_not_set h]

theorem not_descends_of_not_set (h : s.isSet = false) : ¬ ctx.Descends s t := by
  rw [descends_iff]
  simp [Names, parent?, shape_of_not_set h]

/-- The walk from a type that is neither a class nor a script with a base. -/
theorem inheritsFrom_iff_of_dead (hbuilt : ctx.catalog.Built) {target : StaticType} (htarget : target.NamesClass)
    (hdead : ctx.live? s = none) (fuel : Nat) : ctx.inheritsFrom target (fuel + 1) s = true ↔ ctx.Descends s target := by
  cases hs : s.shape with
  | cls id ancestor =>
    have hbase : (ctx.classes id).base.isSet = false :=
      not_set_of_live? hdead (m := .cls id) (by simp [StaticType.classRef?, hs])
    have hparent : ctx.parent? s = some (.ofNative ancestor) := by
      simp only [parent?, hs, hbase]
      rfl
    have hnative : ctx.Descends (.ofNative ancestor) target ↔
        ∃ other, target.shape = .native other ∧ ctx.catalog.Derives ancestor other := descends_native_iff rfl
    rw [descends_iff]
    simp only [hparent, Option.some.injEq, exists_eq_left', hnative]
    cases ht : target.shape with
    | cls other _ => simp [inheritsFrom, hs, ht, Names, sameClass, inheritsFrom_of_not_set hbase]
    | native cls =>
      have hcls : cls ≠ "" := by simpa [StaticType.NamesClass, ht] using htarget
      simp [inheritsFrom, hs, ht, Names, hbase, Catalog.isSubclass_iff hbuilt hcls]
    | _ => simp [inheritsFrom, hs, ht, Names, inheritsFrom_of_not_set hbase]
  | script id =>
    have hbase : (ctx.scripts id).base.isSet = false :=
      not_set_of_live? hdead (m := .script id) (by simp [StaticType.classRef?, hs])
    have hparent : ctx.parent? s = some (ctx.scripts id).base := by simp only [parent?, hs]
    rw [descends_iff]
    simp only [hparent, Option.some.injEq, exists_eq_left', not_descends_of_not_set hbase, or_false]
    cases ht : target.shape with
    | script other => simp [inheritsFrom, hs, ht, Names, inheritsFrom_of_not_set hbase]
    | _ => simp [inheritsFrom, hs, ht, Names, inheritsFrom_of_not_set hbase]
  | native cls =>
    rw [descends_native_iff hs]
    cases ht : target.shape with
    | native other =>
      have hother : other ≠ "" := by simpa [StaticType.NamesClass, ht] using htarget
      simp [inheritsFrom, hs, ht, Catalog.isSubclass_iff hbuilt hother]
    | _ => simp [inheritsFrom, hs, ht]
  | _ =>
    rw [descends_iff]
    simp [inheritsFrom, hs, Names, parent?]

/-- The walk from a class or a script with a base goes on with the base. -/
theorem inheritsFrom_iff_of_live {target : StaticType} {m : ClassRef} (hlive : ctx.live? s = some m) {fuel : Nat}
    (hbase : ctx.inheritsFrom target fuel (ctx.base m) = true ↔ ctx.Descends (ctx.base m) target) :
    ctx.inheritsFrom target (fuel + 1) s = true ↔ ctx.Descends s target := by
  obtain ⟨href, hset⟩ := classRef?_of_live? hlive
  rw [descends_iff]
  cases hs : s.shape with
  | cls id ancestor =>
    obtain rfl : ClassRef.cls id = m := by simpa [StaticType.classRef?, hs] using href
    have hparent : ctx.parent? s = some (ctx.base (.cls id)) := by
      simp only [parent?, hs]
      exact congrArg some (if_pos hset)
    simp only [hparent, Option.some.injEq, exists_eq_left', ← hbase]
    cases ht : target.shape with
    | cls other _ => simp [inheritsFrom, hs, ht, Names, sameClass, base]
    | native cls => simp [inheritsFrom, hs, ht, Names, base, show (ctx.classes id).base.isSet = true from hset]
    | _ => simp [inheritsFrom, hs, ht, Names, base]
  | script id =>
    obtain rfl : ClassRef.script id = m := by simpa [StaticType.classRef?, hs] using href
    have hparent : ctx.parent? s = some (ctx.base (.script id)) := by
      simp only [parent?, hs]
      rfl
    simp only [hparent, Option.some.injEq, exists_eq_left', ← hbase]
    cases ht : target.shape with
    | script other => simp [inheritsFrom, hs, ht, Names, base]
    | _ => simp [inheritsFrom, hs, ht, Names, base]
  | _ => simp [StaticType.classRef?, hs] at href

/-- **The walk along bases** finds just what a type descends from, if its bound is not reached. -/
theorem inheritsFrom_iff (hbuilt : ctx.catalog.Built) {target : StaticType} (htarget : target.NamesClass) {n fuel : Nat}
    (h : ctx.Ends n s) (hfuel : n < fuel) : ctx.inheritsFrom target fuel s = true ↔ ctx.Descends s target := by
  induction h generalizing fuel with
  | @stop n s hcls hscript =>
    obtain ⟨fuel, rfl⟩ : ∃ k, fuel = k + 1 := ⟨fuel - 1, by omega⟩
    refine inheritsFrom_iff_of_dead hbuilt htarget ?_ fuel
    cases hlive : ctx.live? s with
    | none => rfl
    | some m =>
      obtain ⟨href, hset⟩ := classRef?_of_live? hlive
      unfold StaticType.classRef? at href
      split at href
      · rename_i id ancestor hs
        obtain rfl := Option.some.inj href
        simp [base, StaticType.isSet, hcls id ancestor hs] at hset
      · rename_i id hs
        obtain rfl := Option.some.inj href
        simp [base, StaticType.isSet, hscript id hs] at hset
      · cases href
  | @cls n s id ancestor hs _ ih =>
    obtain ⟨fuel, rfl⟩ : ∃ k, fuel = k + 1 := ⟨fuel - 1, by omega⟩
    cases hlive : ctx.live? s with
    | none => exact inheritsFrom_iff_of_dead hbuilt htarget hlive fuel
    | some m =>
      obtain rfl : ClassRef.cls id = m := by simpa [StaticType.classRef?, hs] using (classRef?_of_live? hlive).1
      exact inheritsFrom_iff_of_live hlive (ih (by omega))
  | @script n s id hs _ ih =>
    obtain ⟨fuel, rfl⟩ : ∃ k, fuel = k + 1 := ⟨fuel - 1, by omega⟩
    cases hlive : ctx.live? s with
    | none => exact inheritsFrom_iff_of_dead hbuilt htarget hlive fuel
    | some m =>
      obtain rfl : ClassRef.script id = m := by simpa [StaticType.classRef?, hs] using (classRef?_of_live? hlive).1
      exact inheritsFrom_iff_of_live hlive (ih (by omega))

theorem inherits_iff (h : ctx.Regular) {source target : StaticType} (htarget : target.NamesClass) :
    ctx.inherits source target = true ↔ ctx.Descends source target :=
  inheritsFrom_iff h.built htarget (h.ends source) (Nat.lt_succ_self _)

/-- **Object types are compatible with their ancestors.** -/
theorem compatible_iff (h : ctx.Regular) {source target : StaticType} (htarget : target.NamesClass)
    (hsource : source.NamesClass) : ctx.compatible implicit target source = true ↔
      target.isMeta = source.isMeta ∧ ctx.Descends source target := by
  rw [← inherits_iff h htarget]
  obtain ⟨tshape, tknown, telement, tmeta, tconst, tcoroutine⟩ := target
  obtain ⟨sshape, sknown, selement, smeta, sconst, scoroutine⟩ := source
  cases tshape <;> simp only [StaticType.NamesClass] at htarget
  all_goals
    cases sshape <;> simp only [StaticType.NamesClass] at hsource
    all_goals simp [compatible, objectAccepts, StaticType.isVariant, StaticType.isBuiltin]

/-! ### The preorder -/

/-- A type of a class without a base names the native class that is recorded for the class, and a class has a full
name. -/
def Settled (ctx : TypeContext) (native : DeclId → Text) (t : StaticType) : Prop :=
  match t.shape with
  | .cls id ancestor =>
    (ctx.classes id).fqcn ≠ "" ∧ ((ctx.classes id).base.isSet = true ∨ ancestor = native id)
  | _ => True

/-- Full names identify classes and paths the bases of scripts, and the types of bases are settled. -/
structure Identified (ctx : TypeContext) (native : DeclId → Text) : Prop where
  classes : ∀ a b, (ctx.classes a).fqcn ≠ "" → (ctx.classes a).fqcn = (ctx.classes b).fqcn → a = b
  scripts : ∀ a b, (ctx.scripts a).path = (ctx.scripts b).path → (ctx.scripts a).base = (ctx.scripts b).base
  bases : ∀ m, ctx.Settled native (ctx.base m)

variable {native : DeclId → Text}

theorem names_refl (h : t.NamesClass) : ctx.Names t t := by
  unfold StaticType.NamesClass at h
  unfold Names
  cases ht : t.shape with
  | native _ => rfl
  | cls _ _ => exact .inl rfl
  | script _ => rfl
  | _ =>
    rw [ht] at h
    exact h

theorem settled_parent (hid : ctx.Identified native) (h : ctx.parent? t = some u) : ctx.Settled native u := by
  unfold parent? at h
  split at h
  · rename_i id ancestor _
    obtain rfl := Option.some.inj h
    split
    · exact hid.bases (.cls id)
    · trivial
  · rename_i id _
    obtain rfl := Option.some.inj h
    exact hid.bases (.script id)
  · split at h
    · cases h
    · obtain rfl := Option.some.inj h
      trivial
  · cases h

theorem settled_chain (hid : ctx.Identified native) (ht : ctx.Settled native t) (h : ctx.Chain t u) :
    ctx.Settled native u := by
  induction h with
  | refl => exact ht
  | tail _ hu _ => exact settled_parent hid hu

theorem names_trans (h : ctx.Names u s) (h' : ctx.Names s t) : ctx.Names u t := by
  unfold Names at *
  cases hu : u.shape <;> cases hs : s.shape <;> simp only [hu, hs] at h
  all_goals cases ht : t.shape <;> simp only [hs, ht] at h' ⊢
  case native => exact h.trans h'
  case script => exact h.trans h'
  case cls =>
    rcases h with rfl | h
    · exact h'
    · rcases h' with rfl | h'
      · exact .inr h
      · exact .inr (h.trans h')

/-- Settled types that name one class have the same parent. -/
theorem parent_of_names (hid : ctx.Identified native) (hs : ctx.Settled native s) (hu : ctx.Settled native u)
    (h : ctx.Names u s) : ctx.parent? u = ctx.parent? s := by
  unfold Names at h
  unfold Settled at hs hu
  cases hshape : u.shape <;> cases hshape' : s.shape <;> simp only [hshape, hshape'] at h hs hu
  case native.native a b => simp [parent?, hshape, hshape', h]
  case script.script a b => simp [parent?, hshape, hshape', hid.scripts a b h]
  case cls.cls a ancestor b ancestor' =>
    obtain rfl : a = b := h.elim id (hid.classes a b hu.1)
    simp only [parent?, hshape, hshape']
    split
    · rfl
    · rename_i hset
      rw [hs.2.resolve_left hset, hu.2.resolve_left hset]

/-- Settled types that name one class have the same ancestors. -/
theorem descends_of_names (hid : ctx.Identified native) (hs : ctx.Settled native s) (hu : ctx.Settled native u)
    (h : ctx.Names u s) (ht : ctx.Descends s t) : ctx.Descends u t := by
  rw [descends_iff] at ht ⊢
  rw [parent_of_names hid hs hu h]
  rcases ht with hnames | hrest
  · exact .inl (names_trans h hnames)
  · exact .inr hrest

theorem descends_trans (hid : ctx.Identified native) (hr : ctx.Settled native r) (hs : ctx.Settled native s)
    (h : ctx.Descends r s) (h' : ctx.Descends s t) : ctx.Descends r t := by
  obtain ⟨u, hchain, hnames⟩ := h
  obtain ⟨v, hrest, hnames'⟩ := descends_of_names hid hs (settled_chain hid hr hchain) hnames h'
  exact ⟨v, hchain.trans hrest, hnames'⟩

/-- **Compatibility of object types is descent.** In a regular context a type that names a class is compatible with
another one just when both denote instances or both the types themselves and the other is on its chain of
ancestors. So every such type is compatible with itself, and if names identify what they name, compatible types of
compatible types are compatible. -/
theorem compatible_ancestors (ctx : TypeContext) (h : ctx.Regular) (implicit : Bool) :
    (∀ target source : StaticType, target.NamesClass → source.NamesClass →
      (ctx.compatible implicit target source = true ↔
        target.isMeta = source.isMeta ∧ ctx.Descends source target)) ∧
    (∀ t : StaticType, t.NamesClass → ctx.compatible implicit t t = true) ∧
    ∀ native, ctx.Identified native → ∀ r s t : StaticType, r.NamesClass → s.NamesClass → t.NamesClass →
      ctx.Settled native r → ctx.Settled native s →
      ctx.compatible implicit s r = true → ctx.compatible implicit t s = true →
        ctx.compatible implicit t r = true := by
  refine ⟨fun target source => compatible_iff h, fun t ht => ?_, ?_⟩
  · rw [compatible_iff h ht ht]
    exact ⟨rfl, t, .refl, names_refl ht⟩
  · intro native hid r s t hr hs ht hsettled hsettled' hsr hts
    rw [compatible_iff h hs hr] at hsr
    rw [compatible_iff h ht hs] at hts
    rw [compatible_iff h ht hr]
    exact ⟨hts.1.trans hsr.1, descends_trans hid hsettled hsettled' hsr.2 hts.2⟩

/-! ### Examples of contexts -/

/-- The class Object and the class Node that derives from it. -/
def nodeCatalog : Catalog :=
  { classes := [{ name := "Object", parent := "" }, { name := "Node", parent := "Object" }] }

theorem nodeCatalog_built : nodeCatalog.Built := by
  have hobject : ({} : Catalog).add { name := "Object", parent := "" } =
      .ok { classes := [{ name := "Object", parent := "" }] } := rfl
  refine .add (.add .empty hobject) (c := { name := "Node", parent := "Object" }) ?_
  have hhas : ({ classes := [{ name := "Object", parent := "" }] } : Catalog).hasClass "Node" = false := by
    decide
  have hparent : ({ classes := [{ name := "Object", parent := "" }] } : Catalog).hasClass "Object" = true := by
    decide
  rw [Catalog.add, if_neg (by simp [hhas]), if_neg (by simp [hparent])]
  rfl

/-- A script that derives from Node, and one that derives from that. -/
def twoScripts : TypeContext where
  catalog := nodeCatalog
  classes _ := {}
  scripts
    | 0 => { path := "res://a.gd", native := "Node", base := .ofNative "Node" }
    | 1 => { path := "res://b.gd", native := "Node", base := .ofScript 0 }
    | _ => {}
  depth := 2

theorem twoScripts_extends {m n : ClassRef} (h : twoScripts.Extends m n) : m = .script 1 ∧ n = .script 0 := by
  rcases m with id | _ | _ | i
  · cases h
  · cases h
  · exact ⟨rfl, (Option.some.inj h).symm⟩
  · cases h

theorem twoScripts_regular : twoScripts.Regular where
  built := nodeCatalog_built
  acyclic n hn := by
    have hends (m : ClassRef) (h : TransGen twoScripts.Extends n m) : n = .script 1 ∧ m = .script 0 := by
      induction h with
      | single h => exact twoScripts_extends h
      | tail _ h ih => exact ⟨ih.1, (twoScripts_extends h).2⟩
    obtain ⟨h₁, h₀⟩ := hends n hn
    rw [h₁] at h₀
    cases h₀
  counted := by
    refine ⟨[.script 0, .script 1], Nat.le_refl _, fun n hset => ?_⟩
    rcases n with id | _ | _ | i
    · cases hset
    · simp
    · simp
    · cases hset

theorem twoScripts_identified : twoScripts.Identified fun _ => "" where
  classes _ _ h _ := absurd rfl h
  scripts a b h := by
    have ha : ("res://a.gd" : Text) ≠ "" := by decide
    have hb : ("res://b.gd" : Text) ≠ "" := by decide
    have hab : ("res://a.gd" : Text) ≠ "res://b.gd" := by decide
    rcases a with _ | _ | a
    all_goals rcases b with _ | _ | b
    all_goals first | rfl | exact absurd h ha | exact absurd h hb | exact absurd h hab | exact absurd h.symm ha |
      exact absurd h.symm hb | exact absurd h.symm hab
  bases m := by
    rcases m with id | _ | _ | i
    all_goals trivial

theorem twoScripts_compatible : twoScripts.Regular ∧ (twoScripts.Identified fun _ => "") ∧
    twoScripts.compatible true (.ofScript 0) (.ofScript 1) = true ∧
    twoScripts.compatible true (.ofNative "Object") (.ofScript 0) = true ∧
    twoScripts.compatible true (.ofNative "Object") (.ofScript 1) = true := by
  have hbase : twoScripts.compatible true (.ofScript 0) (.ofScript 1) = true := by decide
  have hnative : twoScripts.compatible true (.ofNative "Object") (.ofScript 0) = true := by decide
  have hobject : ("Object" : Text) ≠ "" := by decide
  obtain ⟨-, -, htrans⟩ := compatible_ancestors twoScripts twoScripts_regular true
  exact ⟨twoScripts_regular, twoScripts_identified, hbase, hnative,
    htrans _ twoScripts_identified (.ofScript 1) (.ofScript 0) (.ofNative "Object") trivial trivial hobject trivial trivial
      hbase hnative⟩

/-- A class and scripts of which some are not settled: the class has no base, two scripts have one path, and a script
of a native class has no base. -/
def unsettled : TypeContext where
  catalog := nodeCatalog
  classes _ := { fqcn := "A" }
  scripts
    | 0 => { path := "res://a.gd", native := "Object", base := .ofNative "Object" }
    | 1 => { path := "res://a.gd", native := "Node", base := .ofNative "Node" }
    | _ => { path := "res://b.gd", native := "Node" }
  depth := 2

theorem unsettled_extends {m n : ClassRef} : ¬ unsettled.Extends m n := by
  intro h
  rcases m with id | _ | _ | i <;> cases h

theorem unsettled_regular : unsettled.Regular where
  built := nodeCatalog_built
  acyclic n hn := by
    obtain ⟨m, h, -⟩ := TransGen.head'_iff.mp hn
    exact unsettled_extends h
  counted := by
    refine ⟨[.script 0, .script 1], Nat.le_refl _, fun n hset => ?_⟩
    rcases n with id | _ | _ | i
    · cases hset
    · simp
    · simp
    · cases hset

/-- **Compatibility is no preorder** where two types of a class without a base name different native classes, nor
where two scripts of one path have different bases; and a script without a base is not compatible with its native
class. -/
theorem compatible_not_preorder : unsettled.Regular ∧
    (∀ p ∈ [(StaticType.ofClass ⟨0, .none⟩ "Object", StaticType.ofClass ⟨0, .none⟩ "Node"), (.ofScript 0, .ofScript 1)],
      unsettled.compatible false p.2 p.1 = true ∧ unsettled.compatible false (.ofNative "Node") p.2 = true ∧
        unsettled.compatible false (.ofNative "Node") p.1 = false) ∧
    unsettled.nativeOf (.ofScript 2) = "Node" ∧ unsettled.compatible false (.ofNative "Node") (.ofScript 2) = false := by
  refine ⟨unsettled_regular, ?_, ?_, ?_⟩
  all_goals decide

end TypeContext

/-- What a session knows of classes and scripts is counted. -/
theorem Session.types_counted (s : Session) :
    ∃ nodes : List ClassRef, nodes.length ≤ s.types.depth ∧ ∀ n, (s.types.base n).isSet = true → n ∈ nodes := by
  refine ⟨s.classes.entries.map (fun e => .cls e.1) ++ (List.range s.scripts.length).map .script, by simp [types], ?_⟩
  intro n hset
  cases n with
  | cls id =>
    cases hget : s.classes.get? id with
    | none => simp [TypeContext.base, types, hget, StaticType.isSet] at hset
    | some c =>
      obtain ⟨e, he, -⟩ := Option.map_eq_some_iff.mp hget
      have hid : e.1 = id := by simpa using List.find?_some he
      exact List.mem_append_left _ (List.mem_map.mpr ⟨e, List.mem_of_find?_eq_some he, by rw [hid]⟩)
  | script i =>
    rcases Nat.lt_or_ge i s.scripts.length with hlt | hge
    · exact List.mem_append_right _ (List.mem_map.mpr ⟨i, List.mem_range.mpr hlt, rfl⟩)
    · have hbase : s.types.base (.script i) = default := by
        show (s.scripts.getD i default).base = _
        rw [List.getD_eq_getElem?_getD, List.getElem?_eq_none hge]
        rfl
      rw [hbase] at hset
      cases hset

end GameScript
