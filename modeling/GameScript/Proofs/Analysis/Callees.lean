import GameScript.Analysis.Call
import GameScript.Proofs.Analysis.Logic

/-!
# What is called

The analysis looks up what a call calls. Of the callee it keeps the form and the name; a name that stands for no
global function becomes that of a method, whatever it has been before.

* `Resolution` — what a call is resolved to;
* `Callee.Kept` — what the analysis leaves of a callee;
* `Analysis.reduceCall_gives` — **the analysis keeps what is called**.
-/

namespace GameScript

/-! ### Resolutions -/

/-- What a call is resolved to. -/
inductive Resolution where
  | constructor (t : BuiltinType)
  /-- A function of the language. -/
  | language
  /-- A function of the engine. -/
  | utility
  /-- A method of the class around. -/
  | own
  | ofBase
  | ofValue
deriving DecidableEq

/-- What is called by a name that stands for no local. -/
def Ident.resolution (id : Ident) : Resolution :=
  match Analysis.globalCallee? id with
  | some (.constructor t) => .constructor t
  | some (.function _) => if (GlobalFunction.language? id.name).isSome then .language else .utility
  | none => .own

/-- A name that stands alone is not looked up in the base class or in a value. -/
theorem Ident.resolution_alone (id : Ident) : id.resolution ≠ .ofBase ∧ id.resolution ≠ .ofValue := by
  unfold Ident.resolution
  repeat' split
  all_goals simp

/-- What the analysis resolves a call to; an expression that is no name cannot be called. -/
def Callee.resolution? : Callee → Option Resolution
  | .overridden | .ofBase _ => some .ofBase
  | .name id => some id.resolution
  | .dotted .. => some .ofValue
  | .other _ => none

/-! ### Callees -/

/-- What the analysis leaves of a callee: its form and its name. A name that stands for no global function may
have become that of a method. -/
inductive Callee.Kept : Callee → Callee → Prop
  | overridden : Kept .overridden .overridden
  | ofBase {id id' : Ident} (hname : id'.name = id.name) : Kept (.ofBase id) (.ofBase id')
  | name {id id' : Ident} (hname : id'.name = id.name)
      (hsource : id'.source = id.source ∨ id'.source = .memberFunction ∧ Analysis.globalCallee? id = none) :
      Kept (.name id) (.name id')
  | dotted {x x' : Expr} {id id' : Ident} {i i' : Info} (hname : id'.name = id.name) :
      Kept (.dotted x id i) (.dotted x' id' i')
  | other {x x' : Expr} : Kept (.other x) (.other x')

namespace Callee.Kept

open Analysis

theorem refl (c : Callee) : c.Kept c := by
  cases c with
  | overridden => exact .overridden
  | ofBase id => exact .ofBase rfl
  | name id => exact .name rfl (.inl rfl)
  | dotted x id i => exact .dotted rfl
  | other x => exact .other

theorem globalCallee?_congr {id id' : Ident} (hname : id'.name = id.name) (hsource : id'.source = id.source) :
    globalCallee? id' = globalCallee? id := by
  unfold globalCallee?
  rw [hname, hsource]

theorem trans {c c' c'' : Callee} (h : c.Kept c') (h' : c'.Kept c'') : c.Kept c'' := by
  cases h with
  | overridden => exact h'
  | ofBase hname =>
    cases h' with
    | ofBase hname' => exact .ofBase (hname'.trans hname)
  | name hname hsource =>
    cases h' with
    | name hname' hsource' =>
      refine .name (hname'.trans hname) ?_
      rcases hsource with hsource | ⟨hsource, hglobal⟩
      · rcases hsource' with hsource' | ⟨hsource', hglobal⟩
        · exact .inl (hsource'.trans hsource)
        · exact .inr ⟨hsource', (globalCallee?_congr hname hsource).symm.trans hglobal⟩
      · rcases hsource' with hsource' | ⟨hsource', -⟩
        · exact .inr ⟨hsource'.trans hsource, hglobal⟩
        · exact .inr ⟨hsource', hglobal⟩
  | dotted hname =>
    cases h' with
    | dotted hname' => exact .dotted (hname'.trans hname)
  | other =>
    cases h' with
    | other => exact .other

end Callee.Kept

namespace Analysis

section Calls

variable {sub : Steps} {c c' : CallNode} {id id' : Ident}

/-- A name in place of another one of the same text and source. -/
theorem kept_withIdent {callee : Callee} (h : callee.ident? = some id) (hname : id'.name = id.name)
    (hsource : id'.source = id.source) : callee.Kept (callee.withIdent id') := by
  cases callee with
  | overridden => exact .overridden
  | other x => exact .other
  | ofBase _ =>
    cases h
    exact .ofBase hname
  | name _ =>
    cases h
    exact .name hname (.inl hsource)
  | dotted _ _ _ =>
    cases h
    exact .dotted hname

/-- The name of a method in place of one that stands for no global function. -/
theorem kept_method {callee : Callee} (h : callee.ident? = some id) (hname : id'.name = id.name)
    (hsource : id'.source = .memberFunction) (hglobal : ∀ n, callee = .name n → globalCallee? n = none) :
    callee.Kept (callee.withIdent id') := by
  cases callee with
  | overridden => exact .overridden
  | other x => exact .other
  | ofBase _ =>
    cases h
    exact .ofBase hname
  | name _ =>
    cases h
    exact .name hname (.inr ⟨hsource, hglobal _ rfl⟩)
  | dotted _ _ _ =>
    cases h
    exact .dotted hname

theorem reduceLocal_gives (id : Ident) (r : LocalRef) :
    Gives (fun id' => id'.name = id.name ∧ id'.source = id.source ∧ id'.binding = id.binding)
      (reduceLocal id r) := by
  unfold reduceLocal
  iterate 5 refine gives_bind fun _ => ?_
  exact gives_pure ⟨rfl, rfl, rfl⟩

theorem nonFunctionType_gives (id : Ident) (base : StaticType) :
    Gives (fun r => r.1.name = id.name ∧ r.1.source = id.source) (nonFunctionType sub id base) := by
  have hsame : ∀ {t : StaticType}, Gives (fun r : Ident × StaticType =>
      r.1.name = id.name ∧ r.1.source = id.source) (pure (id, t)) := gives_pure ⟨rfl, rfl⟩
  unfold nonFunctionType
  split
  · rename_i r _
    split
    · exact (reduceLocal_gives id r).bind fun id' hid => gives_pure ⟨hid.1, hid.2.1⟩
    · exact hsame
  · extract_lets ofMember
    have hmember : Gives (fun r : Ident × StaticType => r.1.name = id.name ∧ r.1.source = id.source)
        (do return (id, ← ofMember)) := gives_bind fun t => gives_pure ⟨rfl, rfl⟩
    split
    · split
      · split
        · exact gives_bind fun db => hsame
        · exact hsame
      · exact hmember
    · exact hmember

/-- What may be left of a call whose function is noted to be `name`. -/
def Noted (c : CallNode) (name : Text) (c' : CallNode) : Prop := c.callee.Kept c'.callee ∧ c'.facts.name = name

/-- What may be left of a call of a method, which is not computed in advance. -/
def NotedMethod (c : CallNode) (name : Text) (c' : CallNode) : Prop :=
  Noted c name c' ∧ c'.info.value = c.info.value

theorem reportMissing_gives (c : CallNode) (base : StaticType) (name : Text) (isSelf : Bool) :
    Gives (NotedMethod c c.facts.name) (reportMissing sub c base name isSelf) := by
  unfold reportMissing
  extract_lets after plain native finish found search
  have hfinish : ∀ {c' : CallNode} (isOther : Bool), NotedMethod c c.facts.name c' →
      Gives (NotedMethod c c.facts.name) (finish () c' isOther) := by
    intro c' isOther hc'
    dsimp only [finish]
    repeat' first | split | with_reducible refine gives_bind fun _ => ?_
    all_goals exact gives_pure hc'
  have hsearch : Gives (NotedMethod c c.facts.name) (search ()) := by
    dsimp only [search]
    split
    · rename_i id hid
      have hid : c.callee.ident? = some id := by
        split at hid
        · cases hid
        · exact hid
      refine (nonFunctionType_gives id base).bind fun r hr => ?_
      have hkept : ∀ i : Info, c.callee.Kept (c.callee.withIdent { r.1 with info := i }) := fun i =>
        kept_withIdent hid hr.1 hr.2
      repeat' first | split | with_reducible refine gives_bind fun _ => ?_
      all_goals exact hfinish _ ⟨⟨hkept _, rfl⟩, rfl⟩
    · exact hfinish _ ⟨⟨.refl _, rfl⟩, rfl⟩
  split
  · split
    · exact gives_bind fun _ => gives_pure ⟨⟨.refl _, rfl⟩, rfl⟩
    · exact hsearch
  · exact hsearch

theorem reduceFoundCall_gives (c : CallNode) (base : StaticType) (name : Text) (isSelf isConstructor root : Bool)
    (f : FunctionType) (h : ∀ id, c.callee = .name id → globalCallee? id = none) :
    Gives (NotedMethod c c.facts.name) (reduceFoundCall c base name isSelf isConstructor root f) := by
  unfold reduceFoundCall
  refine gives_bind fun args => ?_
  dsimp only
  iterate 3 refine gives_bind fun _ => ?_
  split
  · rename_i id hid
    repeat' first | split | with_reducible refine gives_bind fun _ => ?_
    all_goals exact gives_pure ⟨⟨kept_method hid rfl rfl h, rfl⟩, rfl⟩
  · repeat' first | split | with_reducible refine gives_bind fun _ => ?_
    all_goals exact gives_pure ⟨⟨.refl _, rfl⟩, rfl⟩

/-- Only the value in front of a point is analysed. -/
theorem calledObject_gives (c : CallNode) :
    Gives (fun r => NotedMethod c c.facts.name r.2.2 ∧ ∀ id, r.2.2.callee = .name id → c.callee = .name id)
      (calledObject sub c) := by
  unfold calledObject
  refine gives_bind fun cls => ?_
  split
  · exact gives_bind fun _ => gives_pure ⟨⟨⟨.refl _, rfl⟩, rfl⟩, fun _ => id⟩
  · exact gives_bind fun _ => gives_pure ⟨⟨⟨.refl _, rfl⟩, rfl⟩, fun _ => id⟩
  · exact gives_bind fun _ => gives_pure ⟨⟨⟨.refl _, rfl⟩, rfl⟩, fun _ => id⟩
  · rename_i x id i hcallee
    refine gives_bind fun _ => gives_pure ⟨⟨⟨?_, rfl⟩, rfl⟩, fun _ hname => by cases hname⟩
    show c.callee.Kept (.dotted _ id _)
    rw [hcallee]
    exact .dotted rfl
  · exact gives_pure ⟨⟨⟨.refl _, rfl⟩, rfl⟩, fun _ => id⟩

theorem reduceMethodCall_gives (c : CallNode) (name : Text) (root : Bool)
    (h : ∀ id, c.callee = .name id → globalCallee? id = none) :
    Gives (NotedMethod c name) (reduceMethodCall sub c name root) := by
  unfold reduceMethodCall
  refine (calledObject_gives c).bind fun r hr => ?_
  obtain ⟨base, isSelf, c₁⟩ := r
  obtain ⟨⟨⟨hkept, -⟩, hvalue⟩, hnames⟩ := hr
  dsimp only at hkept hvalue hnames ⊢
  obtain ⟨c₂, hc₂⟩ : ∃ c₂ : CallNode, c₂ = { c₁ with facts := { c₁.facts with name } } := ⟨_, rfl⟩
  have hnoted : NotedMethod c name c₂ := by
    rw [hc₂]
    exact ⟨⟨hkept, rfl⟩, hvalue⟩
  have hplain : ∀ id, c₂.callee = .name id → globalCallee? id = none := by
    rw [hc₂]
    exact fun id hid => h id (hnames id hid)
  have hkeeping : ∀ c', NotedMethod c₂ c₂.facts.name c' → NotedMethod c name c' :=
    fun _ h' => ⟨⟨hnoted.1.1.trans h'.1.1, h'.1.2.trans hnoted.1.2⟩, h'.2.trans hnoted.2⟩
  rw [← hc₂]
  have hfound : ∀ (isConstructor : Bool) (f : FunctionType), Gives (NotedMethod c name)
      (reduceFoundCall c₂ base name isSelf isConstructor root f) :=
    fun _ _ => (reduceFoundCall_gives c₂ _ _ _ _ _ _ hplain).mono hkeeping
  have hmissing : Gives (NotedMethod c name) (reportMissing sub c₂ base name isSelf) :=
    (reportMissing_gives c₂ _ _ _).mono hkeeping
  repeat' first | split | with_reducible refine gives_bind fun _ => ?_
  all_goals first | exact gives_pure hnoted | exact hfound _ _ | exact hmissing

theorem reduceConstructor_gives (c : CallNode) (id : Ident) (t : BuiltinType) (h : c.callee = .name id) :
    Gives (Noted c id.name) (reduceConstructor c id t) := by
  have hkept : ∀ i : Info, c.callee.Kept (.name { id with info := i }) := by
    intro i
    rw [h]
    exact .name rfl (.inl rfl)
  unfold reduceConstructor
  dsimp only
  repeat' first | split | with_reducible refine gives_bind fun _ => ?_
  all_goals exact gives_pure ⟨hkept _, rfl⟩

theorem reduceGlobalCall_gives (c : CallNode) (id : Ident) (f : GlobalFunction) (discarded : Bool)
    (h : c.callee = .name id) :
    Gives (Noted c id.name) (reduceGlobalCall c id f discarded) := by
  have hkept : ∀ i : Info, c.callee.Kept (.name { id with info := i }) := by
    intro i
    rw [h]
    exact .name rfl (.inl rfl)
  unfold reduceGlobalCall
  refine gives_bind fun db => ?_
  dsimp only
  repeat' first | split | with_reducible refine gives_bind fun _ => ?_
  all_goals exact gives_pure ⟨hkept _, rfl⟩

/-- What a call can be: that of a constructor, of a global function or of a method, or one that is refused. -/
theorem reduceCall_cases {Q : CallNode → Prop} {root : Bool} {c : CallNode}
    (hconstructor : ∀ c' id t, c'.callee = c.callee → c.callee = .name id → Gives Q (reduceConstructor c' id t))
    (hglobal : ∀ c' id f discarded, c'.callee = c.callee → c.callee = .name id →
      globalCallee? id = some (.function f) → Gives Q (reduceGlobalCall c' id f discarded))
    (hmethod : ∀ c' name, c'.callee = c.callee → c'.info.value = none →
      (∀ id, c.callee = .name id → globalCallee? id = none ∧ name = id.name) →
      Gives Q (reduceMethodCall sub c' name root))
    (hrefused : ∀ c', c.callee.Kept c'.callee → c'.info.value = none → (∀ id, c.callee ≠ .name id) → Q c') :
    Gives Q (reduceCall sub root c) := by
  unfold reduceCall
  refine gives_bind fun args => ?_
  obtain ⟨pos, callee, args', close, facts, info⟩ := c
  dsimp only
  cases callee with
  | overridden =>
    dsimp only
    refine gives_bind fun x => ?_
    split
    · exact gives_bind fun _ => gives_pure (hrefused _ (.refl _) rfl fun _ h => by cases h)
    · exact hmethod _ _ rfl rfl fun _ h => by cases h
  | ofBase id => exact hmethod _ _ rfl rfl fun _ h => by cases h
  | dotted x id i => exact hmethod _ _ rfl rfl fun _ h => by cases h
  | other x =>
    dsimp only
    refine gives_bind fun x' => gives_bind fun _ => gives_pure (hrefused _ .other rfl fun _ h => by cases h)
  | name id =>
    dsimp only
    cases hid : globalCallee? id with
    | none =>
      exact hmethod _ _ rfl rfl fun _ h => by
        cases h
        exact ⟨hid, rfl⟩
    | some g =>
      cases g with
      | constructor t => exact hconstructor _ id t rfl rfl
      | function f => exact hglobal _ id f _ rfl rfl hid

/-- **The analysis keeps what is called.** A name that stands for no global function may become that of a method. -/
theorem reduceCall_gives (root : Bool) (c : CallNode) : Gives (fun c' => c.callee.Kept c'.callee ∧
    ∀ id, c.callee = .name id → c'.facts.name = id.name) (reduceCall sub root c) := by
  have hnoted : ∀ {c₁ c' : CallNode} {id : Ident}, c₁.callee = c.callee → c.callee = .name id →
      Noted c₁ id.name c' → c.callee.Kept c'.callee ∧ ∀ n, c.callee = .name n → c'.facts.name = n.name := by
    intro c₁ c' id hcallee hid hc'
    refine ⟨hcallee ▸ hc'.1, fun n hn => ?_⟩
    cases hid.symm.trans hn
    exact hc'.2
  apply reduceCall_cases
  · intro c₁ id t hcallee hid
    exact (reduceConstructor_gives c₁ id t (hcallee.trans hid)).mono fun _ => hnoted hcallee hid
  · intro c₁ id f discarded hcallee hid _
    exact (reduceGlobalCall_gives c₁ id f discarded (hcallee.trans hid)).mono fun _ => hnoted hcallee hid
  · intro c₁ name hcallee _ hname
    refine (reduceMethodCall_gives c₁ name root fun id hid => (hname id (hcallee.symm.trans hid)).1).mono
      fun c' hc' => ⟨hcallee ▸ hc'.1.1, fun id hid => ?_⟩
    rw [hc'.1.2, (hname id hid).2]
  · intro c' hkept _ hnot
    exact ⟨hkept, fun id hid => absurd hid (hnot id)⟩

end Calls

end Analysis

end GameScript
