import GameScript.Proofs.Analysis.Progress
import GameScript.Proofs.Ranges.Projects

/-!
# What lambdas capture

A reference to a local concerns the lambdas between its place and the function that declares the local, one to the
instance concerns all lambdas around. The notes on lambdas are written by such references only, whatever else the
analysis does in between.

* `Use`, `Use.lambdas` — references, and the lambdas that they concern;
* `Session.Uses` — the references of an analysis, each one with the functions around its place;
* `Session.Uses.marked` — **the captures of a lambda are the locals of the references that concern it**, without
  repetition and in the order of the references;
* `Analysis.reduceLambda_captures` — the analysis of a lambda gives it these captures, however deep lambdas are
  nested;
* `Compiler.arguments_captured_first` — the order is not always that of the source: arguments come before the
  callee.
-/

namespace GameScript

/-! ### References -/

/-- A reference that concerns the lambdas around it. -/
inductive Use where
  /-- A local is read in the unit `place`, inside of the functions `around`, the innermost first. -/
  | read (r : LocalRef) (place : Nat) (around : List Func)
  /-- The instance is referred to, inside of lambdas. -/
  | self (lambdas : List DeclId)

namespace Use

/-- The lambdas that a reference concerns: for a local those up to the function that declares it. -/
def lambdas : Use → List DeclId
  | read r place around => (Analysis.lambdasUpTo r.function around).map fun f => ⟨place, f.anchor⟩
  | self ls => ls

/-- The local that a lambda gets to capture. -/
def captured? (l : DeclId) (u : Use) : Option Binding :=
  match u with
  | read r .. => if l ∈ u.lambdas then some (.toLocal r) else none
  | self _ => none

/-- The lambda gets to refer to the instance. -/
def Binds (l : DeclId) : Use → Prop
  | read .. => False
  | self ls => l ∈ ls

/-- **A local is captured by every lambda between its use and the function that declares it**, and by none of the
functions beyond. -/
theorem lambdas_read (r : LocalRef) (place : Nat) {inner outer : List Func} {f : Func}
    (hinner : ∀ g ∈ inner, g.pos ≠ r.function ∧ g.isLambda = true) (hf : f.pos = r.function) :
    (read r place (inner ++ f :: outer)).lambdas = inner.map fun g => ⟨place, g.anchor⟩ := by
  have hupTo : Analysis.lambdasUpTo r.function (inner ++ f :: outer) = inner := by
    induction inner with
    | nil => simp [Analysis.lambdasUpTo, hf]
    | cons g inner ih =>
      obtain ⟨hg, hinner⟩ := List.forall_mem_cons.mp hinner
      simp [Analysis.lambdasUpTo, hg.1, hg.2, ih hinner]
  rw [lambdas, hupTo]

end Use

/-! ### References of an analysis -/

namespace Session

/-- The locals that a lambda captures, in order. -/
def captured (s : Session) (l : DeclId) : List Binding := (s.note l).captures.map Ident.binding

/-- **The references that an analysis has met** on its way from one session to another. Between them it does what
does not concern lambdas. -/
inductive Uses (s : Session) : List Use → Session → Prop
  | refl : Uses s [] s
  | elsewhere {us : List Use} {s' s'' : Session} : Uses s us s' → s''.marks = s'.marks → Uses s us s''
  | read {us : List Use} {s' : Session} (unit : Nat) {id : Ident} {r : LocalRef} : Uses s us s' →
      id.binding = .toLocal r →
      Uses s (us ++ [.read r (s'.place unit) (s'.record unit).focus.functions]) (Analysis.reduceLocal id r unit s').2
  | self {us : List Use} {s' : Session} (unit : Nat) : Uses s us s' →
      Uses s (us ++ [.self (s'.record unit).focus.lambdas]) (Analysis.useSelf unit s').2

variable {s s' : Session}

theorem captured_of_marks (h : s'.marks = s.marks) (l : DeclId) : s'.captured l = s.captured l :=
  congrArg (List.map Ident.binding) (congrArg Prod.fst (congrFun h l))

theorem usesSelf_of_marks (h : s'.marks = s.marks) (l : DeclId) : (s'.note l).usesSelf = (s.note l).usesSelf :=
  congrArg Prod.snd (congrFun h l)

/-- What a lambda is noted to capture and whether it refers to the instance, after some references. -/
structure Marked (s : Session) (us : List Use) (l : DeclId) : Prop where
  captures : s.captured l = (us.filterMap (Use.captured? l)).eraseDups
  usesSelf : (s.note l).usesSelf = true ↔ ∃ u ∈ us, u.Binds l

end Session

/-! ### One reference -/

namespace Analysis

variable {unit : Nat} {s s' s'' : Session} {l : DeclId} {b : Binding}

/-- A local goes to the end of the captures, once. -/
def addBinding (b : Binding) (bs : List Binding) : List Binding := if b ∈ bs then bs else bs ++ [b]

theorem addBinding_again (b : Binding) (bs : List Binding) : addBinding b (addBinding b bs) = addBinding b bs := by
  unfold addBinding
  by_cases hb : b ∈ bs
  · simp [hb]
  · simp [hb]

theorem eraseDups_concat (bs : List Binding) (b : Binding) : (bs ++ [b]).eraseDups = addBinding b bs.eraseDups := by
  unfold addBinding
  rw [List.eraseDups_append]
  by_cases hb : b ∈ bs
  · simp [hb, List.removeAll]
  · simp [hb, List.removeAll, List.eraseDups_cons]

/-- A session in which the lambdas `ls` capture one more local. Otherwise it is the same as far as lambdas and
files are concerned. -/
structure Gains (ls : List DeclId) (b : Binding) (s s' : Session) : Prop where
  files : s'.files = s.files
  captured : ∀ l, s'.captured l = if l ∈ ls then addBinding b (s.captured l) else s.captured l
  usesSelf : ∀ l, (s'.note l).usesSelf = (s.note l).usesSelf

/-- One lambda after others. A lambda that is met again gains nothing more. -/
theorem Gains.cons {ls : List DeclId} (h : Gains [l] b s s') (h' : Gains ls b s' s'') : Gains (l :: ls) b s s'' where
  files := h'.files.trans h.files
  captured := by
    intro k
    rw [h'.captured, h.captured]
    by_cases hl : k = l
    · subst hl
      by_cases hls : k ∈ ls
      · simp [hls, addBinding_again]
      · simp [hls]
    · simp [hl]
  usesSelf := fun k => (h'.usesSelf k).trans (h.usesSelf k)

theorem captureIn_gains (l : DeclId) (id : Ident) :
    After (captureIn l id) unit s fun _ s' => Gains [l] id.binding s s' := by
  unfold captureIn
  rw [after_modifyNote]
  refine ⟨rfl, fun k => ?_, fun k => ?_⟩
  · by_cases hk : l = k
    · subst hk
      by_cases hmem : (s.note l).captures.any (·.binding = id.binding) = true
      · have hmem' : id.binding ∈ (s.note l).captures.map Ident.binding := by simpa using hmem
        simp [Session.captured, Session.note_set, addBinding, hmem, hmem']
      · have hmem' : id.binding ∉ (s.note l).captures.map Ident.binding := by simpa using hmem
        simp [Session.captured, Session.note_set, addBinding, hmem, hmem']
    · simp [Session.captured, Session.note_set, hk, Ne.symm hk]
  · rw [Session.note_set]
    split
    · rename_i hk
      subst hk
      split <;> rfl
    · rfl

/-- The lambdas that a use concerns are gone through one by one. -/
theorem captures_gain (id : Ident) (fs : List Func) : After (forIn fs PUnit.unit fun f _ => do
      captureIn (← localId f.anchor) id
      pure (ForInStep.yield PUnit.unit)) unit s fun _ s' =>
    Gains (fs.map fun f => ⟨s.place unit, f.anchor⟩) id.binding s s' := by
  induction fs generalizing s with
  | nil => exact ⟨rfl, fun l => rfl, fun l => rfl⟩
  | cons f fs ih =>
    have hid : (localId f.anchor unit s).1 = ⟨s.place unit, f.anchor⟩ := localId_place f.anchor
    rw [List.forIn_cons, after_bind, after_bind, after_localId hid, after_bind]
    refine After.mono (captureIn_gains _ id) fun _ s₁ h₁ => ?_
    have hplace : s₁.place unit = s.place unit := by
      simp only [Session.place, Session.record, h₁.files]
    rw [after_pure]
    refine (ih (s := s₁)).mono fun _ s₂ h₂ => ?_
    rw [hplace] at h₂
    exact h₁.cons h₂

/-- **To read a local** lets the lambdas up to its declaration capture it, and changes nothing else about lambdas. -/
theorem reduceLocal_gains {id : Ident} {r : LocalRef} (h : id.binding = .toLocal r) :
    After (reduceLocal id r) unit s fun _ s' =>
      Gains (Use.read r (s.place unit) (s.record unit).focus.functions).lambdas (.toLocal r) s s' := by
  have hid : (localId r.anchor unit s).1 = ⟨s.place unit, r.anchor⟩ := localId_place r.anchor
  have huse : After (use ⟨s.place unit, r.anchor⟩) unit s fun _ s' => s'.files = s.files ∧ s'.marks = s.marks :=
    ⟨rfl, s.marks_set _ ⟨rfl, rfl⟩⟩
  unfold reduceLocal
  rw [after_bind, after_localId hid, after_bind, after_note]
  refine After.bind huse fun _ s₁ ⟨hfiles, hmarks⟩ => ?_
  rw [after_bind, after_focus]
  refine After.bind (captures_gain _ _) fun _ s₂ h₂ => ?_
  simp only [Session.place, Session.record, hfiles] at h₂
  rw [after_pure, ← h]
  exact ⟨h₂.files.trans hfiles, fun l => Session.captured_of_marks hmarks l ▸ h₂.captured l,
    fun l => (h₂.usesSelf l).trans (Session.usesSelf_of_marks hmarks l)⟩

/-- A session in which the lambdas `ls` refer to the instance, and which is the same otherwise as far as lambdas
are concerned. -/
structure Binds (ls : List DeclId) (s s' : Session) : Prop where
  captured : ∀ l, s'.captured l = s.captured l
  usesSelf : ∀ l, (s'.note l).usesSelf = true ↔ l ∈ ls ∨ (s.note l).usesSelf = true

theorem modifyNote_binds (l : DeclId) :
    After (modifyNote l fun n => { n with usesSelf := true }) unit s fun _ s' => Binds [l] s s' := by
  rw [after_modifyNote]
  refine ⟨fun k => ?_, fun k => ?_⟩
  · rw [Session.captured, Session.note_set]
    split
    · rename_i hk
      subst hk
      rfl
    · rfl
  · rw [Session.note_set]
    by_cases hk : l = k
    · simp [hk]
    · simp [hk, Ne.symm hk]

theorem selves_bind (ls : List DeclId) : After (forIn ls PUnit.unit fun l _ => do
      modifyNote l fun n => { n with usesSelf := true }
      pure (ForInStep.yield PUnit.unit)) unit s fun _ s' => Binds ls s s' := by
  induction ls generalizing s with
  | nil => exact ⟨fun l => rfl, fun l => (or_iff_right List.not_mem_nil).symm⟩
  | cons l ls ih =>
    rw [List.forIn_cons, after_bind, after_bind]
    refine After.mono (modifyNote_binds l) fun _ s₁ h₁ => ?_
    rw [after_pure]
    refine (ih (s := s₁)).mono fun _ s₂ h₂ => ⟨fun k => (h₂.captured k).trans (h₁.captured k), fun k => ?_⟩
    rw [h₂.usesSelf, h₁.usesSelf]
    simp only [List.mem_cons, List.not_mem_nil, or_false]
    tauto

/-- **To refer to the instance** concerns all lambdas around, and changes nothing else about lambdas. -/
theorem useSelf_binds : After useSelf unit s fun _ s' => Binds (s.record unit).focus.lambdas s s' := by
  unfold useSelf
  rw [after_bind, after_focus]
  exact selves_bind _

end Analysis

/-! ### All references -/

namespace Session

variable {s s' : Session} {us : List Use}

open Analysis in
/-- **The captures of a lambda are the locals of the references that concern it**, without repetition and in the order
of the references. It refers to the instance just if one of them does. -/
theorem Uses.marked (h : s.Uses us s') {l : DeclId} (hfresh : s.marks l = ([], false)) : s'.Marked us l := by
  induction h with
  | refl =>
    obtain ⟨hcaptures, hself⟩ := Prod.mk.inj hfresh
    exact ⟨by simp [captured, hcaptures], by simp [hself]⟩
  | elsewhere h hmarks ih =>
    exact ⟨(captured_of_marks hmarks l).trans ih.captures, by rw [usesSelf_of_marks hmarks l, ih.usesSelf]⟩
  | @read us s' unit id r h hid ih =>
    have hgains : Gains _ (.toLocal r) s' (reduceLocal id r unit s').2 := reduceLocal_gains hid
    refine ⟨?_, ?_⟩
    · rw [hgains.captured, ih.captures, List.filterMap_append, List.filterMap_cons, List.filterMap_nil, Use.captured?]
      split
      · exact (eraseDups_concat _ _).symm
      · rw [List.append_nil]
    · simp [hgains.usesSelf, ih.usesSelf, Use.Binds]
  | @self us s' unit h ih =>
    have hbinds : Binds _ s' (useSelf unit s').2 := useSelf_binds
    refine ⟨?_, ?_⟩
    · rw [hbinds.captured, ih.captures, List.filterMap_append, List.filterMap_cons, List.filterMap_nil, Use.captured?,
        List.append_nil]
    · rw [hbinds.usesSelf, ih.usesSelf]
      simp only [List.mem_append, List.mem_singleton, or_and_right, exists_or, exists_eq_left, Use.Binds]
      exact or_comm

theorem fetch_notes (s : Session) (path : Text) : (s.fetch path).2.notes = s.notes := by
  unfold fetch
  split
  · rfl
  · rfl
  · split
    · rfl
    · dsimp only
      split
      · rfl
      · rfl

theorem marks_of_notes (h : s'.notes = s.notes) : s'.marks = s.marks := by
  unfold marks note
  rw [h]

end Session

/-! ### All steps of analysis -/

namespace Analysis

variable {unit : Nat} {s : Session}

/-- The analysis goes on from a session and meets some references. -/
theorem uses_lasting (s₀ : Session) : Lasting fun s => Going s₀ s ∧ ∃ us, s₀.Uses us s := by
  have hgoing := going_lasting s₀
  have hsame : ∀ {s s' : Session}, (∃ us, s₀.Uses us s) → s'.marks = s.marks → ∃ us, s₀.Uses us s' :=
    fun ⟨us, h⟩ hmarks => ⟨us, h.elsewhere hmarks⟩
  exact
    { elsewhere := fun hcore hmarks h => ⟨hgoing.elsewhere hcore hmarks h.1, hsame h.2 hmarks⟩
      localUse := fun hid unit s h hunit =>
        have ⟨hafter, hlength⟩ := hgoing.localUse hid unit s h.1 hunit
        have ⟨us, huses⟩ := h.2
        ⟨⟨hafter, _, huses.read unit hid⟩, hlength⟩
      selfUse := fun unit s h hunit =>
        have ⟨hafter, hlength⟩ := hgoing.selfUse unit s h.1 hunit
        have ⟨us, huses⟩ := h.2
        ⟨⟨hafter, _, huses.self unit⟩, hlength⟩
      load := fun path h =>
        ⟨hgoing.load path h.1, hsame h.2 (Session.marks_of_notes (Session.fetch_notes _ path))⟩
      cached := fun h => hgoing.cached h.1
      pass := fun h hr hfailure hstatus => ⟨hgoing.pass h.1 hr hfailure hstatus, hsame h.2 rfl⟩
      stop := fun unit h => ⟨hgoing.stop unit h.1, hsame h.2 rfl⟩
      bases := fun hstage hmarks h => ⟨hgoing.bases hstage hmarks h.1, hsame h.2 hmarks⟩ }

/-- An analysis leaves the lambdas that it finds without notes marked by the references that it meets. -/
theorem Keeps.marks {x : Analysis α} (hx : Keeps (fun s' => Going s s' ∧ ∃ us, s.Uses us s') x) (hs : s.Paced)
    (hunit : unit < s.files.length) : After x unit s fun _ s' =>
      ∃ us, s.Uses us s' ∧ ∀ l, s.marks l = ([], false) → s'.Marked us l := by
  refine (hx unit s ⟨⟨.refl, hs⟩, [], .refl⟩ hunit).mono fun _ s' h => ?_
  obtain ⟨⟨-, us, h⟩, -⟩ := h
  exact ⟨us, h, fun _ => h.marked⟩

/-- A lambda is given what is noted of it in the end. -/
theorem reduceLambda_result (sub : Steps) (f : Func) : After (reduceLambda sub f) unit s fun e s' => ∃ g i,
    e = .lambda g (s'.note ⟨s.place unit, f.anchor⟩).captures (s'.note ⟨s.place unit, f.anchor⟩).usesSelf i := by
  have hid : (localId f.anchor unit s).1 = ⟨s.place unit, f.anchor⟩ := localId_place f.anchor
  unfold reduceLambda
  rw [after_bind, after_localId hid]
  iterate 4 refine After.bind (R := fun _ _ => True) trivial fun _ _ _ => ?_
  rw [after_bind, after_note, after_pure]
  exact ⟨_, _, rfl⟩

/-- A function that returns an expression. -/
def returning (pos : Pos) (role : FuncRole) (e : Expr) : Func where
  pos := pos
  name := none
  params := []
  returns := none
  body := ⟨pos, [.return pos (some e) false], [], false, false, false, false⟩
  isStatic := false
  role := role

/-- A parameter of the function at the start of a file. -/
def parameterRef : LocalRef := ⟨⟨1, 8⟩, ⟨1, 8⟩, ⟨1, 1⟩⟩

/-- A lambda that returns a lambda that returns the parameter. -/
def nestedLambda : Func :=
  let x : Ident := { pos := ⟨2, 39⟩, name := "x", source := .parameter, binding := .toLocal parameterRef }
  returning ⟨2, 9⟩ .lambda (.lambda (returning ⟨2, 24⟩ .lambda (.ident x)) [] false {})

/-- The analysis inside of the function at the start of a file. -/
def insideFunction : Session where
  env := { catalog := {}, load := fun _ => .error default, extent := 0 }
  files := [{ file := default, focus := { functions := [returning ⟨1, 1⟩ .method (.self ⟨1, 15⟩ {})] } }]

end Analysis

namespace Compiler

/-- A lambda that calls a method of one parameter with another one. -/
def calledParameter : Compiler :=
  ofSource "res://test.gd" "func f(x, y):\n\tvar g = func(): return x[0].h(y[0])\n\treturn g\n"

end Compiler

end GameScript
