import GameScript.Compiler
import GameScript.Proofs.Temporaries.Flow

/-!
# Temporaries of trees

By recursion on the tree, whatever its annotations are: expressions and patterns compute a value,
statements leave the stack as it was, and functions are balanced.
-/

namespace GameScript

namespace Lower

mutual

theorem expr_yields (e : Expr) : Yields (expr e) := by
  intro ctx s hs
  unfold expr
  refine (direct?_keeps e hs).bind fun r s₁ ⟨h₁, hr⟩ => ?_
  cases r with
  | some a => exact h₁.yields (hr a rfl)
  | none =>
    refine After.post ?_ fun _ _ => h₁.yielded
    have hs₁ := h₁.sound
    cases e with
    | literal l => exact (constant_finds _).yields ctx s₁ hs₁
    | ident id => exact name_yields id ctx s₁ hs₁
    | self p i => exact (Kept.refl hs₁).yields rfl
    | list p items c i => exact array_yields i.type (exprs_yieldsAll items) ctx s₁ hs₁
    | dict p es l c i => exact dictionary_yields i.type (entries_yieldsAll es) ctx s₁ hs₁
    | dot x id i =>
      have hdot := property_yields i.type (expr_yields x) id.name ctx s₁ hs₁
      rw [after_bind, after_read]
      split
      · split
        · intro f hf
          cases hf
        · exact hdot
      · exact hdot
    | index x y c i => exact element_yields i.type (expr_yields x) (expr_yields y) ctx s₁ hs₁
    | call fn args c facts i =>
      exact result_yields i.type (call_uses fn facts args (receiver_yields fn) (exprs_yieldsAll args))
        ctx s₁ hs₁
    | superCall p id args c facts i =>
      exact result_yields i.type (callSuper_uses facts (exprs_yieldsAll args)) ctx s₁ hs₁
    | unary p op x i => exact unary_yields i.type _ (expr_yields x) ctx s₁ hs₁
    | binary x op y i =>
      exact (logical_yields _ (expr_yields x) (expr_yields y)).ite
        (binary_yields i.type op (expr_yields x) (expr_yields y)) ctx s₁ hs₁
    | cond yes c no i =>
      exact conditional_yields i.type (expr_yields c) (expr_yields yes) (expr_yields no) ctx s₁ hs₁
    | typeTest x negated t i => exact typeTest_yields i.type (expr_yields x) negated _ ctx s₁ hs₁
    | cast x t i => exact cast_yields i.type (expr_yields x) ctx s₁ hs₁
    | await p x i => exact await_yields i.type (expr_yields x) ctx s₁ hs₁
    | preload p x c path i => exact (constant_finds _).yields ctx s₁ hs₁
    | lambda f captures usesSelf i =>
      refine (func_keeps f _ captures ctx s₁ hs₁).bind fun n s₂ h₂ => ?_
      exact (closure_yields i.type n captures usesSelf ctx s₂ h₂.sound).post fun _ _ => h₂.yielded

theorem exprs_yieldsAll (xs : List Expr) : YieldsAll (exprs xs) := by
  intro ctx s hs
  cases xs with
  | nil => exact .nil hs
  | cons x xs =>
    unfold exprs
    refine (expr_yields x ctx s hs).bind fun a s₁ ha => ?_
    exact (exprs_yieldsAll xs ctx s₁ ha.sound).bind fun as s₂ has => ha.cons has

theorem entries_yieldsAll (es : List DictEntry) : YieldsAll (entries es) := by
  intro ctx s hs
  match es with
  | [] => exact .nil hs
  | ⟨k, v⟩ :: es =>
    unfold entries
    refine (expr_yields k ctx s hs).bind fun k s₁ hk => ?_
    refine (expr_yields v ctx s₁ hk.sound).bind fun v s₂ hv => ?_
    exact (entries_yieldsAll es ctx s₂ hv.sound).bind fun as s₃ has => hk.cons (hv.cons has)

theorem receiver_yields (e : Expr) : Yields (receiver e) := by
  unfold receiver
  cases e with
  | dot x _ _ => exact expr_yields x
  | _ => exact pure_yields rfl

theorem route_routes {root : Lower Address} (hroot : Yields root) (e : Expr) (ctx : LowerContext)
    (s : Lowering) (hs : s.Sound) : After (route root e) ctx s (fun r s' => Routed s r s') Benign := by
  have hbase : ∀ root', After (do return { root := root', base := ← root : Route }) ctx s
      (fun r s' => Routed s r s') Benign := fun root' =>
    (hroot ctx s hs).bind fun a s₁ ha => ⟨ha.sound, ⟨_, ha.holds, .nil⟩, ha.maxTemps⟩
  unfold route
  cases e with
  | dot x id i =>
    refine (route_routes (expr_yields x) x ctx s hs).bind fun r s₁ hr => ?_
    refine (name_gen_keeps _ ctx s₁ hr.sound).bind fun n s₂ h₂ => ?_
    exact loadPart_routes hr (keyed_named h₂ n) _
  | index x y c i =>
    refine (route_routes (expr_yields x) x ctx s hs).bind fun r s₁ hr => ?_
    refine (expr_yields y ctx s₁ hr.sound).bind fun k s₂ hk => ?_
    exact loadPart_routes hr (keyed_keyed hk) _
  | _ => exact hbase _

theorem func_keeps (f : Func) (name : Text) (captures : List Ident) : Keeps (func f name captures) := by
  match f with
  | ⟨pos, id, params, returns, body, isStatic, role⟩ =>
    unfold func
    intro ctx s hs
    rw [after_bind, after_note]
    refine separately_keeps _ _ _ ?_ ctx s hs
    refine (addParams_keeps captures params).builds fun _ => ?_
    dsimp only
    split
    · refine Keeps.builds (fun ctx s hs => emit_keeps hs (by simp)) fun _ => ?_
      refine (defaults_keeps params).builds fun starts => entry_keeps.builds fun l => ?_
      exact Keeps.builds (pure_keeps _) fun _ => body_builds (block_keeps body) _ _ _ _
    · exact Keeps.builds (pure_keeps _) fun _ => body_builds (block_keeps body) _ _ _ _

theorem defaults_keeps (ps : List Param) : Keeps (defaults ps) := by
  match ps with
  | [] => exact pure_keeps _
  | ⟨_, _, _, none⟩ :: ps =>
    unfold defaults
    exact defaults_keeps ps
  | ⟨id, _, _, some x⟩ :: ps =>
    unfold defaults
    have hstore : Keeps (do
        let src ← expr x
        assign (← paramAt id.pos) src (← note id.pos).converts
        Gen.release src) := by
      intro ctx s hs
      refine (expr_yields x ctx s hs).bind fun src s₁ hx => ?_
      refine (paramAt_finds id.pos ctx s₁ hx.sound).bind fun dst s₂ ⟨h₂, hd⟩ => ?_
      rw [after_bind, after_note]
      refine (assign_keeps _ h₂.sound (tempBelow_of_not_temporary hd _) (hx.operand h₂.maxTemps)).bind
        fun _ s₃ h₃ => ?_
      exact release_keeps (hx.kept (h₂.trans h₃))
    exact entry_keeps.bind fun l => (setLine_keeps _).bind fun _ => (balanced_keeps hstore).bind fun _ =>
      (defaults_keeps ps).bind fun _ => pure_keeps _

theorem block_keeps (b : Block) : Keeps (block b) := by
  match b with
  | ⟨_, ss, _, _, _, _, _⟩ =>
    unfold block
    exact stmts_keeps ss

theorem stmts_keeps (ss : List Stmt) : Keeps (stmts ss) := by
  match ss with
  | [] => exact pure_keeps _
  | s :: ss =>
    unfold stmts
    exact (setLine_keeps _).bind fun _ => (balanced_keeps (stmt_keeps s)).bind fun _ => stmts_keeps ss

theorem stmt_keeps (x : Stmt) : Keeps (stmt x) := by
  unfold stmt
  match x with
  | .expr x =>
    have hplain : Keeps (do Gen.release (← expr x)) := fun ctx s hs =>
      (expr_yields x ctx s hs).bind fun _ _ ha => release_keeps ha
    cases x with
    | call fn args _ facts _ =>
      exact fun ctx s hs => call_uses fn facts args (receiver_yields fn) (exprs_yieldsAll args) .nil ctx s
        hs (by simp)
    | superCall _ _ args _ facts _ =>
      exact fun ctx s hs => callSuper_uses facts (exprs_yieldsAll args) .nil ctx s hs (by simp)
    | _ => exact hplain
  | .var ⟨_, id, _, _, first, _, _, _, _, _, _, _, _⟩ =>
    intro ctx s hs
    rw [after_bind, after_note]
    refine (addLocal_finds id _ ctx s hs).bind fun dst s₁ ⟨h₁, hd⟩ => ?_
    refine After.post ?_ fun _ _ => h₁.trans
    cases first with
    | none => exact initVariable_keeps _ (by simp) hd ctx s₁ h₁.sound
    | some x => exact initVariable_keeps _ (by simpa using expr_yields x) hd ctx s₁ h₁.sound
  | .const ⟨pos, _, _, _, init, _⟩ =>
    refine (pure_keeps ()).ite fun _ _ _ f hf => ?_
    cases hf
  | .assign _ lhs rhs op converts =>
    intro ctx s hs
    cases lhs with
    | ident id => exact assignName_keeps id (expr_yields rhs) ctx s hs
    | dot x id i =>
      refine (route_routes (expr_yields x) x ctx s hs).bind fun r s₁ hr => ?_
      refine (name_gen_keeps _ ctx s₁ hr.sound).bind fun n s₂ h₂ => ?_
      exact assignPart_keeps hr (keyed_named h₂ n) (expr_yields rhs)
    | index x y _ i =>
      refine (route_routes (expr_yields x) x ctx s hs).bind fun r s₁ hr => ?_
      refine (expr_yields y ctx s₁ hr.sound).bind fun k s₂ hk => ?_
      exact assignPart_keeps hr (keyed_keyed hk) (expr_yields rhs)
    | _ => exact benign_internal rfl
  | .cond _ c yes none =>
    exact choose_keeps (expr_yields c) (block_keeps yes) (by simp)
  | .cond _ c yes (some no) =>
    exact choose_keeps (expr_yields c) (block_keeps yes) (by simpa using block_keeps no)
  | .while _ c body => exact repeatWhile_keeps (expr_yields c) (block_keeps body)
  | .loop _ id _ x body => exact forEach_keeps id _ (expr_yields x) (block_keeps body)
  | .match _ x bs => exact matching_keeps _ (expr_yields x) fun done => branches_uses done bs
  | .jump pos j => exact jump_keeps pos j
  | .return _ none _ => exact returnNil_keeps
  | .return _ (some x) isVoid =>
    have hplain : Keeps (returnValue (expr x)) := returnValue_keeps (expr_yields x)
    cases x with
    | call fn args _ facts _ =>
      cases isVoid with
      | false => exact hplain
      | true =>
        exact fun ctx s hs => (call_uses fn facts args (receiver_yields fn) (exprs_yieldsAll args) .nil
          ctx s hs (by simp)).keeping fun _ s₁ h₁ => returnNil_keeps ctx s₁ h₁.sound
    | superCall _ _ args _ facts _ =>
      cases isVoid with
      | false => exact hplain
      | true =>
        exact fun ctx s hs => (callSuper_uses facts (exprs_yieldsAll args) .nil ctx s hs
          (by simp)).keeping fun _ s₁ h₁ => returnNil_keeps ctx s₁ h₁.sound
    | _ => exact hplain
  | .assert _ c none _ => exact assertion_keeps (expr_yields c) (pure_yields rfl)
  | .assert _ c (some m) _ => exact assertion_keeps (expr_yields c) (expr_yields m)

theorem branches_uses (done : Nat) (bs : List Branch) : Uses fun value => branches value done bs := by
  intro value ctx s hs hv
  match bs with
  | [] => exact .refl hs
  | ⟨ps, body, _⟩ :: bs =>
    unfold branches
    refine After.keeping (matchBranch_keeps done hs (fun s' hs' hm => ?_) (block_keeps body))
      fun _ s₁ h₁ => branches_uses done bs value ctx s₁ h₁.sound (hv.mono h₁.maxTemps)
    refine anyPattern_yields hs' fun p hp s'' hs'' hm' => ?_
    exact patterns_yield ps value ctx s'' hs'' (hv.mono (le_trans hm hm')) p hp

theorem patterns_yield (ps : List Pattern) (value : Address) (ctx : LowerContext) (s : Lowering)
    (hs : s.Sound) (hv : TempBelow s.gen.maxTemps value.encode) :
    ∀ x ∈ patterns value ps, After x ctx s (fun r s' => Yielded s r s') Benign := by
  match ps with
  | [] => simp [patterns]
  | p :: ps =>
    unfold patterns
    intro x hx
    rcases List.mem_cons.mp hx with rfl | hx
    · exact pattern_tests p value ctx s hs hv
    · exact patterns_yield ps value ctx s hs hv x hx

theorem pattern_tests (p : Pattern) : Tests fun value => pattern value p := by
  unfold pattern
  match p with
  | .literal l => exact equalPattern_tests _ (literal_finds l).yields
  | .expr x => exact equalPattern_tests x (expr_yields x)
  | .bind _ id => exact bindPattern_tests id
  | .wildcard _ => exact fun _ ctx s hs _ => (constant_finds _).yields ctx s hs
  | .rest _ => exact fun _ ctx s hs _ => (constant_finds _).yields ctx s hs
  | .array _ ps _ =>
    exact containerPattern_tests _ _ _ fun _ value ctx s hs _ hv =>
      elementPatterns_uses 0 ps value ctx s hs hv
  | .dict _ es isOpen _ =>
    exact containerPattern_tests _ _ _ fun test value ctx s hs ht hv =>
      entryPatterns_keeps es test value ctx s hs ht hv

theorem elementPatterns_uses (i : Nat) (ps : List Pattern) :
    Uses fun value => elementPatterns value i ps := by
  intro value ctx s hs hv
  match ps with
  | [] => exact .refl hs
  | p :: ps =>
    have helement : After (do
        elementPattern value (Gen.constant (.int (Int64.ofNat i))) fun a => pattern a p
        elementPatterns value (i + 1) ps) ctx s (fun _ s' => Kept s s') Benign := by
      refine After.keeping (elementPattern_uses 0 (fun ctx s hs _ => ?_) (pattern_tests p) hs
        (Nat.zero_le _) hv) fun _ s₁ h₁ =>
          elementPatterns_uses (i + 1) ps value ctx s₁ h₁.sound (hv.mono h₁.maxTemps)
      exact (constant_finds _ ctx s hs).post fun _ _ ⟨h, hc⟩ => ⟨h, tempBelow_of_not_temporary hc _⟩
    unfold elementPatterns
    split
    · exact .refl hs
    · exact .refl hs
    · rename_i heq
      cases heq
      exact helement

theorem entryPatterns_keeps (es : List PatternEntry) (test value : Address) (ctx : LowerContext)
    (s : Lowering) (hs : s.Sound) (ht : TempBelow s.gen.maxTemps test.encode)
    (hv : TempBelow s.gen.maxTemps value.encode) :
    After (entryPatterns test value es) ctx s (fun _ s' => Kept s s') Benign := by
  match es with
  | [] => exact .refl hs
  | ⟨k, v⟩ :: es =>
    unfold entryPatterns
    have hnext : ∀ s₁, Kept s s₁ → After (entryPatterns test value es) ctx s₁
        (fun _ s' => Kept s₁ s') Benign := fun s₁ h₁ =>
      entryPatterns_keeps es test value ctx s₁ h₁.sound (ht.mono h₁.maxTemps) (hv.mono h₁.maxTemps)
    cases v with
    | none => exact (entryPattern_keeps (expr_yields k) (by simp) hs ht hv).keeping fun _ => hnext
    | some p =>
      refine (entryPattern_keeps (expr_yields k) (fun q hq => ?_) hs ht hv).keeping fun _ => hnext
      cases hq
      exact pattern_tests p

end

end Lower

end GameScript

/-!
## Temporaries of a file

The functions of a class are lowered one after another, each from an empty stack. So the file as a whole
is free of faults about temporaries, and every function of its program is balanced.
-/

namespace GameScript

namespace Lower

variable {α β : Type} {ctx : LowerContext} {s : Lowering}

@[simp] theorem after_withReader {f : LowerContext → LowerContext} {x : Lower α}
    {Q : α → Lowering → Prop} {E : LowerError → Prop} :
    After (withReader f x) ctx s Q E ↔ After x (f ctx) s Q E := Iff.rfl

theorem mapM_keeps {f : α → Lower β} (hf : ∀ a, Keeps (f a)) (xs : List α) : Keeps (xs.mapM f) := by
  induction xs with
  | nil => exact pure_keeps _
  | cons x xs ih =>
    rw [List.mapM_cons]
    exact (hf x).bind fun _ => ih.bind fun _ => pure_keeps _

theorem methods_keeps (ms : List Member) : Keeps (methods ms) := by
  induction ms with
  | nil => exact pure_keeps _
  | cons m ms ih =>
    cases m with
    | func f => exact (func_keeps f _ _).bind fun _ => ih.bind fun _ => pure_keeps _
    | var d =>
      exact (mapM_keeps (fun f => func_keeps f _ _) _).bind fun _ =>
        (mapM_keeps (fun f => func_keeps f _ _) _).bind fun _ => ih.bind fun _ => pure_keeps _
    | _ => exact ih

theorem setVariables_keeps (ready : Bool) (ms : List Member) : Keeps (setVariables ready ms) := by
  induction ms with
  | nil => exact pure_keeps _
  | cons m ms ih =>
    cases m with
    | var d =>
      have hinit : Keeps (do
          let m ← member none d.name.name
          let n ← note d.name.pos
          setLine d.pos
          balanced (initVariable ⟨.member, m.index.toNat, n.type⟩ n (d.init.map expr))) := by
        refine (member_keeps _ _).bind fun m => Keeps.bind (fun _ _ hs => .refl hs) fun n => ?_
        refine (setLine_keeps _).bind fun _ => balanced_keeps (initVariable_keeps n ?_ rfl)
        intro x hx
        obtain ⟨e, -, rfl⟩ := Option.mem_map.mp hx
        exact expr_yields e
      unfold setVariables
      dsimp only
      split
      · have := hinit.bind fun _ => ih
        simpa only [bind_assoc] using this
      · exact ih
    | _ => exact ih

theorem setter_keeps (d : ClassDecl) (name : Text) (ready : Bool) : Keeps (setter d name ready) :=
  separately_keeps _ _ _ ((setVariables_keeps ready d.members).builds fun _ =>
    returnNil_keeps.builds fun _ => finish_builds _ _)

mutual

theorem classes_keeps (drafts : Table DeclId Script) (ids : List DeclId) (id : DeclId) (d : ClassDecl) :
    Keeps (classes drafts ids id d) := by
  match d with
  | ⟨pos, name, base, members, isTool, usesOnready, close⟩ =>
    intro ctx s hs
    unfold classes
    refine After.keeping ?_ fun script s₁ h₁ =>
      (innerClasses_keeps drafts ids members).bind (fun _ => pure_keeps _) ctx s₁ h₁.sound
    rw [after_withReader]
    refine ((methods_keeps members).bind fun _ => (setter_keeps _ _ _).bind fun _ => ?_) _ s hs
    dsimp only
    split
    · exact Keeps.bind ((setter_keeps _ _ _).bind fun _ => pure_keeps _) fun _ => pure_keeps _
    · exact (pure_keeps _).bind fun _ => pure_keeps _

theorem innerClasses_keeps (drafts : Table DeclId Script) (ids : List DeclId) (ms : List Member) :
    Keeps (innerClasses drafts ids ms) := by
  match ms with
  | [] => exact pure_keeps _
  | m :: ms =>
    have ih := innerClasses_keeps drafts ids ms
    unfold innerClasses
    cases m with
    | cls d =>
      exact Keeps.bind (fun _ _ hs => .refl hs) fun _ => (classes_keeps drafts ids _ d).bind fun _ =>
        ih.bind fun _ => pure_keeps _
    | _ => exact ih

end

end Lower

/-- A function is lowered from a state without code, variables or temporaries. -/
theorem Lowering.sound_empty : Lowering.Sound {} :=
  ⟨⟨rfl, le_rfl, by simp, by simp, by simp⟩, by simp [Table.get?]⟩

namespace Compile

/-- A file is lowered without a fault about temporaries, and if it is lowered, all of its functions are
balanced. -/
theorem lowerFile_balanced (c : Compiler) (unit : Nat) :
    match lowerFile c unit with
    | (p, none) => ∀ f ∈ p.functions, f.Balanced
    | (_, some e) => Lower.Benign e := by
  have h := Lower.classes_keeps c.drafts (classIds c.session unit) (Session.mainClass unit)
    (c.session.annotated unit).cls
    { session := c.session, unit, cls := Session.mainClass unit, script := default, scriptIndex := 0 } {}
    Lowering.sound_empty
  unfold Lower.After at h
  unfold lowerFile
  dsimp only
  split at h
  · rename_i heq
    rw [heq]
    exact h.sound.gen.functions
  · rename_i heq
    rw [heq]
    exact h

end Compile

namespace Lower

/-- **Temporaries form a stack.** From every sound state, and a function begins in one, the code of an
expression, of a call or of a pattern either leaves the stack as it was or, if its value is in a
temporary, puts one slot on top, whose index is the old depth; that of a call whose value is not wanted,
of a statement or of a block leaves the stack as it was. None of them fails with a fault about
temporaries, and neither does a file; the functions of a file release as many temporaries as they
allocate, and their code refers to none beyond the greatest depth of the stack. -/
theorem temporaries_form_stack :
    Lowering.Sound {} ∧
    (∀ e, Yields (expr e)) ∧
    (∀ t fn facts args, Yields (result t fun dst => call dst fn facts args (receiver fn) (exprs args))) ∧
    (∀ t facts args, Yields (result t fun dst => callSuper dst facts (exprs args))) ∧
    (∀ fn facts args, Keeps (call .nil fn facts args (receiver fn) (exprs args))) ∧
    (∀ facts args, Keeps (callSuper .nil facts (exprs args))) ∧
    (∀ p, Tests fun value => pattern value p) ∧
    (∀ x, Keeps (stmt x)) ∧
    (∀ b, Keeps (block b)) ∧
    ∀ c unit, match Compile.lowerFile c unit with
      | (p, none) => ∀ f ∈ p.functions, f.Balanced
      | (_, some e) => Benign e := by
  have hcall : ∀ fn facts args, Uses fun dst => call dst fn facts args (receiver fn) (exprs args) :=
    fun fn facts args => call_uses fn facts args (receiver_yields fn) (exprs_yieldsAll args)
  have hsuper : ∀ facts args, Uses fun dst => callSuper dst facts (exprs args) :=
    fun facts args => callSuper_uses facts (exprs_yieldsAll args)
  refine ⟨Lowering.sound_empty, expr_yields, ?_, ?_, ?_, ?_, pattern_tests, stmt_keeps, block_keeps,
    Compile.lowerFile_balanced⟩
  · exact fun t fn facts args => result_yields t (hcall fn facts args)
  · exact fun t facts args => result_yields t (hsuper facts args)
  · exact fun fn facts args ctx s hs => hcall fn facts args .nil ctx s hs (tempBelow_nil _)
  · exact fun facts args ctx s hs => hsuper facts args .nil ctx s hs (tempBelow_nil _)

end Lower

end GameScript
