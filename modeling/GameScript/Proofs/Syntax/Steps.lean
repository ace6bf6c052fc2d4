import GameScript.Proofs.Syntax.Blocks
import GameScript.Syntax.Parse.Decl

/-!
# Steps of parsing

What a parser may do to the tokens, told in one statement, so that it can be followed through a sequence of
steps: how many tokens remain, that blocks are opened and closed in pairs, and which errors there can be.

* `Parse.Passed` — what lies between two states of a parse;
* `Parse.Moves` — a parser passes at least so many tokens, given that at most so many remain;
* `Parse.MovesAt` — a parser does so if it starts at a token of a kind;
* `Moves.bind` — one parser after another.
-/

namespace GameScript

/-- Whether an error is one of the parser itself and not of the text. -/
def SyntaxFault.isInternal : SyntaxFault → Bool
  | noFile | noBlock | outOfRoom => true
  | _ => false

/-- Whether a token can be passed anywhere: it neither opens nor closes a block, nor is it the last one. -/
def TokenKind.isInner (k : TokenKind) : Bool := !(k.isDent || k = endOfFile)

namespace Parse

/-! ### States -/

/-- How many more blocks tokens open than they close. -/
def opens (ts : List Token) : Int := Scan.count .indent ts - Scan.count .outdent ts

namespace State

/-- The kind of the current token. -/
def kind (s : State) : TokenKind := (s.tokens.headD default).kind

/-- None of the ends of the remaining tokens opens more than `m` blocks that it does not close. -/
def Closes (s : State) (m : Int) : Prop := ∀ ts, ts <:+ s.tokens → opens ts ≤ m

/-- A marker that turns warnings off remains. -/
def Marked (s : State) : Prop := ∃ t ∈ s.tokens, t.kind = .marker ∧ t.text = "warning_ignore"

/-- There is a current token, and the last one is the end of the file unless an error follows it. -/
structure Ended (s : State) : Prop where
  tokens : s.tokens ≠ []
  last : s.fault = none → ∃ t, s.tokens.getLast? = some t ∧ t.kind = .endOfFile

end State

/-- **What lies between two states** of a parse: at least `k` tokens have been passed, and they open `δ` blocks
more than they close. -/
structure Passed (k : Nat) (δ : Int) (s s' : State) : Prop where
  ended : s'.Ended
  length : s'.tokens.length + k ≤ s.tokens.length
  opens : opens s.tokens = opens s'.tokens + δ
  closes : ∀ m, s.Closes m → s'.Closes m
  scopes : s'.scopes.length = s.scopes.length
  hasFile : s'.hasFile = s.hasFile
  marked : s'.Marked → s.Marked

theorem Passed.refl {s : State} (h : s.Ended) : Passed 0 0 s s :=
  ⟨h, Nat.le_refl _, (Int.add_zero _).symm, fun _ => id, rfl, rfl, id⟩

theorem Passed.trans {k k' : Nat} {δ δ' : Int} {s s' s'' : State} (h : Passed k δ s s') (h' : Passed k' δ' s' s'') :
    Passed (k + k') (δ + δ') s s'' where
  ended := h'.ended
  length := by
    have := h.length
    have := h'.length
    omega
  opens := by
    have := h.opens
    have := h'.opens
    omega
  closes := fun m hm => h'.closes m (h.closes m hm)
  scopes := h'.scopes.trans h.scopes
  hasFile := h'.hasFile.trans h.hasFile
  marked := fun hm => h.marked (h'.marked hm)

theorem Passed.of_le {k k' : Nat} {δ : Int} {s s' : State} (h : Passed k δ s s') (hk : k' ≤ k) : Passed k' δ s s' :=
  { h with length := by have := h.length; omega }

theorem Passed.andThen {k k' : Nat} {δ : Int} {s s' s'' : State} (h : Passed k δ s s') (h' : Passed k' 0 s' s'') :
    Passed k δ s s'' :=
  Int.add_zero δ ▸ (h.trans h').of_le (Nat.le_add_right k k')

/-- A state with other flags, other names in the same blocks, or more regions without warnings. -/
theorem Passed.of_tokens {s s' : State} (h : s.Ended) (htokens : s'.tokens = s.tokens) (hfault : s'.fault = s.fault)
    (hscopes : s'.scopes.length = s.scopes.length) (hfile : s'.hasFile = s.hasFile) : Passed 0 0 s s' where
  ended := ⟨htokens ▸ h.tokens, fun hf => htokens ▸ h.last (hfault ▸ hf)⟩
  length := by rw [htokens]; exact Nat.le_refl _
  opens := by rw [htokens, Int.add_zero]
  closes := fun _ hm ts hts => hm ts (htokens ▸ hts)
  scopes := hscopes
  hasFile := hfile
  marked := fun ⟨t, ht, hm⟩ => ⟨t, htokens ▸ ht, hm⟩

/-- An error that may come up on the way from a state. Only where no file is parsed, a marker that turns warnings
off can be one too many. -/
def Genuine (s : State) (e : SyntaxError) : Prop :=
  e.fault.isInternal = false ∨ e.fault = .noFile ∧ s.hasFile = false ∧ s.Marked

theorem Genuine.before {k : Nat} {δ : Int} {s s' : State} {e : SyntaxError} (h : Genuine s' e) (hs : Passed k δ s s') :
    Genuine s e :=
  h.imp id fun ⟨he, hfile, hm⟩ => ⟨he, hs.hasFile ▸ hfile, hs.marked hm⟩

/-! ### Results -/

section Yields

variable {α β : Type} {x : Parser α} {f : α → Parser β} {s : State} {E E' : SyntaxError → Prop}
  {P : α → State → Prop} {Q : β → State → Prop}

/-- What a parser gives: a result and a state that satisfy `Q`, or an error that satisfies `E`. -/
def Yields (x : Parser α) (s : State) (E : SyntaxError → Prop) (Q : α → State → Prop) : Prop :=
  match x.run s with
  | .ok (a, s') => Q a s'
  | .error e => E e

theorem yields_pure {a : α} (h : P a s) : Yields (pure a) s E P := h

theorem yields_fail {p : Pos} {fault : SyntaxFault} (h : E ⟨p, fault⟩) : Yields (fail p fault) s E P := h

theorem yields_get {R : State → State → Prop} (h : R s s) : Yields get s E R := h

theorem yields_set {s' : State} {R : PUnit → State → Prop} (h : R () s') : Yields (set s') s E R := h

theorem yields_modify {g : State → State} {R : PUnit → State → Prop} (h : R () (g s)) : Yields (modify g) s E R := h

theorem Yields.mono {P' : α → State → Prop} (h : Yields x s E P) (hE : ∀ e, E e → E' e)
    (hP : ∀ a s', P a s' → P' a s') : Yields x s E' P' := by
  unfold Yields at *
  split at h
  · exact hP _ _ h
  · exact hE _ h

theorem yields_bind (h : Yields x s E fun a s' => Yields (f a) s' E Q) : Yields (x >>= f) s E Q := by
  unfold Yields at *
  rw [StateT.run_bind]
  cases hx : x.run s with
  | error e => rw [hx] at h; exact h
  | ok r => rw [hx] at h; exact h

/-- One parser after another, where the errors are told from where the first one starts. -/
theorem Yields.bind (h : Yields x s E P) (hf : ∀ a s', P a s' → Yields (f a) s' E Q) : Yields (x >>= f) s E Q :=
  yields_bind (h.mono (fun _ he => he) hf)

theorem Yields.and {P' : α → State → Prop} (h : Yields x s E P) (h' : Yields x s (fun _ => True) P') :
    Yields x s E fun a s' => P a s' ∧ P' a s' := by
  unfold Yields at *
  split at h
  · rename_i hx
    rw [hx] at h'
    exact ⟨h, h'⟩
  · exact h

theorem yields_any : Yields x s (fun _ => True) fun _ _ => True := by
  unfold Yields
  split <;> trivial

end Yields

/-! ### Parsers that move on -/

/-- A state from which a parser may start: at most `n` tokens remain, and a block is open if the parser has to be
`inside` of one. -/
structure Ready (inside : Bool) (n : Nat) (s : State) : Prop where
  ended : s.Ended
  room : s.tokens.length ≤ n
  scopes : inside = true → s.scopes ≠ []

theorem Ready.after {b : Bool} {n k : Nat} {δ : Int} {s s' : State} (h : Ready b n s) (hs : Passed k δ s s') :
    Ready b (n - k) s' where
  ended := hs.ended
  room := by
    have := h.room
    have := hs.length
    omega
  scopes := fun hb => by
    rw [← List.length_pos_iff, hs.scopes, List.length_pos_iff]
    exact h.scopes hb

theorem Ready.self {b : Bool} {n : Nat} {s : State} (h : Ready b n s) : Ready b s.tokens.length s :=
  { h with room := Nat.le_refl _ }

theorem Ready.mono {b : Bool} {n n' : Nat} {s : State} (h : Ready b n s) (hn : n ≤ n') : Ready b n' s :=
  { h with room := Nat.le_trans h.room hn }

variable {α β : Type} {b : Bool} {n n' j k : Nat} {κ : TokenKind} {x : Parser α} {f : α → Parser β}

/-- A parser **moves on**: from a state with at most `n` tokens it passes `k` tokens at least, with as many blocks
opened as closed. -/
def Moves (b : Bool) (n k : Nat) (x : Parser α) : Prop :=
  ∀ s, Ready b n s → Yields x s (Genuine s) fun _ s' => Passed k 0 s s'

/-- A parser moves on from a token of the kind `κ`. -/
def MovesAt (κ : TokenKind) (b : Bool) (n k : Nat) (x : Parser α) : Prop :=
  ∀ s, Ready b n s → s.kind = κ → Yields x s (Genuine s) fun _ s' => Passed k 0 s s'

namespace Moves

theorem movesAt (h : Moves b n k x) : MovesAt κ b n k x := fun s hs _ => h s hs

theorem within (h : Moves b n' k x) (hn : n ≤ n') : Moves b n k x := fun s hs => h s (hs.mono hn)

theorem of_le (h : Moves b n' j x) (hn : n ≤ n') (hk : k ≤ j) : Moves b n k x :=
  fun s hs => (h s (hs.mono hn)).mono (fun _ he => he) fun _ _ hp => hp.of_le hk

/-- A parser after others, which leaves their errors as they are. -/
theorem on {s s' : State} {δ : Int} (h : Moves b n j x) (hs : Ready b n s') (hp : Passed k δ s s') :
    Yields x s' (Genuine s) fun _ s'' => Passed (k + j) δ s s'' :=
  (h s' hs).mono (fun _ he => he.before hp) fun _ _ hp' => Int.add_zero δ ▸ hp.trans hp'

theorem after {s s' : State} {δ : Int} (h : Moves b (n - j) (k - j) x) (hs : Ready b n s) (hp : Passed j δ s s') :
    Yields x s' (Genuine s) fun _ s'' => Passed k δ s s'' :=
  (h.on (hs.after hp) hp).mono (fun _ he => he) fun _ _ hp' => hp'.of_le (by omega)

/-- **One parser after another.** -/
theorem bind (h : Moves b n j x) (hf : ∀ a, Moves b (n - j) (k - j) (f a)) : Moves b n k (x >>= f) :=
  fun s hs => (h s hs).bind fun a _ hp => (hf a).after hs hp

theorem map {g : α → β} (h : Moves b n k x) : Moves b n k (g <$> x) := by
  intro s hs
  rw [map_eq_pure_bind]
  exact (h s hs).bind fun _ _ hp => yields_pure hp

theorem ite {c : Prop} [Decidable c] {y : Parser α} (hx : c → Moves b n k x) (hy : ¬ c → Moves b n k y) :
    Moves b n k (if c then x else y) := by
  split
  · exact hx ‹_›
  · exact hy ‹_›

end Moves

namespace MovesAt

theorem within (h : MovesAt κ b n' k x) (hn : n ≤ n') : MovesAt κ b n k x := fun s hs => h s (hs.mono hn)

theorem of_le (h : MovesAt κ b n' j x) (hn : n ≤ n') (hk : k ≤ j) : MovesAt κ b n k x :=
  fun s hs hκ => (h s (hs.mono hn) hκ).mono (fun _ he => he) fun _ _ hp => hp.of_le hk

theorem bind (h : MovesAt κ b n j x) (hf : ∀ a, Moves b (n - j) (k - j) (f a)) : MovesAt κ b n k (x >>= f) :=
  fun s hs hκ => (h s hs hκ).bind fun a _ hp => (hf a).after hs hp

theorem map {g : α → β} (h : MovesAt κ b n k x) : MovesAt κ b n k (g <$> x) := by
  intro s hs hκ
  rw [map_eq_pure_bind]
  exact (h s hs hκ).bind fun _ _ hp => yields_pure hp

end MovesAt

/-- There is always a current token. -/
theorem moves_of_no_room (hn : n = 0) : Moves b n k x := by
  intro s hs
  have hroom := hs.room
  exact absurd (List.length_eq_zero_iff.1 (by omega)) hs.ended.tokens

theorem moves_pure (a : α) : Moves b n 0 (pure a) := fun _ hs => yields_pure (.refl hs.ended)

theorem moves_fail {p : Pos} {fault : SyntaxFault} (h : fault.isInternal = false) :
    Moves b n k (fail p fault : Parser α) :=
  fun _ _ => yields_fail (.inl h)

/-- Nothing comes after a failure. -/
theorem moves_fail_bind {p : Pos} {fault : SyntaxFault} (h : fault.isInternal = false) :
    Moves b n k ((fail p fault : Parser α) >>= f) :=
  fun _ _ => yields_bind (yields_fail (.inl h))

/-- A failure unless a condition holds. -/
theorem Moves.reject {c : Prop} [Decidable c] {f : Unit → Parser β} {p : Pos} {fault : SyntaxFault}
    (h : fault.isInternal = false) (hf : Moves b n k (f ())) :
    Moves b n k (if c then fail p fault >>= f else f ()) :=
  .ite (fun _ => moves_fail_bind h) fun _ => hf

/-! ### Looking at the current token -/

theorem current_run (s : State) : current.run s = .ok (s.tokens.headD default, s) := by
  unfold current
  rw [StateT.run_bind, StateT.run_get, pure_bind]
  cases s.tokens <;> rfl

theorem yields_current {s : State} {E : SyntaxError → Prop} {Q : Token → State → Prop}
    (h : Q (s.tokens.headD default) s) : Yields current s E Q := by
  unfold Yields
  rw [current_run]
  exact h

theorem yields_kind {s : State} {E : SyntaxError → Prop} {Q : TokenKind → State → Prop} (h : Q s.kind s) :
    Yields kind s E Q :=
  yields_bind (yields_current (yields_pure h))

theorem yields_isAt {s : State} {E : SyntaxError → Prop} {Q : Bool → State → Prop} (h : Q (decide (s.kind = κ)) s) :
    Yields (isAt κ) s E Q :=
  yields_bind (yields_kind (yields_pure h))

theorem moves_current : Moves b n 0 current := fun _ hs => yields_current (.refl hs.ended)

theorem moves_kind : Moves b n 0 kind := fun _ hs => yields_kind (.refl hs.ended)

theorem moves_isAt : Moves b n 0 (isAt κ) := fun _ hs => yields_isAt (.refl hs.ended)

theorem moves_pos : Moves b n 0 pos := moves_current.bind fun _ => moves_pure _

theorem Moves.current {f : Token → Parser β} (h : ∀ t, MovesAt t.kind b n k (f t)) : Moves b n k (current >>= f) :=
  fun s hs => yields_bind (yields_current (h _ s hs rfl))

/-- Looking at the current token leaves it where it is. -/
theorem MovesAt.current {f : Token → Parser β} (h : ∀ t, MovesAt κ b n k (f t)) : MovesAt κ b n k (current >>= f) :=
  fun s hs hκ => yields_bind (yields_current (h _ s hs hκ))

theorem Moves.kind {f : TokenKind → Parser β} (h : ∀ κ, MovesAt κ b n k (f κ)) : Moves b n k (kind >>= f) :=
  fun s hs => yields_bind (yields_kind (h _ s hs rfl))

theorem Moves.isAt {f : Bool → Parser β} (htrue : MovesAt κ b n k (f true)) (hfalse : Moves b n k (f false)) :
    Moves b n k (isAt κ >>= f) := by
  intro s hs
  refine yields_bind (yields_isAt ?_)
  by_cases h : s.kind = κ
  · rw [decide_eq_true h]
    exact htrue s hs h
  · rw [decide_eq_false h]
    exact hfalse s hs

theorem Moves.isAtIf {y : Parser α} (hx : MovesAt κ b n k x) (hy : Moves b n k y) :
    Moves b n k (Parse.isAt κ >>= fun r => if r = true then x else y) := .isAt hx hy

/-- Something else is wrong if the current token is not of a kind. -/
theorem Moves.isAtElse {y : Parser α} (hx : Moves b n k x) (hy : MovesAt κ b n k y) :
    Moves b n k (Parse.isAt κ >>= fun r => if (!r) = true then x else y) := .isAt hy hx

/-- A failure at the current token unless a condition holds. -/
theorem MovesAt.reject {c : Prop} [Decidable c] {f : Unit → Parser β} {fault : SyntaxFault}
    (h : fault.isInternal = false) (hf : MovesAt κ b n k (f ())) :
    MovesAt κ b n k (if c then Parse.pos >>= fun p => fail p fault >>= f else f ()) := by
  split
  · exact (moves_pos.bind fun _ => moves_fail_bind h).movesAt
  · exact hf

/-- A token of a kind has to come next. -/
theorem Moves.require {f : Unit → Parser β} {fault : SyntaxFault} (h : fault.isInternal = false)
    (hf : MovesAt κ b n k (f ())) :
    Moves b n k (Parse.isAt κ >>= fun r => if (!r) = true then Parse.pos >>= fun p => fail p fault >>= f else f ()) :=
  .isAtElse (moves_pos.bind fun _ => moves_fail_bind h) hf

theorem Moves.get {f : State → Parser β} (h : ∀ s, Moves b n k (f s)) : Moves b n k (get >>= f) :=
  fun s hs => yields_bind (yields_get (h s s hs))

theorem yields_remaining {s : State} {E : SyntaxError → Prop} {Q : Nat → State → Prop} (h : Q s.tokens.length s) :
    Yields remaining s E Q :=
  yields_bind (yields_get (yields_pure h))

/-- The number of the remaining tokens bounds what comes next. -/
theorem Moves.remaining {f : Nat → Parser β} (h : ∀ m, Moves b (min n m) k (f m)) : Moves b n k (remaining >>= f) :=
  fun s hs => yields_bind (yields_remaining (h _ s { hs with room := Nat.le_min.2 ⟨hs.room, Nat.le_refl _⟩ }))

/-! ### Passing tokens -/

theorem count_cons (κ : TokenKind) (t : Token) (ts : List Token) :
    Scan.count κ (t :: ts) = Scan.count κ ts + if t.kind = κ then 1 else 0 := by
  simp [Scan.count, List.countP_cons]

/-- How many blocks a token opens. -/
def dent (κ : TokenKind) : Int := (if κ = .indent then 1 else 0) - if κ = .outdent then 1 else 0

/-- A token is passed that is not the last one. -/
theorem passed_tail {s : State} {t u : Token} {ts : List Token} (h : s.Ended) (hs : s.tokens = t :: u :: ts) :
    Passed 1 (dent t.kind) s { s with tokens := u :: ts } where
  ended := ⟨List.cons_ne_nil _ _, fun hf => by
    have hlast := h.last hf
    rwa [hs, List.getLast?_cons_cons] at hlast⟩
  length := by rw [hs]; exact Nat.le_refl _
  opens := by
    rw [hs]
    simp only [opens, count_cons _ t, dent]
    split <;> split <;> omega
  closes := fun _ hm ts hts => hm ts (hs ▸ hts.trans (List.suffix_cons _ _))
  scopes := rfl
  hasFile := rfl
  marked := fun ⟨v, hv, hm⟩ => ⟨v, hs ▸ List.mem_cons_of_mem t hv, hm⟩

/-- At the last token that is not the end of the file, there is an error. -/
theorem yields_endOfTokens {s : State} {t : Token} (h : s.Ended) (hs : s.tokens = [t]) (ht : t.kind ≠ .endOfFile)
    {Q : Unit → State → Prop} : Yields (endOfTokens s) s (Genuine s) Q := by
  unfold endOfTokens
  cases hf : s.fault with
  | some r => exact yields_fail (.inl rfl)
  | none =>
    obtain ⟨u, hu, hkind⟩ := h.last hf
    rw [hs] at hu
    cases hu
    exact absurd hkind ht

theorem kind_of_tokens {s : State} {t : Token} {ts : List Token} (h : s.tokens = t :: ts) : s.kind = t.kind := by
  simp [State.kind, h]

theorem yields_advance_cons {s : State} {t u : Token} {ts : List Token} {E : SyntaxError → Prop}
    {Q : Pos → State → Prop} (hs : s.tokens = t :: u :: ts) (h : Q t.pos { s with tokens := u :: ts }) :
    Yields advance s E Q := by
  unfold advance
  refine yields_bind (yields_get ?_)
  simp only [hs]
  exact yields_bind (yields_set (yields_pure h))

/-- The current token is passed if it is not the end of the file. -/
theorem yields_advance {s : State} (h : s.Ended) (hs : s.kind ≠ .endOfFile) :
    Yields advance s (Genuine s) fun p s' => p = (s.tokens.headD default).pos ∧ Passed 1 (dent s.kind) s s' := by
  match htokens : s.tokens with
  | [] => exact absurd htokens h.tokens
  | [t] =>
    have ht : t.kind ≠ .endOfFile := by rwa [kind_of_tokens htokens] at hs
    unfold advance
    refine yields_bind (yields_get ?_)
    simp only [htokens]
    rw [if_pos ht]
    exact yields_bind (yields_endOfTokens h htokens ht)
  | t :: u :: ts =>
    rw [kind_of_tokens htokens]
    exact yields_advance_cons htokens ⟨rfl, passed_tail h htokens⟩

theorem dent_of_isInner (h : κ.isInner = true) : κ ≠ .endOfFile ∧ dent κ = 0 := by
  simp only [TokenKind.isInner, TokenKind.isDent, Bool.not_eq_true', Bool.or_eq_false_iff,
    decide_eq_false_iff_not] at h
  exact ⟨h.2, by simp [dent, h.1]⟩

theorem movesAt_advance (h : κ.isInner = true) : MovesAt κ b n 1 advance := by
  intro s hs hκ
  obtain ⟨hne, hdent⟩ := dent_of_isInner h
  refine (yields_advance hs.ended (hκ ▸ hne)).mono (fun _ he => he) fun _ _ hp => ?_
  rw [hκ, hdent] at hp
  exact hp.2

theorem MovesAt.advance {f : Pos → Parser β} (h : κ.isInner = true) (hf : ∀ p, Moves b (n - 1) (k - 1) (f p)) :
    MovesAt κ b n k (advance >>= f) :=
  (movesAt_advance h).bind hf

/-- The token after the current one is looked at if there is one. -/
theorem yields_peek {s : State} {Q : TokenKind → State → Prop} (h : s.Ended)
    (hnext : ∀ t u ts, s.tokens = t :: u :: ts → Q u.kind s) (hlast : s.kind = .endOfFile → Q .endOfFile s) :
    Yields peek s (Genuine s) Q := by
  unfold peek
  refine yields_bind (yields_get ?_)
  split
  · exact yields_pure (hnext _ _ _ ‹_›)
  · rename_i t htokens
    split
    · exact yields_bind (yields_endOfTokens h htokens ‹_›)
    · rename_i ht
      exact yields_pure (hlast ((kind_of_tokens htokens).trans (Classical.not_not.1 ht)))
  · exact absurd ‹_› h.tokens

/-- Looking at the token after the current one leaves that one where it is. -/
theorem MovesAt.peek {f : TokenKind → Parser β} (h : ∀ κ', MovesAt κ b n k (f κ')) : MovesAt κ b n k (peek >>= f) :=
  fun s hs hκ => yields_bind (yields_peek hs.ended (fun _ _ _ _ => h _ s hs hκ) fun _ => h _ s hs hκ)

theorem yields_consume {s : State} (h : s.Ended) (hκ : κ ≠ .endOfFile) :
    Yields (consume κ) s (Genuine s) fun _ s' => Passed 1 (dent κ) s s' := by
  refine yields_bind (yields_current ?_)
  dsimp only
  split
  · exact yields_bind (yields_fail (.inl rfl))
  · rename_i hkind
    obtain rfl : s.kind = κ := Classical.not_not.1 hkind
    exact (yields_advance h hκ).mono (fun _ he => he) fun _ _ hp => hp.2

theorem moves_consume (κ : TokenKind) (h : κ.isInner = true) : Moves b n 1 (consume κ) := by
  obtain ⟨hne, hdent⟩ := dent_of_isInner h
  exact fun s hs => hdent ▸ yields_consume hs.ended hne

/-- A token of a kind is passed if it is there. -/
theorem Moves.accept {f : Bool → Parser β} (h : κ.isInner = true) (htrue : Moves b (n - 1) (k - 1) (f true))
    (hfalse : Moves b n k (f false)) : Moves b n k (accept κ >>= f) := by
  unfold Parse.accept
  rw [bind_assoc]
  refine .isAt ?_ ?_
  · simp only [if_true, bind_assoc, pure_bind]
    exact (movesAt_advance h).bind fun _ => htrue
  · simpa using hfalse

theorem Moves.acceptIf {y : Parser α} (h : κ.isInner = true) (hx : Moves b (n - 1) (k - 1) x) (hy : Moves b n k y) :
    Moves b n k (Parse.accept κ >>= fun r => if r = true then x else y) :=
  .accept h hx hy

/-- What may stand after a token of a kind. -/
theorem Moves.optional {x : Parser α} {f : α → Parser β} {a : α} (h : κ.isInner = true) (hx : Moves b (n - 1) 0 x)
    (hf : ∀ a, Moves b n k (f a)) :
    Moves b n k (Parse.accept κ >>= fun r => if r = true then x >>= f else f a) :=
  .acceptIf h (hx.bind fun a => (hf a).of_le (by omega) (by omega)) (hf a)

theorem moves_accept (κ : TokenKind) (h : κ.isInner = true) : Moves b n 0 (accept κ) := by
  have haccept : Moves b n 0 (accept κ >>= pure) := .accept h (moves_pure _) (moves_pure _)
  rwa [bind_pure] at haccept

theorem moves_skipAll (κ : TokenKind) (fuel : Nat) (hfuel : n ≤ fuel) (h : κ.isInner = true) :
    Moves b n 0 (skipAll κ fuel) := by
  induction fuel generalizing n with
  | zero => exact moves_of_no_room (by omega)
  | succ fuel ih => exact .acceptIf h (ih (by omega)) (moves_pure _)

end Parse

end GameScript
