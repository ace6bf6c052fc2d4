import GameScript.Proofs.Running.Programs

/-!
# Paths through a body

The code of a function ends with a return of its own unless the analysis finds that the body returns. What
it finds is right as long as no `continue` leaves a branch of a match (`Func.returned_of_leaves`): such a
jump goes to the next branch, and from the last one to what follows the match, but a branch with it still
counts as one that returns (`Compiler.runs_out_of_code`).

* `Stmt.leaves` — the ways in which a statement may end, whatever the values of conditions are;
* `Stmt.skips` — some branch of a match is left by a `continue`.
-/

namespace GameScript

/-- A way to leave a statement. -/
inductive Exit where
  /-- What follows is next. -/
  | next
  | broke
  | continued
  /-- The next branch of the match around is next. -/
  | skipped
  | returned
deriving DecidableEq

namespace Exit

/-- What leaves the body of a loop and the loop as well. -/
def leavesLoop : Exit → Bool
  | skipped | returned => true
  | _ => false

def ofJump : Jump → Exit
  | .break => broke
  | .continue true => skipped
  | .continue false => continued
  | _ => next

end Exit

mutual

/-- Whether a statement may be left in a way. Conditions may have any value, but a pattern that matches
everything does. -/
def Stmt.leaves (e : Exit) : Stmt → Bool
  | .cond _ _ yes (some no) => yes.leaves e || no.leaves e
  | .cond _ _ yes none => yes.leaves e || e = .next
  | .while _ _ body | .loop _ _ _ _ body => e = .next || (e.leavesLoop && body.leaves e)
  | .match _ _ bs => Branch.leaveFrom e bs
  | .jump _ j => e = .ofJump j
  | .return .. => e = .returned
  | _ => e = .next

def Block.leaves (e : Exit) : Block → Bool
  | ⟨_, ss, _, _, _, _, _⟩ => Stmt.leaveAll e ss

/-- Whether statements one after another may be left in a way. -/
def Stmt.leaveAll (e : Exit) : List Stmt → Bool
  | [] => e = .next
  | s :: ss => (e ≠ .next && s.leaves e) || (s.leaves .next && Stmt.leaveAll e ss)

/-- Whether a match may be left in a way after the branches before these have not been taken. -/
def Branch.leaveFrom (e : Exit) : List Branch → Bool
  | [] => e = .next
  | ⟨ps, body, _⟩ :: bs => (e ≠ .skipped && body.leaves e) ||
    ((!ps.any Pattern.isCatchAll || body.leaves .skipped) && Branch.leaveFrom e bs)

end

mutual

/-- Whether a `continue` in a statement leaves a branch of a match. -/
def Stmt.skips : Stmt → Bool
  | .cond _ _ yes (some no) => yes.skips || no.skips
  | .cond _ _ yes none => yes.skips
  | .while _ _ body | .loop _ _ _ _ body => body.skips
  | .match _ _ bs => Branch.anySkips bs
  | .jump _ j => j = .continue true
  | _ => false

def Block.skips : Block → Bool
  | ⟨_, ss, _, _, _, _, _⟩ => Stmt.anySkips ss

def Stmt.anySkips : List Stmt → Bool
  | [] => false
  | s :: ss => s.skips || Stmt.anySkips ss

def Branch.anySkips : List Branch → Bool
  | [] => false
  | ⟨_, body, _⟩ :: bs => body.skips || Branch.anySkips bs

end

/-! ### No branch is left -/

theorem Exit.ofJump_ne_skipped {j : Jump} (h : j ≠ .continue true) : ofJump j ≠ .skipped := by
  cases j with
  | «continue» inMatch => cases inMatch <;> simp_all [ofJump]
  | _ => simp [ofJump]

mutual

theorem Stmt.leaves_skipped {s : Stmt} (h : s.skips = false) : s.leaves .skipped = false := by
  match s with
  | .cond _ _ yes (some no) =>
    rw [Stmt.skips, Bool.or_eq_false_iff] at h
    rw [Stmt.leaves, Block.leaves_skipped h.1, Block.leaves_skipped h.2]
    rfl
  | .cond _ _ yes none =>
    rw [Stmt.skips] at h
    rw [Stmt.leaves, Block.leaves_skipped h]
    rfl
  | .while _ _ body | .loop _ _ _ _ body =>
    rw [Stmt.skips] at h
    rw [Stmt.leaves, Block.leaves_skipped h]
    rfl
  | .match _ _ bs =>
    rw [Stmt.skips] at h
    rw [Stmt.leaves]
    exact Branch.leaveFrom_skipped h
  | .jump _ j =>
    rw [Stmt.skips, decide_eq_false_iff_not] at h
    rw [Stmt.leaves, decide_eq_false_iff_not]
    exact (Exit.ofJump_ne_skipped h).symm
  | .return .. | .assign .. | .expr _ | .assert .. | .var _ | .const _ => rfl

theorem Block.leaves_skipped {b : Block} (h : b.skips = false) : b.leaves .skipped = false := by
  match b with
  | ⟨_, ss, _, _, _, _, _⟩ => exact Stmt.leaveAll_skipped h

theorem Stmt.leaveAll_skipped {ss : List Stmt} (h : Stmt.anySkips ss = false) :
    Stmt.leaveAll .skipped ss = false := by
  match ss with
  | [] => rfl
  | s :: ss =>
    rw [Stmt.anySkips, Bool.or_eq_false_iff] at h
    rw [Stmt.leaveAll, Stmt.leaves_skipped h.1, Stmt.leaveAll_skipped h.2]
    simp

theorem Branch.leaveFrom_skipped {bs : List Branch} (h : Branch.anySkips bs = false) :
    Branch.leaveFrom .skipped bs = false := by
  match bs with
  | [] => rfl
  | ⟨_, body, _⟩ :: bs =>
    rw [Branch.anySkips, Bool.or_eq_false_iff] at h
    rw [Branch.leaveFrom, Branch.leaveFrom_skipped h.2]
    simp

end

/-! ### Bodies that return -/

mutual

theorem Stmt.leaves_next {s : Stmt} (h : s.returns = true) (hs : s.skips = false) :
    s.leaves .next = false := by
  match s with
  | .return .. => rfl
  | .cond _ _ yes (some no) =>
    rw [Stmt.returns, Bool.and_eq_true] at h
    rw [Stmt.skips, Bool.or_eq_false_iff] at hs
    rw [Stmt.leaves, Block.leaves_next h.1 hs.1, Block.leaves_next h.2 hs.2]
    rfl
  | .match _ _ bs =>
    simp only [Stmt.returns, Bool.and_eq_true] at h
    rw [Stmt.skips] at hs
    rw [Stmt.leaves]
    exact Branch.leaveFrom_next h.1.2 h.2 hs
  | .cond _ _ _ none | .assign .. | .expr _ | .loop .. | .while .. | .jump .. | .assert .. | .var _
  | .const _ => simp [Stmt.returns] at h

theorem Block.leaves_next {b : Block} (h : b.returns = true) (hs : b.skips = false) :
    b.leaves .next = false := by
  match b with
  | ⟨_, ss, _, _, _, _, _⟩ =>
    rw [Block.returns, Bool.and_eq_true] at h
    exact Stmt.leaveAll_next h.2 hs

theorem Stmt.leaveAll_next {ss : List Stmt} (h : Stmt.anyReturns ss = true)
    (hs : Stmt.anySkips ss = false) : Stmt.leaveAll .next ss = false := by
  match ss with
  | s :: ss =>
    rw [Stmt.anyReturns, Bool.or_eq_true] at h
    rw [Stmt.anySkips, Bool.or_eq_false_iff] at hs
    rw [Stmt.leaveAll]
    rcases h with h | h
    · simp [Stmt.leaves_next h hs.1]
    · simp [Stmt.leaveAll_next h hs.2]

/-- Branches that all return, one of which matches everything. -/
theorem Branch.leaveFrom_next {bs : List Branch} (h : Branch.allReturn bs = true)
    (hc : bs.any (·.patterns.any Pattern.isCatchAll) = true) (hs : Branch.anySkips bs = false) :
    Branch.leaveFrom .next bs = false := by
  match bs with
  | ⟨ps, body, _⟩ :: bs =>
    rw [Branch.allReturn, Bool.and_eq_true] at h
    rw [Branch.anySkips, Bool.or_eq_false_iff] at hs
    rw [List.any_cons, Bool.or_eq_true] at hc
    rw [Branch.leaveFrom, Block.leaves_next h.1 hs.1, Block.leaves_skipped hs.1]
    rcases hc with hc | hc
    · -- a branch that matches everything is not passed by
      have hps : ps.any Pattern.isCatchAll = true := hc
      simp [hps]
    · simp [Branch.leaveFrom_next h.2 hc hs.2]

end

namespace Compiler

/-- A file whose function returns after a loop that is left and repeated early, in both branches of a match
and of a choice. -/
def returningProject : Compiler :=
  ofSource "res://returns.gd" ("func f(x, c):\n\twhile c:\n\t\tif x:\n\t\t\tbreak\n\t\tcontinue\n\tmatch x:\n" ++
    "\t\t1:\n\t\t\treturn 1\n\t\tvar y:\n\t\t\tif c:\n\t\t\t\treturn y\n\t\t\telse:\n\t\t\t\treturn x\n")

/-- A file whose function leaves the only branch of a match by a `continue`. -/
def skippingProject : Compiler :=
  ofSource "res://test.gd"
    "func f(x, c):\n\tmatch x:\n\t\t_:\n\t\t\tif c:\n\t\t\t\tcontinue\n\t\t\treturn 1\n"

end Compiler

end GameScript
