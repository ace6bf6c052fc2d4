import GameScript.Lowering.Body
import GameScript.Proofs.Running.Machine
import Mathlib.Algebra.Group.Nat.Defs

/-!
# What a function means

The value of an expression and the effect of a statement, read off the tree without any code. Variables
are kept by the place of their name.

* `Expr.eval`, `Stmt.eval`, `Func.eval` — evaluation; only loops can go on forever, and `fuel` bounds how
  often the body of each is repeated;
* `Func.Plain` — the functions for which evaluation is meant: variables without types, constants,
  operators, choices, loops with a condition, matches on literals, wildcards and new names, assignments
  to variables, and returns.
-/

namespace GameScript

/-! ### Expressions -/

/-- The values of the variables of a function, by the place of their name. -/
def Env := Pos → Value

namespace Env

/-- All variables are null. -/
def empty : Env := fun _ => .nil

def set (ρ : Env) (p : Pos) (v : Value) : Env := fun q => if q = p then v else ρ q

end Env

/-- The value of an expression. The name of a constant, and an expression that is none of constants,
variables, operators and choices, has the value that the analysis has found for it. -/
def Expr.eval (ρ : Env) : Expr → Except ValueError Value
  | .literal l => .ok l.value
  | .ident id =>
    match id.info.value, id.binding with
    | some v, _ => .ok v
    | none, .toLocal r => .ok (ρ r.anchor)
    | none, _ => .ok .nil
  | .unary _ op x _ => do Value.unary op.operator (← x.eval ρ)
  | .binary x op y _ => do
    let a ← x.eval ρ
    if op.isLogical then
      if a.truth = op.isAnd then return .bool (← y.eval ρ).truth else return .bool a.truth
    else
      let b ← y.eval ρ
      let r ← Value.binary op.operator a b
      if op = .notWithin then Value.unary .not r else return r
  | .cond yes c no _ => do if (← c.eval ρ).truth then yes.eval ρ else no.eval ρ
  | x => .ok (x.value?.getD .nil)

/-! ### Patterns -/

/-- Whether a value equals a constant and has a type that may be compared with it. -/
def Value.matches (v w : Value) : Except ValueError Bool :=
  if v.type.mayEqual w.type then do return (← Value.binary .equal v w).truth else .ok false

/-- Whether a value matches a pattern, and the variables after the test. -/
def Pattern.test (v : Value) (ρ : Env) : Pattern → Except ValueError (Bool × Env)
  | .literal l => do return (← v.matches l.value, ρ)
  | .expr x => do return (← v.matches (← x.eval ρ), ρ)
  | .bind _ id => .ok (true, ρ.set id.pos v)
  | .wildcard _ => .ok (true, ρ)
  | _ => .ok (false, ρ)

/-- Whether a value matches one of some patterns; those after the first that matches are not tested. -/
def Pattern.testAny (v : Value) (ρ : Env) : List Pattern → Except ValueError (Bool × Env)
  | [] => .ok (false, ρ)
  | p :: ps => do
    let (found, ρ) ← p.test v ρ
    if found then return (true, ρ) else testAny v ρ ps

/-! ### Statements -/

/-- How a statement ends. -/
inductive Ending where
  /-- What follows is next. -/
  | next (ρ : Env)
  | broke (ρ : Env)
  | continued (ρ : Env)
  | returned (v : Value)
  | failed (e : ValueError)
  /-- Some loop is repeated too often. -/
  | exhausted

namespace Ending

/-- What follows a value. -/
def ofValue (r : Except ValueError Value) (k : Value → Ending) : Ending :=
  match r with
  | .ok v => k v
  | .error e => .failed e

/-- One statement after another. -/
def andThen (o : Ending) (k : Env → Ending) : Ending :=
  match o with
  | .next ρ => k ρ
  | o => o

/-- Runs a body as long as a condition holds, fewer than `n` times. -/
def repeated (cond : Env → Except ValueError Value) (body : Env → Ending) : Nat → Env → Ending
  | 0, _ => .exhausted
  | n + 1, ρ => ofValue (cond ρ) fun v =>
    if v.truth then
      match body ρ with
      | .next ρ | .continued ρ => repeated cond body n ρ
      | .broke ρ => .next ρ
      | o => o
    else .next ρ

end Ending

/-- The value that an assignment stores. -/
def assigned (op : Option BinaryOp) (present : Value) (r : Except ValueError Value) :
    Except ValueError Value :=
  match op with
  | none => r
  | some op => do Value.binary op.operator present (← r)

mutual

def Stmt.eval (fuel : Nat) (ρ : Env) : Stmt → Ending
  | .expr x => .ofValue (x.eval ρ) fun _ => .next ρ
  | .var ⟨_, id, _, _, some x, _, _, _, _, _, _, _, _⟩ =>
    .ofValue (x.eval ρ) fun v => .next (ρ.set id.pos v)
  | .var ⟨_, id, _, _, none, _, _, _, _, _, _, _, _⟩ => .next (ρ.set id.pos .nil)
  | .assign op (.ident id) rhs _ _ =>
    match id.binding with
    | .toLocal r =>
      .ofValue (assigned op (ρ r.anchor) (rhs.eval ρ)) fun v => .next (ρ.set r.anchor v)
    | _ => .next ρ
  | .cond _ c yes no => .ofValue (c.eval ρ) fun v =>
    if v.truth then yes.eval fuel ρ
    else match no with
      | some no => no.eval fuel ρ
      | none => .next ρ
  | .while _ c body => .repeated (fun ρ => c.eval ρ) (fun ρ => body.eval fuel ρ) fuel ρ
  | .match _ x bs => .ofValue (x.eval ρ) fun v => Branch.evalFirst fuel v ρ bs
  | .jump _ .break => .broke ρ
  | .jump _ (.continue _) => .continued ρ
  | .return _ none _ => .returned .nil
  | .return _ (some x) _ => .ofValue (x.eval ρ) .returned
  | _ => .next ρ

def Block.eval (fuel : Nat) (ρ : Env) : Block → Ending
  | ⟨_, ss, _, _, _, _, _⟩ => Stmt.evalAll fuel ρ ss

def Stmt.evalAll (fuel : Nat) (ρ : Env) : List Stmt → Ending
  | [] => .next ρ
  | s :: ss => (s.eval fuel ρ).andThen fun ρ => Stmt.evalAll fuel ρ ss

/-- Runs the first branch that a value matches. -/
def Branch.evalFirst (fuel : Nat) (v : Value) (ρ : Env) : List Branch → Ending
  | [] => .next ρ
  | ⟨ps, body, _⟩ :: bs =>
    match Pattern.testAny v ρ ps with
    | .ok (true, ρ) => body.eval fuel ρ
    | .ok (false, ρ) => Branch.evalFirst fuel v ρ bs
    | .error e => .failed e

end

/-! ### Functions -/

/-- Gives the parameters their arguments, and those without one their default. -/
def Param.bindAll : List Param → List Value → Env → Except ValueError Env
  | [], _, ρ => .ok ρ
  | p :: ps, v :: vs, ρ => bindAll ps vs (ρ.set p.name.pos v)
  | ⟨id, _, _, some x⟩ :: ps, [], ρ => do bindAll ps [] (ρ.set id.pos (← x.eval ρ))
  | ⟨_, _, _, none⟩ :: ps, [], ρ => bindAll ps [] ρ

/-- The result of a body: null if nothing is returned, none if some loop is repeated too often. -/
def Ending.result : Ending → Option (Except ValueError Value)
  | .returned v => some (.ok v)
  | .failed e => some (.error e)
  | .exhausted => none
  | _ => some (.ok .nil)

/-- The result of a call, if no loop is repeated more than `fuel` times. -/
def Func.eval (f : Func) (args : List Value) (fuel : Nat) : Option (Except ValueError Value) :=
  match Param.bindAll f.params args .empty with
  | .error e => some (.error e)
  | .ok ρ => (f.body.eval fuel ρ).result

/-! ### Plain expressions -/

/-- A name of a variable of the function. -/
def NameSource.isVariable : NameSource → Bool
  | parameter | localVariable | iterator | bind => true
  | _ => false

/-- The facts about an expression that denotes a value: if it is constant, its value comes from the
values of its parts. -/
structure Info.Plain (i : Info) (folded : Value → Prop) : Prop where
  isValue : i.type.isMeta = false
  folds : ∀ v, i.value = some v → folded v

/-- Expressions of constants, variables, operators and choices. Arrays and dictionaries that are written
out are no constants, since each time a new one is made. -/
def Expr.Plain : Expr → Prop
  | .literal l => l.info.Plain (· = l.value) ∧ l.info.value.isSome
  | .ident id => id.info.Plain (fun _ => True) ∧
    (id.info.value = none → id.source.isVariable ∧ ∃ r, id.binding = .toLocal r)
  | .unary _ op x i => x.Plain ∧ i.Plain fun v =>
    ∃ a, x.value? = some a ∧ Value.unary op.operator a = .ok v
  | .binary x op y i => x.Plain ∧ y.Plain ∧ i.Plain fun v =>
    ∃ a b r, x.value? = some a ∧ y.value? = some b ∧ Value.binary op.operator a b = .ok r ∧
      v = if op = .notWithin then .bool (!r.truth) else r
  | .cond yes c no i => yes.Plain ∧ c.Plain ∧ no.Plain ∧ i.Plain fun v =>
    ∃ a b c', c.value? = some c' ∧ yes.value? = some a ∧ no.value? = some b ∧
      v = if c'.truth then a else b
  | x => x.info.Plain (fun _ => True) ∧ x.value?.isSome ∧ x.isContainer = false

/-- A call, whose value may be left out. -/
def Expr.isCall : Expr → Bool
  | .call .. | .superCall .. => true
  | _ => false

/-- The constants in the code of a plain expression. -/
def Expr.constants : Expr → List Value
  | .unary _ _ x i =>
    match i.value with
    | some v => [v]
    | none => x.constants
  | .binary x _ y i =>
    match i.value with
    | some v => [v]
    | none => x.constants ++ y.constants
  | .cond yes c no i =>
    match i.value with
    | some v => [v]
    | none => yes.constants ++ c.constants ++ no.constants
  | x => x.value?.toList

/-! ### Plain statements -/

/-- What the analysis knows about the declarations of a file, by the places of their names. -/
def Session.noteAt (s : Session) (unit : Nat) (p : Pos) : Note := s.note ⟨unit, p⟩

/-- A type to which values are not converted. -/
def StaticType.Untyped (t : StaticType) : Prop := t.isHard = false ∨ t.isVariant = true

def Pattern.Plain : Pattern → Prop
  | .literal l => (Expr.literal l).Plain
  | .expr x => x.Plain ∧ x.value?.isSome
  | .bind .. | .wildcard _ => True
  | _ => False

/-- The places of the names that patterns declare. -/
def Pattern.declared : Pattern → List Pos
  | .bind _ id => [id.pos]
  | _ => []

mutual

/-- The places of the names that a statement declares. -/
def Stmt.declared : Stmt → List Pos
  | .var ⟨_, id, _, _, _, _, _, _, _, _, _, _, _⟩ => [id.pos]
  | .cond _ _ yes no => yes.declared ++
    match no with
    | some no => no.declared
    | none => []
  | .while _ _ body => body.declared
  | .match _ _ bs => Branch.allDeclared bs
  | _ => []

def Block.declared : Block → List Pos
  | ⟨_, ss, _, _, _, _, _⟩ => Stmt.allDeclared ss

def Stmt.allDeclared : List Stmt → List Pos
  | [] => []
  | s :: ss => s.declared ++ Stmt.allDeclared ss

def Branch.allDeclared : List Branch → List Pos
  | [] => []
  | ⟨ps, body, _⟩ :: bs => (ps.flatMap Pattern.declared ++ body.declared) ++ Branch.allDeclared bs

end

mutual

/-- Statements of plain expressions: choices, loops with a condition, matches on values, assignments to
variables without types, and jumps other than to the next branch of a match. -/
def Stmt.Plain (notes : Pos → Note) : Stmt → Prop
  | .expr x => x.isCall = false ∧ x.Plain
  | .var ⟨_, id, _, _, some x, _, _, _, _, _, _, _, _⟩ =>
    (notes id.pos).type.Untyped ∧ x.Plain
  | .var ⟨_, id, _, _, none, _, _, _, _, _, _, _, _⟩ => (notes id.pos).type.Untyped
  | .const _ => True
  | .assign op (.ident id) rhs facts _ =>
    id.source.isVariable ∧ (∃ r, id.binding = .toLocal r) ∧ id.info.type.Untyped ∧ rhs.Plain ∧
      facts = op.map BinaryOp.operator
  | .cond _ c yes no => c.Plain ∧ yes.Plain notes ∧
    match no with
    | some no => no.Plain notes
    | none => True
  | .while _ c body => c.Plain ∧ body.Plain notes
  | .match _ x bs => x.Plain ∧ Branch.AllPlain notes bs
  | .jump _ j => j = .pass ∨ j = .break ∨ j = .continue false
  | .return _ none _ => True
  | .return _ (some x) void => (void && x.isCall) = false ∧ x.Plain
  | _ => False

def Block.Plain (notes : Pos → Note) : Block → Prop
  | ⟨_, ss, _, _, _, _, _⟩ => Stmt.AllPlain notes ss

/-- All statements are plain, and their lines are numbers of 32 bits. -/
def Stmt.AllPlain (notes : Pos → Note) : List Stmt → Prop
  | [] => True
  | s :: ss => s.start.line < 2 ^ 32 ∧ s.Plain notes ∧ Stmt.AllPlain notes ss

def Branch.AllPlain (notes : Pos → Note) : List Branch → Prop
  | [] => True
  | ⟨ps, body, _⟩ :: bs => (∀ p ∈ ps, p.Plain) ∧ body.Plain notes ∧ Branch.AllPlain notes bs

end

/-! ### Constants of statements -/

def Pattern.constants : Pattern → List Value
  | .literal l => (Expr.literal l).constants
  | .expr x => x.constants
  | _ => []

mutual

/-- The constants in the code of a plain statement. -/
def Stmt.constants : Stmt → List Value
  | .expr x | .var ⟨_, _, _, _, some x, _, _, _, _, _, _, _, _⟩ | .assign _ _ x _ _ |
    .return _ (some x) _ => x.constants
  | .cond _ c yes no => c.constants ++ yes.constants ++
    match no with
    | some no => no.constants
    | none => []
  | .while _ c body => c.constants ++ body.constants
  | .match _ x bs => x.constants ++ Branch.allConstants bs
  | _ => []

def Block.constants : Block → List Value
  | ⟨_, ss, _, _, _, _, _⟩ => Stmt.allConstants ss

def Stmt.allConstants : List Stmt → List Value
  | [] => []
  | s :: ss => s.constants ++ Stmt.allConstants ss

def Branch.allConstants : List Branch → List Value
  | [] => []
  | ⟨ps, body, _⟩ :: bs => ps.flatMap Pattern.constants ++ body.constants ++ Branch.allConstants bs

end

/-! ### Plain functions -/

/-- Parameters without a default come first. -/
def Param.OptionalLast : List Param → Prop
  | [] => True
  | p :: ps => (p.default.isSome → ∀ q ∈ ps, q.default.isSome) ∧ OptionalLast ps

/-- A default whose parameter has no type. -/
def Param.Plain (notes : Pos → Note) (p : Param) : Prop :=
  ∀ x, p.default = some x → x.start.line < 2 ^ 32 ∧ x.Plain ∧ (notes p.name.pos).type.Untyped

/-- A function of plain statements whose names are declared at different places. -/
structure Func.Plain (notes : Pos → Note) (f : Func) : Prop where
  optionalLast : Param.OptionalLast f.params
  params : ∀ p ∈ f.params, p.Plain notes
  body : f.body.Plain notes
  declared : (f.params.map (·.name.pos) ++ f.body.declared).Nodup

/-- The constants in the code of a plain function. -/
def Func.constants (f : Func) : List Value :=
  f.params.flatMap (fun p => (p.default.map Expr.constants).getD []) ++ f.body.constants

end GameScript
