import GameScript.Lowering.Value

/-!
# Code of statements

The code of statements and patterns from the code of their parts.
-/

namespace GameScript

namespace Lower

/-! ### Choices and loops -/

/-- Runs `yes` if the condition is true, and else `no` if there is one. -/
def choose (cond : Lower Address) (yes : Lower Unit) (no : Option (Lower Unit)) : Lower Unit := do
  let cond ← cond
  let otherwise ← Gen.newLabel
  Gen.jumpIfNot cond otherwise
  Gen.release cond
  yes
  match no with
  | some no =>
    let done ← Gen.newLabel
    Gen.jump done
    Gen.bind otherwise
    no
    Gen.bind done
  | none => Gen.bind otherwise

/-- Code inside of a loop. -/
def inLoop (l : LoopLabels) (body : Lower Unit) : Lower Unit := do
  update fun s => { s with loops := l :: s.loops }
  body
  update fun s => { s with loops := s.loops.drop 1 }

/-- Runs the body as long as the condition is true. -/
def repeatWhile (cond : Lower Address) (body : Lower Unit) : Lower Unit := do
  let head ← Gen.newLabel
  let done ← Gen.newLabel
  Gen.bind head
  let cond ← cond
  Gen.jumpIfNot cond done
  Gen.release cond
  inLoop ⟨done, head⟩ body
  Gen.jump head
  Gen.bind done

/-- Runs the body for each element of a container. The counter and the container are temporaries that
live as long as the loop. -/
def forEach (id : Ident) (t : StaticType) (x : Lower Address) (body : Lower Unit) : Lower Unit := do
  let counter ← Gen.addTemporary .variant
  let container ← Gen.addTemporary t
  let x ← x
  Gen.emit .assign [container.encode, x.encode]
  Gen.release x
  let v ← addLocal id (← note id.pos).type
  let again ← Gen.newLabel
  let next ← Gen.newLabel
  let done ← Gen.newLabel
  Gen.emit .iterateBegin [counter.encode, container.encode, v.encode, done]
  Gen.bind again
  inLoop ⟨done, next⟩ body
  Gen.bind next
  Gen.emit .iterate [counter.encode, container.encode, v.encode, done]
  Gen.jump again
  Gen.bind done
  Gen.release container
  Gen.release counter

/-- A statement that is a keyword alone. -/
def jump (pos : Pos) (j : Jump) : Lower Unit := do
  let s ← current
  match j with
  | .pass => pure ()
  | .breakpoint => Gen.emit .breakpoint []
  | .continue true =>
    match s.cases with
    | l :: _ => Gen.jump l
    | [] => contradiction (.outsideMatch (← placeText pos))
  | .continue false | .break =>
    match s.loops with
    | l :: _ => Gen.jump (if j = .break then l.exit else l.next)
    | [] => contradiction (.outsideLoop (← placeText pos) j.token.name)

/-! ### Simple statements -/

def returnNil : Lower Unit := Gen.emit .return [Address.nil.encode]

def returnValue (x : Lower Address) : Lower Unit := do
  update fun s => { s with returnsValue := true }
  let x ← x
  Gen.emit .return [x.encode]
  Gen.release x

def assertion (cond message : Lower Address) : Lower Unit := do
  let cond ← cond
  let message ← message
  Gen.emit .assert [cond.encode, message.encode]
  Gen.release message
  Gen.release cond

/-- Stores the first value of a variable, or the default of its type. -/
def initVariable (dst : Address) (n : Note) (first : Option (Lower Address)) : Lower Unit := do
  match first with
  | some x =>
    let src ← x
    assign dst src n.converts
    Gen.release src
  | none => storeDefault dst n.type

/-! ### Patterns

The code of a pattern computes whether a value matches, and binds the variables of the pattern. -/

def boolType : StaticType := .ofBuiltin .bool

/-- Tests whether a value equals a constant and has a type that may be compared with it. -/
def equalPattern (value : Address) (x : Expr) (code : Lower Address) : Lower Address := do
  let dst ← Gen.addTemporary boolType
  Gen.beginAnd
  let c ← code
  let test ← Gen.addTemporary boolType
  let tag := (x.value?.map Value.type).getD .nil
  Gen.emit .matchType [test.encode, value.encode, tag.number]
  Gen.andOperand test
  Gen.emit .operator [test.encode, Operator.equal.number, value.encode, c.encode]
  Gen.andOperand test
  Gen.release test
  Gen.release c
  Gen.endAnd dst
  return dst

/-- Gives a name to a value. -/
def bindPattern (value : Address) (id : Ident) : Lower Address := do
  let v ← addLocal id (← note id.pos).type
  Gen.emit .assign [v.encode, value.encode]
  Gen.boolean true

/-- Tests the length of a value, and goes on only if it fits. -/
def lengthTest (test value : Address) (n : Nat) (atLeast : Bool) : Lower Unit := do
  let size ← Gen.addTemporary (.ofBuiltin .int)
  Gen.emitList .callLanguageUtility [value] [size.encode, ← Gen.name "len"]
  let op := if atLeast then Operator.greaterEqual else .equal
  let length ← Gen.constant (.int (Int64.ofNat n))
  Gen.emit .operator [test.encode, op.number, size.encode, length.encode]
  Gen.release size
  Gen.andOperand test

/-- Tests the type and the length of a container and then its contents. -/
def containerPattern (value : Address) (t : BuiltinType) (n : Nat) (atLeast : Bool)
    (contents : Address → Lower Unit) : Lower Address := do
  let dst ← Gen.addTemporary boolType
  Gen.beginAnd
  let test ← Gen.addTemporary boolType
  Gen.emit .typeTestBuiltin [test.encode, value.encode, t.number]
  Gen.andOperand test
  lengthTest test value n atLeast
  contents test
  Gen.release test
  Gen.endAnd dst
  return dst

/-- Goes on only if the element of a container at a key matches. -/
def elementPattern (container : Address) (key : Gen Address) (pattern : Address → Lower Address) :
    Lower Unit := do
  let value ← Gen.addTemporary .variant
  let key ← key
  Gen.emit .getIndexed [value.encode, container.encode, key.encode]
  let r ← pattern value
  Gen.andOperand r
  Gen.release r
  Gen.release value

/-- Goes on only if a dictionary has a key and, if there is a pattern for it, the value matches. -/
def entryPattern (test container : Address) (key : Lower Address)
    (pattern : Option (Address → Lower Address)) : Lower Unit := do
  let key ← key
  Gen.emit .operator [test.encode, Operator.within.number, key.encode, container.encode]
  Gen.andOperand test
  pattern.forM (elementPattern container (pure key))
  Gen.release key

/-- Whether any of several patterns matches. -/
def anyPattern (patterns : List (Lower Address)) : Lower Address := do
  match patterns with
  | [p] => p
  | ps =>
    let dst ← Gen.addTemporary boolType
    Gen.beginOr
    ps.forM fun p => operand Gen.orOperand p
    Gen.endOr dst
    return dst

/-- A branch of a match: if the condition holds, runs the body and leaves for `done`. -/
def matchBranch (done : Nat) (cond : Lower Address) (body : Lower Unit) : Lower Unit := do
  let next ← Gen.newLabel
  let cond ← cond
  Gen.jumpIfNot cond next
  Gen.release cond
  update fun s => { s with cases := next :: s.cases }
  body
  update fun s => { s with cases := s.cases.drop 1 }
  Gen.jump done
  Gen.bind next

/-- Copies a value and tries the branches on it. -/
def matching (t : StaticType) (x : Lower Address) (branches : Address → Nat → Lower Unit) :
    Lower Unit := do
  let value ← Gen.addTemporary t
  let x ← x
  Gen.emit .assign [value.encode, x.encode]
  Gen.release x
  let done ← Gen.newLabel
  branches value done
  Gen.bind done
  Gen.release value

/-! ### Functions -/

/-- The type that a function returns: the declared one, none if nothing is ever returned. -/
def returnType (t : StaticType) : Lower RuntimeType := do
  if t.isHard && !t.isVariant then return .ofStatic (← types) t
  if (← current).returnsValue then return .variant
  return .ofBuiltin .nil

/-- Ends the code of a function and completes its description. -/
def finish (f : Function) (entries : List Nat) : Lower Function := do
  let s ← current
  let live := s.gen.temps.length
  if live ≠ 0 then contradiction (.liveAtEnd f.name live)
  let code ← Gen.machineCode
  return { f with
    script := some (← read).scriptIndex
    code := code.code
    lines := code.lines
    params := s.params
    locals := s.locals
    entries := entries.map fun l => code.labels.getD l 0
    maxTemps := s.gen.maxTemps
    allocated := s.gen.allocated
    released := s.gen.released }

/-- Lowers a function of its own: the code around goes on afterwards as before. Returns the number of the
function in the program. -/
def separately (name : Text) (property : Option Text) (line : Int) (x : Lower Function) :
    Lower Nat := fun ctx s =>
  match x { ctx with function := name, property } { gen := { pool := s.gen.pool, line } } with
  | (.ok f, inner) =>
    let (i, pool) := inner.gen.pool.add f
    (.ok i, { s with gen := { s.gen with pool } })
  | (.error e, inner) => (.error e, { s with gen := { s.gen with pool := inner.gen.pool } })

end Lower

end GameScript
