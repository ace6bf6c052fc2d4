import GameScript.Lowering.Body
import GameScript.Proofs.Execution.Host

/-!
# What an assignment to a part of a value means

An assignment such as `a.b[i].c = v` reads the values on the way to its target, puts the new value into the
last of them, and stores each of them into the one before it if it is a copy. What the expressions in it
mean is a parameter.

* `Origin` — where the first value comes from, and where it is stored to at the end;
* `Trail` — the values on the way, each with the key it has been read by;
* `Host.assign` — the variables and the world after an assignment.
-/

namespace GameScript

variable {V W : Type}

/-! ### Origins -/

/-- Where the first value on the way to a part is. -/
inductive Origin where
  /-- A parameter, a local, an iterator or a name of a pattern, by the place of its declaration. -/
  | declared (p : Pos)
  /-- A variable of the instance that is used directly, and the function that gets its value afterwards. -/
  | slot (i : Nat) (setter : Option Text)
  /-- A variable of the instance that is read and written by functions. -/
  | property (getter setter : Text)
  /-- A property of the native class. -/
  | native (name : Text)
  | self
deriving DecidableEq

/-- Whether a function is an accessor of a variable. -/
def LowerContext.isAccessorOf (ctx : LowerContext) (m : MemberSlot) : Bool :=
  !ctx.function.isEmpty && (ctx.function = m.getter || ctx.function = m.setter)

/-- The origin of a variable of the instance. There is none for one that a function reads and none writes,
since what the function has given cannot be stored back. -/
def MemberSlot.origin? (m : MemberSlot) (inside : Bool) : Option Origin :=
  if inside then some (.slot m.index.toNat none)
  else match m.getter.isEmpty, m.setter.isEmpty with
    | true, true => some (.slot m.index.toNat none)
    | true, false => some (.slot m.index.toNat (some m.setter))
    | false, false => some (.property m.getter m.setter)
    | false, true => none

def Ident.origin? (ctx : LowerContext) (id : Ident) : Option Origin :=
  match id.source with
  | .parameter | .localVariable | .iterator | .bind =>
    match id.binding with
    | .toLocal r => some (.declared r.anchor)
    | _ => none
  | .memberVariable => (ctx.script.member? id.name).bind fun m => m.origin? (ctx.isAccessorOf m)
  | .inherited => some (.native id.name)
  | _ => none

/-- Whether an expression is the class itself or a constant of the program. -/
def Expr.isDirect (ctx : LowerContext) (x : Expr) : Bool :=
  x.info.type.denotes ctx.cls || (x.value?.isSome && !x.isContainer && !x.info.type.isScriptValue)

/-- The origin of a name that is no constant, or of `self`. -/
def Expr.origin? (ctx : LowerContext) (x : Expr) : Option Origin :=
  if x.isDirect ctx then none
  else match x with
    | .ident id => id.origin? ctx
    | .self .. => some .self
    | _ => none

/-- The variable of the instance that an expression refers to directly. -/
def Expr.slot? (ctx : LowerContext) : Expr → Option Nat
  | .cast x t i => if (Expr.cast x t i).isDirect ctx || !i.type.isVariant then none else x.slot? ctx
  | x =>
    match x.origin? ctx with
    | some (.slot i _) => some i
    | _ => none

/-- The first value of a route. -/
def Expr.root : Expr → Expr
  | .dot x _ _ => x.root
  | .index x _ _ _ => x.root
  | x => x

/-- The keys that are computed on a route. -/
def Expr.keys : Expr → List Expr
  | .dot x _ _ => x.keys
  | .index x y _ _ => x.keys ++ [y]
  | _ => []

/-! ### Parts -/

/-- The values of the variables of a call, by the places of their names. -/
abbrev Vars (V : Type) := Pos → Option V

def Vars.set (ρ : Vars V) (p : Pos) (v : V) : Vars V := fun q => if q = p then some v else ρ q

/-- What expressions mean: a value and the world afterwards. -/
abbrev Meaning (V W : Type) := Expr → Vars V → W → Option (V × W)

/-- What a part of a value is read and stored by. -/
inductive Key (V : Type) where
  | named (n : Text)
  | keyed (k : V)
  /-- A variable of the instance, which is read whenever it is used. -/
  | slot (i : Nat)

/-- A value on the way to a target, which has been read from the one before it. -/
structure Held (V : Type) where
  key : Key V
  value : V
  type : StaticType

/-- The first value of a route while an assignment is made. -/
inductive Base (V : Type) where
  /-- The variable that is declared at a place. -/
  | declared (p : Pos)
  /-- A variable of the instance. -/
  | slot (i : Nat)
  /-- A value that has been read into a temporary. -/
  | held (v : V)
  /-- The instance itself. -/
  | fixed (v : V)

/-- The variables, the world and the first value of a route. -/
structure Stage (V W : Type) where
  vars : Vars V
  world : W
  base : Base V

/-- The values on the way to a target, the last one first. -/
structure Trail (V W : Type) extends Stage V W where
  parts : List (Held V) := []

namespace Host

variable (H : Host V W)

/-- A key as an operand. -/
def operand? (k : Key V) (w : W) : Option (Operand V) :=
  match k with
  | .named n => some (.name n)
  | .keyed k => some (.value k)
  | .slot i => (H.slot w i).map .value

def getPart (u : V) (k : Key V) (w : W) : Option (V × W) := do
  let o ← H.operand? k w
  match k with
  | .named _ => H.act .getNamed [.value u, o] w
  | _ => H.act .getIndexed [.value u, o] w

/-- Gives the value `u` a new part; the result is `u` with that part. -/
def setPart (u : V) (k : Key V) (v : V) (w : W) : Option (V × W) := do
  let o ← H.operand? k w
  match k with
  | .named _ => H.act .setNamed [.value u, o, .value v] w
  | _ => H.act .setIndexed [.value u, o, .value v] w

/-- Whether a value of a type is shared by reference. The type must not be wrong about that. -/
def shared? (t : StaticType) (v : V) : Option Bool :=
  match t.sharing? with
  | none => some (H.isShared v)
  | some b => if H.isShared v = b then some b else none

end Host

namespace Stage

variable (H : Host V W) (c : Stage V W)

/-- The first value. -/
def read : Option V :=
  match c.base with
  | .declared p => c.vars p
  | .slot i => H.slot c.world i
  | .held v | .fixed v => some v

def write (v : V) : Option (Stage V W) :=
  match c.base with
  | .declared p => some { c with vars := c.vars.set p v }
  | .slot i => (H.setSlot c.world i v).map fun w => { c with world := w }
  | .held _ => some { c with base := .held v }
  | .fixed _ => some c

/-- Gives the first value a new part. -/
def setPart (k : Key V) (v : V) : Option (Stage V W) := do
  let u ← c.read H
  let (u, w) ← H.setPart u k v c.world
  { c with world := w }.write H u

end Stage

namespace Origin

variable (H : Host V W)

/-- Reads the first value of a route. -/
def enter (ρ : Vars V) (w : W) : Origin → Option (Stage V W)
  | .declared p => some ⟨ρ, w, .declared p⟩
  | .slot i _ => some ⟨ρ, w, .slot i⟩
  | .property g _ => (H.act .callSelf [.name g, .number 0] w).map fun (v, w) => ⟨ρ, w, .held v⟩
  | .native n => (H.act .getMember [.name n] w).map fun (v, w) => ⟨ρ, w, .held v⟩
  | .self => some ⟨ρ, w, .fixed H.self⟩

/-- Stores the first value back to where it comes from, unless its type is shared by reference. -/
def leave (t : StaticType) (c : Stage V W) (o : Origin) : Option W :=
  if t.sharing? = some true then some c.world
  else match o with
    | .slot _ (some s) | .property _ s => do
      let v ← c.read H
      let (_, w) ← H.act .callSelf [.name s, .number 1, .value v] c.world
      return w
    | .native n => do
      let v ← c.read H
      let (_, w) ← H.act .setMember [.name n, .value v] c.world
      return w
    | _ => some c.world

end Origin

namespace Trail

variable (H : Host V W) (c : Trail V W)

/-- The last value. -/
def last : Option V :=
  match c.parts with
  | [] => c.read H
  | p :: _ => some p.value

/-- Reads one more value. -/
def load (k : Key V) (t : StaticType) : Option (Trail V W) := do
  let u ← c.last H
  let (v, w) ← H.getPart u k c.world
  return { c with world := w, parts := ⟨k, v, t⟩ :: c.parts }

end Trail

/-- Stores a value into the one it comes from, and so on, except for those that are shared. -/
def Stage.storeBack (H : Host V W) (p : Held V) : List (Held V) → Stage V W → Option (Stage V W)
  | [], c => do
    if ← H.shared? p.type p.value then return c
    c.setPart H p.key p.value
  | q :: qs, c => do
    if ← H.shared? p.type p.value then Stage.storeBack H q qs c
    else
      let (u, w) ← H.setPart q.value p.key p.value c.world
      Stage.storeBack H { q with value := u } qs { c with world := w }

/-- Gives the last value of a trail a new part and stores the values on the way back. -/
def Trail.store (H : Host V W) (c : Trail V W) (k : Key V) (v : V) : Option (Stage V W) :=
  match c.parts with
  | [] => c.toStage.setPart H k v
  | p :: ps => do
    let (u, w) ← H.setPart p.value k v c.world
    Stage.storeBack H { p with value := u } ps { c.toStage with world := w }

/-! ### Assignments -/

/-- Computes a key. -/
def Meaning.key (eval : Meaning V W) (ctx : LowerContext) (ρ : Vars V) (y : Expr) (w : W) : Option (Key V × W) :=
  match y.slot? ctx with
  | some i => some (.slot i, w)
  | none => (eval y ρ w).map fun (k, w) => (.keyed k, w)

namespace Host

variable (H : Host V W) (eval : Meaning V W) (ctx : LowerContext) (ρ : Vars V)

/-- Reads the values on the way to an expression. -/
def follow : Expr → W → Option (Trail V W)
  | .dot x id i, w => do
    let c ← follow x w
    c.load H (.named id.name) i.type
  | .index x y _ i, w => do
    let c ← follow x w
    let (k, w) ← eval.key ctx ρ y c.world
    { c with world := w }.load H k i.type
  | x, w => do
    let o ← x.origin? ctx
    let c ← o.enter H ρ w
    return { c with }

/-- Reads the values on the way to a target, and its key. -/
def target (x : Expr) (w : W) : Option (Trail V W × Key V) :=
  match x with
  | .dot x id _ => do
    let c ← H.follow eval ctx ρ x w
    return (c, .named id.name)
  | .index x y _ _ => do
    let c ← H.follow eval ctx ρ x w
    let (k, w) ← eval.key ctx ρ y c.world
    return ({ c with world := w }, k)
  | _ => none

/-- Computes the value that is assigned to the part `k` of the last value of a trail. -/
def newValue (op : Option Operator) (rhs : Expr) (c : Trail V W) (k : Key V) : Option (V × W) :=
  match op with
  | none => eval rhs ρ c.world
  | some op => do
    let u ← c.last H
    let (x, w) ← H.getPart u k c.world
    let (y, w) ← eval rhs ρ w
    H.act .operator [.number op.number, .value x, .value y] w

/-- The variables and the world after an assignment to a part of a value. -/
def assign (x : Expr) (op : Option Operator) (rhs : Expr) (w : W) : Option (Vars V × W) := do
  let (c, k) ← H.target eval ctx ρ x w
  let (v, w) ← H.newValue eval ρ op rhs c k
  let c ← { c with world := w }.store H k v
  let o ← x.root.origin? ctx
  let w ← o.leave H x.root.info.type c
  return (c.vars, w)

end Host

end GameScript
