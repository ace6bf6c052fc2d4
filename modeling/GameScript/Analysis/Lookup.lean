import GameScript.Analysis.TypeName

/-!
# Members of objects

Looks up members of an object type: first in its classes in source, then in its native class. What is
found has a type, and a value if it is constant.
-/

namespace GameScript

/-- What a name denotes in an object. -/
structure Found where
  kind : MemberKind
  type : StaticType
  value : Option Value := none
  isStatic : Bool := false
  /-- The member and its class, if it is declared in source. -/
  member : Option (Member × DeclId) := none
  isNative : Bool := false

/-- The kind of declaration that a name which denotes a member has. -/
def Found.nameSource (f : Found) : NameSource :=
  match f.kind with
  | .var => if f.isNative then .inherited else .memberVariable
  | .signal => .memberSignal
  | .func => .memberFunction
  | .cls => .memberClass
  | _ => .memberConstant

/-- The outcome of a search. -/
inductive Search where
  | found (f : Found)
  /-- There is no such member. -/
  | absent
  /-- The members of the type are not all known. -/
  | unknown

namespace Analysis

/-- The most distant ancestor of a native class for which a property holds, following parents as long
as it does. -/
def declaringFrom (db : Catalog) (has : Text → Bool) : Nat → Text → Text
  | 0, cls => cls
  | fuel + 1, cls =>
    let p := db.parent cls
    if !p.isEmpty && has p then declaringFrom db has fuel p else cls

/-- The native class that declares what its descendants also have. -/
def declaringClass (db : Catalog) (cls : Text) (has : Text → Bool) : Text :=
  declaringFrom db has db.classes.length cls

/-- The type of an integer constant of a native class: that of its enumeration, if it is in one. -/
def constantType (db : Catalog) (cls name : Text) : StaticType :=
  match db.enumOf? cls name with
  | some enum =>
    let owner := declaringClass db cls fun c => (db.enum? c enum).isSome
    (db.enumType? (owner ++ "." ++ enum)).getD (.ofBuiltin .int)
  | none => .ofBuiltin .int

/-- A member of a native class. -/
def nativeMember? (db : Catalog) (cls name : Text) : Option Found :=
  match db.property? cls name with
  | some p => some { kind := .var, type := db.typeOf p.type, isNative := true }
  | none =>
  match db.method? cls name with
  | some m =>
    some { kind := .func, type := .ofBuiltin .callable, isStatic := m.isStatic, isNative := true }
  | none =>
  if (db.signal? cls name).isSome then
    some { kind := .signal, type := .ofBuiltin .signal, isNative := true }
  else
  match db.enum? cls name with
  | some es =>
    let owner := declaringClass db cls fun c => (db.enum? c name).isSome
    let t := (StaticType.ofEnum name owner es).named
    some { kind := .enum, type := t, value := some t.enumDictionary, isNative := true }
  | none =>
  (db.constant? cls name).map fun v =>
    { kind := .const, type := { constantType db cls name with isConst := true },
      value := some (.int v), isNative := true }

def nativeMember (cls name : Text) : Analysis Search := do
  match nativeMember? (← catalog) cls name with
  | some f => return .found f
  | none => return .absent

/-- What a member of a class in source denotes, after it has been resolved. -/
def memberFacts (cls : DeclId) (m : Member) : Analysis Found := do
  let id : DeclId := ⟨cls.unit, m.anchor⟩
  let n ← note id
  let found (type : StaticType) (value : Option Value) : Found :=
    { kind := m.kind, type := if type.isSet then type else .variant, value,
      member := some (m, cls) }
  match m with
  | .var _ => return found n.type none
  | .const _ | .enum _ => return found n.type n.value
  | .signal _ => return found (.ofBuiltin .signal) none
  | .enumValue owner _ =>
    let t ← if owner.name.isSome then
        pure (← note ⟨cls.unit, owner.anchor⟩).type.asInstance
      else pure (.ofBuiltin .int)
    return found { t with isConst := true } (if n.isResolved then some (.int n.number) else none)
  | .func f => return { found (.ofBuiltin .callable) none with isStatic := f.isStatic }
  | .cls _ => return found (← classType id).named (some (← classValue id))
  | .group _ => return found {} none

/-- A member of a class or of a class in source that it derives from. -/
def classMember (sub : Steps) (cls : DeclId) (name : Text) : Analysis (Option Found) := do
  match ← findMember cls name with
  | none => return none
  | some (m, o) =>
    sub.member o m
    return some (← memberFacts o m)

/-- A member of a compiled script, whose own members are not known; only its native ancestor counts. -/
def scriptMember (name : Text) : Nat → StaticType → Analysis Search
  | 0, _ => return .unknown
  | fuel + 1, t => do
    match t.shape with
    | .script id =>
      match ← scriptMember name fuel ((← types).scripts id).base with
      | .found f => return .found f
      | _ => return .unknown
    | .native cls => nativeMember cls name
    | .builtin .object => nativeMember "Object" name
    | _ => return .absent

/-- A member of an object type. -/
def objectMember (sub : Steps) (t : StaticType) (name : Text) : Analysis Search := do
  match t.shape with
  | .cls c _ =>
    match ← classMember sub c name with
    | some f => return .found f
    | none =>
      let last := ((← lineage c).getLast?).getD c
      let base ← baseOf last
      match base.shape with
      | .native _ | .script _ => scriptMember name ((← types).depth + 1) base
      | _ =>
        let native ← nativeOf (← classType last)
        if native.isEmpty then return .unknown else nativeMember native name
  | _ => scriptMember name ((← types).depth + 1) t

/-- Counts a use of a member. -/
def useFound (f : Found) : Analysis Unit := do
  match f.member with
  | none => pure ()
  | some (m, cls) =>
    match m with
    | .var _ | .const _ | .signal _ | .enum _ | .func _ => use ⟨cls.unit, m.anchor⟩
    | .enumValue owner _ => use ⟨cls.unit, owner.anchor⟩
    | .cls _ | .group _ => pure ()

/-- A name that refers to a member. -/
def useMember (id : Ident) (f : Found) : Analysis Ident := do
  useFound f
  let binding := match f.member with
    | some (m, cls) => .toMember m.kind ⟨cls.unit, m.anchor⟩
    | none => id.binding
  let value := match f.value with
    | some v => some v
    | none => id.info.value
  return { id with
    source := f.nameSource
    binding
    info := { reduced := true, type := f.type, value } }

/-- Notes that the lambdas around refer to the instance. -/
def useSelf : Analysis Unit := do
  for l in (← focus).lambdas do
    modifyNote l fun n => { n with usesSelf := true }

end Analysis

end GameScript
