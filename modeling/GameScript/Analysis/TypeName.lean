import GameScript.Analysis.Inheritance

/-!
# Types as they are written

Finds the type that a type annotation denotes: a builtin type, or a class or enumeration that is in
scope or known everywhere, possibly followed by names of what is inside of it.
-/

namespace GameScript.Analysis

/-- The type that a member of a class denotes: an inner class, an enumeration, or a constant that holds
a class. -/
def memberType (sub : Steps) (cls : DeclId) (m : Member) : Analysis (Option StaticType) := do
  let id : DeclId := ⟨cls.unit, m.anchor⟩
  match m with
  | .cls _ =>
    let _ ← onBehalfOf (← owner id) (sub.inheritance id false)
    return some (← classType id)
  | .enum _ =>
    sub.member cls m
    return some (← note id).type.asInstance
  | .const _ =>
    sub.member cls m
    let t := (← note id).type
    return if t.isMeta && t.isObject then some t.asInstance else none
  | _ => return none

/-- The type of a class or enumeration that is a member of one of the given classes. The result is
`none` if no member has the name; an error is reported if the member is no type. -/
def memberTypeNamed (sub : Steps) (id : Ident) : List DeclId → Analysis (Option (Option StaticType))
  | [] => return none
  | c :: cs => do
    match ← findMember c id.name with
    | some (m, o) =>
      match ← memberType sub o m with
      | some t => return some (some t)
      | none =>
        complain id.span (.memberWithoutType id.name m.kind.name)
        return some none
    | none => memberTypeNamed sub id cs

/-- The enumeration of the native ancestor of the class around. -/
def inheritedEnum (name : Text) : Analysis (Option StaticType) := do
  let native ← nativeOf (← classFacts (← currentClass)).type
  if native.isEmpty then return none
  return ((← catalog).enum? native name).map (.ofEnum name native)

/-- The type that a name other than that of a builtin type denotes. -/
def typeInScope (sub : Steps) (id : Ident) : Analysis (Option StaticType) := do
  let name := id.name
  match ← memberTypeNamed sub id (← enclosing (← currentClass)) with
  | some r => return r
  | none =>
    if ← mainClassNamed name then return some (← classType (Session.mainClass (← self)))
    if (← catalog).hasClass name then return some (.ofNative name)
    match ← scriptNamed true name with
    | some path =>
      match ← loadScript sub path .inheritance with
      | .unavailable _ =>
        complain id.span (.unparsedGlobalClass name path)
        return none
      | r => return some r.type
    | none =>
      match ← inheritedEnum name with
      | some t => return some t
      | none =>
        match (← catalog).enumType? name with
        | some t => return some t
        | none =>
          complain id.span (.unknownType name)
          return none

/-- The type that a name denotes inside another type. -/
def nestedType (sub : Steps) (base : StaticType) (id : Ident) : Analysis (Option StaticType) := do
  let unknown : Analysis (Option StaticType) := do
    complain id.span (.unknownNestedType id.name (← typeText base))
    return none
  match base.shape with
  | .variant =>
    complain id.span .nestedInVariant
    return none
  | .builtin _ =>
    complain id.span .nestedInBuiltin
    return none
  | .enum .. =>
    complain id.span .nestedInEnum
    return none
  | .native cls =>
    match (← catalog).enum? cls id.name with
    | some es => return some (.ofEnum id.name cls es)
    | none => unknown
  | .cls c _ =>
    match ← findMember c id.name with
    | none => unknown
    | some (m, o) =>
      match ← memberType sub o m with
      | some t => return some t
      | none =>
        complain id.span (.notAType id.name (← typeText base))
        return none
  | _ => unknown

/-- The type that names denote inside another type. -/
def nestedTypes (sub : Steps) (base : StaticType) : List Ident → Analysis (Option StaticType)
  | [] => return some base
  | id :: ids => do
    match ← nestedType sub base id with
    | some t => nestedTypes sub t ids
    | none => return none

/-- The type that a path of names denotes. -/
def typeNamed (sub : Steps) (allowVoid : Bool) (names : List Ident) : Analysis (Option StaticType) := do
  match names with
  | [] => return none
  | first :: rest =>
    let name := first.name
    if name = "Variant" then
      match rest with
      | second :: rest' =>
        if second.name = "Type" then
          nestedTypes sub (((← catalog).enumType? "Variant.Type").getD {}) rest'
        else nestedTypes sub .variant rest
      | [] => return some .variant
    else if name = "void" then
      if allowVoid then nestedTypes sub (.ofBuiltin .nil) rest
      else
        complain first.span .voidType
        return none
    else
      match BuiltinType.ofName? name with
      | some b => nestedTypes sub (.ofBuiltin b) rest
      | none =>
        match ← typeInScope sub first with
        | some t => nestedTypes sub t rest
        | none => return none

/-- A written type without elements; an unknown one may be anything. -/
def plainType (sub : Steps) (allowVoid : Bool) (names : List Ident) : Analysis StaticType :=
  return (← typeNamed sub allowVoid names).getD .variant

/-- A written type with what it denotes. Only a function may return `void`, and only arrays have
elements. -/
def resolveType (sub : Steps) (allowVoid : Bool) (spec : TypeSpec) : Analysis TypeSpec := do
  let t ← plainType sub allowVoid spec.names
  match spec.element with
  | none => return { spec with type := t.withSource .explicit }
  | some e =>
    if !t.isBuiltin .array then
      complain e.span .elementOfNonArray
      return { spec with type := t.withSource .explicit }
    else if e.element.isSome then
      complain e.span .nestedElement
      return { spec with type := t.withSource .explicit }
    else
      let et := (← plainType sub false e.names).withSource .explicit
      let t := match et.shape with
        | .variant => t
        | _ => t.withElement et
      return { spec with type := t.withSource .explicit, element := some { e with type := et } }

end GameScript.Analysis
