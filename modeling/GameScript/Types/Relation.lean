import GameScript.Catalog.Basic
import GameScript.Value.Convert

/-!
# Relations between static types

Types refer to classes and to compiled scripts by identifiers, so their text and their relations depend
on a context that says what is known about these. Every walk along base classes makes at most as many
steps as the context has classes and scripts.
-/

namespace GameScript

/-- What is known about a class declared in source. -/
structure ClassFacts where
  name : Option Text := none
  /-- The path of the file followed by the names of the enclosing classes and its own. -/
  fqcn : Text := ""
  /-- The type of instances; unresolved at first. -/
  type : StaticType := {}
  /-- The type of the base class; unresolved at first. -/
  base : StaticType := {}
deriving Inhabited

/-- What is known about a compiled script. -/
structure ScriptFacts where
  path : Text := ""
  native : Text := ""
  base : StaticType := {}
deriving Inhabited

/-- What types refer to. -/
structure TypeContext where
  catalog : Catalog
  classes : DeclId → ClassFacts
  scripts : Nat → ScriptFacts
  /-- The number of classes and scripts, a bound for every chain of bases. -/
  depth : Nat

namespace TypeContext

variable (ctx : TypeContext)

/-! ### Texts -/

/-- What follows the last slash of a path. -/
def fileName (path : Text) : Text :=
  match path.lastIndexOf? 47 with
  | some i => path.drop (i + 1)
  | none => path

/-- A type as messages show it. -/
def text : StaticType → Text
  | ⟨shape, _, element, isMeta, _, _⟩ =>
    match shape with
    | .variant => "Variant"
    | .builtin b =>
      match b, element with
      | .nil, _ => "null"
      | .array, some e => "Array[" ++ text e ++ "]"
      | b, _ => b.name
    | .native cls => if isMeta then "GDScriptNativeClass" else cls
    | .cls id _ =>
      if isMeta then "GDScript" else ((ctx.classes id).name).getD (ctx.classes id).fqcn
    | .script id => if isMeta then "GDScript" else fileName (ctx.scripts id).path
    | .enum name owner _ =>
      if isMeta then "Dictionary"
      else if owner.isEmpty then name
      else owner ++ "." ++ name
    | .unresolved | .resolving => "<unresolved type>"

/-- The native class that a type names: the class itself, a native ancestor or the owner of an
enumeration. -/
def nativeLabel (t : StaticType) : Text :=
  match t.shape with
  | .native cls => cls
  | .cls _ ancestor => ancestor
  | .script id => (ctx.scripts id).native
  | .enum _ owner _ => owner
  | _ => ""

/-! ### Ancestors -/

/-- The native class of the values of a type, following at most `fuel` bases; empty if unknown. -/
def nativeFrom : Nat → StaticType → Text
  | fuel, t =>
    match t.shape with
    | .native cls => cls
    | .cls id ancestor =>
      if !ancestor.isEmpty then ancestor
      else
        let facts := ctx.classes id
        match facts.type.shape with
        | .cls _ known =>
          if !known.isEmpty then known
          else match fuel with
            | fuel + 1 => nativeFrom fuel facts.base
            | 0 => ""
        | _ =>
          match fuel with
          | fuel + 1 => nativeFrom fuel facts.base
          | 0 => ""
    | .script id => (ctx.scripts id).native
    | .builtin .object => "Object"
    | _ => ""

/-- The native class of the values of a type; empty if unknown. -/
def nativeOf (t : StaticType) : Text := ctx.nativeFrom ctx.depth t

/-- Whether two identifiers denote one class. -/
def sameClass (a b : DeclId) : Bool := a = b || (ctx.classes a).fqcn = (ctx.classes b).fqcn

/-- Whether an object type is `target` or derives from it, following at most `fuel` bases. -/
def inheritsFrom (target : StaticType) : Nat → StaticType → Bool
  | 0, _ => false
  | fuel + 1, source =>
    match source.shape with
    | .cls id ancestor =>
      let base := (ctx.classes id).base
      match target.shape with
      | .cls other _ => ctx.sameClass id other || inheritsFrom target fuel base
      | .native cls =>
        if base.isSet then inheritsFrom target fuel base else ctx.catalog.isSubclass ancestor cls
      | _ => inheritsFrom target fuel base
    | .script id =>
      match target.shape with
      | .script other =>
        (ctx.scripts id).path = (ctx.scripts other).path ||
          inheritsFrom target fuel (ctx.scripts id).base
      | _ => inheritsFrom target fuel (ctx.scripts id).base
    | .native cls =>
      match target.shape with
      | .native other => ctx.catalog.isSubclass cls other
      | _ => false
    | _ => false

/-- Whether an object type is `target` or derives from it. -/
def inherits (source target : StaticType) : Bool := ctx.inheritsFrom target (ctx.depth + 1) source

/-! ### Compatibility -/

/-- Whether a value of type `source` may be stored in a place of the builtin type `b`. -/
def builtinAccepts (implicit : Bool) (b : BuiltinType) (source : StaticType) : Bool :=
  match source.shape with
  | .builtin c => b = c || (implicit && c.convertsStrictly b)
  | .enum .. =>
    if source.isMeta then b = .dictionary
    else b = .int || (implicit && BuiltinType.int.convertsStrictly b)
  | _ => false

/-- Whether an object may be stored in a place of type `target`, and null everywhere. -/
def objectAccepts (target source : StaticType) : Bool :=
  let derives (source : StaticType) : Bool :=
    target.isMeta = source.isMeta && (target.isBuiltin .object || ctx.inherits source target)
  match source.shape with
  | .builtin .nil => true
  | .builtin .object => derives (.ofNative "Object")
  | .builtin _ | .enum .. => false
  | _ => derives source

/-- Whether a value of type `source` may be stored in a place of type `target`; with `implicit`, also
after a conversion between builtin types. Anything fits a variant and a variant fits anything. -/
def compatible (implicit : Bool) : (target source : StaticType) → Bool
  | ⟨shape, known, element, isMeta, isConst, isCoroutine⟩, source =>
    let target : StaticType := ⟨shape, known, element, isMeta, isConst, isCoroutine⟩
    if target.isVariant || source.isVariant then true
    else match shape with
      | .builtin b =>
        if b = .object then ctx.objectAccepts target source
        else if isMeta ≠ source.isMeta && !source.isBuiltin .nil then false
        else
          builtinAccepts implicit b source &&
            match element, source.element with
            | some e, some f => compatible false e f
            | _, _ => true
      | .enum name owner _ =>
        match source.shape with
        | .builtin b => b = .int && !source.isMeta
        | .enum name' owner' _ => owner' = owner && name' = name
        | _ => false
      | _ => ctx.objectAccepts target source

/-- Whether two declared types are the same. A type that was only inferred equals every type. -/
def equal : StaticType → StaticType → Bool
  | ⟨shape, known, element, _, _, _⟩, u =>
    known.number ≤ TypeSource.inferred.number || u.source.number ≤ TypeSource.inferred.number ||
      match shape, u.shape with
      | .variant, .variant => true
      | .builtin b, .builtin c =>
        b = c && match element, u.element with
          | some e, some f => equal e f
          | none, none => true
          | _, _ => false
      | .native a, .native b => a = b
      | .enum name owner _, .enum name' owner' _ => owner = owner' && name = name'
      | .script a, .script b => a = b
      | .cls a _, .cls b _ => ctx.sameClass a b
      | _, _ => false

/-- The type of instances of a class, which may not have been resolved yet. -/
def classType (id : DeclId) : StaticType :=
  let t := (ctx.classes id).type
  if t.isSet then t else .ofClass id ""

end TypeContext

namespace StaticType

/-- Whether a value of type `source` is converted when it is stored in a place of type `target`. -/
def needsConversion (target source : StaticType) : Bool :=
  match target.shape, source.shape with
  | .builtin b, .builtin c => b ≠ c || (target.element.isSome && source.element.isNone)
  | _, _ => false

/-- Whether an enumeration has an element of the given value. -/
def hasEnumValue (t : StaticType) (v : Int64) : Bool := t.entries.any (·.value = v)

/-- Whether the type is a declared builtin value type, whose operations can be checked in advance. -/
def isHardValue (t : StaticType) : Bool :=
  t.isHard && !t.isMeta &&
    match t.shape with
    | .builtin b => b ≠ .object
    | .enum .. => true
    | _ => false

/-- Whether values are shared by reference, if that is known. -/
def sharing? (t : StaticType) : Option Bool :=
  if !t.isHard || t.isVariant then none else some t.tag.isShared

end StaticType

end GameScript
