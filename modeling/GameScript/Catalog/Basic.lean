import GameScript.Types.StaticType

/-!
# Catalogs of native classes

The native classes, singletons and global constants that scripts can refer to. Classes are added one
after the other, each after its parent, so the chain of parents of a class is finite. A member is looked
up in the class itself and then in its ancestors.
-/

namespace GameScript

/-- A **native class**. Of two members of one kind with the same name, the later one counts. -/
structure NativeClass where
  name : Text
  /-- The name of the parent; empty for a root. -/
  parent : Text := ""
  /-- Whether scripts may create instances. -/
  isInstantiable : Bool := false
  properties : List Property := []
  methods : List Signature := []
  signals : List Signature := []
  enums : List (Text × List EnumEntry) := []
  /-- The integer constants outside any enumeration. -/
  constants : List EnumEntry := []
deriving Inhabited

namespace NativeClass

/-- The last thing in a list that has a name. -/
def last? (nameOf : α → Text) (name : Text) (xs : List α) : Option α :=
  xs.reverse.find? (nameOf · = name)

def property? (c : NativeClass) (name : Text) : Option Property := last? Property.name name c.properties

def method? (c : NativeClass) (name : Text) : Option Signature := last? Signature.name name c.methods

def signal? (c : NativeClass) (name : Text) : Option Signature := last? Signature.name name c.signals

def enum? (c : NativeClass) (name : Text) : Option (List EnumEntry) :=
  (last? Prod.fst name c.enums).map Prod.snd

/-- All integer constants: those outside enumerations, then the values of enumerations. -/
def allConstants (c : NativeClass) : List EnumEntry := c.constants ++ c.enums.flatMap Prod.snd

def constant? (c : NativeClass) (name : Text) : Option Int64 :=
  (last? EnumEntry.name name c.allConstants).map EnumEntry.value

/-- The enumeration that a constant belongs to. -/
def enumOf? (c : NativeClass) (name : Text) : Option Text :=
  (c.enums.reverse.find? fun (_, es) => es.any (·.name = name)).map Prod.fst

/-- The names of all members. -/
def memberNames (c : NativeClass) : List Text :=
  c.properties.map Property.name ++ c.methods.map Signature.name ++ c.signals.map Signature.name ++
    c.allConstants.map EnumEntry.name ++ c.enums.map Prod.fst

end NativeClass

/-- A **catalog** of what scripts can refer to. -/
structure Catalog where
  classes : List NativeClass := []
  /-- The classes of the singletons, the latest first. -/
  singletons : List (Text × Text) := []
  /-- The global constants, the latest first. -/
  globals : List (Text × Value) := []
  /-- The global enumerations, the latest first. -/
  globalEnums : List (Text × List EnumEntry) := []
deriving Inhabited

/-- Why something cannot be added to a catalog. -/
inductive CatalogError where
  | alreadyDefined (cls : Text)
  | unknownParent (cls parent : Text)
  | unknownSingletonClass (name cls : Text)
deriving DecidableEq

def CatalogError.message : CatalogError → Text
  | alreadyDefined c => "class " ++ c ++ " already defined"
  | unknownParent c p => "class " ++ c ++ ": unknown parent class " ++ p
  | unknownSingletonClass n c => "singleton " ++ n ++ ": unknown class " ++ c

namespace Catalog

/-! ### Classes -/

def class? (db : Catalog) (name : Text) : Option NativeClass := db.classes.find? (·.name = name)

def hasClass (db : Catalog) (name : Text) : Bool := (db.class? name).isSome

/-- The name of the parent of a class; empty for a root and for what is no class. -/
def parent (db : Catalog) (cls : Text) : Text := ((db.class? cls).map NativeClass.parent).getD ""

def isInstantiable (db : Catalog) (cls : Text) : Bool :=
  ((db.class? cls).map NativeClass.isInstantiable).getD false

/-- A class and its ancestors, at most `fuel` of them. -/
def chainFrom (db : Catalog) : Nat → Text → List NativeClass
  | 0, _ => []
  | fuel + 1, name =>
    if name.isEmpty then []
    else match db.class? name with
      | some c => c :: chainFrom db fuel c.parent
      | none => []

/-- A class and its ancestors. -/
def chain (db : Catalog) (cls : Text) : List NativeClass := db.chainFrom db.classes.length cls

/-- Whether a class is `ancestor` or derives from it. A name that is no class derives only from
itself. -/
def isSubclass (db : Catalog) (cls ancestor : Text) : Bool :=
  !cls.isEmpty && (cls = ancestor || (!ancestor.isEmpty && (db.chain cls).any (·.name = ancestor)))

/-- What the nearest class that has it makes of a name. -/
def nearest? (db : Catalog) (f : NativeClass → Option α) (cls : Text) : Option α :=
  (db.chain cls).findSome? f

def property? (db : Catalog) (cls name : Text) : Option Property := db.nearest? (·.property? name) cls

def method? (db : Catalog) (cls name : Text) : Option Signature := db.nearest? (·.method? name) cls

def signal? (db : Catalog) (cls name : Text) : Option Signature := db.nearest? (·.signal? name) cls

def constant? (db : Catalog) (cls name : Text) : Option Int64 := db.nearest? (·.constant? name) cls

def enum? (db : Catalog) (cls name : Text) : Option (List EnumEntry) := db.nearest? (·.enum? name) cls

/-- The enumeration that a constant belongs to. -/
def enumOf? (db : Catalog) (cls name : Text) : Option Text := db.nearest? (·.enumOf? name) cls

def classNames (db : Catalog) : List Text := Text.sort (db.classes.map NativeClass.name)

/-- The sorted names of the members of a class and its ancestors. -/
def memberNames (db : Catalog) (cls : Text) : List Text :=
  Text.dedup (Text.sort ((db.chain cls).flatMap NativeClass.memberNames))

/-! ### The global scope -/

/-- The class of a singleton. -/
def singleton? (db : Catalog) (name : Text) : Option Text :=
  (db.singletons.find? (·.1 = name)).map Prod.snd

def global? (db : Catalog) (name : Text) : Option Value :=
  (db.globals.find? (·.1 = name)).map Prod.snd

def globalEnum? (db : Catalog) (name : Text) : Option (List EnumEntry) :=
  (db.globalEnums.find? (·.1 = name)).map Prod.snd

/-! ### Building a catalog -/

/-- Adds a class whose parent, if it has one, is already there. -/
def add (db : Catalog) (c : NativeClass) : Except CatalogError Catalog :=
  if db.hasClass c.name then .error (.alreadyDefined c.name)
  else if !c.parent.isEmpty && !db.hasClass c.parent then .error (.unknownParent c.name c.parent)
  else .ok { db with classes := db.classes ++ [c] }

/-- Adds a global instance of a class. -/
def addSingleton (db : Catalog) (name cls : Text) : Except CatalogError Catalog :=
  if db.hasClass cls then .ok { db with singletons := (name, cls) :: db.singletons }
  else .error (.unknownSingletonClass name cls)

def addGlobal (db : Catalog) (name : Text) (v : Value) : Catalog :=
  { db with globals := (name, v) :: db.globals }

/-- Adds a global enumeration; its values are global constants too. -/
def addGlobalEnum (db : Catalog) (name : Text) (entries : List EnumEntry) : Catalog :=
  entries.foldl (fun db e => db.addGlobal e.name (.int e.value))
    { db with globalEnums := (name, entries) :: db.globalEnums }

/-- The entries of names numbered from 0 on. -/
def numbered (names : List Text) : List EnumEntry :=
  names.zipIdx.map fun (n, i) => ⟨n, Int64.ofNat i⟩

/-! ### Types of enumerations -/

/-- The type of a global enumeration, or of one of a native class given by a qualified name. -/
def enumType? (db : Catalog) (name : Text) : Option StaticType :=
  match db.globalEnum? name with
  | some es => some (.ofEnum name "" es)
  | none =>
    match name.lastIndexOf? 46 with
    | none => none
    | some i =>
      if i = 0 then none
      else
        let cls := name.take i
        let enum := name.drop (i + 1)
        (db.enum? cls enum).map (.ofEnum enum cls)

/-- The static type of what is declared with a type of the engine. -/
def typeOf (db : Catalog) (t : DeclaredType) : StaticType :=
  match t with
  | .enum name => (db.enumType? name).getD (.ofDeclared t)
  | t => .ofDeclared t

end Catalog

end GameScript
