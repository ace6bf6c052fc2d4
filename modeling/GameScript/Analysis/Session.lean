import GameScript.Analysis.Complaint
import GameScript.Syntax.Parse.Decl
import GameScript.Types.Relation

/-!
# Sessions of analysis

* `Environment` — what surrounds the files of a project: native classes, how to load a source, classes
  and singletons known by name, options;
* `FileRecord` — one loaded file with its diagnostics and how far its analysis has come;
* `ClassRecord`, `Note` — what is known about a class, and about any other declaration;
* `Session` — all files of a project together.

Declarations are known by their `DeclId`, so facts about them can be looked up from any file.
-/

namespace GameScript

/-! ### Tables -/

/-- A **table**: a value for some keys, in the order in which the keys came. -/
structure Table (κ α : Type) where
  entries : List (κ × α) := []
deriving Inhabited

namespace Table

variable {κ α : Type} [DecidableEq κ]

def get? (t : Table κ α) (k : κ) : Option α := (t.entries.find? (·.1 = k)).map Prod.snd

def has (t : Table κ α) (k : κ) : Bool := (t.get? k).isSome

/-- Entries with the value of one key set. -/
def setIn (k : κ) (a : α) : List (κ × α) → List (κ × α)
  | [] => [(k, a)]
  | (k', a') :: es => if k' = k then (k, a) :: es else (k', a') :: setIn k a es

def set (t : Table κ α) (k : κ) (a : α) : Table κ α := ⟨setIn k a t.entries⟩

def keys (t : Table κ α) : List κ := t.entries.map Prod.fst

end Table

/-! ### Surroundings -/

/-- A script that exists from the start; if it is a singleton, scripts refer to it by name. -/
structure Autoload where
  path : Text
  isSingleton : Bool
deriving DecidableEq, Inhabited

/-- Choices of the user. -/
structure Options where
  /-- Whether a warning counts as an error. -/
  warningsAsErrors : Bool := false
  /-- Whether declarations need no type. -/
  allowUntyped : Bool := true
  disabled : List WarningCode := WarningCode.disabledByDefault
  /-- Whether compiled code marks the lines of the source. -/
  debugLines : Bool := false
deriving DecidableEq, Inhabited

/-- Why no text could be read. -/
structure LoadFault where
  message : Text
  /-- Whether there is no such file. -/
  isMissing : Bool
deriving DecidableEq, Inhabited

/-- Why there is no tree for a path. -/
inductive LoadFailure where
  | unreadable (f : LoadFault)
  | malformed (e : SyntaxError)
deriving Inhabited

def LoadFailure.isMissing : LoadFailure → Bool
  | unreadable f => f.isMissing
  | malformed _ => false

/-- What surrounds the files of a project. -/
structure Environment where
  catalog : Catalog
  load : Text → Except LoadFault Text
  /-- A bound for the size of all that can be loaded together. -/
  extent : Nat
  /-- The path of the file that declares a class known everywhere. -/
  globalClasses : Table Text Text := {}
  autoloads : Table Text Autoload := {}
  /-- The scripts that exist only in compiled form, by path. -/
  compiled : Table Text Nat := {}
  options : Options := {}

/-! ### Files, classes and declarations -/

/-- How far the analysis of a file has come. -/
inductive Status where
  | parsed
  /-- The bases of all classes are known. -/
  | inheritance
  /-- The types of all members are known. -/
  | interface
  /-- All functions are analysed. -/
  | body
deriving DecidableEq, Inhabited

namespace Status

def number : Status → Nat
  | parsed => 0
  | inheritance => 1
  | interface => 2
  | body => 3

def name : Status → Text
  | parsed => "parsed"
  | inheritance => "inheritance solved"
  | interface => "interface solved"
  | body => "fully solved"

/-- The status after the next pass. -/
def next : Status → Status
  | parsed => inheritance
  | inheritance => interface
  | interface | body => body

end Status

/-- Where in a file the analysis is. -/
structure Focus where
  cls : Option DeclId := none
  /-- The functions around, the innermost first. Beyond a function that is no lambda there is none. -/
  functions : List Func := []
  /-- The names declared by the blocks around, block by block. -/
  block : List (List Text) := []
  /-- The names declared by the blocks that a lambda at this place sees. -/
  scope : List (List Text) := []
  /-- The enumeration whose values are being computed. -/
  enum : Option EnumDecl := none
  /-- The smallest statement or member around. -/
  stmt : Option Span := none
  /-- The lambdas around, the innermost last. -/
  lambdas : List DeclId := []
deriving Inhabited

/-- A loaded file and its analysis. -/
structure FileRecord where
  file : File
  status : Status := .parsed
  /-- The statuses that the passes run so far lead to, the first pass first. -/
  passes : List Status := []
  /-- The errors after the first pass that had any; no further pass is run then. -/
  failure : Option (List AnalysisError) := none
  /-- All errors so far, the latest first. -/
  errors : List AnalysisError := []
  /-- All warnings so far, the latest first. -/
  warnings : List Warning := []
  /-- The lines of statements that have an error or work on values of unknown type. -/
  uncheckedLines : List Nat := []
  focus : Focus := {}

namespace FileRecord

def path (r : FileRecord) : Text := r.file.path

def sortedErrors (r : FileRecord) : List AnalysisError :=
  sortByPlace AnalysisError.pos r.errors.reverse

def sortedWarnings (r : FileRecord) : List Warning := sortByPlace Warning.pos r.warnings.reverse

def sortedLines (r : FileRecord) : List Nat := (r.uncheckedLines.eraseDups).mergeSort (· ≤ ·)

end FileRecord

/-- What is known about a class. -/
structure ClassRecord where
  decl : ClassDecl
  outer : Option DeclId
  /-- The path of the file, then the names of the classes around and of this one. -/
  fullName : Text
  facts : ClassFacts
  hasInterface : Bool := false
  hasBody : Bool := false
deriving Inhabited

/-- What is known about a declaration. -/
structure Note where
  /-- The type of what is declared, or the type that a function returns. -/
  type : StaticType := {}
  /-- Whether the initial value is converted. -/
  converts : Bool := false
  /-- Whether there is an initial value. -/
  isInitialized : Bool := false
  value : Option Value := none
  usages : Int := 0
  assignments : Nat := 0
  /-- Whether the declaration is being resolved. -/
  isBusy : Bool := false
  /-- Whether the signature of a function or an enumeration value is resolved. -/
  isResolved : Bool := false
  /-- Whether the body of a function is analysed, or being so. -/
  hasBody : Bool := false
  /-- Whether a function awaits something. -/
  isCoroutine : Bool := false
  /-- The outer locals that a lambda reads, in the order of their first use. -/
  captures : List Ident := []
  /-- Whether a lambda refers to the instance. -/
  usesSelf : Bool := false
deriving Inhabited

/-- The number of an enumeration value. -/
def Note.number (n : Note) : Int64 :=
  match n.value with
  | some (.int i) => i
  | _ => 0

/-- A declaration with what the analysis found in it. -/
inductive Declaration where
  | var (d : VarDecl)
  | const (d : ConstDecl)
  | signal (d : SignalDecl)
  /-- The initial value of an enumeration value. -/
  | enumInit (x : Expr)
  | func (f : Func)

/-- What is known about a path. -/
inductive CacheEntry where
  | loaded (unit : Nat)
  | failed (f : LoadFailure)

/-- The analysis of the files of one project. -/
structure Session where
  env : Environment
  files : List FileRecord := []
  cache : Table Text CacheEntry := {}
  classes : Table DeclId ClassRecord := {}
  notes : Table DeclId Note := {}
  declarations : Table DeclId Declaration := {}
  scripts : List ScriptFacts := []
  /-- The classes whose base is being determined, the latest first. -/
  inheriting : List DeclId := []
  /-- The classes that derive from themselves. -/
  cyclic : List DeclId := []
  /-- How often each path was loaded. -/
  loads : Table Text Nat := {}
  /-- The number of resources made so far. -/
  resources : Nat := 0

namespace Session

/-- What types refer to. -/
def types (s : Session) : TypeContext :=
  { catalog := s.env.catalog
    classes := fun id => ((s.classes.get? id).map ClassRecord.facts).getD {}
    scripts := fun i => s.scripts.getD i default
    depth := s.classes.entries.length + s.scripts.length }

def note (s : Session) (id : DeclId) : Note := (s.notes.get? id).getD {}

/-- The class of a file as a whole. -/
def mainClass (unit : Nat) : DeclId := ⟨unit, .none⟩

/-- Whether an analysis broke off. The program stops there, so that what the session holds beyond it is
never seen. -/
def brokenOff (s : Session) : Bool := s.files.any fun r => r.errors.any (·.complaint.isFault)

/-- The path of the file that holds a declaration. -/
def pathOf (s : Session) (unit : Nat) : Text := ((s.files[unit]?).map FileRecord.path).getD ""

end Session

/-! ### Loading -/

mutual

/-- The records of a class and of the classes in it. -/
def classRecords (unit : Nat) (outer : Option DeclId) (fullName : Text) :
    ClassDecl → List (DeclId × ClassRecord)
  | ⟨pos, name, base, members, isTool, usesOnready, finish⟩ =>
    let decl : ClassDecl := ⟨pos, name, base, members, isTool, usesOnready, finish⟩
    let anchor := match outer with
      | none => Pos.none
      | some _ => (name.map Ident.pos).getD .none
    let id : DeclId := ⟨unit, anchor⟩
    let facts : ClassFacts := { name := name.map Ident.name }
    (id, { decl, outer, fullName, facts }) :: memberRecords unit id fullName members

def memberRecords (unit : Nat) (outer : DeclId) (outerName : Text) :
    List Member → List (DeclId × ClassRecord)
  | [] => []
  | .cls d :: ms =>
    classRecords unit (some outer) (outerName ++ "::" ++ d.nameText) d ++
      memberRecords unit outer outerName ms
  | _ :: ms => memberRecords unit outer outerName ms

end

namespace Session

/-- Adds a parsed file, which is from now on the one at its path. -/
def addFile (s : Session) (file : File) : Nat × Session :=
  let unit := s.files.length
  (unit, { s with
    files := s.files ++ [{ file }]
    cache := s.cache.set file.path (.loaded unit)
    classes := ⟨s.classes.entries ++ classRecords unit none file.path file.cls⟩ })

/-- The file at a path, which is loaded and parsed at the first request. -/
def fetch (s : Session) (path : Text) : Except LoadFailure Nat × Session :=
  match s.cache.get? path with
  | some (.loaded unit) => (.ok unit, s)
  | some (.failed f) => (.error f, s)
  | none =>
    match s.env.load path with
    | .error f =>
      (.error (.unreadable f), { s with cache := s.cache.set path (.failed (.unreadable f)) })
    | .ok text =>
      let s := { s with loads := s.loads.set path ((s.loads.get? path).getD 0 + 1) }
      match File.parse path text with
      | .error e =>
        (.error (.malformed e), { s with cache := s.cache.set path (.failed (.malformed e)) })
      | .ok file =>
        let (unit, s) := s.addFile file
        (.ok unit, s)

/-- The paths of the files asked for so far, in lexicographic order. -/
def paths (s : Session) : List Text := Text.sort s.cache.keys

end Session

end GameScript
