import GameScript.Analysis.Session
import GameScript.Project

/-!
# Directories

What a command sees of the files of the machine: a tree of directories in which paths are looked up
component by component, so that a path through a missing directory leads nowhere even if it comes back.
-/

namespace GameScript

/-- A file or a directory. The entries of a directory are in the order of their names. -/
inductive FileTree where
  | file (text : Text)
  | directory (entries : List (Text × FileTree))
deriving Inhabited

/-- Why a path leads nowhere. -/
inductive PathFault where
  | missing
  | notDirectory
  | isDirectory
deriving DecidableEq, Inhabited

def PathFault.message : PathFault → Text
  | missing => "no such file or directory"
  | notDirectory => "not a directory"
  | isDirectory => "is a directory"

namespace FileTree

/-- What is at a path below a tree. -/
def at? : FileTree → List Text → Except PathFault FileTree
  | t, [] => .ok t
  | .file _, _ :: _ => .error .notDirectory
  | .directory es, c :: cs =>
    match es.find? (·.1 = c) with
    | some (_, t) => t.at? cs
    | none => .error .missing

/-- A tree with another one put at a path. -/
def graft (new : FileTree) : FileTree → List Text → FileTree
  | _, [] => new
  | t, c :: cs =>
    let es := match t with
      | .directory es => es
      | .file _ => []
    let old := ((es.find? (·.1 = c)).map Prod.snd).getD (.directory [])
    let before := es.filter fun e => e.1 ≠ c && e.1.le c
    let after := es.filter fun e => e.1 ≠ c && !e.1.le c
    .directory (before ++ (c, graft new old cs) :: after)

/-- The tree of files with the given names. -/
def ofFiles (files : List (Text × Text)) : FileTree :=
  files.foldl (fun t (name, text) => graft (.file text) t (Text.cleanComponents true name))
    (.directory [])

mutual

/-- The paths of the scripts in a tree that is found at `path`, in the order of a walk. Directories whose
name starts with a dot are skipped. -/
def scripts (path : Text) : FileTree → List Text
  | .file _ => if path.endsWith ".gd" then [path] else []
  | .directory es => entryScripts path es

def entryScripts (path : Text) : List (Text × FileTree) → List Text
  | [] => []
  | (name, .directory inner) :: es =>
    let own := if name.startsWith "." then [] else entryScripts (path.joinPath name) inner
    own ++ entryScripts path es
  | (name, .file text) :: es => scripts (path.joinPath name) (.file text) ++ entryScripts path es

end

mutual

/-- The number of bytes of all files. -/
def size : FileTree → Nat
  | .file t => t.size
  | .directory es => sizeOfEntries es

def sizeOfEntries : List (Text × FileTree) → Nat
  | [] => 0
  | (_, t) :: es => t.size + sizeOfEntries es

end

end FileTree

/-- The files of a machine. -/
structure Disk where
  /-- The absolute path of the tree. -/
  base : Text := ""
  tree : FileTree := .directory []
  /-- The components of the current directory below the tree. -/
  current : List Text := []
deriving Inhabited

namespace Disk

/-- The absolute path of the current directory. -/
def currentPath (d : Disk) : Text := .join "/" (d.base :: d.current)

/-- The components of an absolute path below the tree, not cleaned; none for other paths. -/
def below? (d : Disk) (path : Text) : Option (List Text) :=
  match Text.after? d.base path with
  | some rest =>
    if rest.isEmpty && !d.base.isEmpty then some []
    else if rest.startsWith "/" then some ((rest.drop 1).split 47)
    else none
  | none => none

/-- The absolute form of a path. -/
def absolute (d : Disk) (path : Text) : Text :=
  if (d.below? path).isSome || path.startsWith "/" then path.cleanPath
  else Text.joinPath d.currentPath path

/-- Follows the components of a path from a place, whose components are in reverse order. -/
def follow (d : Disk) (place : List Text) : List Text → Except PathFault (List Text)
  | [] => .ok place
  | c :: cs => do
    match ← d.tree.at? place.reverse with
    | .file _ => .error .notDirectory
    | .directory _ =>
      if c = "" || c = "." then d.follow place cs
      else if c = ".." then d.follow (place.drop 1) cs
      else do
        let _ ← d.tree.at? (c :: place).reverse
        d.follow (c :: place) cs

/-- The place of a path, with its components in order. -/
def place (d : Disk) (path : Text) : Except PathFault (List Text) := do
  if path.isEmpty then .error .missing
  else match d.below? path with
    | some cs => return (← d.follow [] cs).reverse
    | none =>
      if path.startsWith "/" then .error .missing
      else return (← d.follow d.current.reverse (path.split 47)).reverse

/-- What is at a path. -/
def find (d : Disk) (path : Text) : Except PathFault FileTree := do d.tree.at? (← d.place path)

/-- The text of the file at a path. -/
def read (d : Disk) (path : Text) : Except LoadFault Text :=
  match d.find path with
  | .ok (.file t) => .ok t
  | .ok (.directory _) => .error ⟨"read " ++ path ++ ": " ++ PathFault.isDirectory.message, false⟩
  | .error f => .error ⟨"open " ++ path ++ ": " ++ f.message, f = .missing⟩

/-- Why no file can be written at a path. -/
def writeFault? (d : Disk) (path : Text) : Option Text :=
  let fault (f : PathFault) : Option Text := some ("open " ++ path ++ ": " ++ f.message)
  match d.find path with
  | .ok (.file _) => none
  | .ok (.directory _) => fault .isDirectory
  | .error .missing =>
    let parent : Text := match path.lastIndexOf? 47 with
      | some i => path.take (i + 1)
      | none => "."
    if path.isEmpty then fault .missing
    else if path.endsWith "/" then fault .isDirectory
    else match d.find parent with
      | .ok (.directory _) => none
      | .ok (.file _) => fault .notDirectory
      | .error f => fault f
  | .error f => fault f

end Disk

end GameScript
