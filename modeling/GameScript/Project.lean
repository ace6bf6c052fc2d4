import GameScript.Number.Reading

/-!
# Projects

Files of a project are named by resource paths, `res://` followed by a path relative to the project.
A path in a script may also be relative to the directory of that script. Cleaning a path is purely
lexical: empty and `.` components are dropped, and `..` drops the component before it.

A project has source files, by path. A project can be written down as one text: a file starts at a
line `-- name --` and goes on up to the next such line. What stands before the first one is a comment.
-/

namespace GameScript.Text

/-- The scheme of the files of a project. -/
def resourceScheme : Text := "res://"

/-- Adds one component to the cleaned components `stack`, which are in reverse order. Above the root
there is nothing, so a rooted path ignores a `..` there. -/
def pushComponent (rooted : Bool) (stack : List Text) (c : Text) : List Text :=
  if c = "" || c = "." then stack
  else if c = ".." then
    match stack with
    | [] => if rooted then [] else [c]
    | top :: rest => if top = ".." then c :: stack else rest
  else c :: stack

/-- The components of a path after cleaning. -/
def cleanComponents (rooted : Bool) (p : Text) : List Text :=
  ((p.split 47).foldl (pushComponent rooted) []).reverse

/-- The shortest path that is lexically equivalent. -/
def cleanPath (p : Text) : Text :=
  let rooted := p.startsWith "/"
  let joined := join "/" (cleanComponents rooted p)
  if rooted then "/" ++ joined else if joined = "" then "." else joined

/-- The path `p` as seen from the directory `dir`. -/
def joinPath (dir p : Text) : Text := cleanPath (join "/" ([dir, p].filter (!·.isEmpty)))

/-- The directory of a path. -/
def directory (p : Text) : Text :=
  cleanPath (match p.lastIndexOf? 47 with
    | some i => p.take (i + 1)
    | none => "")

/-- The path meant by `p` in the file at `source`. Paths with another scheme and absolute paths are
left alone. -/
def resolvePath (source p : Text) : Text :=
  match after? resourceScheme p with
  | some rest => resourceScheme ++ (cleanPath ("/" ++ rest)).trimStart "/"
  | none =>
    if p.contains "://" || p.startsWith "/" then p
    else
      let dir := directory ("/" ++ source.trimStart resourceScheme)
      let joined := (joinPath dir p).trimStart "/"
      if source.startsWith resourceScheme then resourceScheme ++ joined else joined

/-- A file name as a resource path. -/
def resourcePath (name : Text) : Text :=
  if name.contains "://" then name else resourceScheme ++ name.trimStart "/"

end GameScript.Text

namespace GameScript

/-- The **files** of a project. Of two files with one path, the later one counts. -/
structure Project where
  files : List (Text × Text) := []
deriving DecidableEq, Inhabited

namespace Project

/-- A text that ends with a line break, unless it is empty. -/
def finishLine (t : Text) : Text :=
  if t.isEmpty || t.endsWith "\n" then t else t ++ "\n"

/-- The lines of a list of bytes, each with its line break. -/
def linesOf : List UInt8 → List Text
  | [] => []
  | b :: bs =>
    if b = 10 then ⟨[b]⟩ :: linesOf bs
    else match linesOf bs with
      | [] => [⟨[b]⟩]
      | l :: ls => ⟨b :: l.bytes⟩ :: ls

/-- The name that a line introduces, if it is the heading of a file. -/
def heading? (line : Text) : Option Text :=
  let body := if line.endsWith "\n" then line.take (line.size - 1) else line
  if body.startsWith "-- " && body.endsWith " --" && 6 ≤ body.size then
    let name := ((body.take (body.size - 3)).drop 3).trim
    if name.isEmpty then none else some name
  else none

/-- The names and contents of the files of an archive, and what stands before the first one. -/
def entriesOf : List Text → Text × List (Text × Text)
  | [] => ("", [])
  | line :: rest =>
    let (before, files) := entriesOf rest
    match heading? line with
    | some name => ("", (name, before) :: files)
    | none => (line ++ before, files)

/-- The project of named files; names become paths of resources. -/
def ofFiles (files : List (Text × Text)) : Project :=
  ⟨files.map fun (name, t) => (name.resourcePath, finishLine t)⟩

/-- The project that an archive describes. -/
def ofArchive (archive : Text) : Project := ofFiles (entriesOf (linesOf archive.bytes)).2

/-- The text of the file at a path. -/
def file? (p : Project) (path : Text) : Option Text :=
  (p.files.reverse.find? (·.1 = path)).map Prod.snd

/-- The paths of the files in lexicographic order. -/
def paths (p : Project) : List Text := Text.dedup (Text.sort (p.files.map Prod.fst))

/-- The message about a path without a file. -/
def missingMessage (path : Text) : Text := path ++ ": file does not exist"

/-- The number of bytes of all files. -/
def size (p : Project) : Nat := total (p.files.map fun f => f.2.size)

end Project

end GameScript
