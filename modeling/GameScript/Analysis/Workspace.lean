import GameScript.Analysis.Pass
import GameScript.Catalog.Core
import GameScript.Project
import GameScript.Text.Literal

/-!
# Analysis of a project

Sessions over the files of a project: files are added by their text or loaded by their path, and the
classes that name themselves become known everywhere.
-/

namespace GameScript

/-- The surroundings of the files of a project, with the native classes of the engine. -/
def Project.environment (p : Project) (options : Options) : Environment where
  catalog := .core
  load := fun path =>
    match p.file? path with
    | some t => .ok t
    | none => .error ⟨Project.missingMessage path, true⟩
  extent := p.size
  options := options

/-- Why the classes of a project cannot be made known by name. -/
inductive ClassFault where
  | unavailable (path : Text) (f : LoadFailure)
  /-- Two files name their class alike. -/
  | duplicate (path : Text) (pos : Pos) (name previous : Text)

/-- A place in a file. -/
def Pos.textIn (p : Pos) (path : Text) : Text := path ++ ":" ++ p.text

/-- What a failure to load a file says. -/
def LoadFailure.message (path : Text) : LoadFailure → Text
  | unreadable f => "loading " ++ path ++ ": " ++ f.message
  | malformed e => e.pos.textIn path ++ ": " ++ e.message

def ClassFault.message : ClassFault → Text
  | unavailable path f => f.message path
  | duplicate path pos name previous =>
    pos.textIn path ++ ": class " ++ name.display ++ " is already declared by " ++ previous

namespace Session

/-- Parses a text and makes it the file at its path. -/
def addText (s : Session) (path text : Text) : Except SyntaxError (Nat × Session) := do
  return s.addFile (← File.parse path text)

/-- Makes a class known everywhere. -/
def addGlobalClass (s : Session) (name path : Text) : Session :=
  { s with env := { s.env with globalClasses := s.env.globalClasses.set name path } }

/-- Makes a script exist from the start. -/
def addAutoload (s : Session) (name : Text) (a : Autoload) : Session :=
  { s with env := { s.env with autoloads := s.env.autoloads.set name a } }

/-- Makes the named classes of files known everywhere, up to the first file that cannot be loaded or
whose class has the name of another. -/
def addClasses (s : Session) : List Text → Option ClassFault × Session
  | [] => (none, s)
  | path :: paths =>
    match s.fetch path with
    | (.error f, s) => (some (.unavailable path f), s)
    | (.ok unit, s) =>
      match (s.files[unit]?).bind fun r => r.file.cls.name with
      | none => s.addClasses paths
      | some id =>
        match s.env.globalClasses.get? id.name with
        | some previous =>
          if previous = path then (s.addGlobalClass id.name path).addClasses paths
          else (some (.duplicate path id.pos id.name previous), s)
        | none => (s.addGlobalClass id.name path).addClasses paths

end Session

end GameScript
