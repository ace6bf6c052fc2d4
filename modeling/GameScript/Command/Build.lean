import GameScript.Code.Wire.Write
import GameScript.Command.Disk
import GameScript.Command.Settings
import GameScript.Repl

/-!
# Building scripts

Analyses and compiles the scripts that the arguments of a command name. The project is a directory or an
archive; all classes of the project that have a name are known before the first script is analysed.

* `Build.prepare` — finds the files of the project and reads the names of its classes;
* `Build.run` — compiles the scripts and reports what is found.
-/

namespace GameScript

/-- What a command has done. -/
structure CommandResult where
  /-- Zero if all went well. -/
  exit : Nat := 0
  err : Text := ""
  /-- The file that was written, by its absolute path. -/
  written : Option (Text × List UInt8) := none
deriving Inhabited

namespace Build

/-- A line of the log. -/
def logLine (t : Text) : Text := ("gdc: " ++ t).line

/-- The result of a command that cannot go on, after some reports. -/
def fatal (reports t : Text) : CommandResult := { exit := 1, err := reports ++ logLine t }

/-! ### The project -/

/-- The sources of a command. -/
structure Sources where
  load : Text → Except LoadFault Text
  /-- A bound for the size of all that can be loaded together. -/
  extent : Nat
  /-- The scripts of the project. -/
  paths : List Text
  /-- The scripts to be compiled. -/
  targets : List Text

/-- A path relative to a directory, if it is inside of it; both are absolute. -/
def relative? (dir path : Text) : Option Text :=
  if path = dir then some "."
  else
    match Text.after? (if dir.endsWith "/" then dir else dir ++ "/") path with
    | some rest => if rest.startsWith ".." then none else some rest
    | none => none

/-- The resource paths of files, up to one that is outside of the project. -/
def resourcePaths (d : Disk) (dir : Text) : List Text → Except Text (List Text)
  | [] => .ok []
  | file :: files =>
    match relative? dir (d.absolute file) with
    | some rel => do return rel.resourcePath :: (← resourcePaths d dir files)
    | none => .error (file ++ " is outside the project root " ++ dir)

/-- The resource paths of the scripts at a path: of the file there, whatever its name, or of all scripts
in a directory. -/
def scan (d : Disk) (dir name : Text) : Except Text (List Text) :=
  let found : Except Text (List Text) :=
    match d.find name with
    | .error f => .error ("lstat " ++ name ++ ": " ++ f.message)
    | .ok (.file _) => resourcePaths d dir [name]
    | .ok t => resourcePaths d dir (t.scripts name)
  found.mapError fun m => "scanning " ++ name ++ ": " ++ m

/-- Loads a script of a project in a directory. -/
def loadFrom (d : Disk) (dir path : Text) : Except LoadFault Text :=
  match Text.after? Text.resourceScheme path with
  | some rel => d.read (dir.joinPath rel)
  | none => .error ⟨path ++ ": not a resource path", false⟩

/-- The sources in a directory. -/
def directorySources (d : Disk) (root : Text) (args : List Text) : Except Text Sources := do
  let dir := d.absolute root
  let paths ← scan d dir dir
  let targets ← args.mapM (scan d dir)
  return { load := loadFrom d dir, extent := d.tree.size, paths, targets := targets.flatten }

/-- The sources in an archive. -/
def archiveSources (d : Disk) (archive : Text) (args : List Text) : Except Text Sources :=
  match d.read archive with
  | .error f => .error ("reading archive: " ++ f.message)
  | .ok text =>
    let p := Project.ofArchive text
    .ok {
      load := (p.environment {}).load
      extent := p.size
      paths := p.paths
      targets := if args.isEmpty then p.paths else args.map Text.resourcePath }

/-- A command that is ready to compile scripts. -/
structure Ready where
  settings : Settings
  targets : List Text
  session : Session
  /-- What has been reported. -/
  err : Text

/-- The surroundings of scripts with the classes and autoloads that the settings name. -/
def addNames (s : Settings) (session : Session) : Session :=
  let session := s.classes.entries.foldl
    (fun session (name, path) => session.addGlobalClass name path.resourcePath) session
  s.autoloads.entries.foldl
    (fun session (name, path) =>
      session.addAutoload name ⟨(path.trimStart "*").resourcePath, path.startsWith "*"⟩)
    session

/-- Reads the arguments and the names of the classes of the project. -/
def prepare (d : Disk) (args : List Text) : Except CommandResult Ready := do
  let (settings, args) ← (Settings.read {} args).mapError fun f =>
    { exit := 2, err := f.message.line : CommandResult }
  let sources ← (if settings.archive.isEmpty then directorySources d settings.root args
    else archiveSources d settings.archive args).mapError (fatal "")
  let env : Environment :=
    { catalog := .core, load := sources.load, extent := sources.extent, options := settings.options }
  let err : Text := if settings.verbose then
      logLine ("scanning " ++ Text.ofNat sources.paths.length ++ " files for global classes")
    else ""
  match Session.addClasses { env } sources.paths with
  | (some f, _) => .error (fatal err f.message)
  | (none, s) => return { settings, targets := sources.targets, session := addNames settings s, err }

/-! ### Compilation -/

/-- A message about a place. -/
def placed (path : Text) (pos : Pos) (kind message : Text) : Text :=
  (pos.textIn path ++ ": " ++ kind ++ ": " ++ message).line

def errorText (path : Text) (es : List AnalysisError) : Text :=
  .concat (es.map fun e => placed path e.pos "error" e.complaint.message)

/-- The report of a file that cannot be loaded. -/
def loadText (path : Text) : LoadFailure → Text
  | .malformed e => placed path e.pos "error" e.message
  | .unreadable f => ("error: " ++ f.message).line

/-- The report of a file that cannot be compiled. -/
def compileText : CompileError → Text
  | .analysis path es => errorText path es
  | .fault path pos f => placed path pos "error" f.message

/-- The warnings of a file. -/
def warningText (r : FileRecord) : Text :=
  .concat (r.sortedWarnings.map fun w =>
    placed r.path w.pos "warning" (w.caution.message ++ " (" ++ w.caution.code.name ++ ")"))

/-- The code of what has been lowered. -/
def traceText (ps : List Program) : Text := .concat (ps.map fun p => p.listingText p.functions)

/-- Analyses and compiles a script; its program, if there is one, and what is reported. -/
def compileScript (s : Settings) (c : Compiler) (path : Text) : Option Program × Text × Compiler :=
  match c.session.fetch path with
  | (.error f, session) => (none, loadText path f, { c with session })
  | (.ok unit, session) =>
    let (_, session) := session.raise unit .body
    let warnings : Text := ((session.files[unit]?).map warningText).getD ""
    let before := c.trace.length
    let (r, c) := { c with session }.compile unit
    let code : Text := if s.disassemble then traceText (c.trace.drop before) else ""
    match r with
    | .ok n => (c.library[n]?, warnings ++ code, c)
    | .error e => (none, warnings ++ code ++ compileText e, c)

/-- The text of the identifier of a build that is all zeros. -/
def buildText : Text := .times 26 "0"

/-- Writes a program if that is asked for; fails with a report. -/
def write (d : Disk) (s : Settings) (r : CommandResult) (p : Program) :
    Except CommandResult CommandResult :=
  if s.output.isEmpty then .ok r
  else match d.writeFault? s.output with
    | some m => .error (fatal r.err m)
    | none =>
      let data := p.encode
      let note : Text := if s.verbose then
          logLine ("wrote " ++ s.output ++ " (" ++ Text.ofNat data.length ++ " bytes, build " ++
            buildText ++ ")")
        else ""
      .ok { r with err := r.err ++ note, written := some (d.absolute s.output, data) }

/-- Compiles scripts one after another; an error does not stop the ones that follow. -/
def compileAll (d : Disk) (s : Settings) : Compiler → CommandResult → List Text → CommandResult
  | _, r, [] => r
  | c, r, path :: paths =>
    let note : Text := if s.verbose then logLine ("compiling " ++ path) else ""
    let (p, report, c) := compileScript s c path
    let r := { r with err := r.err ++ note ++ report }
    match p with
    | none => compileAll d s c { r with exit := 1 } paths
    | some p =>
      match write d s r p with
      | .ok r => compileAll d s c r paths
      | .error r => r

/-- Compiles the scripts of a command that is ready. -/
def compileReady (d : Disk) (r : Ready) : CommandResult :=
  if r.targets.isEmpty then fatal r.err "no script files"
  else if !r.settings.output.isEmpty && r.targets.length ≠ 1 then
    fatal r.err "-o requires exactly one script file"
  else compileAll d r.settings { session := r.session } { err := r.err } r.targets

/-- Runs a command. -/
def run (d : Disk) (args : List Text) : CommandResult :=
  match prepare d args with
  | .error r => r
  | .ok r => compileReady d r

end Build

end GameScript
