import GameScript.Command.Build

/-!
# The command line

Reads the files that a command can ask for, runs the command on them, and writes what it reports. On a
terminal and without scripts to compile, an interactive session is started instead.
-/

namespace GameScript

/-- The bytes of a text. -/
def Text.toBytes (t : Text) : ByteArray := ⟨t.bytes.toArray⟩

/-- The text as a string; empty if it is no UTF-8. -/
def Text.toStringOrEmpty (t : Text) : String := (String.fromUTF8? t.toBytes).getD ""

namespace CommandLine

/-- Writes a text to a stream. -/
def put (stream : IO.FS.Stream) (t : Text) : IO Unit := do
  stream.write t.toBytes
  stream.flush

/-- The file at a path, or nothing if it cannot be read. -/
def readText? (path : String) : IO (Option Text) := do
  try
    let data ← IO.FS.readBinFile path
    return some ⟨data.data.toList⟩
  catch _ => return none

/-- The entries of the directory at a path in the order of their names, or nothing if it is none. -/
def entries? (path : String) : IO (Option (List Text)) := do
  try
    let dir := (← IO.currentDir) / path
    if ← dir.isDir then
      let es ← dir.readDir
      return some (Text.sort (es.toList.map fun e => Text.ofString e.fileName))
    else return none
  catch _ => return none

/-- What is at an absolute path below a directory that is searched; only scripts are read. -/
partial def snapshot (path : Text) : IO (Option FileTree) := do
  match ← entries? path.toStringOrEmpty with
  | some names =>
    let mut es : List (Text × FileTree) := []
    for n in names do
      if let some t ← snapshot (path.joinPath n) then es := es ++ [(n, t)]
    return some (.directory es)
  | none =>
    if path.endsWith ".gd" then return (← readText? path.toStringOrEmpty).map .file
    else return some (.file .empty)

/-- The files that a command with some arguments can ask for: the current directory, and what is at the
arguments and at the values of flags. -/
def disk (args : List Text) : IO Disk := do
  let here := Text.ofString (← IO.currentDir).toString
  let empty : Disk := { current := Text.cleanComponents true here }
  let values := args.filterMap fun a => ((Settings.flag? a).bind Prod.snd)
  let named := (args ++ values).filter (!·.startsWith "-")
  let mut d := empty
  for path in Text.dedup (Text.sort (here :: named.map empty.absolute)) do
    let components := Text.cleanComponents true path
    let found ← match ← readText? path.toStringOrEmpty, d.tree.at? components with
      | some t, _ => pure (some (.file t))
      | none, .error _ =>
        if (← entries? path.toStringOrEmpty).isSome then snapshot path else pure none
      | none, .ok _ => pure none
    if let some t := found then d := { d with tree := FileTree.graft t d.tree components }
  return d

/-- Reads lines until the input ends. -/
partial def interact (input out err : IO.FS.Stream) (r : Repl) : IO Unit := do
  put out (match r.pending with
    | some _ => "... "
    | none => ">>> ")
  let line ← input.getLine
  if line.isEmpty then put out "\n"
  else
    let text := Text.ofString line
    let r := r.feed (if text.endsWith "\n" then text.take (text.size - 1) else text)
    put out r.out
    put err r.err
    interact input out err { r with out := .empty, err := .empty }

/-- Writes what a command has done and returns its exit code. -/
def finish (err : IO.FS.Stream) (r : CommandResult) : IO UInt32 := do
  put err r.err
  if let some (path, data) := r.written then
    IO.FS.writeBinFile path.toStringOrEmpty ⟨data.toArray⟩
  return r.exit.toUInt32

end CommandLine

end GameScript

open GameScript CommandLine in
/-- Runs the command with its arguments. -/
def main (args : List String) : IO UInt32 := do
  let err ← IO.getStderr
  let args := args.map Text.ofString
  let d ← disk args
  match Build.prepare d args with
  | .error r => finish err r
  | .ok r =>
    let input ← IO.getStdin
    if r.targets.isEmpty && (← input.isTty) then
      let out ← IO.getStdout
      put out "Welcome to gdc\n"
      interact input out err { compiler := { session := r.session } }
      return 0
    else finish err (Build.compileReady d r)
