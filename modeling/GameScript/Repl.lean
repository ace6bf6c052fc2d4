import GameScript.Code.Listing
import GameScript.Compiler

/-!
# Interactive sessions

Each input is analysed as a file of its own. A line that is an expression is shown with its type and, if
it is constant, its value. Other lines are collected up to a blank one and compiled as a class, whose
code is shown. A class with a name is known to the inputs that follow.
-/

namespace GameScript

/-- A line of a report. -/
def Text.line (t : Text) : Text := t ++ "\n"

/-- The listings of functions, one after the other. -/
def Program.listingText (p : Program) (fs : List Function) : Text :=
  .concat (fs.flatMap fun f => (p.listing f).1.map Text.line)

/-- A warning with its place and its code. -/
def Warning.report (path : Text) (w : Warning) : Text :=
  w.pos.textIn path ++ ": " ++ w.caution.message ++ " (" ++ w.caution.code.name ++ ")"

/-- An interactive session. -/
structure Repl where
  compiler : Compiler
  /-- The number of inputs so far. -/
  inputs : Nat := 0
  /-- The lines of a class that is not complete. -/
  pending : Option Text := none
  /-- What has been answered. -/
  out : Text := ""
  /-- What has been reported. -/
  err : Text := ""

namespace Repl

/-- The path of the current input. -/
def path (r : Repl) : Text := "res://<stdin:" ++ Text.ofNat r.inputs ++ ">.gd"

def answer (r : Repl) (t : Text) : Repl := { r with out := r.out ++ t }

def report (r : Repl) (t : Text) : Repl := { r with err := r.err ++ t.line }

/-- Analyses the current input and reports what is found. The number of its file is returned if it has
no errors. -/
def analyze (r : Repl) (file : File) : Option Nat × Repl :=
  let (unit, s) := r.compiler.session.addFile file
  let (failed, s) := s.raise unit .body
  let r := { r with compiler := { r.compiler with session := s } }
  match s.files[unit]? with
  | none => (none, r)
  | some f =>
    let r := f.sortedWarnings.foldl (fun r w => r.report ("warning: " ++ w.report f.path)) r
    let complain (r : Repl) (e : AnalysisError) : Repl :=
      r.report (e.pos.textIn f.path ++ ": " ++ e.complaint.message)
    if failed then (none, (f.failure.getD []).foldl complain r) else (some unit, r)

/-- Parses an input; a syntax error is reported. -/
def parse (r : Repl) (src : Text) : Option File × Repl :=
  match File.parse r.path src with
  | .ok f => (some f, r)
  | .error e => (none, r.report (e.pos.textIn r.path ++ ": " ++ e.message))

/-- The expression that the only function of an input returns. -/
def resultOf (file : File) : Option Expr :=
  file.cls.members.findSome? fun m =>
    match m with
    | .func f =>
      match f.body.stmts with
      | .return _ x _ :: _ => x
      | _ => none
    | _ => none

/-- Shows the type of an expression, and its value if it is constant. -/
def showExpression (r : Repl) (src : Text) : Repl :=
  match r.parse ("func _repl():\n\treturn " ++ src) with
  | (none, r) => r
  | (some file, r) =>
    match r.analyze file with
    | (none, r) => r
    | (some unit, r) =>
      let s := r.compiler.session
      match resultOf (s.annotated unit) with
      | none => r
      | some x =>
        let type := s.types.text x.type
        r.answer (match x.value? with
          | some v => (type ++ " = " ++ v.repr).line
          | none => type.line)

/-- Compiles a class and shows its code. -/
def showClass (r : Repl) (src : Text) : Repl :=
  match r.parse src with
  | (none, r) => r
  | (some file, r) =>
    let known := file.cls.name.bind fun id =>
      (r.compiler.session.env.globalClasses.get? id.name).map (id, ·)
    match known with
    | some (id, previous) =>
      r.report (ClassFault.duplicate r.path id.pos id.name previous).message
    | none =>
      match r.analyze file with
      | (none, r) => r
      | (some unit, r) =>
        match r.compiler.compile unit with
        | (.error e, c) => { r with compiler := c }.report e.message
        | (.ok n, c) =>
          let session := match file.cls.name with
            | some id => c.session.addGlobalClass id.name r.path
            | none => c.session
          let p := c.library.getD n default
          { r with compiler := { c with session } }.answer (p.listingText p.functions)

/-- Reads a line. -/
def feed (r : Repl) (line : Text) : Repl :=
  let isBlank := line.trim.isEmpty
  match r.pending with
  | some src =>
    if isBlank then { r with pending := none }.showClass src
    else { r with pending := some (src ++ line.line) }
  | none =>
    if isBlank then r
    else
      let r := { r with inputs := r.inputs + 1 }
      match Expr.parse line.line with
      | .ok _ => r.showExpression line.line
      | .error _ => { r with pending := some line.line }

/-- A session over a project after it has read some lines. -/
def run (env : Environment) (lines : List Text) : Repl :=
  lines.foldl feed { compiler := { session := { env } } }

end Repl

end GameScript
