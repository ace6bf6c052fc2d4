import GameScript.Analysis.Session
import GameScript.Text.Literal

/-!
# Settings of a command

Flags come first, as `-name` or `--name`. A flag that is either set or not may be followed by `=` and a
truth value; other flags have a value, after `=` or as the next argument. The first argument that is no
flag ends them, and so does `--`.
-/

namespace GameScript

/-- What a user asks for. -/
structure Settings where
  /-- The directory of the project. -/
  root : Text := "."
  /-- The archive that holds the project; empty if it is in a directory. -/
  archive : Text := ""
  /-- Where the compiled script is written; empty if it is not. -/
  output : Text := ""
  verbose : Bool := false
  /-- Whether the code of each function is shown. -/
  disassemble : Bool := false
  lines : Bool := false
  warningsAsErrors : Bool := false
  allowUntyped : Bool := true
  /-- The classes known by name, with their paths. -/
  classes : Table Text Text := {}
  /-- The scripts that exist from the start, with their paths; an asterisk marks a singleton. -/
  autoloads : Table Text Text := {}
deriving Inhabited

/-- What is wrong with the flags. -/
inductive FlagFault where
  | malformed (arg : Text)
  | unknown (name : Text)
  | noValue (name : Text)
  | notBoolean (name value : Text)
  | notAssignment (name value : Text)
deriving DecidableEq, Inhabited

def FlagFault.message : FlagFault → Text
  | malformed a => "bad flag syntax: " ++ a
  | unknown n => "flag provided but not defined: -" ++ n
  | noValue n => "flag needs an argument: -" ++ n
  | notBoolean n v => "invalid boolean value " ++ v.display ++ " for -" ++ n ++ ": parse error"
  | notAssignment n v =>
    "invalid value " ++ v.display ++ " for flag -" ++ n ++ ": got " ++ v.display ++ ", want name=path"

namespace Settings

/-- The truth value that a text stands for. -/
def boolean? (t : Text) : Option Bool :=
  if (["1", "t", "T", "TRUE", "true", "True"] : List Text).contains t then some true
  else if (["0", "f", "F", "FALSE", "false", "False"] : List Text).contains t then some false
  else none

/-- Sets a flag that is either set or not; none if there is no such flag. -/
def setSwitch? (s : Settings) (name : Text) (b : Bool) : Option Settings :=
  if name = "v" then some { s with verbose := b }
  else if name = "disassemble" then some { s with disassemble := b }
  else if name = "lines" then some { s with lines := b }
  else if name = "Werror" then some { s with warningsAsErrors := b }
  else if name = "untyped" then some { s with allowUntyped := b }
  else if name = "rusage" then some s
  else none

/-- A name and a path with an equals sign between them. -/
def assignment? (t : Text) : Option (Text × Text) :=
  match t.indexOf? 61 with
  | some i => if i = 0 || i + 1 = t.size then none else some (t.take i, t.drop (i + 1))
  | none => none

/-- Sets a flag that has a value; none if there is no such flag. -/
def setValue? (s : Settings) (name value : Text) : Option (Except FlagFault Settings) :=
  let entry (set : Text → Text → Settings) : Except FlagFault Settings :=
    match assignment? value with
    | some (n, p) => .ok (set n p)
    | none => .error (.notAssignment name value)
  if name = "root" then some (.ok { s with root := value })
  else if name = "txtar" then some (.ok { s with archive := value })
  else if name = "o" then some (.ok { s with output := value })
  else if name = "class" then some (entry fun n p => { s with classes := s.classes.set n p })
  else if name = "autoload" then some (entry fun n p => { s with autoloads := s.autoloads.set n p })
  else none

/-- The name of a flag, without its hyphens, and the value after an equals sign; none for an argument
that is no flag. -/
def flag? (arg : Text) : Option (Text × Option Text) :=
  if !arg.startsWith "-" || arg = "-" then none
  else
    let body := if arg.startsWith "--" then arg.drop 2 else arg.drop 1
    match body.indexOf? 61 with
    | some i => if i = 0 then some (body, none) else some (body.take i, some (body.drop (i + 1)))
    | none => some (body, none)

/-- Reads the flags; what follows them is returned too. -/
def read (s : Settings) : List Text → Except FlagFault (Settings × List Text)
  | [] => .ok (s, [])
  | arg :: args =>
    if arg = "--" then .ok (s, args)
    else match flag? arg with
      | none => .ok (s, arg :: args)
      | some (name, value) =>
        if name.isEmpty || name.startsWith "-" || name.startsWith "=" then .error (.malformed arg)
        else match s.setSwitch? name true with
          | some set =>
            match value with
            | none => set.read args
            | some v =>
              match boolean? v with
              | some b => ((s.setSwitch? name b).getD s).read args
              | none => .error (.notBoolean name v)
          | none =>
            match s.setValue? name "", value with
            | none, _ => .error (.unknown name)
            | some _, some v =>
              match s.setValue? name v with
              | some (.ok set) => set.read args
              | some (.error e) => .error e
              | none => .error (.unknown name)
            | some _, none =>
              match args with
              | [] => .error (.noValue name)
              | v :: args =>
                match s.setValue? name v with
                | some (.ok set) => set.read args
                | some (.error e) => .error e
                | none => .error (.unknown name)

/-- The options of analysis and compilation. -/
def options (s : Settings) : Options :=
  { warningsAsErrors := s.warningsAsErrors
    allowUntyped := s.allowUntyped
    debugLines := s.lines }

end Settings

end GameScript
