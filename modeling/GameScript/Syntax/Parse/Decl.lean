import GameScript.Syntax.Parse.Stmt

/-!
# Parsing classes

The members of classes: variables with their accessors, constants, signals, enumerations, functions and
inner classes.
-/

namespace GameScript.Parse

/-! ### Properties -/

/-- Whether the tokens after a colon start accessors and not a type. -/
def isAccessorStart : Parser Bool := do
  let t ← current
  if t.kind = .newline then return true
  if t.kind ≠ .identifier || (t.raw ≠ "set" && t.raw ≠ "get") then return false
  let next ← peek
  return next = .assign || next = .openParen || next = .colon

/-- The parameter of a setter. -/
def setterParam (sub : Subparsers) : Parser Param := do
  let _ ← consume .openParen
  let name ← ident
  let spec ← if ← accept .colon then some <$> sub.typeSpec else pure none
  let name ← declare name .parameter name.pos
  let _ ← consume .closeParen
  return { name, spec, infer := false, default := none }

/-- The function of an accessor of a property, after its first word. -/
def accessorBody (sub : Subparsers) (property : Text) (word : Ident) (isSet : Bool) : Parser Func := do
  let ((ps, start, stmts), locals) ← inScope { function := word.pos } do
    let ps ←
      if isSet then pure [← setterParam sub]
      else
        if ← accept .openParen then
          let _ ← consume .closeParen
        pure []
    let _ ← consume .colon
    let start ← pos
    return (ps, start, ← suite sub)
  let name := "@" ++ property ++ (if isSet then "_setter" else "_getter" : Text)
  return ⟨word.pos, some { pos := word.pos, name }, ps, none,
    ⟨start, stmts, locals, false, false, false, false⟩, false, .accessor property⟩

/-- One accessor, added to those of the property. In a block it may have a body. -/
def accessor (sub : Subparsers) (d : VarDecl) (inBlock : Bool) : Parser VarDecl := do
  let word ← ident
  let isSet := word.name = "set"
  if !isSet && word.name ≠ "get" then fail word.pos .accessorExpected
  if isSet && (d.setter.isSome || d.setterName.isSome) then fail word.pos .secondSetter
  if !isSet && (d.getter.isSome || d.getterName.isSome) then fail word.pos .secondGetter
  if ← accept .assign then
    let name ← ident
    let d := if isSet then { d with setterName := some name } else { d with getterName := some name }
    if inBlock then endLine
    return { d with finish := name.finish }
  if !inBlock then fail (← pos) (.assignExpected word.name)
  let f ← accessorBody sub d.name.name word isSet
  let d := if isSet then { d with setter := some f } else { d with getter := some f }
  return { d with finish := f.body.finish }

/-- Accessors in a block. -/
def blockAccessors (sub : Subparsers) (d : VarDecl) : Nat → Parser VarDecl
  | 0 => outOfRoom
  | fuel + 1 => do
    let k ← kind
    if k = .outdent || k = .endOfFile then return d
    blockAccessors sub (← accessor sub d true) fuel

/-- Accessors on one line, separated by commas. -/
def lineAccessors (sub : Subparsers) (d : VarDecl) : Nat → Parser VarDecl
  | 0 => outOfRoom
  | fuel + 1 => do
    let d ← accessor sub d false
    if ← accept .comma then lineAccessors sub d fuel else return d

/-- The accessors of a property. -/
def accessors (sub : Subparsers) (d : VarDecl) : Parser VarDecl := do
  if ← accept .newline then
    let _ ← consume .indent
    let d ← blockAccessors sub d (← remaining)
    let _ ← consume .outdent
    modify ({ · with lineEnded := true })
    return d
  else lineAccessors sub d (← remaining)

/-- A variable of a class. -/
def memberVar (sub : Subparsers) : Parser VarDecl := do
  let start ← advance
  let name ← ident
  let bare : VarDecl :=
    ⟨start, name, none, false, none, false, false, false, none, none, none, none, name.finish⟩
  let spec ←
    if ← accept .colon then
      if ← isAccessorStart then return ← accessors sub bare
      some <$> sub.typeSpec
    else pure none
  let d ← varHead sub false start name spec
  if !(← get).lineEnded then
    if ← accept .colon then return ← accessors sub d
  return d

/-! ### Other members -/

/-- The base of a class. -/
def extendsClause : Parser Extends := do
  let pos ← advance
  let path ← if ← isAt .string then some <$> literal else pure none
  if path.isSome then
    if !(← accept .dot) then return { pos, path, names := [] }
  let first ← ident
  return { pos, path, names := first :: (← dottedNames ident (← remaining)) }

/-- An element of an enumeration. -/
def enumElement (sub : Subparsers) : Parser EnumValue := do
  let name ← ident
  let init ← if ← accept .assign then some <$> sub.expr else pure none
  return { name, init }

def enumDecl (sub : Subparsers) : Parser EnumDecl := do
  let pos ← advance
  let name ← if ← isAt .identifier then some <$> ident else pure none
  let _ ← consume .openBrace
  let values ← commaList .closeBrace (enumElement sub) (← remaining)
  return { pos, name, values, close := ← consume .closeBrace }

def signalDecl (sub : Subparsers) : Parser SignalDecl := do
  let pos ← advance
  let name ← ident
  if ← accept .openParen then
    let ps ← params sub false [] (← remaining)
    let close ← consume .closeParen
    return { pos, name, params := ps, finish := close.shift 1 }
  else return { pos, name, params := [], finish := name.finish }

def ClassDecl.add (c : ClassDecl) (ms : List Member) : ClassDecl :=
  { c with members := c.members ++ ms }

/-- A marker in front of a member; some concern the class itself. -/
def memberMarker (sub : Subparsers) (c : ClassDecl) (m : Markers) : Parser (ClassDecl × Markers) := do
  let (name, args, p) ← marker sub
  let m := m.at p
  if name = "tool" then return ({ c with isTool := true }, m)
  else if name = "icon" || name = "static_unload" then return (c, m)
  else if name = "onready" then return (c, { m with onready := true })
  else if name = "export_group" || name = "export_subgroup" || name = "export_category" then
    match args with
    | [] => fail p (.markerNeedsString name)
    | .literal { value := .string s, .. } :: _ =>
      return (ClassDecl.add c [.group { pos := p, marker := name, name := s }], m)
    | x :: _ => fail x.start (.markerNeedsString name)
  else if name = "warning_ignore" then return (c, ← m.ignoring args)
  else if name.startsWith "export" then return (c, { m with isExport := true })
  else fail p (.unknownMarker name)

/-- The markers in front of a member, each followed by any line breaks. -/
def memberMarkers (sub : Subparsers) (c : ClassDecl) (m : Markers) :
    Nat → Parser (ClassDecl × Markers)
  | 0 => outOfRoom
  | fuel + 1 => do
    if ← isAt .marker then
      let (c, m) ← memberMarker sub c m
      skipAll .newline (← remaining)
      memberMarkers sub c m fuel
    else return (c, m)

/-- Members up to the end of an indented block. -/
def members (sub : Subparsers) (c : ClassDecl) : Nat → Parser ClassDecl
  | 0 => outOfRoom
  | fuel + 1 => do
    let k ← kind
    if k = .outdent || k = .endOfFile then return c
    members sub (← sub.member false c) fuel

/-- A class inside another one. -/
def innerClass (sub : Subparsers) : Parser ClassDecl := do
  let start ← advance
  let name ← ident
  let base ← if ← isAt .extendsKw then some <$> extendsClause else pure none
  let _ ← consume .colon
  let c : ClassDecl := ⟨start, some name, base, [], false, false, .none⟩
  if ← accept .newline then
    let _ ← consume .indent
    let c ← members sub c (← remaining)
    return { c with finish := ← consume .outdent }
  else
    let c ← sub.member false c
    return { c with finish := ← pos }

/-- Sets the base of a class that has none yet. -/
def setBase (c : ClassDecl) : Parser ClassDecl := do
  if c.base.isSome then fail (← pos) (.repeated "extends")
  return { c with base := some (← extendsClause) }

/-- Sets the name of the class of a file. -/
def setName (top : Bool) (c : ClassDecl) : Parser ClassDecl := do
  if !top then fail (← pos) .classNameInside
  if c.name.isSome then fail (← pos) (.repeated "class_name")
  let _ ← advance
  let c := { c with name := some (← ident) }
  let c ← if ← isAt .extendsKw then setBase c else pure c
  endLine
  return c

/-- What a member was: the class with it, where it ends, and whether it is a variable. -/
structure MemberResult where
  cls : ClassDecl
  finish : Option Pos := none
  isVar : Bool := false

/-- The member at the current token. -/
def bareMember (sub : Subparsers) (top : Bool) (c : ClassDecl) (m : Markers) : Parser MemberResult := do
  let t ← current
  match t.kind with
  | .varKw =>
    let d ← memberVar sub
    let d := { d with onready := m.onready, isExport := m.isExport }
    let c := ClassDecl.add { c with usesOnready := c.usesOnready || m.onready } [.var d]
    endLine
    return { cls := c, finish := some d.finish, isVar := true }
  | .constKw =>
    let d ← constDecl sub false
    endLine
    return { cls := ClassDecl.add c [.const d], finish := some d.span.finish }
  | .signalKw =>
    let d ← signalDecl sub
    endLine
    return { cls := ClassDecl.add c [.signal d], finish := some d.finish }
  | .enumKw =>
    let d ← enumDecl sub
    let ms := if d.name.isSome then [Member.enum d]
      else (List.range d.values.length).map (Member.enumValue d)
    endLine
    return { cls := ClassDecl.add c ms, finish := some d.span.finish }
  | .staticKw | .funcKw =>
    let isStatic ← accept .staticKw
    let p ← consume .funcKw
    let name ← ident
    let f ← functionRest sub p (some name) isStatic .method
    return { cls := ClassDecl.add c [.func f], finish := some f.finish }
  | .classKw =>
    let d ← innerClass sub
    return { cls := ClassDecl.add c [.cls d], finish := some d.finish }
  | .extendsKw =>
    let c ← setBase c
    endLine
    return { cls := c }
  | .classNameKw => return { cls := ← setName top c }
  | .passKw =>
    let _ ← advance
    endLine
    return { cls := c }
  | .newline | .semicolon =>
    let _ ← advance
    return { cls := c }
  | k => fail t.pos (.inClassBody k)

/-- A member with the markers in front of it. -/
def member (sub : Subparsers) (top : Bool) (c : ClassDecl) : Parser ClassDecl := do
  let (c, m) ← memberMarkers sub c {} (← remaining)
  let k ← kind
  if k = .endOfFile || k = .outdent then
    if m.any then fail (← pos) .memberAfterMarker
    return c
  let r ← bareMember sub top c m
  if !r.isVar then
    if m.onready then fail m.pos (.markerOnlyForVariables "onready")
    if m.isExport then fail m.pos (.markerOnlyForVariables "export")
  match m.ignore, r.finish with
  | some codes, some finish => recordIgnore m.pos finish codes
  | _, _ => pure ()
  return r.cls

/-- Members up to the end of the file. -/
def fileMembers (sub : Subparsers) (c : ClassDecl) : Nat → Parser ClassDecl
  | 0 => outOfRoom
  | fuel + 1 => do
    if ← isAt .endOfFile then return c
    fileMembers sub (← member sub true c) fuel

/-- The parsers of the parts of a construct that has at most `fuel` levels. -/
def subparsers : Nat → Subparsers
  | 0 => default
  | fuel + 1 =>
    { expr := fun s => expr (subparsers fuel) s
      ternary := fun s => ternary (subparsers fuel) s
      level := fun l s => level (subparsers fuel) l s
      sign := fun s => sign (subparsers fuel) s
      powerOperand := fun s => powerOperand (subparsers fuel) s
      await := fun s => await (subparsers fuel) s
      typeSpec := fun s => typeSpec (subparsers fuel) s
      pattern := fun top s => pattern (subparsers fuel) top s
      stmt := fun s => stmt (subparsers fuel) s
      smallStmt := fun s => smallStmt (subparsers fuel) s
      member := fun top c s => member (subparsers fuel) top c s }

/-- A source file. -/
def file (sub : Subparsers) (path : Text) : Parser File := do
  begin
  let n ← remaining
  let c : ClassDecl := ⟨← pos, none, none, [], false, false, .none⟩
  let c ← fileMembers sub c (n + 1)
  let finish ← pos
  return { path, cls := { c with finish }, ignores := (← get).ignores.reverse, extent := n }

/-- A single expression, which a line break may follow. -/
def soleExpr (sub : Subparsers) : Parser Expr := do
  begin
  let x ← expr sub
  let _ ← accept .newline
  let t ← current
  if t.kind ≠ .endOfFile then fail t.pos (.afterExpression t.kind)
  return x

/-- Runs a parser on a text. -/
def onText (p : Subparsers → Parser α) (hasFile : Bool) (source : Text) : Except SyntaxError α := do
  let r := scan source
  let state : State := { tokens := r.tokens, fault := r.fault, hasFile }
  let (x, _) ← (p (subparsers (r.tokens.length + 1))).run state
  return x

end Parse

/-- Parses a source file. -/
def File.parse (path source : Text) : Except SyntaxError File :=
  Parse.onText (Parse.file · path) true source

/-- Parses a single expression. -/
def Expr.parse (source : Text) : Except SyntaxError Expr := Parse.onText Parse.soleExpr false source

end GameScript
