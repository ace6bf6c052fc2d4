import GameScript.Number.Reading
import GameScript.Syntax.Token
import GameScript.Text.Literal
import GameScript.Text.Unicode

/-!
# From text to tokens

Reading tokens from the bytes of a file. Line breaks end statements, except between brackets; the
indentation of a line that has a token on it opens and closes blocks, where a tab counts as four
columns. A zero byte ends the file.
-/

namespace GameScript

/-- Why a text is no sequence of tokens. -/
inductive ScanFault where
  | mixedIndentation
  | unmatchedUnindent
  | strayBackslash
  | unexpectedBracket (c : Nat)
  | unexpectedCharacter (c : Nat)
  | unterminatedString
  | badString (cause : Text.LiteralError)
  | badHexLiteral
  | badBinaryLiteral
  | badFloatLiteral
  | integerTooLarge
  | missingMarkerName
deriving DecidableEq

def ScanFault.message : ScanFault → Text
  | mixedIndentation => "mixed use of tabs and spaces for indentation"
  | unmatchedUnindent => "unindent does not match any outer indentation level"
  | strayBackslash => "stray backslash in program"
  | unexpectedBracket c => "unexpected " ++ Text.displayRune c
  | unexpectedCharacter c => "unexpected input character " ++ Text.displayRune c
  | unterminatedString => "unterminated string literal"
  | badString cause => cause.message
  | badHexLiteral => "invalid hex literal"
  | badBinaryLiteral => "invalid binary literal"
  | badFloatLiteral => "invalid float literal"
  | integerTooLarge => "integer literal is too large"
  | missingMarkerName => "expected annotation name after '@'"

namespace Scan

/-! ### Reading code points -/

/-- The rest of a file and the place where it starts. -/
structure Cursor where
  rest : List UInt8
  pos : Pos := .start
  /-- How many bytes have been read. -/
  offset : Nat := 0
deriving Inhabited

/-- The next code point, 0 at the end. Every line break is a line feed. -/
def Cursor.peek (c : Cursor) : Nat :=
  match c.rest with
  | [] => 0
  | b :: bs => if b = 13 then 10 else (Text.readRune b bs).1.code

/-- The byte at a distance, 0 past the end. -/
def Cursor.byteAt (c : Cursor) (i : Nat) : Nat := ((c.rest.drop i).head?.map UInt8.toNat).getD 0

/-- Passes the next code point. -/
def Cursor.next (c : Cursor) : Cursor :=
  match c.rest with
  | [] => c
  | b :: bs =>
    let extra := if b = 13 then (if bs.head? = some 10 then 1 else 0) else (Text.readRune b bs).2
    { rest := bs.drop extra, pos := c.pos.afterCode c.peek, offset := c.offset + 1 + extra }

/-- Passes code points while `p` holds, at most `fuel` of them. -/
def Cursor.skipFrom (p : Nat → Bool) : Nat → Cursor → Cursor
  | 0, c => c
  | fuel + 1, c => if !c.rest.isEmpty && p c.peek then skipFrom p fuel c.next else c

/-- Passes code points while `p` holds. -/
def Cursor.skip (p : Nat → Bool) (c : Cursor) : Cursor := skipFrom p c.rest.length c

/-- The text from `c` to a later cursor. -/
def Cursor.until (c later : Cursor) : Text := ⟨c.rest.take (later.offset - c.offset)⟩

/-! ### Classes of characters -/

def isDigit (c : Nat) : Bool := 48 ≤ c && c ≤ 57

def isHexDigit (c : Nat) : Bool := isDigit c || (65 ≤ c && c ≤ 70) || (97 ≤ c && c ≤ 102)

/-- Whether a name may start with the character. -/
def isNameStart (c : Nat) : Bool :=
  (97 ≤ c && c ≤ 122) || (65 ≤ c && c ≤ 90) || c = 95 || Text.isLetter c

def isNamePart (c : Nat) : Bool := isDigit c || isNameStart c

def isBlank (c : Nat) : Bool := c = 32 || c = 9

/-! ### Strings and numbers -/

/-- Passes the rest of a string up to its closing `quote`. -/
def closeString (quote : Nat) : Nat → Cursor → Option Cursor
  | 0, _ => none
  | fuel + 1, c =>
    if c.rest.isEmpty then none
    else
      let ch := c.peek
      let c := c.next
      if ch = quote then some c
      else if ch = 10 then none
      else if ch = 92 then (if c.rest.isEmpty then none else closeString quote fuel c.next)
      else closeString quote fuel c

/-- Passes the rest of a string up to three closing quotes, of which `seen` have been passed. -/
def closeTriple (quote : Nat) : Nat → Nat → Cursor → Option Cursor
  | 0, _, _ => none
  | fuel + 1, seen, c =>
    if c.rest.isEmpty then none
    else
      let ch := c.peek
      let c := c.next
      if ch = quote then (if seen = 2 then some c else closeTriple quote fuel (seen + 1) c)
      else if ch = 92 then (if c.rest.isEmpty then none else closeTriple quote fuel 0 c.next)
      else closeTriple quote fuel 0 c

/-- The place and the cause of an error. -/
abbrev Fault := Pos × ScanFault

/-- Reads a string at its opening quote. The token it belongs to starts at `start`. -/
def string (start : Pos) (c : Cursor) : Except Fault (Text × Cursor) := do
  let quote := c.peek
  let triple := c.byteAt 0 = quote && c.byteAt 1 = quote && c.byteAt 2 = quote
  let fuel := c.rest.length + 1
  let closed := if triple then closeTriple quote fuel 0 c.next.next.next
    else closeString quote fuel c.next
  match closed with
  | none => throw (start, .unterminatedString)
  | some c' =>
    match (c.until c').unquote with
    | .error e => throw (c.pos, .badString e)
    | .ok (t, _) => return (t, c')

/-- The value of an integer literal from its digits. -/
def integer (start : Pos) (base : Nat) (digits : Text) : Except Fault Payload :=
  match Text.numberIn? base (Text.withoutUnderscores digits.bytes) with
  | some n => if n < twoTo 63 then .ok (.int (Int64.ofInt n)) else .error (start, .integerTooLarge)
  | none => .error (start, .integerTooLarge)

/-- Reads a number that starts with a digit, or with a point before a digit if `fraction`. -/
def decimal (start : Cursor) (fraction : Bool) (c : Cursor) :
    Except Fault (TokenKind × Payload × Cursor) := do
  let isPart (ch : Nat) : Bool := isDigit ch || ch = 95
  let c := c.skip isPart
  let point := !fraction && c.peek = 46 && c.byteAt 1 ≠ 46 && !isNameStart (c.byteAt 1)
  let c := if point then c.next.skip isPart else c
  let exponent := c.peek = 101 || c.peek = 69
  let c := if exponent then
      let c := c.next
      if c.peek = 43 || c.peek = 45 then c.next else c
    else c
  if exponent && !isDigit c.peek then throw (start.pos, .badFloatLiteral)
  let c := if exponent then c.skip isDigit else c
  let raw := start.until c
  if fraction || point || exponent then
    match (⟨Text.withoutUnderscores raw.bytes⟩ : Text).float? with
    | some x => return (.float, .float x, c)
    | none => throw (start.pos, .badFloatLiteral)
  else return (.int, ← integer start.pos 10 raw, c)

/-- Reads a number or a token that starts with a point. -/
def number (start : Cursor) : Except Fault (TokenKind × Payload × Cursor) := do
  if start.peek = 46 then
    let c := start.next
    if c.peek = 46 then return (.dotDot, .none, c.next)
    else if isDigit c.peek then decimal start true c
    else return (.dot, .none, c)
  else if start.peek = 48 then
    let c := start.next
    if c.peek = 120 || c.peek = 88 then
      let c := c.next
      if !isHexDigit c.peek then throw (start.pos, .badHexLiteral)
      let e := c.skip fun ch => isHexDigit ch || ch = 95
      return (.int, ← integer start.pos 16 (c.until e), e)
    else if c.peek = 98 || c.peek = 66 then
      let c := c.next
      if c.peek ≠ 48 && c.peek ≠ 49 then throw (start.pos, .badBinaryLiteral)
      let e := c.skip fun ch => ch = 48 || ch = 49 || ch = 95
      return (.int, ← integer start.pos 2 (c.until e), e)
    else decimal start false c
  else decimal start false start

/-! ### Punctuation -/

/-- The punctuation tokens; of two that fit, the first in this list is taken. -/
def punctuation : List (List UInt8 × TokenKind) := [
  ([60, 60, 61], .shiftLeftAssign), ([62, 62, 61], .shiftRightAssign),
  ([42, 42, 61], .starStarAssign),
  ([58, 61], .colonAssign), ([61, 61], .equal), ([33, 61], .notEqual), ([60, 60], .shiftLeft),
  ([60, 61], .lessEqual), ([62, 62], .shiftRight), ([62, 61], .greaterEqual), ([43, 61], .plusAssign),
  ([45, 61], .minusAssign), ([45, 62], .arrow), ([47, 61], .slashAssign), ([37, 61], .percentAssign),
  ([38, 38], .ampAmp), ([38, 61], .ampAssign), ([124, 124], .pipePipe), ([124, 61], .pipeAssign),
  ([94, 61], .circumflexAssign), ([42, 42], .starStar), ([42, 61], .starAssign),
  ([58], .colon), ([59], .semicolon), ([126], .tilde), ([61], .assign), ([33], .bang), ([60], .less),
  ([62], .greater), ([43], .plus), ([45], .minus), ([47], .slash), ([37], .percent), ([38], .amp),
  ([124], .pipe), ([94], .circumflex), ([42], .star)]

/-- The punctuation token at the start of bytes, with its length. -/
def punctuation? (bs : List UInt8) : Option (TokenKind × Nat) :=
  (punctuation.find? (·.1.isPrefixOf bs)).map fun (p, k) => (k, p.length)

/-- The token of a bracket, and whether it opens. -/
def bracket? (c : Nat) : Option (TokenKind × Bool) :=
  if c = 91 then some (.openBracket, true) else if c = 40 then some (.openParen, true)
  else if c = 123 then some (.openBrace, true) else if c = 93 then some (.closeBracket, false)
  else if c = 41 then some (.closeParen, false) else if c = 125 then some (.closeBrace, false)
  else none

/-! ### Layout -/

/-- The state between two tokens. -/
structure State where
  cursor : Cursor
  /-- How many brackets are open. -/
  depth : Nat := 0
  /-- The columns of the open blocks, the innermost first; the file itself is at 0. -/
  indents : List Nat := [0]
  /-- Changes of indentation not yet told: positive to open, negative to close blocks. -/
  pending : Int := 0
  /-- Whether the next character is the first of its line. -/
  lineStart : Bool := true
deriving Inhabited

/-- The column that blanks at the start of a line amount to. -/
def column (blanks : List UInt8) : Nat :=
  blanks.foldl (fun n b => if b = 9 then n + 4 else n + 1) 0

/-- Closes the blocks to the right of a column; tells how many, and the blocks that remain. -/
def closeBlocks (col : Nat) : List Nat → Nat × List Nat
  | [] => (0, [])
  | top :: rest =>
    if col < top then let (n, left) := closeBlocks col rest; (n + 1, left) else (0, top :: rest)

/-- Passes the blanks at the start of a line and notes the blocks that it opens or closes. Also tells
whether the line has no token. -/
def indentation (s : State) : Except Fault (State × Bool) := do
  let c := s.cursor.skip isBlank
  let blanks := (s.cursor.until c).bytes
  let s' := { s with cursor := c, lineStart := false }
  let blank := c.peek = 35 || c.peek = 10 || c.peek = 0
  if blank || s.depth ≠ 0 then return (s', blank)
  if blanks.contains 32 && blanks.contains 9 then throw (c.pos, .mixedIndentation)
  let col := column blanks
  let top := s.indents.headD 0
  if top < col then
    return ({ s' with pending := s.pending + 1, indents := col :: s.indents }, blank)
  else
    let (n, left) := closeBlocks col s.indents
    if left.head? ≠ some col then throw (c.pos, .unmatchedUnindent)
    return ({ s' with pending := s.pending - n, indents := left }, blank)

/-! ### Tokens -/

/-- Reads the token at a cursor that is neither at a blank, a comment, a line break nor the end. -/
def token (s : State) : Except Fault (Token × State) := do
  let c := s.cursor
  let ch := c.peek
  let finish (kind : TokenKind) (payload : Payload) (c' : Cursor) : Token × State :=
    (⟨kind, c.pos, c.until c', payload, c'.pos⟩, { s with cursor := c' })
  if ch = 44 then return finish .comma .none c.next
  else if ch = 34 || ch = 39 then
    let (t, c') ← string c.pos c
    return finish .string (.text t) c'
  else if isNameStart ch then
    let c' := c.skip isNamePart
    return finish ((TokenKind.keyword? (c.until c')).getD .identifier) .none c'
  else match bracket? ch with
    | some (kind, true) =>
      let (t, s') := finish kind .none c.next
      return (t, { s' with depth := s.depth + 1 })
    | some (kind, false) =>
      if s.depth = 0 then throw (c.pos, .unexpectedBracket ch)
      let (t, s') := finish kind .none c.next
      return (t, { s' with depth := s.depth - 1 })
    | none =>
      if isDigit ch || ch = 46 then
        let (kind, payload, c') ← number c
        return finish kind payload c'
      else if (ch = 38 || ch = 94) && (c.byteAt 1 = 34 || c.byteAt 1 = 39) then
        let (t, c') ← string c.pos c.next
        return finish (if ch = 38 then .stringName else .nodePath) (.text t) c'
      else if ch = 64 then
        let c' := c.next
        if !isNameStart c'.peek then throw (c'.pos, .missingMarkerName)
        let e := c'.skip isNamePart
        return finish .marker (.text (c'.until e)) e
      else match punctuation? c.rest with
        | some (kind, n) => return finish kind .none (n.repeat Cursor.next c)
        | none => throw (c.pos, .unexpectedCharacter ch)

/-- A token of layout at a cursor. -/
def layout (kind : TokenKind) (c after : Cursor) : Token :=
  ⟨kind, c.pos, if kind = .newline then "\n" else "", .none, after.pos⟩

/-- Reads the next token. Comments, empty lines, line breaks between brackets and line breaks after a
backslash are passed, each at the cost of one unit of fuel. -/
def next : Nat → State → Except Fault (Token × State)
  | 0, s => .ok (layout .endOfFile s.cursor s.cursor, s)
  | fuel + 1, s => do
    let atStart := s.lineStart
    let (s, blank) ← if atStart then indentation s else pure (s, false)
    if s.pending < 0 then
      return (layout .outdent s.cursor s.cursor, { s with pending := s.pending + 1 })
    if 0 < s.pending then
      return (layout .indent s.cursor s.cursor, { s with pending := s.pending - 1 })
    let c := s.cursor.skip isBlank
    let c := if c.peek = 35 then c.skip fun ch => ch ≠ 0 && ch ≠ 10 else c
    let s := { s with cursor := c }
    if c.peek = 10 then
      let s' := { s with cursor := c.next, lineStart := true }
      if blank || 0 < s.depth then next fuel s'
      else return (layout .newline c c.next, s')
    else if c.peek = 0 then
      if s.indents.length > 1 then
        if atStart then
          next fuel { s with pending := 1 - (s.indents.length : Int), indents := [0] }
        else return (layout .newline c c, { s with lineStart := true })
      else return (layout .endOfFile c c, s)
    else if c.peek = 92 then
      let c := c.next
      if c.peek ≠ 10 then throw (c.pos, .strayBackslash)
      next fuel { s with cursor := c.next }
    else token s

/-- The tokens of a file up to its end or the first error. -/
structure Tokens where
  tokens : List Token
  fault : Option Fault := none
deriving Inhabited

/-- Reads tokens from a state on, at most `fuel` of them. -/
def readAll : Nat → State → Tokens
  | 0, _ => ⟨[], none⟩
  | fuel + 1, s =>
    match next (s.cursor.rest.length + 3) s with
    | .error f => ⟨[], some f⟩
    | .ok (t, s') =>
      if t.kind = .endOfFile then ⟨[t], none⟩
      else let r := readAll fuel s'; { r with tokens := t :: r.tokens }

end Scan

/-- The tokens of a source file. -/
def scan (source : Text) : Scan.Tokens :=
  Scan.readAll (3 * source.size + 10) { cursor := { rest := source.bytes } }

end GameScript
