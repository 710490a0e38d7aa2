import CSharpCheck.Lexeme.DirectiveLine
import CSharpCheck.Lexeme.Interpolated

/-!
# Token sources

A token source reads a text scan by scan, as far as it is asked to. Between two scans its reader
may make it skip the lines up to the next directive line, so that text which a directive excludes
is never scanned.
-/

namespace CSharpCheck

/-- A place in a text with the text that is left. -/
structure Cursor where
  rest : List Char
  position : Position
  /-- Whether something other than blanks and unfinished comments stands before on the line. -/
  lineUsed : Bool
  deriving DecidableEq, Repr

namespace Cursor

/-- The beginning of a text. -/
def ofText (text : List Char) : Cursor := ⟨text, .first, false⟩

/-- The position `n` characters further on. -/
def positionAt (c : Cursor) (n : Nat) : Position := c.position.after c.rest n

/-- The cursor `n` characters further on. A new line is not used yet. -/
def advance (c : Cursor) (n : Nat) : Cursor :=
  let p := c.positionAt n
  ⟨c.rest.drop n, p, c.lineUsed && p.line == c.position.line⟩

/-- The cursor behind an element of a gap. The line on which a block comment ends is used. -/
def passItem (c : Cursor) (item : GapItem) : Cursor :=
  let d := c.advance item.length
  match item with
  | .blockComment _ => { d with lineUsed := true }
  | _ => d

/-- The cursor behind a gap. -/
def passGap (c : Cursor) (items : List GapItem) : Cursor := items.foldl passItem c

/-- The span of a fault of a scan that starts at the cursor. -/
def finding (c : Cursor) (f : Fault) : Finding :=
  ⟨.lexical f.error, ⟨c.positionAt f.start, c.positionAt f.stop⟩⟩

/-- The token for a piece of a scan that starts at the cursor. -/
def token (c : Cursor) (atLineStart : Bool) (p : Piece) : Token :=
  let text := (c.rest.drop p.start).take p.length
  { kind := p.kind
    text := String.ofList (if p.kind = .directiveMessage then trimEnd text else text)
    name := p.name
    span := ⟨c.positionAt p.start, c.positionAt (p.start + p.length)⟩
    atLineStart
    features := p.features }

/-- The tokens of a scan that starts at the cursor. Only the first can be the first on its
line. -/
def tokens (c : Cursor) (pieces : List Piece) : List Token :=
  match pieces with
  | [] => []
  | p :: ps => c.token (!c.lineUsed) p :: ps.map (c.token false)

/-- An empty token at the cursor. -/
def emptyToken (c : Cursor) (kind : Kind) (atLineStart : Bool) : Token :=
  ⟨kind, "", none, .point c.position, atLineStart, []⟩

end Cursor

/-- The number of characters from the end of a line to the start of the next line that opens with
a hash, or to the end of the text. -/
def linesToHash (text : List Char) : Nat :=
  match text with
  | [] => 0
  | _ :: cs =>
    let lead := lineEndLength text
    let line := cs.drop (lead - 1)
    if (line.dropWhile isBlank).head? == some '#' then lead
    else
      let length := (restOfLine line).length
      lead + length + linesToHash (line.drop length)
termination_by text.length
decreasing_by simp only [List.length_drop, List.length_cons]; omega

/-- The number of characters of excluded text: the rest of the line, and the lines up to the next
one that opens with a hash. -/
def excludedLength (text : List Char) : Nat :=
  let length := (restOfLine text).length
  length + linesToHash (text.drop length)

/-- The state of reading a text. -/
structure TokenSource where
  cursor : Cursor
  inDirective : Bool
  /-- Whether the end of the text has been delivered as a token. -/
  finished : Bool
  deriving DecidableEq, Repr

/-- What one reading step gives: at least one token, and what was found on the way. -/
structure Reading where
  tokens : List Token
  findings : List Finding
  source : TokenSource
  deriving DecidableEq, Repr

namespace TokenSource

/-- A source that has read nothing of the text. -/
def ofText (text : List Char) : TokenSource := ⟨.ofText text, false, false⟩

/-- The source that has skipped excluded text. -/
def skipExcluded (s : TokenSource) : TokenSource :=
  { s with cursor := { s.cursor.advance (excludedLength s.cursor.rest) with lineUsed := false } }

/-- The reading of a group at the cursor, which is not at the end of the text. -/
def readGroup (s : TokenSource) (findings : List Finding) (c : Cursor) : Reading :=
  let opens := c.rest.head? == some '#' && !c.lineUsed && !s.inDirective
  let group := if opens then directiveOpening c.rest
    else scanGroup s.inDirective maxOpenHoles c.rest
  let faults := Fault.audible s.inDirective group.faults
  { tokens := c.tokens group.pieces
    findings := findings ++ faults.map c.finding
    source :=
      { cursor := { c.advance group.length with lineUsed := true }
        inDirective := s.inDirective || opens
        finished := false } }

/-- The next reading step: the end of a directive line, a group of tokens, or the end of the text.
After the end of the text there is nothing. -/
def read (s : TokenSource) : Option Reading :=
  if s.finished then none
  else
    let items := gap s.inDirective s.cursor.rest
    let faults := Fault.audible s.inDirective (gapFaults 0 items)
    let findings := faults.map s.cursor.finding
    let c := s.cursor.passGap items
    if s.inDirective && c.rest.head?.all isLineEnd then
      some ⟨[c.emptyToken .directiveEnd false], findings, ⟨c, false, false⟩⟩
    else if c.rest = [] then
      some ⟨[c.emptyToken .endOfFile (!c.lineUsed)], findings, ⟨c, s.inDirective, true⟩⟩
    else some (s.readGroup findings c)

/-- A bound on the number of reading steps that are left: a step finishes the source, leaves a
directive line, or takes characters and may enter a directive line. -/
def stepsLeft (s : TokenSource) : Nat :=
  if s.finished then 0 else 2 * s.cursor.rest.length + (if s.inDirective then 1 else 0) + 1

/-- The next reading steps, at most `limit` of them. -/
def readUpTo : (limit : Nat) → TokenSource → List Reading
  | 0, _ => []
  | limit + 1, s =>
    match s.read with
    | none => []
    | some r => r :: readUpTo limit r.source

/-- All reading steps that are left. -/
def readings (s : TokenSource) : List Reading := readUpTo s.stepsLeft s

end TokenSource

/-- The tokens of a text, up to the end of the text. -/
def tokensOf (text : List Char) : List Token :=
  (TokenSource.ofText text).readings.flatMap (·.tokens)

/-- What the reading of all tokens of a text finds. -/
def tokenFindings (text : List Char) : List Finding :=
  (TokenSource.ofText text).readings.flatMap (·.findings)

/-- A token source that delivers its tokens one by one. A reading step happens when a token is
asked for and none is left of the step before. -/
structure TokenFeed where
  source : TokenSource
  waiting : List Token
  deriving DecidableEq, Repr

namespace TokenFeed

/-- A feed that has delivered nothing of the text. -/
def ofText (text : List Char) : TokenFeed := ⟨.ofText text, []⟩

/-- The next token, what was found in the reading step for it, and the feed after it. -/
def next (f : TokenFeed) : Option Token × List Finding × TokenFeed :=
  match f.waiting with
  | t :: ts => (some t, [], { f with waiting := ts })
  | [] =>
    match f.source.read with
    | none => (none, [], f)
    | some r => (r.tokens.head?, r.findings, ⟨r.source, r.tokens.drop 1⟩)

/-- The feed whose source has skipped excluded text. Waiting tokens are still delivered. -/
def skipExcluded (f : TokenFeed) : TokenFeed := { f with source := f.source.skipExcluded }

/-- The place up to which the text has been read. -/
def position (f : TokenFeed) : Position := f.source.cursor.position

end TokenFeed

end CSharpCheck
