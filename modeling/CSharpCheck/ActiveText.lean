import CSharpCheck.Directive.Line
import CSharpCheck.TokenSource

/-!
# Active text

The tokens of a text that its directives leave active. Directive lines are processed as they are
read, and when one of them leaves the text inactive, the lines up to the next directive are
skipped unread. A directive line that cannot be processed is the last thing that is read.
-/

namespace CSharpCheck

/-- What one reading step contributes to the active text. -/
structure Chunk where
  /-- The active tokens of the step. -/
  tokens : List Token
  findings : List Finding
  remarks : List Remark
  /-- What the directives have done up to the end of the step. -/
  state : DirectiveState
  /-- Why nothing is read after the step, unless the reading goes on. -/
  breakdown : Option Breakdown
  deriving DecidableEq, Repr

/-- The state of filtering a text. -/
structure ActiveReader where
  source : TokenSource
  state : DirectiveState
  /-- The tokens of the directive line that is being read, the latest first. -/
  line : List Token
  deriving DecidableEq, Repr

/-- The findings about blocks that are open at the end of the text, one for each kind. -/
def openBlockFindings (blocks : Blocks) (eof : Token) : List Finding :=
  (if blocks.anyOpen .condition then [problemAt .endifExpected eof] else []) ++
    if blocks.anyOpen .region then [problemAt .endregionExpected eof] else []

namespace ActiveReader

/-- A reader that has read nothing of the text. -/
def ofText (text : List Char) (symbols : List String) : ActiveReader :=
  ⟨.ofText text, .initial symbols, []⟩

/-- The directive line that ends with the given token. -/
def lineUpTo (r : ActiveReader) (stop : Token) : Option DirectiveLine :=
  match r.line.reverse with
  | [] => none
  | hash :: body => some ⟨hash, body, stop⟩

/-- The effect of the end of a directive line. -/
def endLine (script : Bool) (r : ActiveReader) (reading : Reading) (stop : Token) :
    Chunk × ActiveReader :=
  let effect :=
    match r.lineUpTo stop with
    | some line => r.state.process script line
    | none => r.state.unchanged []
  let source :=
    if effect.state.active then reading.source else reading.source.skipExcluded
  let breakdown := (r.lineUpTo stop).bind r.state.breakdown?
  (⟨[], reading.findings ++ effect.findings, effect.remarks, effect.state, breakdown⟩,
    ⟨source, effect.state, []⟩)

/-- What a reading step contributes, and the reader after it. -/
def take (script : Bool) (r : ActiveReader) (reading : Reading) : Chunk × ActiveReader :=
  match reading.tokens with
  | [] => (⟨[], reading.findings, [], r.state, none⟩, { r with source := reading.source })
  | t :: _ =>
    if t.kind = .directiveEnd then r.endLine script reading t
    else if t.kind = .directiveStart ∨ r.line ≠ [] then
      (⟨[], reading.findings, [], r.state, none⟩,
        ⟨reading.source, r.state, reading.tokens.reverse ++ r.line⟩)
    else if t.kind = .endOfFile then
      (⟨[t], reading.findings ++ openBlockFindings r.state.blocks t, [], r.state, none⟩,
        { r with source := reading.source })
    else
      let state := { r.state with seenToken := true }
      (⟨reading.tokens, reading.findings, [], state, none⟩, ⟨reading.source, state, []⟩)

/-- The contributions of the next reading steps, at most `limit` of them and none after a
breakdown. -/
def chunksUpTo (script : Bool) : (limit : Nat) → ActiveReader → List Chunk
  | 0, _ => []
  | limit + 1, r =>
    match r.source.read with
    | none => []
    | some reading =>
      let (chunk, r) := r.take script reading
      if chunk.breakdown.isSome then [chunk] else chunk :: chunksUpTo script limit r

end ActiveReader

/-- The active text of a source text, in the steps in which it is read. -/
def activeText (script : Bool) (symbols : List String) (text : List Char) : List Chunk :=
  let r := ActiveReader.ofText text symbols
  r.chunksUpTo script r.source.stepsLeft

end CSharpCheck
