import CSharpCheck.Lexeme.Gap
import CSharpCheck.Lexeme.Plain

/-!
# Interpolated strings

An interpolated string is read as a group: its start, then texts and holes in turn, then its end.
A hole holds ordinary tokens, interpolated strings among them, up to a closing brace or a format
outside of all brackets of the hole. Strings nested in holes beyond `maxOpenHoles` are not read:
the rest of the text becomes a single bad token.
-/

namespace CSharpCheck

/-- The number of holes that may be open at once. -/
def maxOpenHoles : Nat := 64

/-- The opening of an interpolated string. -/
structure Opening where
  /-- The characters before the content. -/
  length : Nat
  verbatim : Bool
  raw : Bool
  /-- Whether the `@` comes before the dollar. -/
  atFirst : Bool
  /-- The number of quotes that close the string. -/
  quotes : Nat
  /-- The number of braces that open a hole. -/
  braces : Nat
  deriving DecidableEq, Repr

/-- The opening of an interpolated string at the beginning of the text. -/
def opening? (text : List Char) : Option Opening :=
  let atFirst := text.head? == some '@'
  let afterAt := if atFirst then text.drop 1 else text
  let dollars := runLength '$' afterAt
  let afterDollars := afterAt.drop dollars
  let atLater := !atFirst && afterDollars.head? == some '@'
  let verbatim := atFirst || atLater
  let quotes := runLength '"' (if atLater then afterDollars.drop 1 else afterDollars)
  let raw := 3 ≤ quotes && !verbatim
  if dollars = 0 ∨ quotes = 0 then none
  else
    some {
      length := (if verbatim then 1 else 0) + dollars + if raw then quotes else 1
      verbatim, raw, atFirst
      quotes := if raw then quotes else 1
      braces := if raw then dollars else 1 }

namespace Opening

/-- The features of the opening itself. -/
def features (o : Opening) : List Feature :=
  .interpolatedStrings ::
    ((if o.atFirst then [.alternativeInterpolatedVerbatim] else []) ++
      if o.raw then [.rawStringLiterals] else [])

/-- The error when the string does not end before a line end or before the end of the text. -/
def unclosedError (o : Opening) (atLineEnd : Bool) : LexicalError :=
  if o.raw then .unterminatedRawString
  else if atLineEnd then .newlineInConstant
  else .unterminatedString

end Opening

/-- The part of a group from some place on: its pieces and faults, counted from the start of the
group, the features that show, and the place where the part ends. -/
structure Part where
  stop : Nat
  pieces : List Piece
  faults : List Fault
  features : List Feature
  deriving DecidableEq, Repr

namespace Part

/-- The part with more at its beginning. -/
def after (p : Part) (pieces : List Piece) (faults : List Fault) (features : List Feature) :
    Part :=
  ⟨p.stop, pieces ++ p.pieces, faults ++ p.faults, features ++ p.features⟩

end Part

/-- The bracket depth after a group of tokens. -/
def bracketDepth (depth : Nat) (pieces : List Piece) : Nat :=
  pieces.foldl (fun depth p ↦
    match p.kind with
    | .symbol .openParen | .symbol .openBracket | .symbol .openBrace => depth + 1
    | .symbol .closeParen | .symbol .closeBracket | .symbol .closeBrace => depth - 1
    | _ => depth) depth

/-- Whether a hole ends at the beginning of the text, outside of brackets: at a closing brace, or
at a colon that is not doubled. -/
def endsHole : List Char → Bool
  | [] => true
  | '}' :: _ => true
  | ':' :: cs => cs.head? != some ':'
  | _ => false

/-- The tokens of a hole; the text starts at `start`, inside `depth` brackets. -/
def holeTokens (scan : List Char → Group) (inDirective : Bool) (depth start : Nat)
    (text : List Char) : Part :=
  let items := gap inDirective text
  let faults := gapFaults start items
  let here := start + gapLength items
  match _h : text.drop (gapLength items) with
  | [] => ⟨here, [], faults, []⟩
  | c :: cs =>
    if depth = 0 ∧ endsHole (c :: cs) then ⟨here, [], faults, []⟩
    else
      let group := scan (c :: cs)
      (holeTokens scan inDirective (bracketDepth depth group.pieces) (here + group.length)
          (cs.drop (group.length - 1))).after
        (group.pieces.map (·.shift here)) (faults ++ group.faults.map (·.shift here)) []
termination_by text.length
decreasing_by
  have := congrArg List.length _h
  simp only [List.length_drop, List.length_cons] at this ⊢
  omega

/-- The number of characters of the format of a hole, with its colon. -/
def formatLength (multiLine : Bool) (text : List Char) : Nat :=
  if text.head? = some ':' then
    (text.takeWhile fun c ↦ c != '}' && c != '"' && (multiLine || !isLineEnd c)).length
  else 0

/-- A hole from its opening braces to its closing braces; the text starts at `start`. -/
def hole (o : Opening) (multiLine : Bool) (scan : List Char → Group) (inDirective : Bool)
    (start : Nat) (text : List Char) : Part :=
  let inside := start + o.braces
  let tokens := holeTokens scan inDirective 0 inside (text.drop o.braces)
  let crossed := ((text.drop o.braces).take (tokens.stop - inside)).any isLineEnd
  let afterTokens := text.drop (tokens.stop - start)
  let format := formatLength multiLine afterTokens
  let close := tokens.stop + format
  let afterFormat := afterTokens.drop format
  let run := (runLength '}' afterFormat).min o.braces
  { stop := close + run
    pieces := .bare .holeStart start o.braces :: tokens.pieces ++
      (if format = 0 then [] else [.bare .holeFormat tokens.stop format]) ++
      [.bare .holeEnd close run]
    faults := tokens.faults ++
      if run = 0 ∧ afterFormat ≠ [] then [⟨.closeBraceExpected, close, close⟩] else []
    features := if crossed && !multiLine then [.newlinesInInterpolations] else [] }

/-- The text token from `start` to `stop`, unless it would be empty. -/
def textPieces (start stop : Nat) : List Piece :=
  if start < stop then [.bare .interpolatedText start (stop - start)] else []

/-- The end of a string that is not closed where the text at `start` begins. -/
def unclosedEnd (o : Opening) (atLineEnd : Bool) (textStart start : Nat) : Part :=
  ⟨start, textPieces textStart start ++ [.bare .interpolatedEnd start 0],
    [⟨o.unclosedError atLineEnd, 0, 0⟩], []⟩

/-- The end of a string at a closing run of quotes at `start`, with the suffix that a raw string
may have. -/
def closedEnd (o : Opening) (textStart start run : Nat) (rest : List Char) : Part :=
  let suffix := if o.raw then utf8SuffixLength rest else 0
  let stop := start + run + suffix
  ⟨stop, textPieces textStart start ++ [.bare .interpolatedEnd start (run + suffix)],
    if o.quotes < run then [⟨.rawTooManyQuotes, start, start + run⟩] else [],
    if suffix = 0 then [] else [.utf8StringLiterals]⟩

/-- What an opening brace begins. -/
inductive BraceRole where
  /-- `length` braces are text. -/
  | text (length : Nat)
  /-- `length` braces are too many to be told apart. -/
  | tooMany (length : Nat)
  /-- After `length` braces of text a hole opens. -/
  | hole (length : Nat)
  deriving DecidableEq, Repr

/-- The role of a run of opening braces. -/
def Opening.braceRole (o : Opening) (run : Nat) : BraceRole :=
  if !o.raw then if 2 ≤ run then .text 2 else .hole 0
  else if run < o.braces then .text run
  else if 2 * o.braces ≤ run then .tooMany run
  else .hole (run - o.braces)

/-- The content and the end of an interpolated string. The text starts at `start`, and the current
text token has begun at `textStart`. -/
def interpolatedBody (o : Opening) (multiLine : Bool) (scan : List Char → Group)
    (inDirective : Bool) (textStart start : Nat) (text : List Char) : Part :=
  match text with
  | [] => unclosedEnd o false textStart start
  | c :: cs =>
    if isLineEnd c && !multiLine then unclosedEnd o true textStart start
    else if c == '"' then
      if o.verbatim && cs.head? == some '"' then
        interpolatedBody o multiLine scan inDirective textStart (start + 2) (cs.drop 1)
      else
        let run := if o.raw then runLength '"' cs + 1 else 1
        if o.quotes ≤ run then closedEnd o textStart start run (cs.drop (run - 1))
        else
          interpolatedBody o multiLine scan inDirective textStart (start + run) (cs.drop (run - 1))
    else if c == '\\' && !o.verbatim && !o.raw then
      let e := escape cs
      (interpolatedBody o multiLine scan inDirective textStart (start + e.length)
        (cs.drop (e.length - 1))).after [] (e.faults start) e.features
    else if c == '\x7b' then
      match o.braceRole (runLength '\x7b' cs + 1) with
      | .text length =>
        interpolatedBody o multiLine scan inDirective textStart (start + length)
          (cs.drop (length - 1))
      | .tooMany length =>
        (interpolatedBody o multiLine scan inDirective textStart (start + length)
          (cs.drop (length - 1))).after [] [⟨.rawTooManyOpenBraces, start, start⟩] []
      | .hole length =>
        let holeStart := start + length
        let part := hole o multiLine scan inDirective holeStart (text.drop length)
        (interpolatedBody o multiLine scan inDirective part.stop part.stop
            (cs.drop (part.stop - start - 1))).after
          (textPieces textStart holeStart ++ part.pieces) part.faults part.features
    else if c == '\x7d' then
      let run := runLength '\x7d' cs + 1
      if o.raw then
        interpolatedBody o multiLine scan inDirective textStart (start + run) (cs.drop (run - 1))
      else if 2 ≤ run then
        interpolatedBody o multiLine scan inDirective textStart (start + 2) (cs.drop 1)
      else
        (interpolatedBody o multiLine scan inDirective textStart (start + 1) cs).after []
          [⟨.unescapedCloseBrace, start, start⟩] []
    else interpolatedBody o multiLine scan inDirective textStart (start + 1) cs
termination_by text.length
decreasing_by all_goals simp only [List.length_drop, List.length_cons]; omega

/-- The interpolated string with the given opening at the beginning of the text, where `scan`
reads the tokens of its holes. -/
def interpolatedGroup (o : Opening) (scan : List Char → Group) (inDirective : Bool)
    (text : List Char) : Group :=
  let content := text.drop o.length
  let multiLine := if o.raw then restOfLineIsBlank content else o.verbatim
  let body := interpolatedBody o multiLine scan inDirective o.length o.length content
  let start : Piece :=
    ⟨.interpolatedStart, 0, o.length, none, Feature.listed (o.features ++ body.features)⟩
  ⟨body.stop, start :: body.pieces, body.faults⟩

/-- The bad token for a text that is too deeply nested to be read on. -/
def givingUp (text : List Char) : Group :=
  ⟨text.length, [.bare .bad 0 text.length], [⟨.tooComplex, 0, 0⟩]⟩

/-- The token or group at the beginning of a text that is not empty, when `room` more holes may be
open inside it. -/
def scanGroup (inDirective : Bool) : (room : Nat) → List Char → Group
  | room, text =>
    match opening? text with
    | none => (plainLexeme text).toGroup
    | some o =>
      match room with
      | 0 => givingUp text
      | room + 1 => interpolatedGroup o (scanGroup inDirective room) inDirective text

end CSharpCheck
