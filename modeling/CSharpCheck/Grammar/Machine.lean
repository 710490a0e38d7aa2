import CSharpCheck.Grammar.Rule

/-!
# The machine that runs rules

The machine holds the text, the place in it, the findings, and whether the next token has been
charged with an error. It runs a rule step by step. A nonterminal is run one nesting level
further in; beyond `maxNesting` levels the machine reports that the text is too complex, moves to
the end and reports no error any more.
-/

namespace CSharpCheck

/-- The number of nonterminals that may be nested in one another. -/
def maxNesting : Nat := 100

/-- A text as the grammar sees it: its tokens and the end of the text. -/
structure TokenStream where
  tokens : Array Token
  eof : Token
  deriving DecidableEq, Repr

namespace TokenStream

/-- The stream of a list of tokens that ends with the end of the text. Bad tokens are left out,
since they have been reported already. -/
def ofTokens? (tokens : List Token) : Option TokenStream :=
  let tokens := tokens.filter (·.kind != .bad)
  match tokens.getLast? with
  | some eof => if eof.kind = .endOfFile then some ⟨tokens.dropLast.toArray, eof⟩ else none
  | none => none

/-- The token at a place, or the end of the text. -/
def token (s : TokenStream) (index : Nat) : Token := s.tokens[index]?.getD s.eof

/-- The number of tokens with the end of the text. -/
def size (s : TokenStream) : Nat := s.tokens.size + 1

end TokenStream

/-- The surroundings in which a rule is run. -/
structure Surroundings where
  stream : TokenStream
  script : Bool
  enclosing : List TypeKind
  deriving DecidableEq, Repr

/-- How far the reading of a text has come. -/
structure Progress where
  index : Nat
  ahead : Ahead
  /-- Whether the next token has been charged with an error. -/
  charged : Bool
  /-- The findings, the latest first. -/
  found : List Finding
  /-- The place at which the reading has been abandoned. -/
  abandonedAt : Option Nat
  deriving DecidableEq, Repr

namespace Progress

/-- The beginning of a text. -/
def start (stream : TokenStream) : Progress := ⟨0, stream.tokens.toList, false, [], none⟩

/-- The progress after moving on over tokens, as far as there are any. -/
def advance (p : Progress) (count : Nat) : Progress :=
  match count, p.ahead with
  | 0, _ | _, [] => p
  | count + 1, _ :: ahead =>
    let moved := (ahead.take count).length
    { p with index := p.index + 1 + moved, ahead := ahead.drop moved, charged := false }

/-- The progress with a finding more. -/
def note (p : Progress) (finding : Finding) : Progress := { p with found := finding :: p.found }

/-- The token before the next one. -/
def previous (p : Progress) (stream : TokenStream) : Option Token :=
  if p.index = 0 then none else some (stream.token (p.index - 1))

/-- The span at which an error is reported. -/
def errorSpan (p : Progress) (stream : TokenStream) (place : ErrorPlace) : Span :=
  match place with
  | .here => (stream.token p.index).span
  | .missing =>
    match p.previous stream with
    | some t => .point t.span.stop
    | none => .point (stream.token p.index).span.start

/-- The progress after an error, which is not reported twice at one token or after the reading
has been abandoned. -/
def report (p : Progress) (stream : TokenStream) (place : ErrorPlace) (e : GrammarError) :
    Progress :=
  if p.charged || p.abandonedAt.isSome then p
  else { p.note ⟨.grammar e, p.errorSpan stream place⟩ with charged := true }

/-- The progress when nonterminals are nested too deeply to read on. -/
def abandon (p : Progress) (stream : TokenStream) : Progress :=
  { index := stream.tokens.size
    ahead := []
    charged := p.charged
    found := ⟨.grammar .tooComplex, (stream.token p.index).span⟩ :: p.found
    abandonedAt := some p.index }

end Progress

namespace Rule

/-- Repeats a round as long as it asks for it and moves on, at most `limit` times. -/
def rounds {σ : Type} (round : σ → Progress → Round σ × Progress) :
    (limit : Nat) → σ → Progress → σ × Progress
  | 0, state, p => (state, p)
  | limit + 1, state, p =>
    match round state p with
    | (.stop state, q) => (state, q)
    | (.again state, q) => if p.index < q.index then rounds round limit state q else (state, q)

/-- Runs a rule, where `enter` runs the nonterminals. -/
def runWith (enter : Surroundings → (q : Nonterminal) → Progress → q.Result × Progress) {α : Type}
    (around : Surroundings) : Rule α → Progress → α × Progress
  | pure result, p => (result, p)
  | look next, p => (next ⟨p.index, p.previous around.stream, p.ahead⟩).runWith enter around p
  | script next, p => (next around.script).runWith enter around p
  | enclosing next, p => (next around.enclosing).runWith enter around p
  | advance count next, p => next.runWith enter around (p.advance count)
  | require feature index next, p =>
    next.runWith enter around (p.note ⟨.use feature, (around.stream.token index).span⟩)
  | report place error next, p => next.runWith enter around (p.report around.stream place error)
  | call q next, p =>
    match enter around q p with
    | (result, p) => (next result).runWith enter around p
  | loop init round next, p =>
    match rounds (fun state p ↦ (round state).runWith enter around p) around.stream.size init p
      with
    | (state, p) => (next state).runWith enter around p
  | within kind body next, p =>
    match body.runWith enter { around with enclosing := kind :: around.enclosing } p with
    | ((), p) => next.runWith enter around p

end Rule

/-- The rules of a grammar, one for each nonterminal. -/
abbrev Rules := (q : Nonterminal) → Rule q.Result

namespace Rules

/-- Runs a nonterminal when `room` levels of nesting are left. -/
def enter (rules : Rules) : (room : Nat) → Surroundings → (q : Nonterminal) → Progress →
    q.Result × Progress
  | room, around, q, p =>
    if p.abandonedAt.isSome then (Nonterminal.Result.unread q, p)
    else
      match room with
      | 0 => (Nonterminal.Result.unread q, p.abandon around.stream)
      | room + 1 => (rules q).runWith (rules.enter room) around p

/-- Runs a rule at the outermost level. -/
def run (rules : Rules) {α : Type} (rule : Rule α) (around : Surroundings) (p : Progress) :
    α × Progress :=
  rule.runWith (rules.enter maxNesting) around p

end Rules

end CSharpCheck
