import CSharpCheck.ActiveText
import CSharpCheck.Gate
import CSharpCheck.Grammar.CompilationUnit

/-!
# Validation

A validation session reads a text once: its directives choose the active text, the grammar reads
that, and the gate turns the findings of both into diagnostics. The findings are the same for all
language versions. A text whose reading breaks off gets no verdict.
-/

namespace CSharpCheck

/-- The options of a session. -/
structure Options where
  version : VersionChoice
  script : Bool
  /-- The symbols that are defined before the first line. -/
  symbols : List String
  /-- The names of the preview features to switch on. -/
  features : List String
  deriving DecidableEq, Repr

namespace Options

/-- The gate of the session. -/
def gate (o : Options) : Gate := .ofChoice o.version o.features

end Options

/-- What one reading of a text brings to light, whatever the language version. -/
structure Survey where
  /-- What is found up to the active tokens. -/
  textFindings : List Finding
  remarks : List Remark
  /-- The tokens for the grammar, unless they do not end with the end of the text. -/
  stream : Option TokenStream
  /-- The progress of the grammar, unless the text has been given up before. -/
  progress : Option Progress
  /-- Why the reading of the text has broken off, unless it has come to the end. -/
  breakdown : Option Breakdown
  deriving DecidableEq, Repr

namespace Survey

/-- Reads tokens by the grammar after what has been found in reading the text for them. -/
def ofTokens (script : Bool) (textFindings : List Finding) (remarks : List Remark)
    (tokens : List Token) : Survey :=
  let stream := TokenStream.ofTokens? tokens
  let progress :=
    if textFindings.any (·.isTooComplex) then none else stream.map (readUnit · script)
  { textFindings, remarks, stream, progress, breakdown := none }

/-- Reads the active text of a source text. -/
def ofText (script : Bool) (symbols : List String) (text : List Char) : Survey :=
  let chunks := activeText script symbols text
  let survey := ofTokens script (chunks.flatMap (·.findings)) (chunks.flatMap (·.remarks))
    (chunks.flatMap (·.tokens))
  { survey with breakdown := chunks.findSome? (·.breakdown) }

/-- Reads a text without looking at its directives, whose tokens the grammar gets. At most `limit`
tokens are kept. -/
def ofAllTokens (script : Bool) (limit : Option Nat) (text : List Char) : Survey :=
  let tokens := tokensOf text
  ofTokens script (tokenFindings text) [] <|
    match limit with
    | none => tokens
    | some limit => tokens.take limit

/-- What the grammar has found. -/
def grammarFindings (s : Survey) : List Finding :=
  (s.progress.map (·.found.reverse)).getD []

/-- Everything that has been found, in the order of reading. -/
def findings (s : Survey) : List Finding := s.textFindings ++ s.grammarFindings

end Survey

/-- The outcome of a session. -/
structure Validation where
  /-- The version that the text was checked against. -/
  version : Version
  /-- The diagnostics in the order of the text. -/
  diagnostics : Diagnostics
  deriving DecidableEq, Repr

namespace Validation

/-- The outcome for what one reading has brought to light. -/
def ofSurvey (gate : Gate) (s : Survey) : Validation :=
  ⟨gate.version, (gate.diagnostics s.findings).sorted⟩

/-- Whether the text has no errors. -/
def success (v : Validation) : Bool := !v.diagnostics.hasErrors

end Validation

/-- The outcome of a session whose reading has not broken off. -/
def Survey.verdict (s : Survey) (gate : Gate) : Except Breakdown Validation :=
  match s.breakdown with
  | some breakdown => .error breakdown
  | none => .ok (.ofSurvey gate s)

/-- Checks a text. -/
def validate (o : Options) (text : List Char) : Except Breakdown Validation :=
  (Survey.ofText o.script o.symbols text).verdict o.gate

end CSharpCheck
