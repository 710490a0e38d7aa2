import CSharpCheck.Directive.Block
import CSharpCheck.Directive.Condition
import CSharpCheck.Finding

/-!
# Directive lines

What a directive line does: it opens, switches or closes a block, defines or undefines a symbol,
or is only checked. Inside inactive text the directives of blocks keep the nesting of blocks and
all other directives are ignored.
-/

namespace CSharpCheck

/-- The tokens of a directive line: the hash, what follows it, and the end of the line. -/
structure DirectiveLine where
  hash : Token
  body : List Token
  stop : Token
  deriving DecidableEq, Repr

/-- What the directives of a text have done so far. -/
structure DirectiveState where
  /-- The defined symbols. -/
  symbols : List String
  blocks : Blocks
  /-- Whether a token of active text has been seen. -/
  seenToken : Bool
  deriving DecidableEq, Repr

/-- A step of directive processing that a verbose session reports. -/
inductive Remark where
  | directive (name : String) (place : Position)
  | condition (holds : Bool)
  deriving DecidableEq, Repr

/-- The effect of a directive line. -/
structure Effect where
  state : DirectiveState
  findings : List Finding
  remarks : List Remark
  deriving DecidableEq, Repr

/-- Why the reading of a text breaks off. -/
inductive Breakdown where
  /-- The number of a line directive has more digits than numbers may have. -/
  | numberTooLong (digits : Nat)
  deriving DecidableEq, Repr

namespace Breakdown

/-- The greatest number of digits of a number that is read. -/
def maxDigits : Nat := 4300

/-- The text that describes the breakdown. -/
def message : Breakdown → String
  | .numberTooLong digits =>
    "Exceeds the limit (" ++ toString maxDigits ++ " digits) for integer string conversion: " ++
      "value has " ++ toString digits ++ " digits; use sys.set_int_max_str_digits() to increase " ++
      "the limit"

end Breakdown

/-- The directives. -/
inductive DirectiveName where
  | ifName | elifName | elseName | endifName | region | endregion | define | undef
  | error | warning | line | pragma | nullable | reference | load
  deriving DecidableEq, Repr

namespace DirectiveName

/-- The directive that a word names. -/
def ofText? : String → Option DirectiveName
  | "if" => some .ifName
  | "elif" => some .elifName
  | "else" => some .elseName
  | "endif" => some .endifName
  | "region" => some .region
  | "endregion" => some .endregion
  | "define" => some .define
  | "undef" => some .undef
  | "error" => some .error
  | "warning" => some .warning
  | "line" => some .line
  | "pragma" => some .pragma
  | "nullable" => some .nullable
  | "r" => some .reference
  | "load" => some .load
  | _ => none

end DirectiveName

/-- A problem of a directive at a token. -/
def problemAt (problem : DirectiveProblem) (t : Token) : Finding := ⟨.directive problem, t.span⟩

/-- The finding that tokens are left where the directive ends. -/
def leftover (ts : List Token) : List Finding :=
  match ts with
  | [] => []
  | t :: _ => [problemAt .endOfDirectiveExpected t]

/-- The value of a condition and what its reading finds. A condition that cannot be read counts
as false. -/
def evaluate (symbols : List String) (args : List Token) (stop : Token) :
    Bool × List Finding × List Remark :=
  match Condition.read symbols args with
  | .value holds rest => (holds, leftover rest, [.condition holds])
  | .invalid offender => (false, [problemAt .invalidCondition (offender.getD stop)], [])

namespace DirectiveState

/-- Whether text at this place is active. -/
def active (s : DirectiveState) : Bool := s.blocks.active

/-- The state before the first line of a text. -/
def initial (symbols : List String) : DirectiveState := ⟨symbols, [], false⟩

/-- The effect that is nothing but findings. -/
def unchanged (s : DirectiveState) (findings : List Finding) : Effect := ⟨s, findings, []⟩

/-- The value of a condition where `evaluated` says whether it counts. -/
def condition (s : DirectiveState) (evaluated : Bool) (args : List Token) (stop : Token) :
    Bool × List Finding × List Remark :=
  if evaluated then evaluate s.symbols args stop else (false, [], [])

/-- Opens a block with a condition. -/
def openIf (s : DirectiveState) (name : Token) (args : List Token) (stop : Token) : Effect :=
  let (holds, findings, remarks) := s.condition s.active args stop
  ⟨{ s with blocks := .opened name.span s.active holds :: s.blocks }, findings, remarks⟩

/-- Begins a further branch with a condition. -/
def elseIf (s : DirectiveState) (b : Block) (outer : Blocks) (name : Token) (args : List Token)
    (stop : Token) : Effect :=
  if b.elseSeen then
    ⟨{ s with blocks := b.misplacedBranch :: outer },
      if b.parentActive then [problemAt .unexpectedDirective name] else [], []⟩
  else
    let (holds, findings, remarks) := s.condition b.parentActive args stop
    ⟨{ s with blocks := b.elseIf holds :: outer }, findings, remarks⟩

/-- Begins the last branch. -/
def otherwise (s : DirectiveState) (b : Block) (outer : Blocks) (name : Token)
    (args : List Token) : Effect :=
  if b.elseSeen then
    ⟨{ s with blocks := b.misplacedBranch :: outer },
      if b.parentActive then [problemAt .unexpectedDirective name] else [], []⟩
  else
    ⟨{ s with blocks := b.otherwise :: outer }, if b.parentActive then leftover args else [], []⟩

/-- Applies a directive to the innermost block, which has to be one with a condition. -/
def onCondition (s : DirectiveState) (name : Token) (apply : Block → Blocks → Effect) : Effect :=
  match s.blocks with
  | [] => s.unchanged [problemAt .unexpectedDirective name]
  | b :: outer =>
    if b.kind = .condition then apply b outer
    else s.unchanged [problemAt .endregionExpected name]

/-- Closes a block with a condition. -/
def endIf (s : DirectiveState) (b : Block) (outer : Blocks) (args : List Token) : Effect :=
  ⟨{ s with blocks := outer }, if b.parentActive then leftover args else [], []⟩

/-- Closes a region. -/
def endRegion (s : DirectiveState) (name : Token) : Effect :=
  match s.blocks with
  | [] => s.unchanged [problemAt .unexpectedDirective name]
  | b :: outer =>
    if b.kind = .region then ⟨{ s with blocks := outer }, [], []⟩
    else s.unchanged [problemAt .endifExpected name]

/-- Defines or undefines a symbol, which only works before the first token. -/
def define (s : DirectiveState) (defined : Bool) (name : Token) (args : List Token)
    (stop : Token) : Effect :=
  match args with
  | [] => s.unchanged [problemAt .identifierExpected stop]
  | t :: rest =>
    if !t.isIdentifier then s.unchanged [problemAt .identifierExpected t]
    else if s.seenToken then s.unchanged [problemAt .defineAfterToken name]
    else
      let symbol := t.name.getD ""
      let others := s.symbols.filter (· != symbol)
      ⟨{ s with symbols := if defined then symbol :: others else others }, leftover rest, []⟩

end DirectiveState

/-- The greatest line number that a line directive may give. -/
def maxLineNumber : Nat := 0xfeefed

/-- Whether the text is a decimal number from one to the greatest line number. -/
def isLineNumber (text : String) : Bool :=
  text.toList != [] && text.toList.all Char.isDigit &&
    (let n := text.toList.foldl (fun n c ↦ 10 * n + (c.toNat - 48)) 0
     1 ≤ n && n ≤ maxLineNumber)

/-- The findings of a directive that sets the line number. -/
def lineFindings (args : List Token) (stop : Token) : List Finding :=
  match args with
  | [] => [problemAt .invalidLineNumber stop]
  | t :: rest =>
    if t.isWord .defaultWord || t.isContextual "hidden" then leftover rest
    else if t.kind = .numericLiteral ∧ isLineNumber t.text then
      match rest with
      | u :: rest' => if u.kind = .stringLiteral then leftover rest' else leftover rest
      | [] => []
    else [problemAt .invalidLineNumber t]

/-- Why the reading breaks off at a directive that sets the line number: leading zeros count as
digits, too. -/
def lineBreakdown? (args : List Token) : Option Breakdown :=
  match args with
  | [] => none
  | t :: _ =>
    let digits := t.text.toList
    if t.kind = .numericLiteral ∧ digits.all Char.isDigit ∧ Breakdown.maxDigits < digits.length then
      some (.numberTooLong digits.length)
    else none

/-- The findings of the list of warnings in a pragma: names and numbers with commas between. -/
def warningListFindings (nameNext : Bool) : List Token → List Finding
  | [] => []
  | t :: ts =>
    if nameNext && (t.isIdentifier || t.kind == .numericLiteral) then warningListFindings false ts
    else if !nameNext && t.is .comma then warningListFindings true ts
    else [problemAt .pragmaIdentifierExpected t]

/-- The findings of a pragma that gives a checksum: three strings. -/
def checksumFindings (args : List Token) (stop : Token) : List Finding :=
  let strings := args.take 3
  match strings.find? (·.kind != .stringLiteral) with
  | some t => [problemAt .invalidChecksum t]
  | none =>
    if strings.length < 3 then [problemAt .invalidChecksum stop] else leftover (args.drop 3)

/-- The findings of a pragma. -/
def pragmaFindings (args : List Token) (stop : Token) : List Finding :=
  match args with
  | [] => [problemAt .unrecognizedPragma stop]
  | t :: rest =>
    if t.text == "warning" then
      match rest with
      | [] => [problemAt .pragmaActionExpected stop]
      | action :: ids =>
        if action.text == "disable" || action.text == "restore" then warningListFindings true ids
        else [problemAt .pragmaActionExpected action]
    else if t.text == "checksum" then checksumFindings rest stop
    else [problemAt .unrecognizedPragma t]

/-- The findings of a directive that sets the nullable context. -/
def nullableFindings (name : Token) (args : List Token) (stop : Token) : List Finding :=
  ⟨.use .nullableReferenceTypes, name.span⟩ ::
    match args with
    | [] => [problemAt .nullableSettingExpected stop]
    | setting :: rest =>
      if ["enable", "disable", "restore"].contains setting.text then
        match rest with
        | [] => []
        | target :: rest =>
          if ["warnings", "annotations"].contains target.text then leftover rest
          else [problemAt .nullableTargetExpected target]
      else [problemAt .nullableSettingExpected setting]

/-- The findings of a directive that names a file and may stand in scripts only, before the first
token. -/
def fileFindings (script seenToken : Bool) (name : Token) (args : List Token) (stop : Token) :
    List Finding :=
  if !script then [problemAt (.scriptOnly name.text) name]
  else if seenToken then [problemAt (.scriptAfterToken name.text) name]
  else
    match args with
    | [] => [problemAt .fileNameExpected stop]
    | t :: rest =>
      if t.kind = .stringLiteral then leftover rest else [problemAt .fileNameExpected t]

namespace DirectiveState

/-- The effect of a directive that is ignored in inactive text. -/
def ifActive (s : DirectiveState) (effect : Effect) : Effect :=
  if s.active then effect else s.unchanged []

/-- The effect of the directive `directive`, whose name is the token `name`. -/
def apply (script : Bool) (s : DirectiveState) (directive : Option DirectiveName) (name : Token)
    (args : List Token) (stop : Token) : Effect :=
  let message := (args.head?.map (·.text)).getD ""
  let checked (findings : List Finding) : Effect := s.ifActive (s.unchanged findings)
  match directive with
  | some .ifName => s.openIf name args stop
  | some .elifName => s.onCondition name fun b outer ↦ s.elseIf b outer name args stop
  | some .elseName => s.onCondition name fun b outer ↦ s.otherwise b outer name args
  | some .endifName => s.onCondition name fun b outer ↦ s.endIf b outer args
  | some .region => ⟨{ s with blocks := .region name.span s.active :: s.blocks }, [], []⟩
  | some .endregion => s.endRegion name
  | some .define => s.ifActive (s.define true name args stop)
  | some .undef => s.ifActive (s.define false name args stop)
  | some .error => checked [problemAt (.errorText message) name]
  | some .warning => checked [problemAt (.warningText message) name]
  | some .line => checked (lineFindings args stop)
  | some .pragma => checked (pragmaFindings args stop)
  | some .nullable => checked (nullableFindings name args stop)
  | some .reference | some .load => checked (fileFindings script s.seenToken name args stop)
  | none => checked [problemAt .directiveExpected name]

/-- The effect of a directive line. A line that opens with an exclamation mark is allowed at the
very beginning of a script. -/
def process (script : Bool) (s : DirectiveState) (line : DirectiveLine) : Effect :=
  let nameless := s.ifActive (s.unchanged [problemAt .directiveExpected line.hash])
  match line.body with
  | [] => nameless
  | name :: args =>
    if name.kind = .directiveMessage then
      if script && line.hash.span.start.offset == 0 then s.unchanged [] else nameless
    else if name.isIdentifier || name.isKeyword then
      let effect := s.apply script (DirectiveName.ofText? name.text) name args line.stop
      { effect with
        remarks := .directive name.text line.hash.span.start :: effect.remarks }
    else nameless

/-- Why the reading breaks off at a directive line, unless it goes on. Only active text is read
closely enough to break off. -/
def breakdown? (s : DirectiveState) (line : DirectiveLine) : Option Breakdown :=
  match line.body with
  | [] => none
  | name :: args =>
    if s.active && (name.isIdentifier || name.isKeyword) &&
        DirectiveName.ofText? name.text == some .line then lineBreakdown? args
    else none

end DirectiveState

end CSharpCheck
