import CSharpCheck.Grammar.Pattern

/-!
# Statements

The rules for statements. Whether a statement is a declaration is decided by looking ahead for a
type and a name after it.
-/

namespace CSharpCheck

/-- The kinds of declarations among statements. -/
inductive LocalKind where
  | variable | function
  deriving DecidableEq, Repr

/-- The reserved words that may stand before a local declaration. -/
def localModifierWords : List Keyword :=
  [.constWord, .externWord, .readonlyWord, .refWord, .staticWord, .unsafeWord, .volatileWord]

namespace Ahead

/-- Whether the next token stands before a local declaration as a modifier. -/
def isLocalModifier (ts : Ahead) : Bool :=
  ts.isWordOf localModifierWords ||
    ((ts.isContextual "async" || ts.isContextual "scoped") &&
      (ts.tail.isIdentifier || ts.tail.isKeyword))

/-- The number of modifiers before a local declaration. -/
def localModifiers : Ahead → Nat
  | [] => 0
  | t :: ts => if isLocalModifier (t :: ts) then localModifiers ts + 1 else 0

/-- Whether type arguments at the first token are followed by a parenthesis. -/
def isGenericCall (ts : Ahead) : Bool :=
  ts.is .less &&
    match ts.argumentsEnd with
    | none => false
    | some stop => Ahead.is (ts.drop stop) .openParen

/-- What kind of local declaration comes next, if one does. -/
def localKind (ts : Ahead) : Option LocalKind :=
  let modifiers := ts.localModifiers
  let ts : Ahead := ts.drop modifiers
  if ts.isContextual "await" then none
  else
    match ts.typeEnd with
    | none => none
    | some stop =>
      let after : Ahead := ts.drop (stop + 1)
      if !Ahead.isIdentifier (ts.drop stop) then none
      else if after.is .openParen || after.isGenericCall then some .function
      else if after.isOneOf [.equals, .semicolon, .comma, .openBracket] then some .variable
      else if after.is .colon && Ahead.is (ts.drop (stop - 1)) .question then none
      else if 0 < modifiers || isTypeOnly (ts.take stop) then some .variable
      else none

/-- Whether a label comes next. -/
def isLabel (ts : Ahead) : Bool := ts.isIdentifier && ts.tail.is .colon

/-- Whether a local function with attributes comes next. -/
def isAttributedFunction (ts : Ahead) : Bool :=
  ts.is .openBracket &&
    match ts.attributeSections with
    | none => false
    | some sections => Ahead.localKind (ts.drop sections) == some .function

end Ahead

namespace Rule

/-! ### Declarations among statements -/

/-- The feature that a modifier of a local declaration uses after the modifiers before it. -/
def localModifierFeature? (before : List Placed) (t : Token) : Option Feature :=
  if t.isWord .refWord then some .refLocalsAndReturns
  else if t.isWord .readonlyWord && before.getLast?.any (·.token.isWord .refWord) then
    some .readonlyReferences
  else if t.isContextual "async" then some .async
  else none

/-- Reads the modifiers before a local declaration. -/
def localModifierList : Rule (List Placed) :=
  loop [] (fun modifiers ↦ look fun v ↦
    match v.ahead with
    | [] => return .stop modifiers
    | t :: _ =>
      if v.ahead.isLocalModifier then do
        match localModifierFeature? modifiers t with
        | some f => requireHere f
        | none => pure ()
        skipToken
        return .again (modifiers ++ [⟨v.index, t⟩])
      else return .stop modifiers) pure

/-- Reads the names that a declaration declares, with their values. -/
def variableDeclarators : Rule Unit :=
  commaSeparated do
    needIdentifier
    if ← accept .equals then
      if ← nextWord .refWord then takeFeature .refLocalsAndReturns
      variableInitializer

/-- Reads a declaration of local variables up to what ends it. -/
def localVariables : Rule Unit := do
  let _ ← localModifierList
  needType
  variableDeclarators

/-- Reads a declaration of local variables as a statement. -/
def localDeclaration : Rule Unit := do
  localVariables
  need .semicolon

/-- Notes a feature at each of the modifiers that are the word. -/
def requireAtWord (k : Keyword) (f : Feature) : List Placed → Rule Unit
  | [] => pure ()
  | m :: ms =>
    if m.token.isWord k then require f m.index (requireAtWord k f ms) else requireAtWord k f ms

/-- Reads a local function. -/
def localFunction : Rule Unit := do
  let modifiers ← localModifierList
  requireAtWord .staticWord .staticLocalFunctions modifiers
  needType
  let name ← here
  needIdentifier
  requireAt .localFunctions name
  optionalTypeParameters
  parameters
  constraintClauses
  body none

/-! ### Statements with bodies -/

/-- Reads the statement that another statement governs. A declaration may not stand there. -/
def embeddedStatement : Rule Unit := do
  if ← ask fun ts ↦ ts.localKind.isSome || ts.isLabel then errorHere .embeddedDeclaration
  statement

/-- Reads an if statement. Chains of else branches are read in a loop, so that they do not
nest. -/
def ifStatement : Rule Unit := do
  skipToken
  repeating do
    condition
    embeddedStatement
    if ← acceptWord .elseWord then
      if ← acceptWord .ifWord then return true
      else
        embeddedStatement
        return false
    else return false

/-- Reads a statement that consists of a word, a condition and an embedded statement. -/
def guardedStatement : Rule Unit := do
  skipToken
  condition
  embeddedStatement

/-- Reads a do statement. -/
def doStatement : Rule Unit := do
  skipToken
  embeddedStatement
  needWord .whileWord
  condition
  need .semicolon

/-- Reads variables or expressions, whichever there are. -/
def variablesOr (other : Rule Unit) : Rule Unit := do
  if ← ask fun ts ↦ ts.localKind == some .variable then localVariables else other

/-- Reads a for statement. -/
def forStatement : Rule Unit := do
  skipToken
  need .openParen
  unless ← next .semicolon do variablesOr (commaSeparated expression)
  need .semicolon
  unless ← next .semicolon do expression
  need .semicolon
  unless ← next .closeParen do commaSeparated expression
  need .closeParen
  embeddedStatement

/-- Reads the variable of a foreach statement, which may be a deconstruction. -/
def foreachVariable : Rule Unit := do
  if ← acceptWord .refWord then allowWord .readonlyWord
  if ← ask (·.isTypedRange) then
    needType
    skipToken
  else expression

/-- Reads a foreach statement. -/
def foreachStatement : Rule Unit := do
  skipToken
  need .openParen
  foreachVariable
  needWord .inWord
  expression
  need .closeParen
  embeddedStatement

/-- Reads a label of a switch section. -/
def switchLabel : Rule Unit := do
  if ← nextWord .defaultWord then skip 2
  else
    skipToken
    let start ← here
    if (← pattern) == some .type then requireAt .patternMatching start
    if ← nextContextual "when" then
      takeFeature .patternMatching
      expression
    need .colon

/-- Reads a switch statement. The parentheses of a tuple may serve as those of the statement. -/
def switchStatement : Rule Unit := do
  skipToken
  if ← next .openParen then expression else condition
  if ← expect .openBrace then
    whileAhead (isBefore .closeBrace) <|
      statementOrRecover do
        whileAhead (·.isSwitchLabel) switchLabel
        statements true
    need .closeBrace

/-- Reads a catch clause after its word. -/
def catchClause : Rule Unit := do
  if ← accept .openParen then
    needType
    let _ ← acceptIf (·.isIdentifier)
    need .closeParen
  if ← nextContextual "when" then
    takeFeature .exceptionFilter
    condition
  block

/-- Reads a try statement. -/
def tryStatement : Rule Unit := do
  skipToken
  block
  let caught ← loop false (fun caught ↦ do
    if ← acceptWord .catchWord then
      catchClause
      return .again true
    else return .stop caught) pure
  if ← acceptWord .finallyWord then block
  else unless caught do
    errorHere .catchOrFinallyExpected

/-- Reads a using statement or declaration. -/
def usingStatement : Rule Unit := do
  let start ← here
  skipToken
  if ← accept .openParen then
    variablesOr expression
    need .closeParen
    embeddedStatement
  else
    requireAt .usingDeclarations start
    localDeclaration

/-- Reads a fixed statement. -/
def fixedStatement : Rule Unit := do
  skipToken
  need .openParen
  localVariables
  need .closeParen
  embeddedStatement

/-! ### Statements without bodies -/

/-- Reads a break or continue statement. -/
def jumpStatement : Rule Unit := do
  skipToken
  need .semicolon

/-- Reads a goto statement. -/
def gotoStatement : Rule Unit := do
  skipToken
  if ← acceptWord .caseWord then expression
  else
    unless ← acceptWord .defaultWord do needIdentifier
  need .semicolon

/-- Reads a return or throw statement. -/
def returnStatement : Rule Unit := do
  skipToken
  unless ← next .semicolon do expression
  need .semicolon

/-- Reads a yield statement. -/
def yieldStatement : Rule Unit := do
  takeFeature .iterators
  if ← acceptWord .returnWord then expression else skipToken
  need .semicolon

/-- Reads an expression as a statement. At the top level a script may end with an expression
alone, whose value is its result. -/
def expressionStatement (topLevel : Bool) : Rule Unit := do
  expression
  unless ← accept .semicolon do
    script fun isScript ↦ do
      unless topLevel && isScript && (← ask (·.isEmpty)) do need .semicolon

/-- The rule for a statement that begins with the reserved word, if one does. -/
def wordStatement (k : Keyword) : Option (Rule Unit) :=
  match k with
  | .ifWord => some ifStatement
  | .whileWord | .lockWord => some guardedStatement
  | .doWord => some doStatement
  | .forWord => some forStatement
  | .foreachWord => some foreachStatement
  | .switchWord => some switchStatement
  | .breakWord | .continueWord => some jumpStatement
  | .gotoWord => some gotoStatement
  | .returnWord | .throwWord => some returnStatement
  | .tryWord => some tryStatement
  | .usingWord => some usingStatement
  | .fixedWord => some fixedStatement
  | _ => none

/-- The rule for a statement that begins with the next token as a reserved word, if one does. -/
def wordStatementAhead (ts : Ahead) : Option (Rule Unit) :=
  match ts.head?.map Token.kind with
  | some (.keyword k) => wordStatement k
  | _ => none

/-- The rule for statements. -/
def statementRule (topLevel : Bool) : Rule Unit := look fun v ↦
  let ts := v.ahead
  if ts.is .openBrace then block
  else if ts.is .semicolon then skipToken
  else
    match wordStatementAhead ts with
    | some rule => rule
    | none =>
      if ts.isWordOf [.checkedWord, .uncheckedWord, .unsafeWord] && ts.tail.is .openBrace then do
        skipToken
        block
      else if ts.isAttributedFunction then do
        attributeSections
        localFunction
      else if ts.isContextual "yield" && ts.tail.isWordOf [.returnWord, .breakWord] then
        yieldStatement
      else if ts.isContextual "await" && ts.tail.isWordOf [.foreachWord, .usingWord] then do
        takeFeature .asyncStreams
        if ← nextWord .foreachWord then foreachStatement else usingStatement
      else if ts.isLabel then do
        skip 2
        statement
      else
        match ts.localKind with
        | some .function => localFunction
        | some .variable => localDeclaration
        | none => expressionStatement topLevel

end Rule

end CSharpCheck
