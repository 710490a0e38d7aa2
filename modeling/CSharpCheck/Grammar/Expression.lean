import CSharpCheck.Grammar.Block
import CSharpCheck.Grammar.Operators

/-!
# Expressions

The rules for expressions, from assignments down to primary expressions, with lambdas, queries
and initializers. Where the language is ambiguous the rules look ahead: a parenthesis is a cast
when a type ends at its closing side and what follows can begin an operand, a less-than sign opens
type arguments when what follows them shows it, and an arrow decides for a lambda.
-/

namespace CSharpCheck

namespace Ahead

/-- Whether a parenthesis at the first token is the beginning of a cast. -/
def isCast (ts : Ahead) : Bool :=
  let inside := ts.drop 1
  match Ahead.typeEnd inside with
  | none => false
  | some stop =>
    match inside.drop stop with
    | [] => false
    | close :: following =>
      close.is .closeParen &&
        if isTypeOnly (inside.take stop) then following.head?.any (·.startsExpression)
        else following.head?.any (·.followsCast)

/-- The tokens after the modifiers of a lambda. -/
def afterLambdaModifiers : Ahead → Ahead
  | [] => []
  | t :: ts =>
    if t.isWord .staticWord ||
        (t.isContextual "async" &&
          (Ahead.isIdentifier ts || Ahead.is ts .openParen || Ahead.isWord ts .staticWord)) then
      afterLambdaModifiers ts
    else t :: ts

/-- Whether a parameter list at the first token is followed by an arrow. -/
def isLambdaParameters (ts : Ahead) : Bool :=
  match ts.matchingClose .openParen .closeParen with
  | none => false
  | some close => Ahead.is (ts.drop (close + 1)) .fatArrow

/-- Whether a lambda begins with the first token. -/
def isLambda (ts : Ahead) : Bool :=
  match ts.attributeSections with
  | none => false
  | some sections =>
    let ts : Ahead := afterLambdaModifiers (ts.drop sections)
    if ts.isIdentifier && ts.tail.is .fatArrow then true
    else if ts.is .openParen then ts.isLambdaParameters
    else
      match ts.typeEnd with
      | none => false
      | some stop =>
        let following : Ahead := ts.drop stop
        following.is .openParen && following.isLambdaParameters

/-- Whether the tokens are a type, a name and one of the symbols. -/
def isDeclarationBefore (ts : Ahead) (symbols : List Symbol) : Bool :=
  match ts.typeEnd with
  | none => false
  | some stop => Ahead.isIdentifier (ts.drop stop) && Ahead.isOneOf (ts.drop (stop + 1)) symbols

/-- Whether the tokens are a type, a name and the word `in`. -/
def isTypedRange (ts : Ahead) : Bool :=
  match ts.typeEnd with
  | none => false
  | some stop => Ahead.isIdentifier (ts.drop stop) && Ahead.isWord (ts.drop (stop + 1)) .inWord

/-- Whether the tokens are a name and the word `in`. -/
def isRange (ts : Ahead) : Bool := ts.isIdentifier && ts.tail.isWord .inWord

/-- Whether a query begins with the word `from` at the first token. -/
def isQuery (ts : Ahead) : Bool := ts.tail.isRange || ts.tail.isTypedRange

/-- Whether the parentheses after `var` at the first token are deconstructed. -/
def isDeconstruction (ts : Ahead) : Bool :=
  ts.tail.is .openParen &&
    match ts.tail.matchingClose .openParen .closeParen with
    | none => false
    | some close =>
      let following : Ahead := ts.drop (close + 2)
      following.is .equals || following.isWord .inWord

/-- Whether the bracket at the first token is closed before an equals sign. -/
def isIndexerInitializer (ts : Ahead) : Bool :=
  match ts.matchingClose .openBracket .closeBracket with
  | none => false
  | some close => Ahead.is (ts.drop (close + 1)) .equals

end Ahead

namespace Rule

/-! ### Arguments and initializers -/

/-- Reads an argument of a call or an indexing that the bracket closes. -/
def argument (closing : Symbol) : Rule Unit := do
  if ← ask fun ts ↦ ts.isIdentifier && ts.tail.is .colon then
    requireHere .namedArguments
    skip 2
  if ← nextWordOf [.refWord, .outWord, .inWord] then
    let modifier ← here
    skipToken
    if ← ask (·.isDeclarationBefore [.comma, closing]) then
      requireAt .outVariableDeclaration modifier
      needType
      skipToken
    else expression
  else expression

/-- Reads the arguments of a call or an indexing, with the closing bracket. -/
def arguments (closing : Symbol) : Rule Unit := do
  unless ← accept closing do
    commaSeparated (argument closing)
    need closing

/-- The rule for initializers in braces. -/
def initializerRule : Rule Unit := do
  if ← expect .openBrace then
    commaSeparatedUpTo .closeBrace do
      if ← next .openBrace then initializer
      else if ← ask fun ts ↦ ts.isIdentifier && ts.tail.is .equals then
        skip 2
        variableInitializer
      else if ← ask fun ts ↦ ts.is .openBracket && ts.isIndexerInitializer then
        takeFeature .dictionaryInitializer
        arguments .closeBracket
        need .equals
        variableInitializer
      else expression
    need .closeBrace

/-- Reads the initializer of an object or a collection. -/
def objectInitializer : Rule Unit := do
  if ← ask fun ts ↦
      (ts.tail.isIdentifier && Ahead.is (ts.drop 2) .equals) || ts.tail.is .openBracket then
    requireHere .objectInitializers
  else requireHere .collectionInitializers
  initializer

/-- Reads an object initializer if there is one. -/
def optionalObjectInitializer : Rule Unit := do
  if ← next .openBrace then objectInitializer

/-- Reads an initializer if there is one. -/
def optionalInitializer : Rule Unit := do
  if ← next .openBrace then initializer

/-- Moves on over the commas of an array rank. -/
def rankCommas : Rule Unit := look fun v ↦ skip (v.ahead.takeWhile (·.is .comma)).length

/-- Reads the rest of an object or array creation after its type. -/
def creationRest (isArray : Bool) : Rule Unit := do
  if ← accept .openBracket then
    arguments .closeBracket
    repeating do
      if ← accept .openBracket then
        rankCommas
        need .closeBracket
        return true
      else return false
    optionalInitializer
  else if ← accept .openParen then
    arguments .closeParen
    optionalObjectInitializer
  else if ← next .openBrace then
    if isArray then initializer else objectInitializer
  else unless isArray do
    errorHere .badNewExpression

/-- Whether the token before the next one is a closing bracket. -/
def afterBracket : Rule Bool := look fun v ↦ pure (v.previous.any (·.is .closeBracket))

/-- Reads a creation of an object or array. -/
def creation : Rule Unit := do
  let start ← here
  skipToken
  if ← next .openParen then
    requireAt .targetTypedNew start
    skipToken
    arguments .closeParen
    optionalObjectInitializer
  else if ← next .openBracket then
    requireAt .implicitlyTypedArrays start
    skipToken
    rankCommas
    need .closeBracket
    if ← next .openBrace then initializer else need .openBrace
  else if ← next .openBrace then
    requireAt .anonymousTypes start
    initializer
  else if ← type false then
    creationRest (← afterBracket)

/-- Reads the initializer of an allocation on the stack if there is one. -/
def optionalStackInitializer : Rule Unit := do
  if ← next .openBrace then
    requireHere .stackallocInitializer
    initializer

/-- Reads an allocation on the stack. -/
def stackAllocation : Rule Unit := do
  skipToken
  if ← accept .openBracket then
    need .closeBracket
    requireHere .stackallocInitializer
    initializer
  else if ← type false then
    if ← accept .openBracket then
      unless ← next .closeBracket do expression
      need .closeBracket
    optionalStackInitializer

/-! ### Primary expressions -/

/-- What has been read of a parenthesised expression or tuple. -/
structure TupleCount where
  elements : Nat
  declarations : Nat
  named : Bool

/-- Reads an element in parentheses after those that have been counted. -/
def tupleElement (count : TupleCount) : Rule TupleCount := do
  let named ← ask fun ts ↦ ts.isIdentifier && ts.tail.is .colon
  if named then skip 2
  let declares ← ask (·.isDeclarationBefore [.comma, .closeParen])
  if declares then
    needType
    skipToken
  else expression
  return ⟨count.elements + 1, count.declarations + if declares then 1 else 0, count.named || named⟩

/-- Notes the features of what has been read in the parentheses that open at `start`. -/
def requireTuple (start : Nat) (count : TupleCount) : Rule Unit := do
  if 1 < count.elements || count.named then requireAt .tuples start
  if 0 < count.declarations then
    requireAt .deconstruction start
    if count.declarations < count.elements then requireAt .mixedDeconstruction start

/-- Reads a parenthesised expression, a tuple or a deconstruction. -/
def parenthesized : Rule Unit := do
  let start ← here
  skipToken
  let count ← commaSeparatedWith ⟨0, 0, false⟩ tupleElement
  need .closeParen
  requireTuple start count

/-- Reads a collection expression. -/
def collection : Rule Unit := do
  takeFeature .collectionExpressions
  commaSeparatedUpTo .closeBracket do
    if ← accept .dotDot then expression
    else
      expression
      if ← next .colon then
        takeFeature .dictionaryExpressions
        expression
  need .closeBracket

/-- Notes the features that the token at a place carries. -/
def requireTokenFeatures (index : Nat) : List Feature → Rule Unit
  | [] => pure ()
  | f :: fs => require f index (requireTokenFeatures index fs)

/-- Notes the features that the next token carries and moves on over it. -/
def tokenWithFeatures : Rule Unit := look fun v ↦ do
  requireTokenFeatures v.index ((v.ahead.head?.map (·.features)).getD [])
  skipToken

/-- Reads the inside of a hole and its end. -/
def holeRule : Rule Unit := do
  skipToken
  expression
  if ← accept .comma then expression
  let _ ← acceptIf (·.isKind .holeFormat)
  unless ← ask (·.isKind .holeEnd) do
    errorMissing (.expected .closeBrace)
    look fun v ↦ skip (v.ahead.toHoleEnd 0)
  let _ ← acceptIf (·.isKind .holeEnd)

/-- Reads an interpolated string. -/
def interpolatedString : Rule Unit := do
  tokenWithFeatures
  repeating do
    if ← acceptIf (·.isKind .interpolatedText) then return true
    else if ← ask (·.isKind .holeStart) then
      holeRule
      return true
    else
      let _ ← acceptIf (·.isKind .interpolatedEnd)
      return false

/-- Reads a clause of a query that introduces a name over a range. -/
def rangeClause : Rule Unit := do
  skipToken
  unless ← ask (·.isRange) do needType
  needIdentifier
  needWord .inWord
  expression

/-- Moves on over the contextual word if it comes next. -/
def acceptContextual (word : String) : Rule Bool := acceptIf (·.isContextual word)

/-- Reads a name after `into` if there is one, and says whether there is. -/
def continuation : Rule Bool := do
  if ← acceptContextual "into" then
    needIdentifier
    return true
  else return false

/-- Reads a clause of a query body and says whether there is one. -/
def queryClause : Rule Bool := do
  if ← nextContextual "from" then
    rangeClause
    return true
  else if ← acceptContextual "let" then
    needIdentifier
    need .equals
    expression
    return true
  else if ← acceptContextual "where" then
    expression
    return true
  else if ← nextContextual "join" then
    rangeClause
    needContextual "on"
    expression
    needContextual "equals"
    expression
    let _ ← continuation
    return true
  else if ← acceptContextual "orderby" then
    commaSeparated do
      expression
      unless ← acceptContextual "ascending" do
        let _ ← acceptContextual "descending"
    return true
  else return false

/-- Reads a query. -/
def query : Rule Unit := do
  requireHere .queryExpressions
  rangeClause
  repeating do
    repeating queryClause
    if ← acceptContextual "select" then
      expression
      continuation
    else if ← acceptContextual "group" then
      expression
      needContextual "by"
      expression
      continuation
    else
      errorMissing .queryBodyEnd
      return false

/-- Reads a primary expression that begins with an identifier. -/
def nameExpression : Rule Unit := do
  if ← ask fun ts ↦ ts.isContextual "from" && ts.isQuery then query
  else
    if ← ask fun ts ↦ ts.isContextual "var" && ts.isDeconstruction then
      requireHere .deconstruction
    skipToken
    if ← next .colonColon then
      takeFeature .namespaceAliasQualifier
      namePart
    else genericSuffix

/-- Reads a type in parentheses. -/
def typeInParentheses : Rule Unit := do
  need .openParen
  needType
  need .closeParen

/-- Reads a primary expression that begins with the reserved word, if one does. -/
def wordExpression (k : Keyword) : Option (Rule Unit) :=
  match k with
  | .trueWord | .falseWord | .nullWord | .thisWord | .baseWord => some skipToken
  | .newWord => some creation
  | .typeofWord | .sizeofWord => some do
    skipToken
    typeInParentheses
  | .defaultWord => some do
    let start ← here
    skipToken
    if ← accept .openParen then
      needType
      need .closeParen
    else requireAt .defaultLiteral start
  | .checkedWord | .uncheckedWord => some do
    skipToken
    condition
  | .delegateWord => some do
    takeFeature .anonymousMethods
    if ← next .openParen then parameters
    block
  | .stackallocWord => some stackAllocation
  | k => if k.namesType then some skipToken else none

/-- Reads a primary expression without what may follow it. -/
def primary : Rule Unit := look fun v ↦
  let invalid : Rule Unit := errorHere (.invalidTerm ((v.ahead.head?.map (·.text)).getD ""))
  match v.ahead.head?.map Token.kind with
  | some .numericLiteral | some .stringLiteral | some .characterLiteral => tokenWithFeatures
  | some .interpolatedStart => interpolatedString
  | some .identifier => nameExpression
  | some (.keyword k) => (wordExpression k).getD invalid
  | some (.symbol .openParen) => parenthesized
  | some (.symbol .openBracket) => collection
  | _ => invalid

/-- Reads one access, call, indexing or postfix operator after a primary expression, and says
whether there was one and whether it was null-conditional. -/
def postfixPart : Rule (Option Bool) := look fun v ↦
  let ts := v.ahead
  if ts.isOneOf [.dot, .arrow] then do
    skipToken
    namePart
    return some false
  else if ts.is .questionDot then do
    takeFeature .nullPropagation
    namePart
    return some true
  else if ts.is .question && ts.tail.is .openBracket &&
      ts.head?.any (fun t ↦ ts.tail.head?.any t.touches) then do
    requireHere .nullPropagation
    skip 2
    arguments .closeBracket
    return some true
  else if ts.is .openParen then do
    skipToken
    arguments .closeParen
    return some false
  else if ts.is .openBracket then do
    skipToken
    arguments .closeBracket
    return some false
  else if ts.isOneOf [.plusPlus, .minusMinus] then do
    skipToken
    return some false
  else if ts.is .bang && v.previous.any (fun t ↦ ts.head?.any t.touches) then do
    takeFeature .nullableReferenceTypes
    return some false
  else return none

/-- Reads a primary expression with all that follows it, and tells whether the access is
null-conditional. -/
def postfixExpression : Rule Bool := do
  primary
  loop false (fun conditional ↦ do
    match ← postfixPart with
    | some c => return .again (conditional || c)
    | none => return .stop conditional) pure

/-! ### Operators -/

/-- Reads the arms of a switch expression. -/
def switchArms (start : Nat) : Rule Unit := do
  requireAt .switchExpression start
  need .openBrace
  commaSeparatedUpTo .closeBrace do
    let _ ← pattern
    if ← acceptContextual "when" then expression
    need .fatArrow
    expression
  need .closeBrace

/-- Reads what comes after the binary operator at `start`, where `operand` reads an operand that
binds tighter. -/
def rightOperand (op : Operator) (start : Nat) (operand : Rule Bool) : Rule Unit := do
  match op with
  | .isOperator =>
    let patternStart ← here
    if (← pattern) == some .constant then requireAt .patternMatching patternStart
  | .asOperator =>
    let _ ← type true
  | .switchOperator => switchArms start
  | .withOperator =>
    requireAt .withExpressions start
    initializer
  | .symbol .dotDot =>
    requireAt .indexAndRange start
    if ← ask fun ts ↦ ts.head?.any (·.startsExpression) then
      let _ ← operand
  | op =>
    if op = .unsignedShiftRight then requireAt .unsignedRightShift start
    let _ ← operand

/-- Reads a binary operator of at least the given precedence and its right operand, which binds
tighter. -/
def binaryRound (precedence : Nat) (operand : Nat → Rule Bool) (conditional : Bool) :
    Rule (Round Bool) := look fun v ↦
  match v.ahead.operator with
  | none => return .stop conditional
  | some (op, count) =>
    match op.precedence with
    | none => return .stop conditional
    | some p =>
      if p < precedence then return .stop conditional
      else do
        skip count
        rightOperand op v.index (operand (p + 1))
        return .again false

/-- Reads an operand and all binary operators of at least the given precedence with their right
operands, no more than `room` of them inside one another. -/
def binaryWithin : (room precedence : Nat) → Rule Bool
  | 0, _ => unary
  | room + 1, precedence => do
    let first ← unary
    loop first (binaryRound precedence (binaryWithin room)) pure

/-- Reads a binary expression whose operators have at least the given precedence. -/
def binary (precedence : Nat) : Rule Bool := binaryWithin Operator.tightest precedence

private theorem binaryRound_eq {precedence : Nat} {operand operand' : Nat → Rule Bool}
    (h : ∀ p < Operator.tightest, precedence ≤ p → operand (p + 1) = operand' (p + 1)) :
    binaryRound precedence operand = binaryRound precedence operand' := by
  funext conditional
  unfold binaryRound
  congr 1
  funext v
  split
  · rfl
  · split
    · rfl
    · next p hp =>
      split
      · rfl
      · next hprecedence =>
        rw [h p (Operator.precedence_lt hp) (Nat.le_of_not_lt hprecedence)]

private theorem binaryWithin_eq {room room' precedence : Nat}
    (h : precedence ≤ Operator.tightest) (hroom : Operator.tightest < room + precedence)
    (hroom' : Operator.tightest < room' + precedence) :
    binaryWithin room precedence = binaryWithin room' precedence := by
  induction room generalizing room' precedence with
  | zero => omega
  | succ room ih =>
    cases room' with
    | zero => omega
    | succ room' =>
      have hoperand (p : Nat) (hp : p < Operator.tightest) (hprecedence : precedence ≤ p) :
          binaryWithin room (p + 1) = binaryWithin room' (p + 1) :=
        ih (by omega) (by omega) (by omega)
      rw [binaryWithin, binaryWithin, binaryRound_eq hoperand]

/-- The room is never used up, since a right operand binds tighter than its operator. -/
theorem binary_eq {precedence : Nat} (hpos : 0 < precedence)
    (h : precedence ≤ Operator.tightest) :
    binary precedence = unary >>= fun first ↦ loop first (binaryRound precedence binary) pure := by
  have hsucc : binary precedence = binaryWithin (Operator.tightest + 1) precedence :=
    binaryWithin_eq h (by omega) (by omega)
  rw [hsucc, binaryWithin]
  rfl

/-- Reads a conditional expression and tells whether it is a null-conditional access. -/
def conditional : Rule Bool := do
  let access ← binary Operator.coalescing
  if ← accept .question then
    if ← nextWord .refWord then requireHere .refConditional
    expression
    need .colon
    expression
    return false
  else return access

/-- The rule for an operand with its unary operators. -/
def unaryRule : Rule Bool := look fun v ↦
  let ts := v.ahead
  let operand : Rule Bool := do
    let _ ← unary
    return false
  if ts.is .caret then do
    takeFeature .indexAndRange
    operand
  else if ts.isOneOf Operator.unarySymbols then do
    skipToken
    operand
  else if ts.is .dotDot then do
    takeFeature .indexAndRange
    if ← ask fun ts ↦ ts.head?.any (·.startsExpression) then operand else return false
  else if ts.is .openParen && ts.isCast then do
    skipToken
    needType
    need .closeParen
    operand
  else if ts.isWord .refWord then do
    takeFeature .refLocalsAndReturns
    operand
  else if ts.isWord .throwWord then do
    takeFeature .throwExpression
    let _ ← binary Operator.coalescing
    return false
  else if ts.isContextual "await" && ts.tail.head?.any (·.startsAwaitOperand) then do
    skipToken
    operand
  else postfixExpression

/-! ### Lambdas and assignments -/

/-- Reads the parameter list of a lambda. -/
def lambdaParameters : Rule Unit := do
  if ← expect .openParen then
    unless ← accept .closeParen do
      commaSeparated do
        attributeSections
        let modifiers ← parameterModifiers
        if ← ask fun ts ↦ ts.isIdentifier && ts.tail.isOneOf [.comma, .closeParen] then
          match modifiers with
          | [] => pure ()
          | m :: _ => requireAt .simpleLambdaParameterModifiers m.index
          skipToken
        else
          if ← type false then needIdentifier
          defaultValue .lambdaOptionalParameters
      need .closeParen

/-- Reads the modifiers of a lambda. -/
def lambdaModifiers : Rule Unit :=
  repeating do
    if ← nextWord .staticWord then
      takeFeature .staticAnonymousFunctions
      return true
    else if ← ask fun ts ↦ ts.isContextual "async" && !ts.tail.is .fatArrow then
      takeFeature .async
      return true
    else return false

/-- Reads the parameters of a lambda, with a return type or without. -/
def lambdaSignature : Rule Unit := do
  if ← ask fun ts ↦ ts.isIdentifier && ts.tail.is .fatArrow then skipToken
  else
    unless ← next .openParen do
      requireHere .lambdaReturnType
      needType
    lambdaParameters

/-- Reads a lambda. -/
def lambda : Rule Unit := do
  whileAhead (·.is .openBracket) do
    requireHere .lambdaAttributes
    let _ ← attributeSection
  lambdaModifiers
  lambdaSignature
  let arrow ← here
  need .fatArrow
  requireAt .lambdas arrow
  if ← next .openBrace then block else expression

/-- The features that an assignment needs. -/
def assignmentFeatures (op : Operator) (toAccess : Bool) : List Feature :=
  (if op = .symbol .questionQuestionEquals then [.nullCoalescingAssignment]
    else if op = .unsignedShiftRightEquals then [.unsignedRightShift]
    else []) ++
    if toAccess then [.nullConditionalAssignment] else []

/-- The rule for expressions: lambdas, and assignments of any number of conditional
expressions. -/
def expressionRule : Rule Bool :=
  loop false (fun _ ↦ do
    if ← ask (·.isLambda) then
      lambda
      return .stop false
    else
      let access ← conditional
      look fun v ↦
        match v.ahead.operator with
        | none => return .stop access
        | some (op, count) =>
          if !op.isAssignment then return .stop access
          else do
            requireTokenFeatures v.index (assignmentFeatures op access)
            skip count
            if ← ask fun ts ↦ op == .symbol .equals && ts.isWord .refWord then
              takeFeature .refReassignment
            return .again false) pure

end Rule

end CSharpCheck
