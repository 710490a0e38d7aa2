import CSharpCheck.Grammar.Statement

/-!
# Declarations

The rules for type declarations and for the members of types, namespaces and scripts.
-/

namespace CSharpCheck

/-- The reserved words that may modify a declaration. -/
def modifierWords : List Keyword :=
  [.abstractWord, .externWord, .fixedWord, .internalWord, .newWord, .overrideWord, .privateWord,
   .protectedWord, .publicWord, .readonlyWord, .refWord, .sealedWord, .staticWord, .unsafeWord,
   .virtualWord, .volatileWord]

/-- The contextual words that may modify a declaration. -/
def contextualModifiers : List String := ["async", "file", "partial", "required"]

/-- The modifiers among the reserved words that only a member of a type can have. -/
def memberModifierWords : List Keyword :=
  [.abstractWord, .internalWord, .overrideWord, .privateWord, .protectedWord, .publicWord,
   .sealedWord, .virtualWord]

namespace Ahead

/-- Whether the contextual word at the first token is used as a modifier and not as a name. -/
def precedesDeclaration (ts : Ahead) : Bool :=
  ts.tail.isKeyword ||
    (ts.tail.isIdentifier &&
      !Ahead.isOneOf (ts.drop 2) [.equals, .semicolon, .comma, .openParen, .openBrace, .fatArrow,
        .openBracket, .closeParen])

/-- Whether the next token is a modifier of a declaration. -/
def isModifier (ts : Ahead) : Bool :=
  ts.isWordOf modifierWords ||
    (ts.head?.any (fun t ↦ t.isIdentifier && contextualModifiers.contains t.text) &&
      ts.precedesDeclaration)

/-- Whether the next token is a modifier that only a member of a type can have. -/
def isMemberModifier (ts : Ahead) : Bool :=
  ts.isWordOf memberModifierWords || ts.isContextual "required"

/-- The number of modifiers that come next. -/
def modifiers : Ahead → Nat
  | [] => 0
  | t :: ts => if isModifier (t :: ts) then modifiers ts + 1 else 0

/-- Whether a modifier comes next that only a member of a type can have, perhaps after others. -/
def hasMemberModifier : Ahead → Bool
  | [] => false
  | t :: ts => isModifier (t :: ts) && (isMemberModifier (t :: ts) || hasMemberModifier ts)

/-- Whether a type declaration begins with the next token. A local variable may have a type that
is named `record`. -/
def isTypeKeyword (ts : Ahead) : Bool :=
  ts.isWordOf [.classWord, .structWord, .interfaceWord, .enumWord] ||
    (ts.isWord .delegateWord && !ts.tail.isOneOf [.openParen, .openBrace, .star]) ||
    (ts.isContextual "record" &&
      (ts.tail.isWordOf [.classWord, .structWord] ||
        (ts.tail.isIdentifier && !Ahead.isOneOf (ts.drop 2) [.equals, .comma])))

/-- Whether a type declaration comes next, with its attributes and modifiers. -/
def isTypeDeclaration (ts : Ahead) : Bool :=
  match ts.attributeSections with
  | none => false
  | some sections =>
    let ts : Ahead := ts.drop sections
    Ahead.isTypeKeyword (ts.drop ts.modifiers)

/-- The number of tokens in the type arguments of a qualifier, which may come next, unless what
comes next is no part of a qualifier. -/
def qualifierArguments (ts : Ahead) : Option Nat :=
  if ts.is .less then
    match ts.argumentsEnd with
    | none => none
    | some stop => if Ahead.is (ts.drop stop) .dot then some stop else none
  else some 0

/-- The number of tokens in the name of a member at the first token, which may be qualified by the
interface that it implements. -/
def declaredName (ts : Ahead) : Nat :=
  match ts with
  | [] => 1
  | _ :: rest =>
    let arguments : Nat := (qualifierArguments rest).getD 0
    let following : Ahead := rest.drop arguments
    if following.is .dot && following.tail.isIdentifier then
      arguments + 2 + declaredName following.tail
    else arguments + 1
termination_by ts.length
decreasing_by simp +zetaDelta only [tail, List.length_drop, List.length_cons]; omega

/-- Whether a declaration comes next that only the body of a type admits. Methods and fields are
not among them, since they read as local functions and variables. -/
def isMemberOnly (ts : Ahead) : Bool :=
  let rest : Ahead := ts.drop ts.modifiers
  ts.is .openBracket ||
    rest.isWordOf [.eventWord, .operatorWord, .implicitWord, .explicitWord] || rest.is .tilde ||
    (match rest.typeEnd with
      | none => false
      | some stop =>
        let after : Ahead := rest.drop stop
        after.isWordOf [.thisWord, .operatorWord] ||
          (after.isIdentifier &&
            Ahead.isOneOf (after.drop after.declaredName) [.openBrace, .fatArrow])) ||
    ts.hasMemberModifier

end Ahead

namespace Rule

/-! ### Modifiers and names -/

/-- The place of the first of the modifiers that is the word. -/
def placeOf? (k : Keyword) (modifiers : List Placed) : Option Nat :=
  (modifiers.find? (·.token.isWord k)).map (·.index)

/-- The place of the last of the modifiers with the text. -/
def lastPlaceOf? (text : String) (modifiers : List Placed) : Option Nat :=
  (modifiers.reverse.find? (·.token.text == text)).map (·.index)

/-- Notes a feature at a place, if there is one. -/
def requireAtPlace (f : Feature) : Option Nat → Rule Unit
  | none => pure ()
  | some index => requireAt f index

/-- Notes a feature at each of the modifiers with the text. -/
def requireAtText (text : String) (f : Feature) : List Placed → Rule Unit
  | [] => pure ()
  | m :: ms =>
    if m.token.text == text then require f m.index (requireAtText text f ms)
    else requireAtText text f ms

/-- The feature that a contextual modifier uses wherever it stands. -/
def modifierFeature? (t : Token) : Option Feature :=
  match t.text with
  | "async" => some .async
  | "required" => some .requiredMembers
  | "file" => some .fileLocalTypes
  | _ => none

/-- Notes the features that contextual modifiers use wherever they stand. -/
def requireModifiers : List Placed → Rule Unit
  | [] => pure ()
  | m :: ms =>
    match modifierFeature? m.token with
    | some f => require f m.index (requireModifiers ms)
    | none => requireModifiers ms

/-- Reads the modifiers of a declaration. -/
def modifierList : Rule (List Placed) := look fun v ↦ do
  let count := v.ahead.modifiers
  let modifiers := (v.ahead.take count).zipIdx.map fun (t, offset) ↦ ⟨v.index + offset, t⟩
  skip count
  match placeOf? .privateWord modifiers, placeOf? .protectedWord modifiers with
  | some i, some j => requireAt .privateProtected (max i j)
  | _, _ => pure ()
  requireModifiers modifiers
  return modifiers

/-- Notes the features of modifiers that make a member return by reference. -/
def requireReferences (previous : Option Token) : List Placed → Rule Unit
  | [] => pure ()
  | m :: ms =>
    let rest := requireReferences (some m.token) ms
    if m.token.isWord .refWord then require .refLocalsAndReturns m.index rest
    else if m.token.isWord .readonlyWord && previous.any (·.isWord .refWord) then
      require .readonlyReferences m.index rest
    else rest

/-- Notes a feature at each `readonly` among the modifiers of a member. -/
def requireReadonlyMember : List Placed → Rule Unit := requireAtWord .readonlyWord .readonlyMembers

/-- Reads a dot and the part of a member's name after it. Tells whether the name has ended, and if
so, whether it has ended before `this`. -/
def qualifiedPart : Rule (Round Bool) := look fun v ↦
  if !v.ahead.is .dot then return .stop false
  else if v.ahead.tail.isWord .thisWord then do
    skipToken
    return .stop true
  else if !v.ahead.tail.isIdentifier then return .stop false
  else do
    skip 2
    return .again false

/-- Reads the name of a member, which may be qualified by the interface that it implements. Tells
whether the name ends in `this`, which is still to be read. -/
def memberName : Rule Bool := do
  skipToken
  loop false (fun _ ↦ look fun v ↦
    match v.ahead.qualifierArguments with
    | none => return .stop false
    | some length => do
      requireUses v.index (if 0 < length then v.ahead.argumentScan.uses else [])
      skip length
      qualifiedPart) pure

/-- Reports that the next token cannot be part of a member. -/
def invalidMember : Rule Unit := do
  errorHere (.invalidMember (← nextText))

/-! ### Types -/

/-- Reads members up to a closing brace. A token that no member begins with is reported and
skipped. -/
def typeBody : Rule Unit :=
  whileAhead (isBefore .closeBrace) do
    unless ← moves member do
      invalidMember
      recover false

/-- Reads the base types of a type declaration. -/
def baseList : Rule Unit :=
  commaSeparated do
    needType
    if ← accept .openParen then arguments .closeParen

/-- Reads a member of an enumeration. -/
def enumMember : Rule Unit := do
  attributeSections
  unless ← expectIdentifier do
    look fun v ↦ skip (v.ahead.takeWhile (!·.isOneOf [.comma, .closeBrace])).length
  if ← accept .equals then expression

/-- Reads the declaration of an enumeration. -/
def enumDeclaration : Rule Unit := do
  skipToken
  needIdentifier
  if ← accept .colon then needType
  if ← expect .openBrace then
    commaSeparatedUpTo .closeBrace enumMember
    need .closeBrace
    allow .semicolon

/-- Reads the declaration of a delegate type. -/
def delegateDeclaration : Rule Unit := do
  skipToken
  needType
  needIdentifier
  optionalTypeParameters
  parameters
  constraintClauses
  need .semicolon

/-- Reads the word or words that say what kind of type is declared, and tells the kind. -/
def typeKeyword : Rule TypeKind := do
  if ← nextContextual "record" then
    takeFeature .records
    if ← nextWord .structWord then
      takeFeature .recordStructs
      return .structType
    else
      allowWord .classWord
      return .classType
  else if ← acceptWord .structWord then return .structType
  else if ← acceptWord .interfaceWord then return .interfaceType
  else
    skipToken
    return .classType

/-- Notes the features of modifiers of a type declaration. -/
def requireTypeModifiers (kind : TypeKind) (modifiers : List Placed) : Rule Unit := do
  match kind with
  | .classType => requireAtPlace .staticClasses (lastPlaceOf? "static" modifiers)
  | .structType =>
    requireAtPlace .refStructs (lastPlaceOf? "ref" modifiers)
    requireAtPlace .readonlyStructs (lastPlaceOf? "readonly" modifiers)
  | .interfaceType | .extensionBlock => pure ()

/-- Reads the declaration of a class, struct, interface or record. -/
def structuredType (modifiers : List Placed) : Rule Unit := do
  let isRecord ← nextContextual "record"
  let kind ← typeKeyword
  requireTypeModifiers kind modifiers
  needIdentifier
  optionalTypeParameters
  if ← next .openParen then
    unless isRecord do requireHere .primaryConstructors
    parameters
  if ← accept .colon then baseList
  constraintClauses
  unless ← accept .semicolon do
    if ← expect .openBrace then
      within kind typeBody do
        need .closeBrace
        allow .semicolon

/-- The rule for type declarations after their attributes and modifiers. -/
def typeDeclarationRule (modifiers : List Placed) : Rule Unit := do
  requireAtPlace .partialTypes (lastPlaceOf? "partial" modifiers)
  if ← nextWord .enumWord then enumDeclaration
  else if ← nextWord .delegateWord then delegateDeclaration
  else structuredType modifiers

/-- Reads the receiver of an extension block. -/
def extensionReceiver : Rule Unit := do
  if ← expect .openParen then
    attributeSections
    let _ ← parameterModifiers
    needType
    let _ ← acceptIf (·.isIdentifier)
    need .closeParen

/-- Reads a block of extension members. -/
def extensionBlock : Rule Unit := do
  takeFeature .extensions
  optionalTypeParameters
  extensionReceiver
  constraintClauses
  if ← expect .openBrace then
    within .extensionBlock typeBody do
      need .closeBrace

/-! ### Members -/

/-- Reads a method after its name. -/
def method (modifiers : List Placed) : Rule Unit := do
  requireAtText "partial" .partialMethods modifiers
  requireReadonlyMember modifiers
  optionalTypeParameters
  parameters
  constraintClauses
  body (some .expressionBodiedMembers)

/-- Reads the modifiers of an accessor. -/
def accessorModifiers : Rule Unit :=
  repeating do
    if ← nextWord .readonlyWord then
      takeFeature .readonlyMembers
      return true
    else if ← nextWordOf [.privateWord, .protectedWord, .internalWord] then
      takeFeature .propertyAccessorModifiers
      return true
    else return false

/-- Reads the body of an accessor whose name is at `name`. Without a body the accessor is
automatic, unless its surroundings or modifiers leave bodies out. -/
def accessorBody (automatic : Bool) (name : Nat) : Rule Unit := do
  if ← next .semicolon then
    if automatic then requireAt .autoProperties name
    skipToken
  else if ← next .openBrace then block
  else if ← next .fatArrow then
    requireHere .expressionBodiedAccessors
    expressionBody
  else need .openBrace

/-- The names of the accessors of an event, or of a property or indexer. -/
def accessorNames (ofEvent : Bool) : List String :=
  if ofEvent then ["add", "remove"] else ["get", "set", "init"]

/-- Reads an accessor with its attributes and modifiers. -/
def accessor (ofEvent automatic : Bool) : Rule Unit := do
  attributeSections
  accessorModifiers
  let names := accessorNames ofEvent
  if ← ask fun ts ↦ ts.head?.any fun t ↦ t.isIdentifier && names.contains t.text then
    if ← nextContextual "init" then requireHere .initOnlySetters
    let name ← here
    skipToken
    accessorBody automatic name
  else
    errorHere (if ofEvent then .addOrRemoveExpected else .getOrSetExpected)
    look fun v ↦ skip (v.ahead.accessorRecovery names)

/-- Reads the accessors of a property, indexer or event. -/
def accessors (modifiers : List Placed) (ofEvent : Bool) : Rule Unit := do
  skipToken
  let bodiless := (← inInterface) ||
    modifiers.any fun m ↦ m.token.isWordOf [.abstractWord, .externWord]
  whileAhead (isBefore .closeBrace) (accessor ofEvent (!ofEvent && !bodiless))
  need .closeBrace

/-- Reads a property after its name. -/
def property (modifiers : List Placed) : Rule Unit := do
  requireReadonlyMember modifiers
  accessors modifiers false
  if ← next .equals then
    takeFeature .autoPropertyInitializer
    variableInitializer
    need .semicolon

/-- Reads an indexer from its `this` on. -/
def indexer (modifiers : List Placed) : Rule Unit := do
  requireReadonlyMember modifiers
  skipToken
  parameterList .openBracket .closeBracket
  if ← next .fatArrow then
    requireHere .expressionBodiedMembers
    expressionBody
  else if ← next .openBrace then accessors modifiers false
  else need .openBrace

/-- Reads the size of a fixed buffer, if there is one. -/
def optionalSize : Rule Unit := do
  if ← accept .openBracket then
    expression
    need .closeBracket

/-- Reads the value of a field, if there is one. -/
def optionalValue : Rule Unit := do
  if ← accept .equals then variableInitializer

/-- Reads a field after its first name. -/
def fieldRest (modifiers : List Placed) : Rule Unit := do
  requireAtWord .fixedWord .fixedBuffers modifiers
  repeating do
    optionalSize
    optionalValue
    if ← accept .comma then
      needIdentifier
      return true
    else return false
  need .semicolon

/-- Reads an event. -/
def event (modifiers : List Placed) : Rule Unit := do
  requireAtText "partial" .partialEventsAndConstructors modifiers
  skipToken
  needType
  if ← nextIdentifier then
    let _ ← memberName
  else needIdentifier
  if ← next .openBrace then accessors modifiers true else fieldRest []

/-- Reads the word `checked` if it comes next. -/
def checkedOperator : Rule Unit := do
  if ← nextWord .checkedWord then takeFeature .checkedUserDefinedOperators

/-- Reads the parameters and the body of an operator. -/
def operatorRest : Rule Unit := do
  parameters
  body (some .expressionBodiedMembers)

/-- Reads the operator that a declaration defines. -/
def operatorSign : Rule Unit := look fun v ↦
  let unknown : Rule Unit := errorHere .overloadableOperatorExpected
  if v.ahead.isWordOf [.trueWord, .falseWord] then skipToken
  else
    match v.ahead.operator with
    | none => unknown
    | some (op, count) =>
      if op.isOverloadable then do
        if op = .unsignedShiftRight then requireHere .unsignedRightShift
        skip count
      else if op.isCompoundAssignment then do
        requireHere .userDefinedCompoundAssignment
        skip count
      else unknown

/-- Reads an operator from its `operator` on. -/
def operatorDeclaration : Rule Unit := do
  skipToken
  checkedOperator
  operatorSign
  operatorRest

/-- Reads a conversion operator. -/
def conversionOperator : Rule Unit := do
  skipToken
  needWord .operatorWord
  checkedOperator
  needType
  operatorRest

/-- Reads the call of another constructor. -/
def constructorInitializer : Rule Unit := do
  if ← nextWordOf [.baseWord, .thisWord] then skipToken else errorHere .thisOrBaseExpected
  if ← expect .openParen then arguments .closeParen

/-- Reads a constructor. -/
def constructor (modifiers : List Placed) : Rule Unit := do
  requireAtText "partial" .partialEventsAndConstructors modifiers
  skipToken
  parameters
  if ← accept .colon then constructorInitializer
  body (some .expressionBodiedAccessors)

/-- Reads a finalizer. -/
def finalizer : Rule Unit := do
  skipToken
  needIdentifier
  need .openParen
  need .closeParen
  body (some .expressionBodiedAccessors)

/-- Reads a constant. -/
def constant : Rule Unit := do
  skipToken
  needType
  variableDeclarators
  need .semicolon

/-- Notes a feature at the targets of attribute sections that are backing fields. -/
def requireFieldTargets : List Placed → Rule Unit :=
  requireAtText "field" .attributesOnBackingFields

/-- Reads a member after its type and its name. -/
def namedMember (targets modifiers : List Placed) : Rule Unit := do
  if ← nextOneOf [.openParen, .less] then method modifiers
  else if ← next .openBrace then
    requireFieldTargets (targets.filter (·.token.isIdentifier))
    property modifiers
  else if ← next .fatArrow then
    requireReadonlyMember modifiers
    requireHere .expressionBodiedMembers
    expressionBody
  else fieldRest modifiers

/-- Reads a member that begins with a type. -/
def typedMember (targets modifiers : List Placed) : Rule Unit := do
  requireReferences none modifiers
  if ← type false then
    if ← nextWord .operatorWord then operatorDeclaration
    else if ← nextWord .thisWord then indexer modifiers
    else if ← nextIdentifier then
      if ← memberName then indexer modifiers else namedMember targets modifiers
    else invalidMember

/-- Reads the attribute sections of a member and tells their targets. -/
def memberAttributes : Rule (List Placed) :=
  loop [] (fun targets ↦ do
    if ← next .openBracket then
      match ← attributeSection with
      | some target => return .again (targets ++ [target])
      | none => return .again targets
    else return .stop targets) pure

/-- The rule for members. -/
def memberRule : Rule Unit := do
  let start ← here
  let targets ← memberAttributes
  let modifiers ← modifierList
  let stop ← here
  enclosing fun kinds ↦ look fun v ↦
    let ts := v.ahead
    if ts.isTypeKeyword then call (.typeDeclaration modifiers) pure
    else if ts.isContextual "extension" && ts.tail.isOneOf [.openParen, .less] then extensionBlock
    else if ts.isWord .eventWord then event modifiers
    else if ts.isWord .constWord then constant
    else if ts.is .tilde then finalizer
    else if ts.isWordOf [.implicitWord, .explicitWord] then conversionOperator
    else if ts.isIdentifier && ts.tail.is .openParen && !kinds.isEmpty then constructor modifiers
    else if ts.head?.any (·.startsType) then typedMember targets modifiers
    else if start != stop then invalidMember
    else pure ()

end Rule

end CSharpCheck
