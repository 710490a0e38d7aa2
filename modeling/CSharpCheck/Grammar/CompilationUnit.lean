import CSharpCheck.Grammar.Declaration
import CSharpCheck.Grammar.Machine

/-!
# Compilation units

The rules for namespaces and whole texts, the table of all rules, and the reading of a text by
them.
-/

namespace CSharpCheck

namespace Ahead

/-- Whether a using directive comes next. Outside namespaces it has to be told from a using
statement or declaration. -/
def isUsingDirective (inNamespace : Bool) (ts : Ahead) : Bool :=
  (ts.isContextual "global" && ts.tail.isWord .usingWord) ||
    (ts.isWord .usingWord &&
      (inNamespace ||
        (!ts.tail.is .openParen &&
          (ts.tail.isWordOf [.staticWord, .unsafeWord] ||
            (ts.tail.isIdentifier && Ahead.is (ts.drop 2) .equals) ||
            match ts.tail.typeEnd with
            | none => false
            | some stop => !Ahead.isIdentifier (ts.tail.drop stop)))))

/-- Whether an attribute section of the assembly or module comes next. -/
def isGlobalAttribute (ts : Ahead) : Bool :=
  ts.is .openBracket && (ts.tail.isContextual "assembly" || ts.tail.isContextual "module") &&
    Ahead.is (ts.drop 2) .colon

end Ahead

namespace Rule

/-- Reads an extern alias directive. -/
def aliasDirective : Rule Unit := do
  requireHere .externAlias
  skip 2
  needIdentifier
  need .semicolon

/-- Reads the aliased type of a using directive. -/
def aliasedType : Rule Unit := look fun v ↦ do
  if ← type false then
    let stop ← here
    if Ahead.hasTypeSigns false 0 (v.ahead.take (stop - v.index)) then
      requireAt .usingTypeAlias v.index

/-- Reads what a using directive uses. -/
def usingTarget : Rule Unit := do
  if ← nextWord .staticWord then
    takeFeature .usingStatic
    needType
  else
    allowWord .unsafeWord
    if ← ask fun ts ↦ ts.isIdentifier && ts.tail.is .equals then
      skip 2
      aliasedType
    else needType

/-- Reads a using directive. -/
def usingDirective : Rule Unit := do
  if ← nextContextual "global" then takeFeature .globalUsing
  skipToken
  usingTarget
  need .semicolon

/-- What has been seen of a namespace or compilation unit. -/
structure UnitState where
  /-- Whether something has been seen that using directives have to precede. -/
  elementSeen : Bool
  /-- Whether a namespace or type has been declared. -/
  declarationSeen : Bool
  /-- Whether the feature of top-level statements has been noted. -/
  statementNoted : Bool
  /-- Whether a statement after a declaration has been reported. -/
  misplacedReported : Bool

/-- Reads a statement at the top level. In regular code it has to come before all declarations. -/
def topLevelStatement (state : UnitState) : Rule UnitState :=
  script fun isScript ↦ do
    let misplaced := !isScript && state.declarationSeen && !state.misplacedReported
    if !isScript && !state.statementNoted then requireHere .topLevelStatements
    if misplaced then errorHere .statementAfterDeclarations
    call (.statement true) pure
    return {
      state with
      elementSeen := true
      statementNoted := state.statementNoted || !isScript
      misplacedReported := state.misplacedReported || misplaced }

/-- Reads an element of a namespace or compilation unit. -/
def unitElement (inNamespace : Bool) (state : UnitState) : Rule UnitState := look fun v ↦
  let ts := v.ahead
  if ts.isWord .externWord && ts.tail.isContextual "alias" then do
    aliasDirective
    return state
  else if ts.isUsingDirective inNamespace then do
    if state.elementSeen then errorHere .usingAfterElements
    usingDirective
    return state
  else if ts.isGlobalAttribute then do
    let _ ← attributeSection
    return { state with elementSeen := true }
  else if ts.isWord .namespaceWord then do
    let fileScoped ← call .namespaceDeclaration pure
    return { state with elementSeen := !fileScoped, declarationSeen := true }
  else if ts.is .closeBrace then do
    errorHere .namespaceMemberExpected
    skipToken
    return state
  else if ts.isTypeDeclaration then do
    member
    return { state with elementSeen := true, declarationSeen := true }
  else if inNamespace || ts.isMemberOnly then do
    member
    return { state with elementSeen := true }
  else topLevelStatement state

/-- Reads an element of a namespace or compilation unit. A token that no element begins with is
reported and skipped. -/
def elementOrRecover (inNamespace : Bool) (state : UnitState) : Rule UnitState := do
  let start ← here
  let state ← unitElement inNamespace state
  if start == (← here) then
    errorHere .namespaceMemberExpected
    recover false
  return state

/-- Reads the elements of a namespace up to its closing brace, or of a compilation unit. -/
def unitElements (inNamespace : Bool) : Rule Unit :=
  loop (⟨false, false, false, false⟩ : UnitState) (fun state ↦ do
    if ← ask fun ts ↦ ts.isEmpty || (inNamespace && ts.is .closeBrace) then return .stop state
    else return .again (← elementOrRecover inNamespace state)) fun _ ↦ pure ()

/-- Reads the body of a namespace in braces. -/
def namespaceBody : Rule Unit := do
  if ← expect .openBrace then
    unitElements true
    need .closeBrace
    allow .semicolon

/-- Reads a namespace, and tells whether it is file-scoped. -/
def namespaceRest : Rule Bool := do
  skipToken
  dottedName
  if ← next .semicolon then
    takeFeature .fileScopedNamespace
    return true
  else
    namespaceBody
    return false

/-- The rule for namespace declarations. -/
def namespaceRule : Rule Bool := do
  script fun isScript ↦ if isScript then errorHere .namespaceInScript else pure ()
  namespaceRest

end Rule

/-- The rules of the grammar. -/
def grammarRules : Rules
  | .namespaceDeclaration => Rule.namespaceRule
  | .member => Rule.memberRule
  | .typeDeclaration modifiers => Rule.typeDeclarationRule modifiers
  | .statement topLevel => Rule.statementRule topLevel
  | .expression => Rule.expressionRule
  | .unary => Rule.unaryRule
  | .initializer => Rule.initializerRule
  | .pattern => Rule.patternRule
  | .varDesignation => Rule.varDesignationRule

/-- The progress after a whole text has been read. -/
def readUnit (stream : TokenStream) (isScript : Bool) : Progress :=
  (grammarRules.run (Rule.unitElements false) ⟨stream, isScript, []⟩ (.start stream)).2

end CSharpCheck
