import CSharpCheck.Grammar.Types

/-!
# Blocks and bodies

Lists of statements, and the bodies that functions and members may have.
-/

namespace CSharpCheck

namespace Ahead

/-- Whether a label of a switch section comes next. -/
def isSwitchLabel (ts : Ahead) : Bool :=
  ts.isWord .caseWord || (ts.isWord .defaultWord && ts.tail.is .colon)

end Ahead

namespace Rule

/-- Runs a rule and tells whether it has moved on. -/
def moves (rule : Rule Unit) : Rule Bool := do
  let start ← here
  rule
  let stop ← here
  return start != stop

/-- Reads something that has to begin with the next token. A token that nothing begins with is
reported and skipped. -/
def statementOrRecover (rule : Rule Unit) : Rule Unit := do
  unless ← moves rule do
    errorHere (.invalidTerm (← nextText))
    recover true

/-- Reads statements up to a closing brace, and in a switch section up to a label. -/
def statements (inSwitch : Bool) : Rule Unit :=
  whileAhead (fun ts ↦ isBefore .closeBrace ts && !(inSwitch && ts.isSwitchLabel)) <|
    statementOrRecover statement

/-- Reads a block. -/
def block : Rule Unit := do
  if ← expect .openBrace then
    statements false
    need .closeBrace

/-- Reads an expression that ends with a semicolon. -/
def expressionBody : Rule Unit := do
  skipToken
  expression
  need .semicolon

/-- Whether the innermost type declaration around is an interface. -/
def inInterface : Rule Bool := enclosing fun kinds ↦ pure (kinds.head? == some .interfaceType)

/-- Reads a body: a block, an expression after an arrow, which may need a feature, or a
semicolon. -/
def body (expressionFeature : Option Feature) : Rule Unit := do
  if ← next .openBrace then
    if ← inInterface then requireHere .defaultInterfaceImplementation
    block
  else if ← next .fatArrow then
    match expressionFeature with
    | some f => requireHere f
    | none => pure ()
    expressionBody
  else
    unless ← accept .semicolon do
      need .openBrace

/-- Reads an expression in parentheses. -/
def condition : Rule Unit := do
  need .openParen
  expression
  need .closeParen

/-- Reads a value in a declaration: an expression, or an initializer in braces. -/
def variableInitializer : Rule Unit := do
  if ← next .openBrace then initializer else expression

end Rule

end CSharpCheck
