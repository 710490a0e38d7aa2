import CSharpCheck.Grammar.Recovery

/-!
# Names, types, attributes and parameters

The rules for what declarations, statements and expressions have in common.
-/

namespace CSharpCheck.Rule

/-- Reads a type, or reports that there is none; tells whether there is one. -/
def type (inExpression : Bool) : Rule Bool := look fun v ↦
  let scan := v.ahead.typeScan inExpression
  match scan.stop with
  | none => do
    errorHere .typeExpected
    return false
  | some length => do
    requireUses v.index scan.uses
    skip length
    return true

/-- Reads a type, or reports that there is none. -/
def needType : Rule Unit := do
  let _ ← type false

/-- Reads the type arguments of a name in an expression, if there are any. -/
def genericSuffix : Rule Unit := look fun v ↦
  if v.ahead.is .less then
    match v.ahead.expressionArgumentsEnd with
    | none => pure ()
    | some length => do
      requireUses v.index v.ahead.argumentScan.uses
      skip length
  else pure ()

/-- Reads a name with type arguments. -/
def namePart : Rule Unit := do
  if ← expectIdentifier then genericSuffix

/-- Reads a dotted name. -/
def dottedName : Rule Unit := do
  needIdentifier
  whileAhead (·.isOneOf [.dot, .colonColon]) do
    skipToken
    needIdentifier

/-- Reads the arguments of an attribute, if there are any. -/
def attributeArguments : Rule Unit := do
  if ← accept .openParen then
    unless ← accept .closeParen do
      commaSeparated do
        if ← ask fun ts ↦ ts.isIdentifier && ts.tail.isOneOf [.equals, .colon] then skip 2
        expression
      need .closeParen

/-- Reads an attribute with its arguments. -/
def attributeItem : Rule Unit := look fun v ↦
  let scan := v.ahead.nameScan
  match scan.stop with
  | none => needIdentifier
  | some length => do
    match (v.ahead.take length).findIdx? (·.is .less) with
    | some offset => requireAt .genericAttributes (v.index + offset)
    | none => pure ()
    requireUses v.index scan.uses
    skip length
    attributeArguments

/-- Reads an attribute section and tells its target. -/
def attributeSection : Rule (Option Placed) := do
  skipToken
  let target ← look fun v ↦
    match v.ahead with
    | t :: colon :: _ =>
      if (t.isIdentifier || t.isKeyword) && colon.is .colon then do
        skip 2
        return some ⟨v.index, t⟩
      else pure none
    | _ => pure none
  repeating do
    attributeItem
    if ← accept .comma then return !(← next .closeBracket) else return false
  need .closeBracket
  return target

/-- Reads any number of attribute sections. -/
def attributeSections : Rule Unit :=
  whileAhead (·.is .openBracket) do
    let _ ← attributeSection

/-- The next token, if it is one of the words that say how a parameter is passed. Before a name
that is the parameter itself, `scoped` is not such a word. -/
def parameterModifier? (ts : Ahead) : Option Token :=
  match ts with
  | [] => none
  | t :: rest =>
    let isScoped := t.isContextual "scoped" &&
      (Ahead.isKeyword rest || (Ahead.isIdentifier rest &&
        !Ahead.isOneOf (rest.drop 1) [.comma, .closeParen, .equals, .fatArrow]))
    if t.isWordOf [.refWord, .outWord, .inWord, .paramsWord, .thisWord, .readonlyWord] || isScoped
    then some t else none

/-- The feature that a parameter modifier uses after the modifiers before it. -/
def parameterModifierFeature? (before : List Placed) (t : Token) : Option Feature :=
  if t.isWord .thisWord then some .extensionMethods
  else if t.isWord .inWord then some .readonlyReferences
  else if t.isWord .readonlyWord && before.getLast?.any (·.token.isWord .refWord) then
    some .refReadonlyParameters
  else none

/-- Reads parameter modifiers. -/
def parameterModifiers : Rule (List Placed) :=
  loop [] (fun modifiers ↦ look fun v ↦
    match parameterModifier? v.ahead with
    | none => return .stop modifiers
    | some t => do
      match parameterModifierFeature? modifiers t with
      | some f => requireHere f
      | none => pure ()
      skipToken
      return .again (modifiers ++ [⟨v.index, t⟩])) pure

/-- Reads a default value after the feature has been noted that allows it. -/
def defaultValue (f : Feature) : Rule Unit := do
  if ← next .equals then
    takeFeature f
    expression

/-- Reads a parameter list in the given brackets. -/
def parameterList (opening closing : Symbol) : Rule Unit := do
  if ← expect opening then
    unless ← accept closing do
      commaSeparated do
        attributeSections
        let _ ← parameterModifiers
        if ← type false then needIdentifier
        defaultValue .optionalParameters
      need closing

/-- Reads a parameter list in parentheses. -/
def parameters : Rule Unit := parameterList .openParen .closeParen

/-- Reads a list of type parameters. -/
def typeParameters : Rule Unit := do
  takeFeature .generics
  commaSeparated do
    attributeSections
    if ← nextWordOf [.inWord, .outWord] then takeFeature .genericVariance
    needIdentifier
  need .greater

/-- Reads a list of type parameters if there is one. -/
def optionalTypeParameters : Rule Unit := do
  if ← next .less then typeParameters

/-- Reads a constraint on a type parameter. -/
def typeConstraint : Rule Unit := do
  if ← acceptWord .classWord then allow .question
  else if ← acceptWord .structWord then pure ()
  else if ← acceptWord .newWord then
    need .openParen
    need .closeParen
  else if ← acceptWord .defaultWord then pure ()
  else if ← nextContextual "allows" then
    takeFeature .allowsRefStruct
    needWord .refWord
    needWord .structWord
  else needType

/-- Reads the constraint clauses of a declaration. -/
def constraintClauses : Rule Unit :=
  whileAhead (fun ts ↦ ts.isContextual "where" && ts.tail.isIdentifier &&
      Ahead.is (ts.drop 2) .colon) do
    skip 3
    commaSeparated typeConstraint

end CSharpCheck.Rule
