import CSharpCheck.Grammar.Expression

/-!
# Patterns

The rules for patterns. A bare type, a name and a constant are as old as the language in some of
the places where a pattern may stand, so their kind is told to the rule around, which knows the
place; all other patterns note the features that they need themselves.
-/

namespace CSharpCheck

namespace Ahead

/-- Whether the next token is a name that a pattern gives to what it matches. -/
def isDesignation (ts : Ahead) : Bool :=
  ts.isIdentifier && !ts.head?.any fun t ↦ ["and", "or", "when"].contains t.text

/-- Whether the contextual word comes next and a pattern after it. -/
def isPatternWord (ts : Ahead) (word : String) : Bool :=
  ts.isContextual word && ts.tail.head?.any (·.startsPattern)

end Ahead

namespace Rule

/-- Reads the name that a pattern gives to what it matches, if there is one. -/
def designation : Rule Unit := do
  let _ ← acceptIf (·.isDesignation)

/-- What has been read of a list of subpatterns. -/
structure SubpatternCount where
  count : Nat
  named : Bool
  last : Option PatternKind

/-- Reads a subpattern after those that have been counted. -/
def subpattern (count : SubpatternCount) : Rule SubpatternCount := do
  let named ← ask fun ts ↦ ts.isIdentifier && ts.tail.is .colon
  if named then skip 2
  let last ← pattern
  return ⟨count.count + 1, count.named || named, last⟩

/-- Reads subpatterns in parentheses. -/
def subpatterns : Rule SubpatternCount := do
  skipToken
  let empty : SubpatternCount := ⟨0, false, none⟩
  let count ← if ← next .closeParen then pure empty else commaSeparatedWith empty subpattern
  need .closeParen
  return count

/-- Reads a property name in a property pattern, and its colon. -/
def propertyName : Rule Unit := do
  if ← ask fun ts ↦ ts.isIdentifier && ts.tail.isOneOf [.colon, .dot] then
    let start ← here
    skipToken
    if ← next .dot then
      whileAhead (·.is .dot) do
        skipToken
        needIdentifier
      requireAt .extendedPropertyPatterns start
    need .colon

/-- Reads a property pattern in braces. -/
def propertyPattern : Rule Unit := do
  skipToken
  commaSeparatedUpTo .closeBrace do
    propertyName
    let _ ← pattern
  need .closeBrace

/-- Reads a property pattern if there is one. -/
def optionalPropertyPattern : Rule Unit := do
  if ← next .openBrace then propertyPattern

/-- Reads a list pattern. -/
def listPattern : Rule Unit := do
  takeFeature .listPatterns
  commaSeparatedUpTo .closeBracket do
    if ← accept .dotDot then
      unless ← nextOneOf [.comma, .closeBracket] do
        let _ ← pattern
    else
      let _ ← pattern
  need .closeBracket
  designation

/-- Reads a pattern that begins with a parenthesis. -/
def parenthesizedPattern : Rule (Option PatternKind) := do
  let start ← here
  let count ← subpatterns
  if count.count = 1 ∧ !count.named then
    if count.last = some .name ∨ count.last = some .constant then return count.last
    else
      requireAt .patternCombinators start
      return some .other
  else
    requireAt .recursivePatterns start
    optionalPropertyPattern
    designation
    return some .other

/-- Reads a pattern that begins with a type which ends after `length` tokens, if it is not a
constant. -/
def typedPattern (length : Nat) : Rule (Option PatternKind) := look fun v ↦
  let after : Ahead := v.ahead.drop length
  let patternType : Rule Unit := do
    let _ ← type true
  if after.isDesignation then do
    requireHere .patternMatching
    patternType
    skipToken
    return some .other
  else if after.isOneOf [.openBrace, .openParen] then do
    requireHere .recursivePatterns
    patternType
    if ← next .openParen then
      let _ ← subpatterns
    optionalPropertyPattern
    designation
    return some .other
  else if Ahead.isTypeOnly (v.ahead.take length) then do
    patternType
    return some .type
  else return none

/-- Reads a constant and tells whether it is a name. -/
def constantPattern : Rule (Option PatternKind) := look fun v ↦ do
  let _ ← binary Operator.shifting
  let stop ← here
  return some (if Ahead.isDottedName (v.ahead.take (stop - v.index)) then .name else .constant)

/-- Reads a pattern without combinators. -/
def primaryPattern : Rule (Option PatternKind) := look fun v ↦
  let ts := v.ahead
  if ts.isOneOf [.less, .lessEquals, .greater, .greaterEquals] then do
    takeFeature .relationalPatterns
    let _ ← binary Operator.shifting
    return some .other
  else if ts.is .openParen then parenthesizedPattern
  else if ts.is .openBrace then do
    requireHere .recursivePatterns
    propertyPattern
    designation
    return some .other
  else if ts.is .openBracket then do
    listPattern
    return some .other
  else if ts.isContextual "var" && (ts.tail.isIdentifier || ts.tail.is .openParen) then do
    takeFeature .patternMatching
    call .varDesignation pure
    return some .other
  else if ts.isContextual "_" &&
      !ts.tail.isOneOf [.dot, .openParen, .openBracket, .less, .colonColon] then do
    skipToken
    return some .other
  else
    match (ts.typeScan true).stop with
    | none => constantPattern
    | some length => do
      match ← typedPattern length with
      | some kind => return some kind
      | none => constantPattern

/-- Reads a pattern with any number of `not` before it. -/
def notPattern : Rule (Option PatternKind) := do
  let negated ← loop false (fun negated ↦ do
    if ← ask (·.isPatternWord "not") then
      takeFeature .patternCombinators
      return .again true
    else return .stop negated) pure
  let kind ← primaryPattern
  return if negated then some .other else kind

/-- Reads patterns joined by a contextual word. -/
def joinedPatterns (word : String) (item : Rule (Option PatternKind)) :
    Rule (Option PatternKind) := do
  let first ← item
  loop first (fun kind ↦ do
    if ← ask (·.isPatternWord word) then
      takeFeature .patternCombinators
      let _ ← item
      return .again (some .other)
    else return .stop kind) pure

/-- The rule for patterns. -/
def patternRule : Rule (Option PatternKind) :=
  joinedPatterns "or" (joinedPatterns "and" notPattern)

/-- The rule for the names that a `var` pattern introduces. -/
def varDesignationRule : Rule Unit := do
  if ← accept .openParen then
    unless ← next .closeParen do
      commaSeparated (call .varDesignation pure)
    need .closeParen
  else needIdentifier

end Rule

end CSharpCheck
