import CSharpCheck.Diagnostic
import CSharpCheck.Feature
import CSharpCheck.Symbol

/-!
# Findings

What the lexer, the directives and the grammar note about a text: broken rules of the three
layers, and uses of version-sensitive features. A finding does not depend on the language version;
only the gate, which turns findings into diagnostics, does.
-/

namespace CSharpCheck

/-- A broken rule about single tokens and comments. -/
inductive LexicalError where
  | newlineInConstant
  | emptyCharacter
  | tooManyCharacters
  | illegalEscape
  | invalidNumber
  | invalidReal
  | unterminatedComment
  | unterminatedString
  | unterminatedRawString
  | rawDelimiterNotAlone
  | rawIndentation
  | rawTooManyQuotes
  | rawTooManyOpenBraces
  | unescapedCloseBrace
  | closeBraceExpected
  | misplacedDirective
  | unexpectedCharacter (c : Char)
  | tooComplex
  deriving DecidableEq, Repr

namespace LexicalError

/-- The stable code of the error. -/
def code : LexicalError → String
  | .newlineInConstant => "CS1010"
  | .emptyCharacter => "CS1011"
  | .tooManyCharacters => "CS1012"
  | .illegalEscape => "CS1009"
  | .invalidNumber => "CS1013"
  | .invalidReal => "CS0595"
  | .unterminatedComment => "CS1035"
  | .unterminatedString => "CS1039"
  | .unterminatedRawString => "CS8997"
  | .rawDelimiterNotAlone => "CS9000"
  | .rawIndentation => "CS8999"
  | .rawTooManyQuotes => "CS8998"
  | .rawTooManyOpenBraces => "CS9006"
  | .unescapedCloseBrace => "CS8087"
  | .closeBraceExpected => "CS1513"
  | .misplacedDirective => "CS1040"
  | .unexpectedCharacter _ => "CS1056"
  | .tooComplex => "CS8078"

/-- The text that describes the error. -/
def message : LexicalError → String
  | .newlineInConstant => "Newline in constant"
  | .emptyCharacter => "Empty character literal"
  | .tooManyCharacters => "Too many characters in character literal"
  | .illegalEscape => "Unrecognized escape sequence"
  | .invalidNumber => "Invalid number"
  | .invalidReal => "Invalid real literal"
  | .unterminatedComment => "End-of-file found, '*/' expected"
  | .unterminatedString => "Unterminated string literal"
  | .unterminatedRawString => "Unterminated raw string literal"
  | .rawDelimiterNotAlone =>
    "The closing quotes of a multi-line raw string literal must be on their own line"
  | .rawIndentation =>
    "Line does not start with the same whitespace as the closing line of the raw string literal"
  | .rawTooManyQuotes =>
    "The raw string literal does not start with enough quote characters to allow this many " ++
      "consecutive quote characters as content"
  | .rawTooManyOpenBraces =>
    "The interpolated raw string literal does not start with enough '$' characters to allow " ++
      "this many consecutive opening braces as content"
  | .unescapedCloseBrace =>
    "A '\x7d' character must be escaped (by doubling) in an interpolated string"
  | .closeBraceExpected => "\x7d expected"
  | .misplacedDirective =>
    "Preprocessor directives must appear as the first non-whitespace character on a line"
  | .unexpectedCharacter c => "Unexpected character '" ++ c.toString ++ "'"
  | .tooComplex => "An expression is too long or complex to compile"

end LexicalError

/-- A broken rule about directives, or a remark that a directive asks for. -/
inductive DirectiveProblem where
  | directiveExpected
  | endOfDirectiveExpected
  | endifExpected
  | endregionExpected
  | unexpectedDirective
  | errorText (text : String)
  | warningText (text : String)
  | identifierExpected
  | defineAfterToken
  | invalidCondition
  | invalidLineNumber
  | unrecognizedPragma
  | pragmaActionExpected
  | pragmaIdentifierExpected
  | invalidChecksum
  | nullableSettingExpected
  | nullableTargetExpected
  | scriptOnly (name : String)
  | scriptAfterToken (name : String)
  | fileNameExpected
  deriving DecidableEq, Repr

namespace DirectiveProblem

/-- Problems with pragmas are warnings, and so is the text of a warning directive. -/
def severity : DirectiveProblem → Severity
  | .warningText _ | .unrecognizedPragma | .pragmaActionExpected | .pragmaIdentifierExpected
  | .invalidChecksum => .warning
  | _ => .error

/-- The stable code of the problem. -/
def code : DirectiveProblem → String
  | .directiveExpected => "CS1024"
  | .endOfDirectiveExpected => "CS1025"
  | .endifExpected => "CS1027"
  | .endregionExpected => "CS1038"
  | .unexpectedDirective => "CS1028"
  | .errorText _ => "CS1029"
  | .warningText _ => "CS1030"
  | .identifierExpected => "CS1001"
  | .defineAfterToken => "CS1032"
  | .invalidCondition => "CS1517"
  | .invalidLineNumber => "CS1576"
  | .unrecognizedPragma => "CS1633"
  | .pragmaActionExpected | .pragmaIdentifierExpected => "CS1634"
  | .invalidChecksum => "CS1695"
  | .nullableSettingExpected => "CS8637"
  | .nullableTargetExpected => "CS8668"
  | .scriptOnly _ => "CS7101"
  | .scriptAfterToken _ => "CS7011"
  | .fileNameExpected => "CS7010"

/-- The text that describes the problem. -/
def message : DirectiveProblem → String
  | .directiveExpected => "Preprocessor directive expected"
  | .endOfDirectiveExpected => "Single-line comment or end-of-line expected"
  | .endifExpected => "#endif directive expected"
  | .endregionExpected => "#endregion directive expected"
  | .unexpectedDirective => "Unexpected preprocessor directive"
  | .errorText text => "#error: '" ++ text ++ "'"
  | .warningText text => "#warning: '" ++ text ++ "'"
  | .identifierExpected => "Identifier expected"
  | .defineAfterToken => "Cannot define/undefine preprocessor symbols after first token in file"
  | .invalidCondition => "Invalid preprocessor expression"
  | .invalidLineNumber =>
    "The line number specified for #line directive is missing or invalid"
  | .unrecognizedPragma => "Unrecognized #pragma directive"
  | .pragmaActionExpected => "Expected 'disable' or 'restore'"
  | .pragmaIdentifierExpected => "Expected identifier or numeric literal"
  | .invalidChecksum => "Invalid #pragma checksum syntax"
  | .nullableSettingExpected => "Expected 'enable', 'disable', or 'restore'"
  | .nullableTargetExpected => "Expected 'warnings', 'annotations', or end of directive"
  | .scriptOnly name => "#" ++ name ++ " is only allowed in scripts"
  | .scriptAfterToken name => "Cannot use #" ++ name ++ " after first token in file"
  | .fileNameExpected => "Quoted file name expected"

end DirectiveProblem

/-- A broken rule of the grammar. -/
inductive GrammarError where
  | expected (symbol : Symbol)
  | wordExpected (word : String)
  | identifierExpected
  | typeExpected
  | invalidTerm (text : String)
  | invalidMember (text : String)
  | namespaceMemberExpected
  | usingAfterElements
  | namespaceInScript
  | statementAfterDeclarations
  | embeddedDeclaration
  | catchOrFinallyExpected
  | badNewExpression
  | getOrSetExpected
  | addOrRemoveExpected
  | overloadableOperatorExpected
  | thisOrBaseExpected
  | queryBodyEnd
  | tooComplex
  deriving DecidableEq, Repr

namespace GrammarError

/-- The stable code of the error. Four missing symbols have codes of their own. -/
def code : GrammarError → String
  | .expected .semicolon => "CS1002"
  | .expected .closeParen => "CS1026"
  | .expected .closeBrace => "CS1513"
  | .expected .openBrace => "CS1514"
  | .expected _ | .wordExpected _ => "CS1003"
  | .identifierExpected => "CS1001"
  | .typeExpected => "CS1031"
  | .invalidTerm _ => "CS1525"
  | .invalidMember _ => "CS1519"
  | .namespaceMemberExpected => "CS1022"
  | .usingAfterElements => "CS1529"
  | .namespaceInScript => "CS7021"
  | .statementAfterDeclarations => "CS8803"
  | .embeddedDeclaration => "CS1023"
  | .catchOrFinallyExpected => "CS1524"
  | .badNewExpression => "CS1526"
  | .getOrSetExpected => "CS1014"
  | .addOrRemoveExpected => "CS1055"
  | .overloadableOperatorExpected => "CS1037"
  | .thisOrBaseExpected => "CS1018"
  | .queryBodyEnd => "CS0742"
  | .tooComplex => "CS8078"

/-- The text that describes the error. -/
def message : GrammarError → String
  | .expected .semicolon => "; expected"
  | .expected .closeParen => ") expected"
  | .expected .closeBrace => "\x7d expected"
  | .expected .openBrace => "\x7b expected"
  | .expected symbol => "Syntax error, '" ++ symbol.text ++ "' expected"
  | .wordExpected word => "Syntax error, '" ++ word ++ "' expected"
  | .identifierExpected => "Identifier expected"
  | .typeExpected => "Type expected"
  | .invalidTerm text => "Invalid expression term '" ++ text ++ "'"
  | .invalidMember text =>
    "Invalid token '" ++ text ++ "' in class, record, struct, or interface member declaration"
  | .namespaceMemberExpected => "Type or namespace definition, or end-of-file expected"
  | .usingAfterElements =>
    "A using clause must precede all other elements defined in the namespace except extern " ++
      "alias declarations"
  | .namespaceInScript => "Cannot declare namespace in script code"
  | .statementAfterDeclarations =>
    "Top-level statements must precede namespace and type declarations."
  | .embeddedDeclaration => "Embedded statement cannot be a declaration or labeled statement"
  | .catchOrFinallyExpected => "Expected catch or finally"
  | .badNewExpression =>
    "A new expression requires an argument list or (), [], or \x7b\x7d after type"
  | .getOrSetExpected => "A get or set accessor expected"
  | .addOrRemoveExpected => "An add or remove accessor expected"
  | .overloadableOperatorExpected => "Overloadable operator expected"
  | .thisOrBaseExpected => "Keyword 'this' or 'base' expected"
  | .queryBodyEnd => "A query body must end with a select clause or a group clause"
  | .tooComplex => "An expression is too long or complex to compile"

end GrammarError

/-- What a finding is about. -/
inductive Cause where
  | lexical (error : LexicalError)
  | directive (problem : DirectiveProblem)
  | grammar (error : GrammarError)
  | use (feature : Feature)
  deriving DecidableEq, Repr

/-- Something noted about a stretch of the text. -/
structure Finding where
  cause : Cause
  span : Span
  deriving DecidableEq, Repr

namespace Finding

/-- Whether the finding says that the text is too deeply nested to be read on. -/
def isTooComplex (f : Finding) : Bool :=
  f.cause == .lexical .tooComplex || f.cause == .grammar .tooComplex

/-- Whether the finding is a broken rule of the grammar, other than too deep nesting. -/
def isGrammarError (f : Finding) : Bool :=
  match f.cause with
  | .grammar .tooComplex => false
  | .grammar _ => true
  | _ => false

end Finding

end CSharpCheck
