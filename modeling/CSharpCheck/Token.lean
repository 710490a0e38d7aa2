import CSharpCheck.Feature
import CSharpCheck.Keyword
import CSharpCheck.Symbol
import CSharpCheck.Text.Position

/-!
# Tokens

A token is a classified stretch of source text. An interpolated string is a group of tokens: its
start, its texts, and its holes with ordinary tokens inside, up to its end. A directive line opens
with a directive start and closes with a directive end.
-/

namespace CSharpCheck

/-- The classes of tokens. -/
inductive Kind where
  | identifier
  | keyword (word : Keyword)
  | symbol (symbol : Symbol)
  | numericLiteral
  | stringLiteral
  | characterLiteral
  | interpolatedStart
  | interpolatedText
  | holeStart
  | holeFormat
  | holeEnd
  | interpolatedEnd
  | directiveStart
  | directiveMessage
  | directiveEnd
  | bad
  | endOfFile
  deriving DecidableEq, Repr, Inhabited

/-- A classified stretch of source text. -/
structure Token where
  kind : Kind
  /-- The source text; white space at the end of a directive message is left out. -/
  text : String
  /-- The name that an identifier or keyword spells, or the text of a directive message. -/
  name : Option String
  span : Span
  /-- Whether the token is the first on its line. -/
  atLineStart : Bool
  /-- The version-sensitive features of the token, in listing order. -/
  features : List Feature
  deriving DecidableEq, Repr, Inhabited

namespace Token

/-- Whether the token is the symbol. -/
def is (t : Token) (s : Symbol) : Bool := t.kind == .symbol s

/-- Whether the token is one of the symbols. -/
def isOneOf (t : Token) (symbols : List Symbol) : Bool :=
  match t.kind with
  | .symbol s => symbols.contains s
  | _ => false

/-- Whether the token is the reserved word. -/
def isWord (t : Token) (k : Keyword) : Bool := t.kind == .keyword k

/-- Whether the token is one of the reserved words. -/
def isWordOf (t : Token) (words : List Keyword) : Bool :=
  match t.kind with
  | .keyword k => words.contains k
  | _ => false

/-- Whether the token is an identifier. -/
def isIdentifier (t : Token) : Bool := t.kind == .identifier

/-- Whether the token is a reserved word. -/
def isKeyword (t : Token) : Bool :=
  match t.kind with
  | .keyword _ => true
  | _ => false

/-- Whether the token is the contextual word, spelled without `@` and without escapes. -/
def isContextual (t : Token) (word : String) : Bool := t.isIdentifier && t.text == word

/-- Whether the token is a number, a string without holes or a character. -/
def isLiteral (t : Token) : Bool :=
  match t.kind with
  | .numericLiteral | .stringLiteral | .characterLiteral => true
  | _ => false

/-- Whether nothing stands between the token and the one that follows it. -/
def touches (t following : Token) : Bool := t.span.stop.offset == following.span.start.offset

end Token

end CSharpCheck
