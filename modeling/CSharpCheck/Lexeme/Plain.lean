import CSharpCheck.Lexeme.Number
import CSharpCheck.Lexeme.RawString

/-!
# Plain lexemes

The choice among the scanners for single tokens by the first characters of the text. Signs are
read with maximal munch: three at once before two, and two before one.
-/

namespace CSharpCheck

/-- The symbol at the beginning of the text. A question mark and a dot make one symbol only when
no decimal digit follows, since the dot belongs to a number otherwise. -/
def symbolAt? (text : List Char) : Option Symbol :=
  let here (s : Symbol) : Bool := s.text.toList.isPrefixOf text
  (Symbol.triples.find? here).or <|
    (Symbol.pairs.find? fun s ↦ here s && !(s == .questionDot && digitFollows (text.drop 2))).or <|
      Symbol.singles.find? here

/-- A token of one character that fits nowhere. -/
def badLexeme (error : LexicalError) : Lexeme :=
  ⟨.bad, 1, none, [], [⟨error, 0, 0⟩]⟩

/-- The token at the beginning of a text that is not empty, when no interpolated string starts
there. -/
def plainLexeme (text : List Char) : Lexeme :=
  match text with
  | [] => Lexeme.bare .bad 0
  | c :: cs =>
    if c == '@' && cs.head? == some '"' then verbatimString text
    else if c == '@' && nameStarts cs then nameLexeme true text
    else if nameStarts text then nameLexeme false text
    else if numberStarts text then number text
    else if c == '"' then
      if ['"', '"', '"'].isPrefixOf text then rawString text else regularString text
    else if c == '\'' then characterLiteral text
    else if c == '#' then badLexeme .misplacedDirective
    else
      match symbolAt? text with
      | some s => Lexeme.bare (.symbol s) s.text.length
      | none => badLexeme (.unexpectedCharacter c)

end CSharpCheck
