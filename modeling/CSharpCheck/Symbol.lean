/-!
# Punctuation and operators

The tokens that are spelled with signs. The shift operators to the right are not among them: they
are read as single greater-than signs, which the grammar joins where it wants a shift.
-/

namespace CSharpCheck

/-- A sign or group of signs that makes one token. -/
inductive Symbol where
  | openBrace | closeBrace | openParen | closeParen | openBracket | closeBracket
  | semicolon | comma | dot | colon | colonColon
  | question | questionDot | questionQuestion | questionQuestionEquals
  | plus | plusPlus | plusEquals | minus | minusMinus | minusEquals | arrow
  | star | starEquals | slash | slashEquals | percent | percentEquals
  | ampersand | ampersandAmpersand | ampersandEquals | bar | barBar | barEquals
  | caret | caretEquals | bang | bangEquals | tilde
  | equals | equalsEquals | fatArrow
  | less | lessEquals | lessLess | lessLessEquals | greater | greaterEquals
  | dotDot
  deriving DecidableEq, Repr, Inhabited

namespace Symbol

/-- The spelling of a symbol. -/
def text : Symbol → String
  | .openBrace => "\x7b" | .closeBrace => "\x7d"
  | .openParen => "(" | .closeParen => ")" | .openBracket => "[" | .closeBracket => "]"
  | .semicolon => ";" | .comma => "," | .dot => "." | .colon => ":" | .colonColon => "::"
  | .question => "?" | .questionDot => "?." | .questionQuestion => "??"
  | .questionQuestionEquals => "??="
  | .plus => "+" | .plusPlus => "++" | .plusEquals => "+="
  | .minus => "-" | .minusMinus => "--" | .minusEquals => "-=" | .arrow => "->"
  | .star => "*" | .starEquals => "*=" | .slash => "/" | .slashEquals => "/="
  | .percent => "%" | .percentEquals => "%="
  | .ampersand => "&" | .ampersandAmpersand => "&&" | .ampersandEquals => "&="
  | .bar => "|" | .barBar => "||" | .barEquals => "|="
  | .caret => "^" | .caretEquals => "^=" | .bang => "!" | .bangEquals => "!=" | .tilde => "~"
  | .equals => "=" | .equalsEquals => "==" | .fatArrow => "=>"
  | .less => "<" | .lessEquals => "<=" | .lessLess => "<<" | .lessLessEquals => "<<="
  | .greater => ">" | .greaterEquals => ">=" | .dotDot => ".."

/-- Whether the symbol counts as punctuation; the others are operators. -/
def isPunctuation : Symbol → Bool
  | .openBrace | .closeBrace | .openParen | .closeParen | .openBracket | .closeBracket
  | .semicolon | .comma | .dot | .colon | .colonColon => true
  | _ => false

/-- The symbols of three signs. -/
def triples : List Symbol := [.questionQuestionEquals, .lessLessEquals]

/-- The symbols of two signs. -/
def pairs : List Symbol :=
  [.questionQuestion, .questionDot, .colonColon, .fatArrow, .dotDot, .arrow, .equalsEquals,
   .bangEquals, .lessEquals, .greaterEquals, .ampersandAmpersand, .barBar, .plusPlus, .minusMinus,
   .plusEquals, .minusEquals, .starEquals, .slashEquals, .percentEquals, .ampersandEquals,
   .barEquals, .caretEquals, .lessLess]

/-- The symbols of one sign. -/
def singles : List Symbol :=
  [.openBrace, .closeBrace, .openParen, .closeParen, .openBracket, .closeBracket, .semicolon,
   .comma, .dot, .colon, .question, .plus, .minus, .star, .slash, .percent, .ampersand, .bar,
   .caret, .bang, .tilde, .equals, .less, .greater]

/-- Every symbol has one, two or three signs. -/
theorem mem_lists (s : Symbol) : s ∈ triples ++ pairs ++ singles := by
  cases s <;> decide

end Symbol

end CSharpCheck
