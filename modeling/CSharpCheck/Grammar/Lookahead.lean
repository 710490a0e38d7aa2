import CSharpCheck.Token

/-!
# Looking ahead

Questions about the tokens that are still to be read. The list of these tokens does not contain
the end of the text, so that every question about a token past the end is answered by no.
-/

namespace CSharpCheck

namespace Token

/-- The reserved words that can begin an expression. -/
def expressionWords : List Keyword :=
  [.baseWord, .checkedWord, .defaultWord, .delegateWord, .falseWord, .newWord, .nullWord, .refWord,
   .sizeofWord, .stackallocWord, .thisWord, .throwWord, .trueWord, .typeofWord, .uncheckedWord]

/-- Whether the token names a type without any declaration. -/
def namesType (t : Token) : Bool :=
  match t.kind with
  | .keyword k => k.namesType
  | _ => false

/-- Whether an operand that is neither a symbol nor a reserved word begins with the token. -/
def beginsPlainOperand (t : Token) : Bool :=
  t.isLiteral || t.isIdentifier || t.kind == .interpolatedStart

/-- Whether an expression can begin with the token. -/
def startsExpression (t : Token) : Bool :=
  t.beginsPlainOperand || t.isWordOf expressionWords || t.namesType ||
    t.isOneOf [.openParen, .openBracket, .bang, .tilde, .plus, .minus, .plusPlus, .minusMinus,
      .ampersand, .star, .caret, .dotDot]

/-- Whether a type can begin with the token. -/
def startsType (t : Token) : Bool :=
  t.isIdentifier || t.is .openParen || t.isWord .delegateWord || t.namesType

/-- Whether a pattern can begin with the token. -/
def startsPattern (t : Token) : Bool :=
  t.startsExpression || t.isOneOf [.openBrace, .less, .lessEquals, .greater, .greaterEquals]

/-- Whether the token can be the operand of an `await`. -/
def startsAwaitOperand (t : Token) : Bool :=
  t.beginsPlainOperand || t.is .openParen ||
    (t.isWordOf expressionWords && !t.isWordOf [.refWord, .throwWord])

/-- The contextual words that come after an operand, so that a parenthesis before them is not a
cast. -/
def castBlockers : List String :=
  ["and", "or", "when", "with", "equals", "on", "by", "ascending", "descending", "into", "select",
   "group", "where", "orderby", "join", "let"]

/-- Whether a parenthesised name before the token is a cast. -/
def followsCast (t : Token) : Bool :=
  if t.isIdentifier then !castBlockers.contains t.text
  else
    t.isLiteral || t.kind == .interpolatedStart || t.namesType ||
      (t.isWordOf expressionWords && !t.isWordOf [.refWord, .throwWord]) ||
      t.isOneOf [.openParen, .bang, .tilde]

end Token

/-- The tokens that are still to be read, without the end of the text. -/
abbrev Ahead := List Token

namespace Ahead

/-- Whether the next token is the symbol. -/
def is (ts : Ahead) (s : Symbol) : Bool := ts.head?.any (·.is s)

/-- Whether the next token is one of the symbols. -/
def isOneOf (ts : Ahead) (symbols : List Symbol) : Bool := ts.head?.any (·.isOneOf symbols)

/-- Whether the next token is the reserved word. -/
def isWord (ts : Ahead) (k : Keyword) : Bool := ts.head?.any (·.isWord k)

/-- Whether the next token is one of the reserved words. -/
def isWordOf (ts : Ahead) (words : List Keyword) : Bool := ts.head?.any (·.isWordOf words)

/-- Whether the next token is an identifier. -/
def isIdentifier (ts : Ahead) : Bool := ts.head?.any (·.isIdentifier)

/-- Whether the next token is a reserved word. -/
def isKeyword (ts : Ahead) : Bool := ts.head?.any (·.isKeyword)

/-- Whether the next token is the contextual word. -/
def isContextual (ts : Ahead) (word : String) : Bool := ts.head?.any (·.isContextual word)

/-- Whether the next token is of the kind. -/
def isKind (ts : Ahead) (kind : Kind) : Bool := ts.head?.any (·.kind == kind)

/-- The tokens after the next one. -/
def tail (ts : Ahead) : Ahead := ts.drop 1

/-- The distance to the bracket that closes the first one, when `depth` brackets are open before
the tokens. The search ends without success at the end of a statement, so that a stray bracket
does not make it look through the whole text. -/
def closeFrom (opening closing : Symbol) : (depth : Nat) → Ahead → Option Nat
  | _, [] => none
  | depth, t :: ts =>
    if t.is opening then (closeFrom opening closing (depth + 1) ts).map (· + 1)
    else if t.is closing then
      if depth = 1 then some 0 else (closeFrom opening closing (depth - 1) ts).map (· + 1)
    else if t.isOneOf [.semicolon, .openBrace, .closeBrace] then none
    else (closeFrom opening closing depth ts).map (· + 1)

/-- The distance to the token that closes the parenthesis or bracket at the first token. -/
def matchingClose (opening closing : Symbol) (ts : Ahead) : Option Nat :=
  closeFrom opening closing 0 ts

/-- The number of tokens in the attribute sections at the beginning, unless one is not closed. -/
def attributeSections (ts : Ahead) : Option Nat :=
  if ts.is .openBracket then
    match matchingClose .openBracket .closeBracket ts with
    | none => none
    | some close =>
      match ts with
      | [] => none
      | _ :: rest => (attributeSections (rest.drop close)).map (· + (close + 1))
  else some 0
termination_by ts.length
decreasing_by simp only [List.length_drop, List.length_cons]; omega

/-- Whether the tokens, inside `depth` type argument lists, can only be read as a type. Unless
`generics`, type arguments are neither a sign of a type nor looked into. -/
def hasTypeSigns (generics : Bool) : (depth : Int) → Ahead → Bool
  | _, [] => false
  | depth, t :: ts =>
    if t.is .less then generics || hasTypeSigns generics (depth + 1) ts
    else if t.is .greater then hasTypeSigns generics (depth - 1) ts
    else if depth ≠ 0 then hasTypeSigns generics depth ts
    else
      t.namesType || t.isOneOf [.question, .openBracket, .star, .openParen] ||
        t.isWord .delegateWord || hasTypeSigns generics depth ts

/-- Whether the tokens can only be read as a type. -/
def isTypeOnly (ts : Ahead) : Bool := hasTypeSigns true 0 ts

/-- Whether the tokens are a simple or dotted name, where a name comes next or a dot. -/
def isDottedNameFrom : (nameNext : Bool) → Ahead → Bool
  | nameNext, [] => !nameNext
  | nameNext, t :: ts =>
    if nameNext then t.isIdentifier && isDottedNameFrom false ts
    else t.isOneOf [.dot, .colonColon] && isDottedNameFrom true ts

/-- Whether the tokens are a simple or dotted name. -/
def isDottedName (ts : Ahead) : Bool := isDottedNameFrom true ts

end Ahead

end CSharpCheck
