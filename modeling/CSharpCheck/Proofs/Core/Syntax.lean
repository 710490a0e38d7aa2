import CSharpCheck.Lexeme.Quoted
import CSharpCheck.Token

/-!
# Core programs

A small part of the language: a class with one method, whose statements assign, call, branch, loop
and return. A program is written as the list of its words, with a space between two of them.
-/

namespace CSharpCheck.Core

/-! ### Names and literals -/

/-- Whether the characters spell the character of a name, perhaps by its number. -/
inductive IsSpelling (c : Char) : List Char → Prop where
  | plain : IsSpelling c [c]
  | short {digits : List Char} : digits.length = 4 → escapedChar? 4 digits = some c →
      IsSpelling c ('\\' :: 'u' :: digits)
  | long {digits : List Char} : digits.length = 8 → escapedChar? 8 digits = some c →
      IsSpelling c ('\\' :: 'U' :: digits)

/-- A character of a name with its spelling. -/
structure Letter where
  char : Char
  spelling : List Char
  isSpelling : IsSpelling char spelling

/-- The characters of letters. -/
def Letter.chars (ls : List Letter) : List Char := ls.map (·.char)

/-- Whether all letters are spelled by themselves. -/
def Letter.ArePlain (ls : List Letter) : Prop := ∀ l ∈ ls, l.spelling = [l.char]

/-- A name: an identifier that is no word of the language, unless an `@` or an escape makes it
one. -/
structure Name where
  verbatim : Bool
  letters : List Letter
  starts : (Letter.chars letters).head?.any startsName = true
  continues : ∀ c ∈ Letter.chars letters, continuesName c = true
  ordinary : verbatim = false → Letter.ArePlain letters →
    Keyword.ofText? (String.ofList (Letter.chars letters)) = none ∧
      String.ofList (Letter.chars letters) ∉ contextualWords

/-- The spelling of a name. -/
def Name.text (n : Name) : List Char :=
  if n.verbatim then '@' :: n.letters.flatMap (·.spelling) else n.letters.flatMap (·.spelling)

/-- Whether the characters stand for one character in a literal when a backslash comes before
them. -/
inductive IsEscape : List Char → Prop where
  | simple {c : Char} : c ∈ ['\'', '"', '\\', '0', 'a', 'b', 'e', 'f', 'n', 'r', 't', 'v'] →
      IsEscape [c]
  | short {digits : List Char} : digits.length = 4 → (∀ c ∈ digits, isHexDigit c = true) →
      IsEscape ('u' :: digits)
  | long {digits : List Char} : digits.length = 8 → (∀ c ∈ digits, isHexDigit c = true) →
      IsEscape ('U' :: digits)
  | hexadecimal {digits : List Char} : digits ≠ [] → digits.length ≤ 4 →
      (∀ c ∈ digits, isHexDigit c = true) → IsEscape ('x' :: digits)

/-- Whether the characters may stand between the quotes of a regular string. -/
inductive IsStringContent : List Char → Prop where
  | nil : IsStringContent []
  | char {c : Char} {cs : List Char} : c ≠ '"' → c ≠ '\\' → isLineEnd c = false →
      IsStringContent cs → IsStringContent (c :: cs)
  | escape {e cs : List Char} : IsEscape e → IsStringContent cs → IsStringContent ('\\' :: e ++ cs)

/-- Whether the characters may stand between the quotes of a character literal. -/
inductive IsCharacterContent : List Char → Prop where
  | char {c : Char} : c ≠ '\'' → c ≠ '\\' → isLineEnd c = false → IsCharacterContent [c]
  | escape {e : List Char} : IsEscape e → IsCharacterContent ('\\' :: e)

/-- A literal: decimal digits, a regular string or a character. -/
inductive Literal where
  | decimal (digits : List Char) (nonempty : digits ≠ [])
      (isDigit : ∀ c ∈ digits, c.isDigit = true)
  | string (content : List Char) (isContent : IsStringContent content)
  | character (content : List Char) (isContent : IsCharacterContent content)

/-- The spelling of a literal. -/
def Literal.text : Literal → List Char
  | .decimal digits _ _ => digits
  | .string content _ => '"' :: content ++ ['"']
  | .character content _ => '\'' :: content ++ ['\'']

/-- The class of a literal. -/
def Literal.kind : Literal → Kind
  | .decimal _ _ _ => .numericLiteral
  | .string _ _ => .stringLiteral
  | .character _ _ => .characterLiteral

/-! ### Words -/

/-- A word of a program. -/
inductive Word where
  | name (n : Name)
  | literal (l : Literal)
  | reserved (k : Keyword)
  | symbol (s : Symbol)

/-- The spelling of a word. -/
def Word.text : Word → List Char
  | .name n => n.text
  | .literal l => l.text
  | .reserved k => k.text.toList
  | .symbol s => s.text.toList

/-- The class of the token that a word is. -/
def Word.kind : Word → Kind
  | .name _ => .identifier
  | .literal l => l.kind
  | .reserved k => .keyword k
  | .symbol s => .symbol s

/-- The kinds of words. -/
def kinds (words : List Word) : List Kind := words.map (·.kind)

@[simp] theorem kinds_nil : kinds [] = [] := rfl

@[simp] theorem kinds_cons (w : Word) (ws : List Word) : kinds (w :: ws) = w.kind :: kinds ws := rfl

@[simp] theorem kinds_append (ws vs : List Word) : kinds (ws ++ vs) = kinds ws ++ kinds vs :=
  List.map_append

/-! ### Operators and constants -/

/-- The reserved words that are operands. -/
inductive Constant where
  | true | false | null | this
  deriving DecidableEq, Repr

/-- The reserved word of a constant. -/
def Constant.word : Constant → Keyword
  | .true => .trueWord
  | .false => .falseWord
  | .null => .nullWord
  | .this => .thisWord

/-- The operators before an operand. -/
inductive Sign where
  | plus | minus | not | complement
  deriving DecidableEq, Repr

/-- The symbol of an operator before an operand. -/
def Sign.symbol : Sign → Symbol
  | .plus => .plus
  | .minus => .minus
  | .not => .bang
  | .complement => .tilde

/-- The operators between two operands. -/
inductive Operation where
  | coalesce | orElse | andAlso | or | xor | and | equal | unequal | less | greater | atMost
  | atLeast | shiftLeft | add | subtract | multiply | divide | remainder
  deriving DecidableEq, Repr

/-- The symbol of an operator between two operands. -/
def Operation.symbol : Operation → Symbol
  | .coalesce => .questionQuestion
  | .orElse => .barBar
  | .andAlso => .ampersandAmpersand
  | .or => .bar
  | .xor => .caret
  | .and => .ampersand
  | .equal => .equalsEquals
  | .unequal => .bangEquals
  | .less => .less
  | .greater => .greater
  | .atMost => .lessEquals
  | .atLeast => .greaterEquals
  | .shiftLeft => .lessLess
  | .add => .plus
  | .subtract => .minus
  | .multiply => .star
  | .divide => .slash
  | .remainder => .percent

/-! ### Expressions -/

mutual

/-- An assignment, a chain of operations or a conditional. -/
inductive Expression where
  | assignment (target : Unary) (value : Expression)
  | operations (chain : Operations)
  | conditional (test : Operations) (yes no : Expression)

/-- Operands with operators between them. -/
inductive Operations where
  | operand (u : Unary)
  | operation (left : Operations) (op : Operation) (right : Unary)

/-- An operand with the operators before it. -/
inductive Unary where
  | primary (p : Primary)
  | sign (s : Sign) (u : Unary)

/-- An operand. A parenthesised expression alone is not called. -/
inductive Primary where
  | parentheses (e : Expression)
  | callable (c : Callable)

/-- An operand that may be called. -/
inductive Callable where
  | name (n : Name)
  | literal (l : Literal)
  | constant (c : Constant)
  | member (p : Primary) (n : Name)
  | emptyCall (c : Callable)
  | call (c : Callable) (args : Expressions)
  | index (p : Primary) (args : Expressions)

/-- Expressions with commas between them, at least one. -/
inductive Expressions where
  | one (e : Expression)
  | more (e : Expression) (es : Expressions)

end

mutual

def Expression.words : Expression → List Word
  | .assignment target value => target.words ++ .symbol .equals :: value.words
  | .operations chain => chain.words
  | .conditional test yes no =>
    test.words ++ .symbol .question :: (yes.words ++ .symbol .colon :: no.words)

def Operations.words : Operations → List Word
  | .operand u => u.words
  | .operation left op right => left.words ++ .symbol op.symbol :: right.words

def Unary.words : Unary → List Word
  | .primary p => p.words
  | .sign s u => .symbol s.symbol :: u.words

def Primary.words : Primary → List Word
  | .parentheses e => .symbol .openParen :: (e.words ++ [.symbol .closeParen])
  | .callable c => c.words

def Callable.words : Callable → List Word
  | .name n => [.name n]
  | .literal l => [.literal l]
  | .constant c => [.reserved c.word]
  | .member p n => p.words ++ [.symbol .dot, .name n]
  | .emptyCall c => c.words ++ [.symbol .openParen, .symbol .closeParen]
  | .call c args => c.words ++ .symbol .openParen :: (args.words ++ [.symbol .closeParen])
  | .index p args => p.words ++ .symbol .openBracket :: (args.words ++ [.symbol .closeBracket])

def Expressions.words : Expressions → List Word
  | .one e => e.words
  | .more e es => e.words ++ .symbol .comma :: es.words

end

/-! ### Statements -/

mutual

/-- A statement. -/
inductive Statement where
  | declaration (n : Name) (value : Expression)
  | body (b : Body)

/-- A statement that is no declaration, so that other statements may govern it. -/
inductive Body where
  | empty
  | block (ss : Statements)
  | assignment (n : Name) (value : Expression)
  | emptyCall (f : Name)
  | call (f : Name) (args : Expressions)
  | ifThen (test : Expression) (yes : Body)
  | ifElse (test : Expression) (yes no : Body)
  | whileDo (test : Expression) (b : Body)
  | doWhile (b : Body) (test : Expression)
  | return (value : Expression)

/-- Any number of statements. -/
inductive Statements where
  | nil
  | cons (s : Statement) (ss : Statements)

end

/-- An expression in parentheses. -/
def Expression.conditionWords (e : Expression) : List Word :=
  .symbol .openParen :: (e.words ++ [.symbol .closeParen])

mutual

def Statement.words : Statement → List Word
  | .declaration n value =>
    .reserved .intWord :: .name n :: .symbol .equals :: (value.words ++ [.symbol .semicolon])
  | .body b => b.words

def Body.words : Body → List Word
  | .empty => [.symbol .semicolon]
  | .block ss => .symbol .openBrace :: (ss.words ++ [.symbol .closeBrace])
  | .assignment n value => .name n :: .symbol .equals :: (value.words ++ [.symbol .semicolon])
  | .emptyCall f => [.name f, .symbol .openParen, .symbol .closeParen, .symbol .semicolon]
  | .call f args =>
    .name f :: .symbol .openParen ::
      (args.words ++ [.symbol .closeParen, .symbol .semicolon])
  | .ifThen test yes => .reserved .ifWord :: (test.conditionWords ++ yes.words)
  | .ifElse test yes no =>
    .reserved .ifWord ::
      (test.conditionWords ++ (yes.words ++ .reserved .elseWord :: no.words))
  | .whileDo test b => .reserved .whileWord :: (test.conditionWords ++ b.words)
  | .doWhile b test =>
    .reserved .doWord ::
      (b.words ++ .reserved .whileWord :: (test.conditionWords ++ [.symbol .semicolon]))
  | .return value => .reserved .returnWord :: (value.words ++ [.symbol .semicolon])

def Statements.words : Statements → List Word
  | .nil => []
  | .cons s ss => s.words ++ ss.words

end

/-! ### Parenthesised expressions -/

mutual

/-- The expressions in the expression that stand in parentheses of their own. -/
def Expression.parenthesized : Expression → List Expression
  | .assignment target value => target.parenthesized ++ value.parenthesized
  | .operations chain => chain.parenthesized
  | .conditional test yes no => test.parenthesized ++ (yes.parenthesized ++ no.parenthesized)

def Operations.parenthesized : Operations → List Expression
  | .operand u => u.parenthesized
  | .operation left _ right => left.parenthesized ++ right.parenthesized

def Unary.parenthesized : Unary → List Expression
  | .primary p => p.parenthesized
  | .sign _ u => u.parenthesized

def Primary.parenthesized : Primary → List Expression
  | .parentheses e => e :: e.parenthesized
  | .callable c => c.parenthesized

def Callable.parenthesized : Callable → List Expression
  | .name _ | .literal _ | .constant _ => []
  | .member p _ => p.parenthesized
  | .emptyCall c => c.parenthesized
  | .call c args => c.parenthesized ++ args.parenthesized
  | .index p args => p.parenthesized ++ args.parenthesized

def Expressions.parenthesized : Expressions → List Expression
  | .one e => e.parenthesized
  | .more e es => e.parenthesized ++ es.parenthesized

end

mutual

/-- The expressions in the statement that stand in parentheses of their own. -/
def Statement.parenthesized : Statement → List Expression
  | .declaration _ value => value.parenthesized
  | .body b => b.parenthesized

def Body.parenthesized : Body → List Expression
  | .empty | .emptyCall _ => []
  | .block ss => ss.parenthesized
  | .assignment _ value | .return value => value.parenthesized
  | .call _ args => args.parenthesized
  | .ifThen test yes => test.parenthesized ++ yes.parenthesized
  | .ifElse test yes no => test.parenthesized ++ (yes.parenthesized ++ no.parenthesized)
  | .whileDo test b | .doWhile b test => test.parenthesized ++ b.parenthesized

def Statements.parenthesized : Statements → List Expression
  | .nil => []
  | .cons s ss => s.parenthesized ++ ss.parenthesized

end

/-! ### Programs -/

/-- The name that is a single letter. -/
def Name.ofLetter (c : Char) (starts : startsName c = true)
    (ordinary : Keyword.ofText? (String.ofList [c]) = none ∧ String.ofList [c] ∉ contextualWords) :
    Name where
  verbatim := false
  letters := [⟨c, [c], .plain⟩]
  starts := starts
  continues := by
    have hcontinues : continuesName c = true := by
      simp only [startsName, continuesName, isLetterOrNumeral, Bool.or_eq_true] at starts ⊢
      exact starts.imp_left .inl
    simpa [Letter.chars] using hcontinues
  ordinary := fun _ _ ↦ ordinary

/-- A name for examples. -/
def Name.a : Name := .ofLetter 'a' (by decide) (by decide)

/-- The name of the class. -/
def className : Name := .ofLetter 'C' (by decide) (by decide)

/-- The name of its method. -/
def methodName : Name := .ofLetter 'M' (by decide) (by decide)

/-- The words before the statements of a program. -/
def programHead : List Word :=
  [.reserved .classWord, .name className, .symbol .openBrace, .reserved .objectWord,
    .name methodName, .symbol .openParen, .symbol .closeParen, .symbol .openBrace]

/-- The words of the program whose method has the statements. -/
def programWords (ss : Statements) : List Word :=
  programHead ++ (ss.words ++ [.symbol .closeBrace, .symbol .closeBrace])

/-- The text of words with single spaces between them. -/
def textOf (words : List Word) : List Char := [' '].intercalate (words.map (·.text))

/-- The text of the program whose method has the statements. -/
def programText (ss : Statements) : List Char := textOf (programWords ss)

end CSharpCheck.Core
