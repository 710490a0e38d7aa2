import CSharpCheck.Proofs.Core.Depth
import CSharpCheck.Proofs.Core.Spelling
import CSharpCheck.Proofs.Scanning.SingleTokens

/-!
# Constants in case labels

The constants that a case label may hold: names, literals of any form, members of them, signs,
arithmetic and parentheses. A constant is written as the list of its single tokens. Seen as a
pattern, it is read as a whole unless it goes on behind something that is a pattern by itself:
parentheses or a lone underscore.
-/

namespace CSharpCheck.Core

/-! ### Words -/

/-- A name as a single token. -/
def Name.single (n : Name) : Single := .ofWord n.isFullWord.isWord

/-- A reserved word as a single token. -/
def wordSingle (k : Keyword) : Single := .ofWord (k.isWord_text false)

/-- A symbol as a single token. -/
def symbolSingle (s : Symbol) : Single := .ofWord (s.isWord_text false)

@[simp] theorem Name.kind_single (n : Name) : n.single.kind = .identifier := rfl

@[simp] theorem kind_wordSingle (k : Keyword) : (wordSingle k).kind = .keyword k := rfl

@[simp] theorem kind_symbolSingle (s : Symbol) : (symbolSingle s).kind = .symbol s := rfl

/-- A number, string or character of any form, also a string over several lines, that is read as a
single token. -/
structure AnyLiteral where
  single : Single
  isLiteral : single.kind ∈ [Kind.numericLiteral, .stringLiteral, .characterLiteral]

/-- Whether the operator shifts to the left or computes with numbers. -/
def Operation.isArithmetic : Operation → Bool
  | .shiftLeft | .add | .subtract | .multiply | .divide | .remainder => true
  | _ => false

/-! ### Labels -/

mutual

/-- Operands with arithmetic operators between them. -/
inductive Label where
  | operand (u : LabelOperand)
  | operation (left : Label) (op : Operation) (isArithmetic : op.isArithmetic = true)
      (right : LabelOperand)

/-- An operand with the operators before it. -/
inductive LabelOperand where
  | primary (p : LabelPrimary)
  | sign (s : Sign) (u : LabelOperand)

/-- An operand. -/
inductive LabelPrimary where
  | name (n : Name)
  | literal (l : AnyLiteral)
  | constant (c : Constant) (isValue : c ≠ .this)
  | parentheses (e : Label)
  | member (p : LabelPrimary) (n : Name)

end

mutual

def Label.words : Label → List Single
  | .operand u => u.words
  | .operation left op _ right => left.words ++ symbolSingle op.symbol :: right.words

def LabelOperand.words : LabelOperand → List Single
  | .primary p => p.words
  | .sign s u => symbolSingle s.symbol :: u.words

def LabelPrimary.words : LabelPrimary → List Single
  | .name n => [n.single]
  | .literal l => [l.single]
  | .constant c _ => [wordSingle c.word]
  | .parentheses e => symbolSingle .openParen :: (e.words ++ [symbolSingle .closeParen])
  | .member p n => p.words ++ [symbolSingle .dot, n.single]

end

mutual

/-- The number of parentheses and signs around a place in the label, at most. -/
def Label.depth : Label → Nat
  | .operand u => u.depth
  | .operation left _ _ right => max left.depth right.depth

def LabelOperand.depth : LabelOperand → Nat
  | .primary p => p.depth
  | .sign _ u => u.depth + 1

def LabelPrimary.depth : LabelPrimary → Nat
  | .name _ | .literal _ | .constant _ _ => 0
  | .parentheses e => e.depth + 1
  | .member p _ => p.depth

end

/-! ### Labels as patterns -/

/-- Whether the name is an underscore that is spelled by itself, which discards what it matches. -/
def Name.isDiscard (n : Name) : Bool := n.text == ['_']

/-- Whether the operand begins with parentheses or is a lone underscore, which may be patterns by
themselves. -/
def LabelPrimary.isAside : LabelPrimary → Bool
  | .name n => n.isDiscard
  | .literal _ | .constant _ _ | .member (.name _) _ => false
  | .parentheses _ => true
  | .member p _ => p.isAside

/-- The leftmost operand. -/
def Label.first : Label → LabelOperand
  | .operand u => u
  | .operation left _ _ _ => left.first

/-- Whether the label begins with something that may be a pattern by itself. -/
def Label.isAside (e : Label) : Bool :=
  match e.first with
  | .primary p => p.isAside
  | .sign _ _ => false

/-- Whether the label does not go on behind something that may be a pattern by itself. -/
def Label.isWhole : Label → Bool
  | .operand (.primary (.name _)) => true
  | .operand (.primary (.parentheses e)) => e.isWhole
  | e => !e.isAside

/-! ### Programs -/

/-- The name of the value that is matched. -/
def subjectName : Name := .ofLetter 'x' (by decide) (by decide)

/-- The words of the program with a switch over the label. -/
def Label.programWords (e : Label) : List Single :=
  [wordSingle .classWord, className.single, symbolSingle .openBrace, wordSingle .voidWord,
    methodName.single, symbolSingle .openParen, symbolSingle .closeParen, symbolSingle .openBrace,
    wordSingle .switchWord, symbolSingle .openParen, subjectName.single, symbolSingle .closeParen,
    symbolSingle .openBrace, wordSingle .caseWord] ++
  (e.words ++
    [symbolSingle .colon, wordSingle .breakWord, symbolSingle .semicolon, symbolSingle .closeBrace,
      symbolSingle .closeBrace, symbolSingle .closeBrace])

/-- The text of the program with a switch over the label:
`class C { void M ( ) { switch ( x ) { case e : break ; } } }`. -/
def Label.programText (e : Label) : List Char := Single.line e.programWords

end CSharpCheck.Core
