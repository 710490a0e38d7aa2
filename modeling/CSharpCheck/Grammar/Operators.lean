import CSharpCheck.Grammar.Lookahead

/-!
# Operators

The operators of expressions. A shift to the right is written with greater-than signs that touch,
which single tokens spell, so that nested type argument lists can be closed by the same signs.
-/

namespace CSharpCheck

/-- An operator, as a token spells it or as several tokens do together. -/
inductive Operator where
  | symbol (s : Symbol)
  | shiftRight
  | unsignedShiftRight
  | shiftRightEquals
  | unsignedShiftRightEquals
  | isOperator
  | asOperator
  | switchOperator
  | withOperator
  deriving DecidableEq, Repr

namespace Operator

/-- The precedence of binary operators, from coalescing as the loosest to ranges. -/
def precedence : Operator → Option Nat
  | .symbol .questionQuestion => some 3
  | .symbol .barBar => some 4
  | .symbol .ampersandAmpersand => some 5
  | .symbol .bar => some 6
  | .symbol .caret => some 7
  | .symbol .ampersand => some 8
  | .symbol .equalsEquals | .symbol .bangEquals => some 9
  | .symbol .less | .symbol .greater | .symbol .lessEquals | .symbol .greaterEquals => some 10
  | .isOperator | .asOperator => some 10
  | .symbol .lessLess | .shiftRight | .unsignedShiftRight => some 11
  | .symbol .plus | .symbol .minus => some 12
  | .symbol .star | .symbol .slash | .symbol .percent => some 13
  | .switchOperator | .withOperator => some 14
  | .symbol .dotDot => some 15
  | _ => none

/-- The loosest precedence. -/
def coalescing : Nat := 3

/-- The precedence of shifts. -/
def shifting : Nat := 11

/-- A precedence above those of all binary operators. -/
def tightest : Nat := 16

/-- Whether the operator assigns a value computed from the old one. -/
def isCompoundAssignment : Operator → Bool
  | .symbol s =>
    [Symbol.plusEquals, .minusEquals, .starEquals, .slashEquals, .percentEquals, .ampersandEquals,
      .barEquals, .caretEquals, .lessLessEquals].contains s
  | .shiftRightEquals | .unsignedShiftRightEquals => true
  | _ => false

/-- Whether the operator is an assignment. -/
def isAssignment (op : Operator) : Bool :=
  op == .symbol .equals || op == .symbol .questionQuestionEquals || op.isCompoundAssignment

/-- Whether a type may define the operator. -/
def isOverloadable : Operator → Bool
  | .symbol s =>
    [Symbol.plus, .minus, .bang, .tilde, .plusPlus, .minusMinus, .star, .slash, .percent,
      .ampersand, .bar, .caret, .lessLess, .equalsEquals, .bangEquals, .less, .greater,
      .lessEquals, .greaterEquals].contains s
  | .shiftRight | .unsignedShiftRight => true
  | _ => false

/-- The symbols that are unary operators before an operand. -/
def unarySymbols : List Symbol :=
  [.plus, .minus, .bang, .tilde, .plusPlus, .minusMinus, .ampersand, .star, .caret]

theorem precedence_lt {op : Operator} {p : Nat} (h : op.precedence = some p) : p < tightest := by
  unfold precedence at h
  split at h <;> first | contradiction | (cases h; decide)

end Operator

namespace Ahead

/-- The operator that greater-than signs spell, with the number of tokens it takes. -/
def greaterOperator (first : Token) (rest : Ahead) : Operator × Nat :=
  match rest with
  | [] => (.symbol .greater, 1)
  | second :: rest =>
    if !first.touches second then (.symbol .greater, 1)
    else if second.is .greaterEquals then (.shiftRightEquals, 2)
    else if !second.is .greater then (.symbol .greater, 1)
    else
      match rest with
      | [] => (.shiftRight, 2)
      | third :: _ =>
        if !second.touches third then (.shiftRight, 2)
        else if third.is .greater then (.unsignedShiftRight, 3)
        else if third.is .greaterEquals then (.unsignedShiftRightEquals, 3)
        else (.shiftRight, 2)

/-- The operator at the first token, with the number of tokens it takes. -/
def operator (ts : Ahead) : Option (Operator × Nat) :=
  match ts with
  | [] => none
  | t :: rest =>
    match t.kind with
    | .keyword .isWord => some (.isOperator, 1)
    | .keyword .asWord => some (.asOperator, 1)
    | .keyword .switchWord => if Ahead.is rest .openBrace then some (.switchOperator, 1) else none
    | .symbol .greater => some (greaterOperator t rest)
    | .symbol s => some (.symbol s, 1)
    | _ =>
      if t.isContextual "with" && Ahead.is rest .openBrace then some (.withOperator, 1) else none

end Ahead

end CSharpCheck
