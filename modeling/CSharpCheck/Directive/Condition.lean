import CSharpCheck.Token

/-!
# Conditions

The conditions of conditional directives: disjunctions of conjunctions of comparisons of negated
names, `true`, `false` and parenthesised conditions. A name is true when the symbol is defined.
-/

namespace CSharpCheck

/-- How the reading of a condition ends. -/
inductive Verdict where
  /-- The condition has a value, and these tokens are left. -/
  | value (holds : Bool) (rest : List Token)
  /-- The condition cannot be read on at this token, or at the end of the line. -/
  | invalid (offender : Option Token)
  deriving DecidableEq, Repr

namespace Verdict

/-- The verdict with its value negated. -/
def negate : Verdict → Verdict
  | .value holds rest => .value (!holds) rest
  | .invalid offender => .invalid offender

end Verdict

namespace Condition

/-- Reads further operands while operators follow, at most `limit` of them, and combines the
values from left to right. -/
def chain (operand : List Token → Verdict) (operator? : Token → Option (Bool → Bool → Bool)) :
    (limit : Nat) → Bool → List Token → Verdict
  | 0, holds, ts => .value holds ts
  | limit + 1, holds, ts =>
    match ts with
    | [] => .value holds ts
    | t :: rest =>
      match operator? t with
      | none => .value holds ts
      | some combine =>
        match operand rest with
        | .value right rest => chain operand operator? limit (combine holds right) rest
        | .invalid offender => .invalid offender

/-- Reads operands joined by operators of one level. -/
def joined (operand : List Token → Verdict) (operator? : Token → Option (Bool → Bool → Bool))
    (ts : List Token) : Verdict :=
  match operand ts with
  | .value holds rest => chain operand operator? rest.length holds rest
  | .invalid offender => .invalid offender

/-- Reads a name, a constant or a parenthesised condition, where `inner` reads what is inside the
parentheses. -/
def primary (symbols : List String) (inner : List Token → Verdict) : List Token → Verdict
  | [] => .invalid none
  | t :: rest =>
    if t.isWord .trueWord then .value true rest
    else if t.isWord .falseWord then .value false rest
    else if t.isIdentifier then .value (symbols.contains (t.name.getD "")) rest
    else if t.is .openParen then
      match inner rest with
      | .invalid offender => .invalid offender
      | .value holds rest =>
        match rest with
        | [] => .invalid none
        | close :: rest => if close.is .closeParen then .value holds rest else .invalid (some close)
    else .invalid (some t)

/-- Reads a primary with any number of negations before it. -/
def unary (symbols : List String) (inner : List Token → Verdict) : List Token → Verdict
  | [] => .invalid none
  | t :: rest =>
    if t.is .bang then (unary symbols inner rest).negate else primary symbols inner (t :: rest)

/-- The comparison operators. -/
def comparison? (t : Token) : Option (Bool → Bool → Bool) :=
  if t.is .equalsEquals then some (· == ·)
  else if t.is .bangEquals then some (· != ·)
  else none

/-- The operator of conjunctions. -/
def conjunction? (t : Token) : Option (Bool → Bool → Bool) :=
  if t.is .ampersandAmpersand then some (· && ·) else none

/-- The operator of disjunctions. -/
def disjunction? (t : Token) : Option (Bool → Bool → Bool) :=
  if t.is .barBar then some (· || ·) else none

/-- Reads a condition with at most `depth - 1` parentheses inside one another. -/
def readWithin (symbols : List String) : (depth : Nat) → List Token → Verdict
  | 0, ts => .invalid ts.head?
  | depth + 1, ts =>
    joined (joined (joined (unary symbols (readWithin symbols depth)) comparison?) conjunction?)
      disjunction? ts

/-- Reads a condition. There are no more parentheses than tokens. -/
def read (symbols : List String) (ts : List Token) : Verdict :=
  readWithin symbols (ts.length + 1) ts

end Condition

end CSharpCheck
