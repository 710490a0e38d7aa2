import CSharpCheck.Grammar.Rule

/-!
# Recovery

How many tokens are skipped after an error until a place where reading can go on. A closing brace
is skipped only together with its opening brace, so that the construct around finds its own.
-/

namespace CSharpCheck

/-- The reserved words at which every recovery stops. -/
def declarationWords : List Keyword :=
  [.abstractWord, .classWord, .delegateWord, .enumWord, .eventWord, .externWord, .interfaceWord,
   .internalWord, .namespaceWord, .overrideWord, .privateWord, .protectedWord, .publicWord,
   .readonlyWord, .sealedWord, .staticWord, .structWord, .virtualWord]

/-- The reserved words at which a recovery inside statements stops as well. -/
def statementWords : List Keyword :=
  [.breakWord, .constWord, .continueWord, .doWord, .fixedWord, .forWord, .foreachWord, .gotoWord,
   .ifWord, .lockWord, .returnWord, .switchWord, .throwWord, .tryWord, .usingWord, .whileWord]

namespace Ahead

/-- The number of tokens up to the brace that closes the last of `depth` open ones, or up to the
end. -/
def bracesFrom : (depth : Nat) → Ahead → Nat
  | _, [] => 0
  | depth, t :: ts =>
    if t.is .openBrace then bracesFrom (depth + 1) ts + 1
    else if t.is .closeBrace then if depth = 1 then 1 else bracesFrom (depth - 1) ts + 1
    else bracesFrom depth ts + 1

/-- The number of tokens that are skipped as one: outside statements a group in braces, otherwise
the next token. -/
def unit (inStatement : Bool) (ts : Ahead) : Nat :=
  if inStatement || !ts.is .openBrace then 1 else bracesFrom 0 ts

/-- The number of tokens up to the boundary of a statement or declaration. A semicolon belongs to
what is skipped. -/
def toBoundary (inStatement : Bool) (ts : Ahead) : Nat :=
  match ts with
  | [] => 0
  | t :: rest =>
    if t.is .semicolon then 1
    else if t.is .closeBrace || t.isWordOf declarationWords ||
        (inStatement && (t.isWordOf statementWords || t.is .openBrace)) then 0
    else
      let n := unit inStatement ts
      n + toBoundary inStatement (rest.drop (n - 1))
termination_by ts.length
decreasing_by simp only [List.length_drop, List.length_cons]; omega

/-- The number of tokens that are skipped after an error: at least one, up to a boundary. -/
def recovery (inStatement : Bool) (ts : Ahead) : Nat :=
  let n := unit inStatement ts
  n + toBoundary inStatement (ts.drop n)

/-- The number of tokens up to one of the accessor names, or to a closing brace. -/
def toAccessor (names : List String) (ts : Ahead) : Nat :=
  match ts with
  | [] => 0
  | t :: rest =>
    if t.is .closeBrace || (t.isIdentifier && names.contains t.text) then 0
    else
      let n := unit false ts
      n + toAccessor names (rest.drop (n - 1))
termination_by ts.length
decreasing_by simp only [List.length_drop, List.length_cons]; omega

/-- The number of tokens that are skipped after an error where an accessor name is expected. -/
def accessorRecovery (names : List String) (ts : Ahead) : Nat :=
  let n := unit false ts
  n + toAccessor names (ts.drop n)

/-- The number of tokens up to the end of the hole in an interpolated string, when `depth` holes
inside it are open. -/
def toHoleEnd : (depth : Nat) → Ahead → Nat
  | _, [] => 0
  | depth, t :: ts =>
    if t.kind = .holeStart then toHoleEnd (depth + 1) ts + 1
    else if t.kind = .holeEnd then if depth = 0 then 0 else toHoleEnd (depth - 1) ts + 1
    else toHoleEnd depth ts + 1

end Ahead

namespace Rule

/-- Skips to a place where reading can go on after an error. -/
def recover (inStatement : Bool) : Rule Unit := look fun v ↦ skip (v.ahead.recovery inStatement)

end Rule

end CSharpCheck
