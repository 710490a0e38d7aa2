import CSharpCheck.Grammar.Lookahead

/-!
# Type scans

A type is recognised ahead of the reading position, since most decisions of the grammar hang on
where a type would end. A scan tells where the type ends, if there is one, and which features show
on the way, also when the scan fails. Positions are counted from where the scan started.
-/

namespace CSharpCheck

/-- The greatest number of type argument lists and tuples around a type. -/
def maxTypeDepth : Nat := 32

/-- A feature that shows at a token, counted from where the scan started. -/
abbrev ScanUse := Feature × Nat

/-- How a type scan ends. -/
structure TypeScan where
  /-- Where the type ends, if there is one. -/
  stop : Option Nat
  uses : List ScanUse
  deriving DecidableEq, Repr

namespace TypeScan

/-- No type. -/
def fail : TypeScan := ⟨none, []⟩

/-- A type that ends here. -/
def done (stop : Nat) : TypeScan := ⟨some stop, []⟩

/-- The scan with uses that show before. -/
def after (scan : TypeScan) (uses : List ScanUse) : TypeScan :=
  ⟨scan.stop, uses ++ scan.uses⟩

/-- The scan that goes on where this one ends, or fails with it. -/
def andThen (scan : TypeScan) (next : Nat → TypeScan) : TypeScan :=
  match scan.stop with
  | none => scan
  | some stop => (next stop).after scan.uses

end TypeScan

/-- A scanner for types inside a type; the tokens start at the given place. -/
abbrev InnerScan := Nat → Ahead → TypeScan

/-- Scans the question marks, stars and array ranks after a type. Inside an expression a question
mark before an operand and every star are operators. -/
def typeSuffixes (inExpression : Bool) (place : Nat) (ts : Ahead) : TypeScan :=
  match ts with
  | [] => .done place
  | t :: rest =>
    if t.is .question then
      if inExpression && rest.head?.any (·.startsExpression) then .done place
      else (typeSuffixes inExpression (place + 1) rest).after [(.nullableTypes, place)]
    else if t.is .star && !inExpression then typeSuffixes inExpression (place + 1) rest
    else if t.is .openBracket then
      let commas := (rest.takeWhile (·.is .comma)).length
      if Ahead.is (rest.drop commas) .closeBracket then
        typeSuffixes inExpression (place + commas + 2) (rest.drop (commas + 1))
      else .done place
    else .done place
termination_by ts.length
decreasing_by all_goals simp only [List.length_drop, List.length_cons]; omega

/-- Scans types with commas between them up to a greater-than sign. With `passing`, each type may
have words before it that say how a parameter is passed. -/
def typeList (inner : InnerScan) (passing : Bool) (place : Nat) (ts : Ahead) : TypeScan :=
  let words := if passing then
      (ts.takeWhile (·.isWordOf [.refWord, .inWord, .outWord, .readonlyWord])).length
    else 0
  let item := inner (place + words) (ts.drop words)
  match item.stop with
  | none => item
  | some stop =>
    match _h : ts.drop (stop - place) with
    | [] => TypeScan.fail.after item.uses
    | t :: rest =>
      if t.is .comma then (typeList inner passing (stop + 1) rest).after item.uses
      else if t.is .greater then (TypeScan.done (stop + 1)).after item.uses
      else TypeScan.fail.after item.uses
termination_by ts.length
decreasing_by
  have := congrArg List.length _h
  simp only [List.length_drop, List.length_cons] at this
  omega

/-- Scans type arguments from their less-than sign on, also the unbound form without types. -/
def typeArguments (inner : InnerScan) (place : Nat) (ts : Ahead) : TypeScan :=
  let rest := ts.drop 1
  let commas := (rest.takeWhile (·.is .comma)).length
  let arguments : TypeScan :=
    if Ahead.isOneOf rest [.comma, .greater] then
      if Ahead.is (rest.drop commas) .greater then .done (place + commas + 2) else .fail
    else typeList inner false (place + 1) rest
  arguments.after [(.generics, place)]

/-- Scans a name with alias qualifiers, dots and type arguments. Type arguments that are not
closed do not belong to the name. -/
def qualifiedName (inner : InnerScan) (place : Nat) (ts : Ahead) : TypeScan :=
  match ts with
  | [] => .fail
  | t :: rest =>
    if !t.isIdentifier then .fail
    else if Ahead.is rest .colonColon then
      (qualifiedName inner (place + 2) (rest.drop 1)).after
        [(.namespaceAliasQualifier, place + 1)]
    else
      let arguments : TypeScan :=
        if Ahead.is rest .less then typeArguments inner (place + 1) rest else .done (place + 1)
      match arguments.stop with
      | none => (TypeScan.done (place + 1)).after arguments.uses
      | some stop =>
        let following := rest.drop (stop - (place + 1))
        if Ahead.is following .dot && Ahead.isIdentifier (following.drop 1) then
          (qualifiedName inner (stop + 1) (following.drop 1)).after arguments.uses
        else arguments
termination_by ts.length
decreasing_by all_goals simp +zetaDelta only [List.length_drop, List.length_cons]; omega

/-- Scans the elements of a tuple type up to its closing parenthesis; `count` elements came
before. A tuple has at least two. -/
def tupleElements (inner : InnerScan) (count place : Nat) (ts : Ahead) : TypeScan :=
  let item := inner place ts
  match item.stop with
  | none => item
  | some stop =>
    let named := Ahead.isIdentifier (ts.drop (stop - place))
    let stop := if named then stop + 1 else stop
    match _h : ts.drop (stop - place) with
    | [] => TypeScan.fail.after item.uses
    | t :: rest =>
      if t.is .comma then (tupleElements inner (count + 1) (stop + 1) rest).after item.uses
      else if t.is .closeParen && 0 < count then (TypeScan.done (stop + 1)).after item.uses
      else TypeScan.fail.after item.uses
termination_by ts.length
decreasing_by
  have := congrArg List.length _h
  simp only [List.length_drop, List.length_cons] at this
  omega

/-- Scans a tuple type from its opening parenthesis on. -/
def tupleType (inner : InnerScan) (place : Nat) (ts : Ahead) : TypeScan :=
  let elements := tupleElements inner 0 (place + 1) (ts.drop 1)
  match elements.stop with
  | none => elements
  | some stop => ⟨some stop, elements.uses ++ [(.tuples, place)]⟩

/-- The number of tokens that give the calling convention of a function pointer type, unless its
list is not closed. -/
def conventionLength (ts : Ahead) : Option Nat :=
  if ts.isContextual "managed" || ts.isContextual "unmanaged" then
    if ts.tail.is .openBracket then
      (ts.tail.matchingClose .openBracket .closeBracket).map (· + 2)
    else some 1
  else some 0

/-- Scans a function pointer type from its `delegate` on. -/
def functionPointer (inner : InnerScan) (place : Nat) (ts : Ahead) : TypeScan :=
  let rest := ts.drop 2
  let scan : TypeScan :=
    match conventionLength rest with
    | none => .fail
    | some length =>
      if Ahead.is (rest.drop length) .less then
        typeList inner true (place + 3 + length) (rest.drop (length + 1))
      else .fail
  scan.after [(.functionPointers, place)]

/-- Scans a type without its suffixes. -/
def typeStem (inner : InnerScan) (place : Nat) (ts : Ahead) : TypeScan :=
  if ts.is .openParen then tupleType inner place ts
  else if ts.head?.any (·.namesType) then .done (place + 1)
  else if ts.isWord .delegateWord && ts.tail.is .star then functionPointer inner place ts
  else if ts.isIdentifier then qualifiedName inner place ts
  else .fail

/-- Scans a type with less than `room` type argument lists and tuples inside one another. -/
def typeWithin : (room : Nat) → (inExpression : Bool) → InnerScan
  | 0, _ => fun _ _ ↦ .fail
  | room + 1, inExpression => fun place ts ↦
    (typeStem (typeWithin room false) place ts).andThen fun stop ↦
      typeSuffixes inExpression stop (ts.drop (stop - place))

/-- Scans a type inside a type argument list or tuple. -/
def nestedType : InnerScan := typeWithin maxTypeDepth false

namespace Ahead

/-- Scans a type. -/
def typeScan (ts : Ahead) (inExpression : Bool) : TypeScan :=
  typeWithin (maxTypeDepth + 1) inExpression 0 ts

/-- Where a type at the first token ends. -/
def typeEnd (ts : Ahead) : Option Nat := (ts.typeScan false).stop

/-- Scans a qualified name. -/
def nameScan (ts : Ahead) : TypeScan := qualifiedName nestedType 0 ts

/-- Scans type arguments. -/
def argumentScan (ts : Ahead) : TypeScan := typeArguments nestedType 0 ts

/-- Where type arguments at the first token end. -/
def argumentsEnd (ts : Ahead) : Option Nat := ts.argumentScan.stop

/-- The symbols that may follow the type arguments of a name in an expression. -/
def genericFollow : List Symbol :=
  [.openParen, .closeParen, .closeBracket, .closeBrace, .colon, .semicolon, .comma, .dot,
   .question, .questionDot, .equalsEquals, .bangEquals, .bar, .caret, .ampersandAmpersand, .barBar,
   .ampersand, .openBracket]

/-- Where the type arguments of a name in an expression end. A less-than sign is a comparison
unless what follows the greater-than sign shows that there are type arguments. -/
def expressionArgumentsEnd (ts : Ahead) : Option Nat :=
  match ts.argumentsEnd with
  | none => none
  | some stop =>
    let following : Ahead := ts.drop stop
    if following.isEmpty || following.isKind .holeEnd || following.isKind .holeFormat ||
        following.isOneOf genericFollow then
      some stop
    else none

end Ahead

end CSharpCheck
