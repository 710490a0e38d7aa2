import CSharpCheck.Lexeme.Name

/-!
# Numbers

Decimal, hexadecimal and binary integers and real numbers, with digit separators and type
suffixes. A malformed number is still one lexeme, with one fault for the whole of it.
-/

namespace CSharpCheck

/-- The digits and separators at the beginning of the text. -/
def digitGroup (isDigit : Char → Bool) (text : List Char) : List Char :=
  text.takeWhile fun c ↦ isDigit c || c == '_'

/-- Whether a group of digits is not empty and ends with a digit. -/
def endsWithDigit (group : List Char) : Bool :=
  match group.getLast? with
  | some c => c != '_'
  | none => false

/-- Whether a group of digits starts with a separator. -/
def startsWithSeparator (group : List Char) : Bool := group.head? == some '_'

/-- Whether a decimal digit follows. The end of the text counts as one. -/
def digitFollows (text : List Char) : Bool :=
  match text.head? with
  | some c => c.isDigit
  | none => true

/-- The number of characters of a type suffix for integers. -/
def integerSuffixLength : List Char → Nat
  | c :: cs =>
    let follows (other : Char) : Nat := if (cs.head?.map Char.toLower) == some other then 2 else 1
    match c.toLower with
    | 'u' => follows 'l'
    | 'l' => follows 'u'
    | _ => 0
  | [] => 0

/-- The number of characters of a type suffix for real numbers. -/
def realSuffixLength : List Char → Nat
  | c :: _ => if ['f', 'd', 'm'].contains c.toLower then 1 else 0
  | [] => 0

/-- The lexeme of a number, whose only fault covers the whole of it. -/
def numberLexeme (length : Nat) (error : Option LexicalError) (features : List Feature) : Lexeme :=
  ⟨.numericLiteral, length, none, Feature.listed features,
    match error with
    | some e => [⟨e, 0, length⟩]
    | none => []⟩

/-- A number with a hexadecimal or binary prefix of two characters. -/
def prefixedNumber (binary : Bool) (text : List Char) : Lexeme :=
  let digits := digitGroup (if binary then Char.isDigit else isHexDigit) (text.drop 2)
  let valid := endsWithDigit digits &&
    (!binary || digits.all fun c ↦ c == '0' || c == '1' || c == '_')
  let length := 2 + digits.length
  numberLexeme (length + integerSuffixLength (text.drop length))
    (if valid then none else some .invalidNumber)
    ((if binary then [.binaryLiterals] else []) ++
      (if digits.contains '_' then [.digitSeparators] else []) ++
      if startsWithSeparator digits then [.leadingDigitSeparator] else [])

/-- The exponent of a real number: the number of characters of its letter and sign, and its
digits. -/
def exponent? : List Char → Option (Nat × List Char)
  | c :: cs =>
    if c == 'e' || c == 'E' then
      let sign := if cs.head? == some '+' || cs.head? == some '-' then 1 else 0
      some (1 + sign, digitGroup Char.isDigit (cs.drop sign))
    else none
  | [] => none

/-- The fraction of a real number: the digits after its dot. -/
def fraction? : List Char → Option (List Char)
  | '.' :: cs => if digitFollows cs then some (digitGroup Char.isDigit cs) else none
  | _ => none

/-- A number without prefix. -/
def decimalNumber (text : List Char) : Lexeme :=
  let whole := digitGroup Char.isDigit text
  let fraction := fraction? (text.drop whole.length)
  let wholeEnd := whole.length + (fraction.map (·.length + 1)).getD 0
  let exponent := exponent? (text.drop wholeEnd)
  let digitsEnd := wholeEnd + (exponent.map fun (lead, digits) ↦ lead + digits.length).getD 0
  let powers := (exponent.map (·.2)).getD []
  let isReal := fraction.isSome || exponent.isSome
  let valid := (whole.isEmpty || endsWithDigit whole) &&
    (fraction.map endsWithDigit).getD true &&
    (powers.isEmpty || (endsWithDigit powers && !startsWithSeparator powers))
  let rest := text.drop digitsEnd
  let suffix :=
    if realSuffixLength rest = 1 then 1 else if isReal then 0 else integerSuffixLength rest
  let error :=
    if exponent.isSome && powers.isEmpty then some .invalidReal
    else if valid then none
    else some .invalidNumber
  let separated := (whole ++ fraction.getD [] ++ powers).contains '_'
  numberLexeme (digitsEnd + suffix) error (if separated then [.digitSeparators] else [])

/-- Whether a number starts at the beginning of the text. -/
def numberStarts : List Char → Bool
  | '.' :: cs => digitFollows cs
  | c :: _ => c.isDigit
  | [] => false

/-- The number at the beginning of the text. -/
def number (text : List Char) : Lexeme :=
  match text with
  | '0' :: c :: _ =>
    if c == 'x' || c == 'X' then prefixedNumber false text
    else if c == 'b' || c == 'B' then prefixedNumber true text
    else decimalNumber text
  | _ => decimalNumber text

end CSharpCheck
