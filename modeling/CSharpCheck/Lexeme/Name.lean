import CSharpCheck.Lexeme.Basic
import CSharpCheck.Text.Numeral

/-!
# Names and reserved words

A name starts with a letter or an underscore and goes on with letters, numerals and underscores.
Each of its characters may be spelled by a Unicode escape. A reserved word is a name that is
spelled without `@` and without escapes.
-/

namespace CSharpCheck

/-- Whether a name may start with the character. -/
def startsName (c : Char) : Bool := isLetter c || c == '_'

/-- Whether the character may stand in a name. -/
def continuesName (c : Char) : Bool := isLetterOrNumeral c || c == '_'

/-- Whether the character is a hexadecimal digit. -/
def isHexDigit (c : Char) : Bool :=
  c.isDigit || ('a' ≤ c && c ≤ 'f') || ('A' ≤ c && c ≤ 'F')

/-- The value of a hexadecimal digit. -/
def hexValue (c : Char) : Nat :=
  if c.isDigit then c.toNat - 48 else if c.toNat < 97 then c.toNat - 55 else c.toNat - 87

/-- The number that hexadecimal digits spell. -/
def hexNumber (digits : List Char) : Nat := digits.foldl (fun n c ↦ 16 * n + hexValue c) 0

/-- The character that exactly `count` hexadecimal digits name. Code points that are no
characters stand for no part of a name, so the null character may stand for them. -/
def escapedChar? (count : Nat) (text : List Char) : Option Char :=
  let digits := text.take count
  if digits.length = count ∧ digits.all isHexDigit ∧ hexNumber digits ≤ 0x10ffff then
    some (Char.ofNat (hexNumber digits))
  else none

/-- The character of a name at the beginning of the text and the number of characters that spell
it. Whether it fits into a name is for the caller to see. -/
def nameChar? (text : List Char) : Option (Char × Nat) :=
  match text with
  | [] => none
  | c :: cs =>
    let escape :=
      if c == '\\' then
        match cs with
        | 'u' :: digits => (escapedChar? 4 digits).map (·, 6)
        | 'U' :: digits => (escapedChar? 8 digits).map (·, 10)
        | _ => none
      else none
    some (escape.getD (c, 1))

/-- Whether a name starts at the beginning of the text. -/
def nameStarts (text : List Char) : Bool :=
  match nameChar? text with
  | some (c, _) => startsName c
  | none => false

/-- The characters of the name at the beginning of the text, each with the number of characters
that spell it. -/
def nameChars (text : List Char) : List (Char × Nat) :=
  match text with
  | [] => []
  | _ :: cs =>
    match nameChar? text with
    | some (c, n) => if continuesName c then (c, n) :: nameChars (cs.drop (n - 1)) else []
    | none => []
termination_by text.length
decreasing_by simp only [List.length_drop, List.length_cons]; omega

/-- The name or reserved word at the beginning of the text. With `verbatim`, the text starts with
an `@` that makes any word a name. -/
def nameLexeme (verbatim : Bool) (text : List Char) : Lexeme :=
  let chars := nameChars (if verbatim then text.drop 1 else text)
  let name := String.ofList (chars.map (·.1))
  let length := chars.foldr (fun c rest ↦ c.2 + rest) (if verbatim then 1 else 0)
  let escaped := chars.any (1 < ·.2)
  let kind :=
    if verbatim || escaped then .identifier
    else
      match Keyword.ofText? name with
      | some word => .keyword word
      | none => .identifier
  ⟨kind, length, some name, [], []⟩

end CSharpCheck
