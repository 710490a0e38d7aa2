import CSharpCheck.Lexeme.Name

/-!
# Quoted literals

Characters, regular strings and verbatim strings. Characters and regular strings know escapes, end
on their line and stop there when the closing quote is missing; a verbatim string may span lines
and knows doubled quotes only.
-/

namespace CSharpCheck

/-- An escape: its number of characters with the backslash, whether it is legal, and whether it is
the escape that newer versions added. -/
structure Escape where
  length : Nat
  legal : Bool
  added : Bool
  deriving DecidableEq, Repr

/-- An escape by number: `count` hexadecimal digits are there of `limit`, and all are needed
unless `short` says that one is enough. -/
def Escape.numeric (count limit : Nat) (short : Bool) : Escape :=
  ⟨2 + count, 0 < count && (short || count == limit), false⟩

/-- The escape whose backslash stands before the text. -/
def escape (text : List Char) : Escape :=
  let digits (limit : Nat) : Nat := ((text.drop 1).takeWhile isHexDigit).length.min limit
  match text with
  | [] => ⟨1, false, false⟩
  | c :: _ =>
    if ['\'', '"', '\\', '0', 'a', 'b', 'f', 'n', 'r', 't', 'v'].contains c then ⟨2, true, false⟩
    else if c == 'e' then ⟨2, true, true⟩
    else if c == 'x' then .numeric (digits 4) 4 true
    else if c == 'u' then .numeric (digits 4) 4 false
    else if c == 'U' then .numeric (digits 8) 8 false
    else if isLineEnd c then ⟨1, false, false⟩
    else ⟨2, false, false⟩

/-- The faults of an escape that starts at `start`. -/
def Escape.faults (e : Escape) (start : Nat) : List Fault :=
  if e.legal then [] else [⟨.illegalEscape, start, start + e.length⟩]

/-- The features of an escape. -/
def Escape.features (e : Escape) : List Feature :=
  if e.added then [.escapeCharacter] else []

/-- The number of characters of the suffix that makes a string one of UTF-8 bytes. -/
def utf8SuffixLength : List Char → Nat
  | c :: '8' :: _ => if c == 'u' || c == 'U' then 2 else 0
  | _ => 0

/-- The lexeme of a string of `length` characters before its suffix. -/
def stringLexeme (text : List Char) (length : Nat) (features : List Feature)
    (faults : List Fault) : Lexeme :=
  let suffix := utf8SuffixLength (text.drop length)
  ⟨.stringLiteral, length + suffix, none,
    Feature.listed (features ++ if suffix = 0 then [] else [.utf8StringLiterals]), faults⟩

/-- The lexeme of a string that is not closed. -/
def openStringLexeme (length : Nat) (features : List Feature) (faults : List Fault) : Lexeme :=
  ⟨.stringLiteral, length, none, Feature.listed features, faults⟩

/-- How a scan over the body of a literal ended: where, whether at a closing quote, and the
features and faults met. -/
structure Body where
  stop : Nat
  closed : Bool
  features : List Feature
  faults : List Fault
  deriving DecidableEq, Repr

/-- The body that an escape at `start` begins. -/
def Body.afterEscape (b : Body) (e : Escape) (start : Nat) : Body :=
  { b with features := e.features ++ b.features, faults := e.faults start ++ b.faults }

/-- The body of a regular string with its closing quote; the text starts at `start`. -/
def stringBody (start : Nat) (text : List Char) : Body :=
  match text with
  | [] => ⟨start, false, [], []⟩
  | c :: cs =>
    if isLineEnd c then ⟨start, false, [], []⟩
    else if c == '"' then ⟨start + 1, true, [], []⟩
    else if c == '\\' then
      let e := escape cs
      (stringBody (start + e.length) (cs.drop (e.length - 1))).afterEscape e start
    else stringBody (start + 1) cs
termination_by text.length
decreasing_by all_goals simp only [List.length_drop, List.length_cons]; omega

/-- The regular string at the beginning of the text. -/
def regularString (text : List Char) : Lexeme :=
  let body := stringBody 1 (text.drop 1)
  if body.closed then stringLexeme text body.stop body.features body.faults
  else openStringLexeme body.stop body.features (body.faults ++ [⟨.newlineInConstant, 0, 0⟩])

/-- The body of a verbatim string with its closing quote. -/
def verbatimBody (start : Nat) : List Char → Body
  | [] => ⟨start, false, [], []⟩
  | '"' :: '"' :: cs => verbatimBody (start + 2) cs
  | '"' :: _ => ⟨start + 1, true, [], []⟩
  | _ :: cs => verbatimBody (start + 1) cs

/-- The verbatim string at the beginning of the text. -/
def verbatimString (text : List Char) : Lexeme :=
  let body := verbatimBody 2 (text.drop 2)
  if body.closed then stringLexeme text body.stop [] []
  else openStringLexeme body.stop [] [⟨.unterminatedString, 0, 0⟩]

/-- The number of characters up to the quote or line end where a character literal with too much
in it ends. A backslash takes the character after it along. -/
def overlongLength : List Char → Nat
  | [] => 0
  | ['\\'] => 1
  | '\\' :: _ :: cs => 2 + overlongLength cs
  | c :: cs => if c == '\'' || isLineEnd c then 0 else 1 + overlongLength cs

/-- The character literal at the beginning of the text. -/
def characterLiteral (text : List Char) : Lexeme :=
  let literal (length : Nat) (features : List Feature) (faults : List Fault) : Lexeme :=
    ⟨.characterLiteral, length, none, Feature.listed features, faults⟩
  match text.drop 1 with
  | [] => literal 1 [] [⟨.newlineInConstant, 0, 0⟩]
  | c :: cs =>
    if c == '\'' then literal 2 [] [⟨.emptyCharacter, 0, 2⟩]
    else if isLineEnd c then literal 1 [] [⟨.newlineInConstant, 0, 0⟩]
    else
      let e : Escape := if c == '\\' then escape cs else ⟨1, true, false⟩
      let rest := cs.drop (e.length - 1)
      let faults := e.faults 1
      if rest.head? == some '\'' then literal (e.length + 2) e.features faults
      else
        let stop := 1 + e.length + overlongLength rest
        if (text.drop stop).head? == some '\'' then
          literal (stop + 1) e.features (faults ++ [⟨.tooManyCharacters, 0, stop + 1⟩])
        else literal stop e.features (faults ++ [⟨.newlineInConstant, 0, 0⟩])

end CSharpCheck
