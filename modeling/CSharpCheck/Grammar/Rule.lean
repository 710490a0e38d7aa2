import CSharpCheck.Finding
import CSharpCheck.Grammar.TypeScan

/-!
# Grammar rules

A rule describes how a piece of the grammar is read: it looks at the tokens ahead, moves on over
some of them, reports errors, notes uses of features and calls the nonterminals of the grammar.
Rules are data. They say nothing about when reading has to stop: the machine that runs them bounds
the nesting of calls and the repetition of loops, moves forward only, and charges each token with
at most one error.
-/

namespace CSharpCheck

/-- The kinds of type declarations that a member can stand in. -/
inductive TypeKind where
  | classType | structType | interfaceType | extensionBlock
  deriving DecidableEq, Repr, Inhabited

/-- A token with its place in the text. -/
structure Placed where
  index : Nat
  token : Token
  deriving DecidableEq, Repr

/-- What a pattern turned out to be. Only the last kind has been checked for its version. -/
inductive PatternKind where
  /-- A bare type. -/
  | type
  /-- A simple or dotted name: a type or a constant. -/
  | name
  /-- Any other constant expression. -/
  | constant
  | other
  deriving DecidableEq, Repr, Inhabited

/-- The parts of the grammar that may contain themselves. -/
inductive Nonterminal where
  | namespaceDeclaration
  | member
  | typeDeclaration (modifiers : List Placed)
  | statement (topLevel : Bool)
  | expression
  | unary
  | initializer
  | pattern
  | varDesignation
  deriving DecidableEq, Repr

namespace Nonterminal

/-- What reading a nonterminal tells: of a namespace, whether it is file-scoped; of an expression,
whether it is a null-conditional access; of a pattern, its kind. -/
@[reducible] def Result : Nonterminal → Type
  | namespaceDeclaration | expression | unary => Bool
  | pattern => Option PatternKind
  | member | typeDeclaration _ | statement _ | initializer | varDesignation => Unit

/-- The result of a nonterminal that is not read because reading has been abandoned. -/
def Result.unread : (q : Nonterminal) → q.Result
  | namespaceDeclaration | expression | unary => false
  | pattern => none
  | member | typeDeclaration _ | statement _ | initializer | varDesignation => ()

end Nonterminal

/-- What a rule sees of the text. -/
structure View where
  /-- The place of the next token. -/
  index : Nat
  /-- The token before the next one. -/
  previous : Option Token
  /-- The tokens that are still to be read. -/
  ahead : Ahead
  deriving DecidableEq, Repr

/-- Where an error is reported. -/
inductive ErrorPlace where
  /-- At the next token. -/
  | here
  /-- At the end of the token before, since something is missing there. -/
  | missing
  deriving DecidableEq, Repr

/-- How a round of a loop ends. -/
inductive Round (σ : Type) where
  | again (state : σ)
  | stop (state : σ)

/-- A description of how a piece of the grammar is read. -/
inductive Rule : Type → Type 1 where
  /-- Nothing is read. -/
  | pure {α : Type} (result : α) : Rule α
  /-- Looks at the text. -/
  | look {α : Type} (next : View → Rule α) : Rule α
  /-- Asks whether the text is a script. -/
  | script {α : Type} (next : Bool → Rule α) : Rule α
  /-- Asks for the type declarations around, innermost first. -/
  | enclosing {α : Type} (next : List TypeKind → Rule α) : Rule α
  /-- Moves on over tokens. -/
  | advance {α : Type} (count : Nat) (next : Rule α) : Rule α
  /-- Notes the use of a feature at a token. -/
  | require {α : Type} (feature : Feature) (index : Nat) (next : Rule α) : Rule α
  /-- Reports an error, unless the next token has been charged with one. -/
  | report {α : Type} (place : ErrorPlace) (error : GrammarError) (next : Rule α) : Rule α
  /-- Reads a nonterminal, one level of nesting further in. -/
  | call {α : Type} (q : Nonterminal) (next : q.Result → Rule α) : Rule α
  /-- Repeats a rule until it says to stop or a round moves over nothing. -/
  | loop {α σ : Type} (init : σ) (round : σ → Rule (Round σ)) (next : σ → Rule α) : Rule α
  /-- Reads the body of a type declaration. -/
  | within {α : Type} (kind : TypeKind) (body : Rule Unit) (next : Rule α) : Rule α

namespace Rule

/-- One rule after another. -/
protected def bind {α β : Type} : Rule α → (α → Rule β) → Rule β
  | pure a, f => f a
  | look next, f => look fun v ↦ (next v).bind f
  | script next, f => script fun b ↦ (next b).bind f
  | enclosing next, f => enclosing fun ks ↦ (next ks).bind f
  | advance count next, f => advance count (next.bind f)
  | require feature index next, f => require feature index (next.bind f)
  | report place error next, f => report place error (next.bind f)
  | call q next, f => call q fun r ↦ (next r).bind f
  | loop init round next, f => loop init round fun s ↦ (next s).bind f
  | within kind body next, f => within kind body (next.bind f)

instance : Monad Rule where
  pure := pure
  bind := Rule.bind

/-! ### Looking -/

/-- The tokens that are still to be read. -/
def ahead : Rule Ahead := look fun v ↦ pure v.ahead

/-- The place of the next token. -/
def here : Rule Nat := look fun v ↦ pure v.index

/-- The answer to a question about the tokens ahead. -/
def ask {α : Type} (question : Ahead → α) : Rule α := look fun v ↦ pure (question v.ahead)

/-- Whether the next token is the symbol. -/
def next (s : Symbol) : Rule Bool := ask (·.is s)

/-- Whether the next token is one of the symbols. -/
def nextOneOf (symbols : List Symbol) : Rule Bool := ask (·.isOneOf symbols)

/-- Whether the next token is the reserved word. -/
def nextWord (k : Keyword) : Rule Bool := ask (·.isWord k)

/-- Whether the next token is one of the reserved words. -/
def nextWordOf (words : List Keyword) : Rule Bool := ask (·.isWordOf words)

/-- Whether the next token is an identifier. -/
def nextIdentifier : Rule Bool := ask (·.isIdentifier)

/-- Whether the next token is the contextual word. -/
def nextContextual (word : String) : Rule Bool := ask (·.isContextual word)

/-- The text of the next token; the end of the text has none. -/
def nextText : Rule String := ask fun ts ↦ (ts.head?.map (·.text)).getD ""

/-! ### Moving -/

/-- Moves on over tokens. -/
def skip (count : Nat) : Rule Unit := advance count (pure ())

/-- Moves on over the next token, whatever it is. -/
def skipToken : Rule Unit := skip 1

/-- Moves on over the next token if it answers the question with yes, and says whether it does. -/
def acceptIf (question : Ahead → Bool) : Rule Bool := do
  if ← ask question then
    skipToken
    return true
  else return false

/-- Moves on over the symbol if it comes next. -/
def accept (s : Symbol) : Rule Bool := acceptIf (·.is s)

/-- Moves on over the reserved word if it comes next. -/
def acceptWord (k : Keyword) : Rule Bool := acceptIf (·.isWord k)

/-! ### Reporting -/

/-- Reports an error at the next token. -/
def errorHere (e : GrammarError) : Rule Unit := report .here e (pure ())

/-- Reports that something is missing after the token before. -/
def errorMissing (e : GrammarError) : Rule Unit := report .missing e (pure ())

/-- Moves on over a token that answers the question with yes, or reports that it is missing. -/
def expectIf (question : Ahead → Bool) (e : GrammarError) : Rule Bool := do
  if ← acceptIf question then return true
  else
    errorMissing e
    return false

/-- Moves on over the symbol, or reports it missing. -/
def expect (s : Symbol) : Rule Bool := expectIf (·.is s) (.expected s)

/-- Moves on over the symbol, or reports it missing. -/
def need (s : Symbol) : Rule Unit := do
  let _ ← expect s

/-- Moves on over the word, reserved or not, or reports it missing. -/
def needWord (k : Keyword) : Rule Unit := do
  let _ ← expectIf (fun ts ↦ ts.isWord k || ts.isContextual k.text) (.wordExpected k.text)

/-- Moves on over the contextual word, or reports it missing. -/
def needContextual (word : String) : Rule Unit := do
  let _ ← expectIf (·.isContextual word) (.wordExpected word)

/-- Moves on over an identifier, or reports it missing. -/
def expectIdentifier : Rule Bool := expectIf (·.isIdentifier) .identifierExpected

/-- Moves on over an identifier, or reports it missing. -/
def needIdentifier : Rule Unit := do
  let _ ← expectIdentifier

/-- Moves on over the symbol if it comes next. -/
def allow (s : Symbol) : Rule Unit := do
  let _ ← accept s

/-- Moves on over the reserved word if it comes next. -/
def allowWord (k : Keyword) : Rule Unit := do
  let _ ← acceptWord k

/-- Notes the use of a feature at a place. -/
def requireAt (f : Feature) (index : Nat) : Rule Unit := require f index (pure ())

/-- Notes the use of a feature at the next token. -/
def requireHere (f : Feature) : Rule Unit := look fun v ↦ requireAt f v.index

/-- Notes the use of a feature at the token and moves on over it. -/
def takeFeature (f : Feature) : Rule Unit := do
  requireHere f
  skipToken

/-- Notes the uses of features that a scan from the given place has met. -/
def requireUses (start : Nat) : List ScanUse → Rule Unit
  | [] => pure ()
  | (f, offset) :: uses => require f (start + offset) (requireUses start uses)

/-! ### Repeating -/

/-- Repeats a rule as long as it says so. -/
def repeating (round : Rule Bool) : Rule Unit :=
  loop () (fun _ ↦ do return if ← round then .again () else .stop ()) pure

/-- Repeats a rule while the tokens ahead answer the question with yes. -/
def whileAhead (question : Ahead → Bool) (body : Rule Unit) : Rule Unit :=
  repeating do
    if ← ask question then
      body
      return true
    else return false

/-- Reads items with commas between them. -/
def commaSeparated (item : Rule Unit) : Rule Unit :=
  repeating do
    item
    accept .comma

/-- Reads items with commas between them and keeps track of them. -/
def commaSeparatedWith {σ : Type} (init : σ) (item : σ → Rule σ) : Rule σ :=
  loop init (fun state ↦ do
    let state ← item state
    return if ← accept .comma then .again state else .stop state) pure

/-- Whether text is left before the symbol. -/
def isBefore (s : Symbol) (ts : Ahead) : Bool := !ts.isEmpty && !ts.is s

/-- Reads items with commas between them up to the symbol. After the last item a comma may
follow. -/
def commaSeparatedUpTo (s : Symbol) (item : Rule Unit) : Rule Unit :=
  repeating do
    if ← ask (isBefore s) then
      item
      accept .comma
    else return false

/-! ### Nonterminals -/

/-- Reads an expression. -/
def expression : Rule Unit := call .expression fun _ ↦ pure ()

/-- Reads a statement inside another one. -/
def statement : Rule Unit := call (.statement false) pure

/-- Reads a pattern. -/
def pattern : Rule (Option PatternKind) := call .pattern pure

/-- Reads an operand with its unary operators. -/
def unary : Rule Bool := call .unary pure

/-- Reads an initializer in braces. -/
def initializer : Rule Unit := call .initializer pure

/-- Reads a member of a type, namespace or script. -/
def member : Rule Unit := call .member pure

end Rule

end CSharpCheck
