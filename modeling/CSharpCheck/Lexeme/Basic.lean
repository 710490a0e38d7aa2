import CSharpCheck.Finding
import CSharpCheck.Token

/-!
# Lexemes

A scanner looks at the text that is left and says what it finds at its beginning. It counts
characters from there, so that its answer depends on nothing but the text. One scan finds a group:
a single token, or the tokens of an interpolated string.
-/

namespace CSharpCheck

/-- A lexical error about the characters from `start` to `stop`. -/
structure Fault where
  error : LexicalError
  start : Nat
  stop : Nat
  deriving DecidableEq, Repr

/-- A token whose place is counted from the beginning of the scan. -/
structure Piece where
  kind : Kind
  start : Nat
  length : Nat
  name : Option String
  features : List Feature
  deriving DecidableEq, Repr

/-- A single token that starts where the scan starts. -/
structure Lexeme where
  kind : Kind
  length : Nat
  name : Option String
  features : List Feature
  faults : List Fault
  deriving DecidableEq, Repr

/-- What one scan finds: the tokens in the order of the text, and the faults in the order in which
they show. -/
structure Group where
  length : Nat
  pieces : List Piece
  faults : List Fault
  deriving DecidableEq, Repr

namespace Fault

/-- The fault when the scan starts `n` characters later. -/
def shift (n : Nat) (f : Fault) : Fault := ⟨f.error, n + f.start, n + f.stop⟩

/-- The faults up to the one that ends the reading of the text. -/
def upToGivingUp : List Fault → List Fault
  | [] => []
  | f :: fs => if f.error = .tooComplex then [f] else f :: upToGivingUp fs

/-- The faults to report. On a directive line only the end of all reading is reported. -/
def audible (inDirective : Bool) (faults : List Fault) : List Fault :=
  (upToGivingUp faults).filter fun f ↦ !inDirective || f.error == .tooComplex

end Fault

namespace Piece

/-- The piece when the scan starts `n` characters later. -/
def shift (n : Nat) (p : Piece) : Piece := { p with start := n + p.start }

/-- A piece that carries neither name nor features. -/
def bare (kind : Kind) (start length : Nat) : Piece := ⟨kind, start, length, none, []⟩

end Piece

namespace Lexeme

/-- A lexeme without name, features and faults. -/
def bare (kind : Kind) (length : Nat) : Lexeme := ⟨kind, length, none, [], []⟩

/-- The single token of a lexeme. -/
def piece (l : Lexeme) : Piece := ⟨l.kind, 0, l.length, l.name, l.features⟩

/-- The group that consists of a single token. -/
def toGroup (l : Lexeme) : Group := ⟨l.length, [l.piece], l.faults⟩

end Lexeme

/-- The number of characters equal to `c` at the beginning of the text. -/
def runLength (c : Char) (text : List Char) : Nat := (text.takeWhile (· == c)).length

/-- The part of the text before the end of its first line. -/
def restOfLine (text : List Char) : List Char := text.takeWhile (!isLineEnd ·)

/-- The number of characters in the line end at the beginning of the text. -/
def lineEndLength : List Char → Nat
  | '\r' :: '\n' :: _ => 2
  | [] => 0
  | _ => 1

end CSharpCheck
