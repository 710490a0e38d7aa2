import CSharpCheck.Lexeme.Basic
import CSharpCheck.Text.Blank

/-!
# Gaps

What stands between two tokens: blanks, line ends and comments. A gap on a directive line stops at
the end of the line, which is the end of the directive; a block comment may still reach over it.
-/

namespace CSharpCheck

/-- One element of a gap. Comments say how many characters follow their opening sign. -/
inductive GapItem where
  | blank
  | lineEnd (pair : Bool)
  | lineComment (extra : Nat)
  | blockComment (extra : Nat)
  | openComment (extra : Nat)
  deriving DecidableEq, Repr

namespace GapItem

/-- The number of characters of an element. -/
def length : GapItem → Nat
  | .blank => 1
  | .lineEnd pair => if pair then 2 else 1
  | .lineComment extra | .blockComment extra | .openComment extra => extra + 2

theorem length_pos (item : GapItem) : 0 < item.length := by
  cases item <;> simp only [length] <;> first | omega | (split <;> omega)

end GapItem

/-- The number of characters up to and including the end of a block comment. -/
def blockCommentLength? : List Char → Option Nat
  | [] => none
  | '*' :: '/' :: _ => some 2
  | _ :: cs => (blockCommentLength? cs).map (· + 1)

/-- The element of a gap at the beginning of the text, if there is one. -/
def gapItem? (inDirective : Bool) : List Char → Option GapItem
  | [] => none
  | '/' :: '/' :: cs => some (.lineComment (restOfLine cs).length)
  | '/' :: '*' :: cs =>
    match blockCommentLength? cs with
    | some extra => some (.blockComment extra)
    | none => some (.openComment cs.length)
  | c :: cs =>
    if isLineEnd c then
      if inDirective then none else some (.lineEnd (c == '\r' && cs.head? == some '\n'))
    else if isBlank c then some .blank
    else none

/-- The gap at the beginning of the text. -/
def gap (inDirective : Bool) (text : List Char) : List GapItem :=
  match gapItem? inDirective text with
  | none => []
  | some item =>
    if text = [] then [] else item :: gap inDirective (text.drop item.length)
termination_by text.length
decreasing_by
  have := item.length_pos
  have : 0 < text.length := List.length_pos_iff.2 ‹_›
  simp only [List.length_drop]
  omega

/-- The number of characters of a gap. -/
def gapLength (items : List GapItem) : Nat := items.foldr (fun item rest ↦ item.length + rest) 0

/-- The faults of a gap that starts at `start`: a comment that never ends. -/
def gapFaults (start : Nat) : List GapItem → List Fault
  | [] => []
  | item :: items =>
    match item with
    | .openComment _ =>
      ⟨.unterminatedComment, start, start⟩ :: gapFaults (start + item.length) items
    | _ => gapFaults (start + item.length) items

end CSharpCheck
