import CSharpCheck.Text.CodeRange
import CSharpCheck.Text.Position

/-!
# Blank characters

Unicode white space, the two extra characters that source text treats as white space, and the
trimming of texts at their ends.
-/

namespace CSharpCheck

/-- White space: the separators, and the control characters that Unicode or the bidirectional
classes B, S and WS count as white space. Line ends are among them. -/
def isSpace (c : Char) : Bool :=
  inRanges [(0x9, 0xD), (0x1C, 0x20), (0x85, 0x85), (0xA0, 0xA0), (0x1680, 0x1680),
    (0x2000, 0x200A), (0x2028, 0x2029), (0x202F, 0x202F), (0x205F, 0x205F), (0x3000, 0x3000)] c

/-- White space inside a line of source text: any white space that ends no line, the byte order
mark and the substitute character. -/
def isBlank (c : Char) : Bool :=
  !isLineEnd c && (isSpace c || c == '\ufeff' || c == '\u001a')

/-- The text without white space at its end. -/
def trimEnd (cs : List Char) : List Char :=
  (cs.reverse.dropWhile isSpace).reverse

/-- The text without white space at either end. -/
def trim (cs : List Char) : List Char :=
  trimEnd (cs.dropWhile isSpace)

/-- A line end is never blank. -/
theorem isBlank_of_isLineEnd {c : Char} (h : isLineEnd c = true) : isBlank c = false := by
  simp [isBlank, h]

theorem not_isLineEnd_of_isBlank {c : Char} (h : isBlank c = true) : isLineEnd c = false := by
  simp only [isBlank, Bool.and_eq_true, Bool.not_eq_true'] at h
  exact h.1

end CSharpCheck
