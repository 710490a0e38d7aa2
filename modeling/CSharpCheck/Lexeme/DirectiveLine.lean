import CSharpCheck.Lexeme.Name
import CSharpCheck.Text.Blank

/-!
# The opening of a directive line

A directive line opens with a hash, the name of the directive and, after some names, a free text
up to the end of the line. A hash with an exclamation mark opens a line that is all free text.
-/

namespace CSharpCheck

/-- The names of the directives that are followed by free text. -/
def messageDirectives : List String := ["error", "warning", "region", "endregion"]

/-- The number of spaces and tabs at the beginning of the text. -/
def indentLength (text : List Char) : Nat := (text.takeWhile fun c ↦ c == ' ' || c == '\t').length

/-- The free text up to the end of the line, where the text starts at `start`. White space at its
end does not count as message but belongs to the token. -/
def messagePiece (start : Nat) (text : List Char) : Piece :=
  let line := restOfLine text
  ⟨.directiveMessage, start, line.length, some (String.ofList (trimEnd line)), []⟩

/-- The opening of the directive line whose hash is the first character of the text. -/
def directiveOpening (text : List Char) : Group :=
  let hash := Piece.bare .directiveStart 0 1
  let rest := text.drop 1
  if rest.head? == some '!' then
    let message := messagePiece 1 rest
    ⟨1 + message.length, [hash, message], []⟩
  else
    let start := 1 + indentLength rest
    let nameText := text.drop start
    if nameText.head?.any startsName then
      let word := nameLexeme false nameText
      let name := word.piece.shift start
      let stop := start + word.length
      if messageDirectives.contains (String.ofList (nameText.take word.length)) then
        let messageStart := stop + indentLength (text.drop stop)
        let message := messagePiece messageStart (text.drop messageStart)
        ⟨messageStart + message.length,
          [hash, name] ++ if message.name == some "" then [] else [message], []⟩
      else ⟨stop, [hash, name], []⟩
    else ⟨start, [hash], []⟩

end CSharpCheck
