import CSharpCheck.Lexeme.Quoted
import CSharpCheck.Text.Blank

/-!
# Raw strings

A raw string opens with three or more quotes. When something follows them on their line, it ends
on that line at a run of at least as many quotes. Otherwise its content starts on the next line,
its closing quotes stand on a line of their own, and every line that is not blank starts with the
indentation of the closing quotes.
-/

namespace CSharpCheck

/-- The body that a closing run of `run` quotes at `start` ends, where `quotes` were needed. -/
def closeRaw (start run quotes : Nat) : Body :=
  ⟨start + run, true, [],
    if quotes < run then [⟨.rawTooManyQuotes, start, start + run⟩] else []⟩

/-- The body of a raw string on one line, with its closing quotes. -/
def rawLineBody (quotes start : Nat) (text : List Char) : Body :=
  match text with
  | [] => ⟨start, false, [], []⟩
  | c :: cs =>
    if isLineEnd c then ⟨start, false, [], []⟩
    else if c == '"' then
      let run := runLength '"' cs + 1
      if quotes ≤ run then closeRaw start run quotes
      else rawLineBody quotes (start + run) (cs.drop (run - 1))
    else rawLineBody quotes (start + 1) cs
termination_by text.length
decreasing_by all_goals simp only [List.length_drop, List.length_cons]; omega

/-- The place of the first run of at least `quotes` quotes in a line. -/
def quoteRun? (quotes : Nat) : List Char → Option Nat
  | [] => none
  | c :: cs =>
    if quotes ≤ runLength '"' (c :: cs) then some 0 else (quoteRun? quotes cs).map (· + 1)

/-- The fault of the first line, among lines with their places, that is neither blank nor starts
with the indentation. -/
def indentationFaults (indentation : List Char) (lines : List (Nat × List Char)) : List Fault :=
  match lines.find? fun (_, line) ↦ line.any (!isSpace ·) && !indentation.isPrefixOf line with
  | some (start, _) => [⟨.rawIndentation, start, start⟩]
  | none => []

/-- The rest of the body of a raw string over several lines, with its closing quotes. The text
starts at the end of a line, and `lines` are the content lines before it in reverse. -/
def rawBlockBody (quotes start : Nat) (lines : List (Nat × List Char)) (text : List Char) : Body :=
  match text with
  | [] => ⟨start, false, [], []⟩
  | _ :: cs =>
    let lead := lineEndLength text
    let lineStart := start + lead
    let rest := cs.drop (lead - 1)
    let line := restOfLine rest
    let indentation := line.takeWhile fun c ↦ c == ' ' || c == '\t'
    let run := runLength '"' (line.drop indentation.length)
    if quotes ≤ run then
      let body := closeRaw (lineStart + indentation.length) run quotes
      { body with faults := body.faults ++ indentationFaults indentation lines.reverse }
    else
      match quoteRun? quotes line with
      | some offset =>
        let close := lineStart + offset
        let body := closeRaw close (runLength '"' (line.drop offset)) quotes
        { body with faults := ⟨.rawDelimiterNotAlone, close, close⟩ :: body.faults }
      | none =>
        rawBlockBody quotes (lineStart + line.length) ((lineStart, line) :: lines)
          (rest.drop line.length)
termination_by text.length
decreasing_by simp only [List.length_drop, List.length_cons]; omega

/-- Whether only blanks are left on the line. -/
def restOfLineIsBlank (text : List Char) : Bool := (restOfLine text).all isBlank

/-- The raw string at the beginning of the text. -/
def rawString (text : List Char) : Lexeme :=
  let quotes := runLength '"' text
  let rest := text.drop quotes
  let body :=
    if restOfLineIsBlank rest then
      let line := restOfLine rest
      rawBlockBody quotes (quotes + line.length) [] (rest.drop line.length)
    else rawLineBody quotes quotes rest
  if body.closed then stringLexeme text body.stop [.rawStringLiterals] body.faults
  else openStringLexeme body.stop [.rawStringLiterals]
    (body.faults ++ [⟨.unterminatedRawString, 0, 0⟩])

end CSharpCheck
