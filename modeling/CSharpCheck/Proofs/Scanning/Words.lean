import CSharpCheck.Proofs.Scanning.ActiveTexts
import CSharpCheck.Proofs.Scanning.Cursors

/-!
# Words and the white space between them

A text may be written word by word, with single spaces between the words of a line and line feeds
between the lines. It is then read word by word, whatever the words are, as long as each of them is
one group of tokens for itself.
-/

namespace CSharpCheck

/-! ### Positions in a line -/

/-- The position `n` characters further on in the line. -/
def Position.right (p : Position) (n : Nat) : Position := ⟨p.line, p.column + n, p.offset + n⟩

/-- The beginning of the next line, if the line ends with a line feed at the position. -/
def Position.below (p : Position) : Position := ⟨p.line + 1, 1, p.offset + 1⟩

namespace Position

@[simp] theorem right_zero (p : Position) : p.right 0 = p := rfl

@[simp] theorem right_right (p : Position) (m n : Nat) : (p.right m).right n = p.right (m + n) := by
  simp only [right, Nat.add_assoc]

theorem step_of_not_isLineEnd {c : Char} (h : isLineEnd c = false) (p : Position)
    (following : Option Char) : p.step c following = p.right 1 := by
  simp [step, endsLine, h, right]

theorem step_lineFeed (p : Position) (following : Option Char) :
    p.step '\n' following = p.below := by
  simp [step, endsLine, isLineEnd, below]

/-- In a stretch of text without line ends, positions move to the right. -/
theorem after_append_of_oneLine {cs : List Char} (h : ∀ c ∈ cs, isLineEnd c = false)
    (p : Position) (rest : List Char) {n : Nat} (hn : n ≤ cs.length) :
    p.after (cs ++ rest) n = p.right n := by
  induction cs generalizing p n with
  | nil =>
    obtain rfl : n = 0 := by simpa using hn
    exact after_zero _ _
  | cons c cs ih =>
    rw [List.forall_mem_cons] at h
    cases n with
    | zero => exact after_zero _ _
    | succ n =>
      rw [List.length_cons, Nat.add_le_add_iff_right] at hn
      rw [List.cons_append, after, step_of_not_isLineEnd h.1, ih h.2 _ hn, right_right,
        Nat.add_comm 1 n]

end Position

namespace Cursor

variable {c : Char} (h : isLineEnd c = false) (p : Position) (cs : List Char) (used : Bool)

include h

theorem positionAt_one : (⟨c :: cs, p, used⟩ : Cursor).positionAt 1 = p.right 1 := by
  rw [positionAt, Position.after, Position.step_of_not_isLineEnd h, Position.after_zero]

theorem advance_one : (⟨c :: cs, p, used⟩ : Cursor).advance 1 = ⟨cs, p.right 1, used⟩ := by
  rw [advance, positionAt_one h]
  simp [Position.right]

end Cursor

/-! ### White space -/

/-- Behind spaces, and line feeds where a gap may reach over them, the cursor comes to what is left
of the text. -/
inductive Cursor.Before (inDirective : Bool) (rest : List Char) (p : Position) (used : Bool) :
    Cursor → Prop where
  | here : Before inDirective rest p used ⟨rest, p, used⟩
  | space {c : Cursor} {cs : List Char} : c.rest = ' ' :: cs →
      Before inDirective rest p used (c.advance 1) → Before inDirective rest p used c
  | lineFeed {c : Cursor} {cs : List Char} : inDirective = false → c.rest = '\n' :: cs →
      Before inDirective rest p used (c.advance 1) → Before inDirective rest p used c

theorem gap_lineFeed (cs : List Char) :
    gap false ('\n' :: cs) = .lineEnd false :: gap false cs := by
  rw [gap]
  rfl

theorem gap_nil (inDirective : Bool) : gap inDirective [] = [] := by
  rw [gap]
  rfl

/-- The end of the line is the end of a gap in a directive. -/
theorem gap_true_lineFeed (cs : List Char) : gap true ('\n' :: cs) = [] := by
  rw [gap]
  rfl

/-- Nothing is found in white space, and the gap that it is part of goes up to the next word. -/
theorem Cursor.Before.passGap {inDirective used : Bool} {rest : List Char} {p : Position}
    {c : Cursor} (h : c.Before inDirective rest p used) (hgap : gap inDirective rest = []) :
    (∀ start, gapFaults start (gap inDirective c.rest) = []) ∧
      c.passGap (gap inDirective c.rest) = ⟨rest, p, used⟩ := by
  induction h with
  | here =>
    rw [hgap]
    exact ⟨fun _ ↦ rfl, rfl⟩
  | @space c cs hc _ ih =>
    obtain ⟨hfaults, hpass⟩ := ih
    rw [hc, gap_blank inDirective rfl]
    replace hpass : (c.advance 1).passGap (gap inDirective (c.rest.drop 1)) = _ := hpass
    replace hfaults : ∀ start, gapFaults start (gap inDirective (c.rest.drop 1)) = [] := hfaults
    rw [hc] at hpass hfaults
    exact ⟨fun start ↦ hfaults _, hpass⟩
  | @lineFeed c cs hin hc _ ih =>
    obtain ⟨hfaults, hpass⟩ := ih
    subst hin
    rw [hc, gap_lineFeed]
    replace hpass : (c.advance 1).passGap (gap false (c.rest.drop 1)) = _ := hpass
    replace hfaults : ∀ start, gapFaults start (gap false (c.rest.drop 1)) = [] := hfaults
    rw [hc] at hpass hfaults
    exact ⟨fun start ↦ hfaults _, hpass⟩

/-! ### Words -/

/-- In front of the rest of the text, the characters are read as one group of tokens, the pieces,
without a fault. They stand in one line. -/
structure Spells (inDirective : Bool) (chars : List Char) (pieces : List Piece)
    (rest : List Char) : Prop where
  ne_nil : chars ≠ []
  oneLine : ∀ c ∈ chars, isLineEnd c = false
  gap_eq : gap inDirective (chars ++ rest) = []
  scan_eq : scanGroup inDirective maxOpenHoles (chars ++ rest) = ⟨chars.length, pieces, []⟩

/-- What follows a word: a space or the end of the line. -/
def Separated (rest : List Char) : Prop := ∃ cs, rest = ' ' :: cs ∨ rest = '\n' :: cs

/-- Wherever a space or the end of the line follows, the characters are read as the pieces. -/
def IsWord (inDirective : Bool) (chars : List Char) (pieces : List Piece) : Prop :=
  ∀ rest, Separated rest → Spells inDirective chars pieces rest

/-- What follows a word that may be the last one of the text. -/
def EndsWord (rest : List Char) : Prop := rest = [] ∨ Separated rest

theorem Separated.endsWord {rest : List Char} (h : Separated rest) : EndsWord rest := .inr h

/-- The characters are read as the pieces also where the text ends. -/
def IsFullWord (inDirective : Bool) (chars : List Char) (pieces : List Piece) : Prop :=
  ∀ rest, EndsWord rest → Spells inDirective chars pieces rest

theorem IsFullWord.isWord {inDirective : Bool} {chars : List Char} {pieces : List Piece}
    (h : IsFullWord inDirective chars pieces) : IsWord inDirective chars pieces :=
  fun rest hrest ↦ h rest hrest.endsWord

/-- The tokens of a word at a position. -/
def wordTokens (p : Position) (atLineStart : Bool) (chars : List Char) (pieces : List Piece) :
    List Token :=
  (⟨chars, p, !atLineStart⟩ : Cursor).tokens pieces

namespace Spells

variable {inDirective : Bool} {chars rest : List Char} {pieces : List Piece}

theorem stop_le (h : Spells inDirective chars pieces rest) :
    ∀ p ∈ pieces, p.start + p.length ≤ chars.length := by
  have hne : chars ++ rest ≠ [] := List.append_ne_nil_of_left_ne_nil h.ne_nil rest
  have hcovers := covers_scanGroup inDirective maxOpenHoles hne
  rw [h.scan_eq] at hcovers
  exact hcovers.tiled.le_of_mem

/-- The tokens of a word do not depend on what follows. -/
theorem tokens_eq (h : Spells inDirective chars pieces rest) (p : Position) (used : Bool) :
    (⟨chars ++ rest, p, used⟩ : Cursor).tokens pieces = wordTokens p (!used) chars pieces := by
  have hpiece (b : Bool) : ∀ q ∈ pieces, (⟨chars ++ rest, p, used⟩ : Cursor).token b q =
      (⟨chars, p, !!used⟩ : Cursor).token b q := by
    intro q hq
    have hle := h.stop_le q hq
    have htext : ((chars ++ rest).drop q.start).take q.length =
        (chars.drop q.start).take q.length := by
      rw [List.drop_append_of_le_length (by omega), List.take_append_of_le_length]
      rw [List.length_drop]
      omega
    have hafter {n : Nat} (hn : n ≤ chars.length) : p.after (chars ++ rest) n = p.after chars n := by
      have hchars := Position.after_append_of_oneLine h.oneLine p [] hn
      rw [List.append_nil] at hchars
      rw [Position.after_append_of_oneLine h.oneLine p rest hn, hchars]
    have hstart := hafter (n := q.start) (by omega)
    simp only [Cursor.token, Cursor.positionAt, htext, hafter hle, hstart]
  unfold wordTokens
  cases hpieces : pieces with
  | nil => rfl
  | cons q qs =>
    rw [hpieces] at hpiece
    simp only [Cursor.tokens, Bool.not_not]
    rw [hpiece _ q List.mem_cons_self]
    have hmap : qs.map ((⟨chars ++ rest, p, used⟩ : Cursor).token false) =
        qs.map ((⟨chars, p, used⟩ : Cursor).token false) := by
      refine List.map_congr_left fun r hr ↦ ?_
      simpa using hpiece false r (List.mem_cons_of_mem q hr)
    rw [hmap]
    simp

/-- A word does not look like the beginning of a directive. -/
theorem head_ne_hash (h : Spells inDirective chars pieces rest) : chars.head? ≠ some '#' := by
  intro hhash
  obtain ⟨cs, rfl⟩ : ∃ cs, chars = '#' :: cs := by
    cases chars with
    | nil => contradiction
    | cons c cs =>
      cases hhash
      exact ⟨cs, rfl⟩
  have hscan := congrArg Group.faults h.scan_eq
  replace hscan : [_] = [] := hscan
  contradiction

end Spells

/-! ### Reading words -/

namespace TokenSource

variable {s : TokenSource} {chars rest : List Char} {pieces : List Piece} {p : Position}
  {used : Bool}

/-- Behind white space the next reading step starts at what is left of the text. -/
theorem read_of_before (hfinished : s.finished = false)
    (h : s.cursor.Before s.inDirective rest p used) (hgap : gap s.inDirective rest = []) :
    s.read = some
      (if s.inDirective && rest.head?.all isLineEnd then
        ⟨[(⟨rest, p, used⟩ : Cursor).emptyToken .directiveEnd false], [],
          ⟨⟨rest, p, used⟩, false, false⟩⟩
      else if rest = [] then
        ⟨[(⟨rest, p, used⟩ : Cursor).emptyToken .endOfFile (!used)], [],
          ⟨⟨rest, p, used⟩, s.inDirective, true⟩⟩
      else s.readGroup [] ⟨rest, p, used⟩) := by
  obtain ⟨hfaults, hpass⟩ := h.passGap hgap
  have hnone : Fault.audible s.inDirective [] = [] := rfl
  simp only [read, hfinished, Bool.false_eq_true, if_false, hfaults, hpass, hnone, List.map_nil]
  split
  · rfl
  · split <;> rfl

/-- A word is read in one step. -/
theorem read_word (hfinished : s.finished = false)
    (h : s.cursor.Before s.inDirective (chars ++ rest) p used)
    (hword : Spells s.inDirective chars pieces rest) :
    s.read = some ⟨wordTokens p (!used) chars pieces, [],
      ⟨⟨rest, p.right chars.length, true⟩, s.inDirective, false⟩⟩ := by
  rw [read_of_before hfinished h hword.gap_eq]
  obtain ⟨c, cs, rfl⟩ := List.exists_cons_of_ne_nil hword.ne_nil
  have hlineEnd : isLineEnd c = false := hword.oneLine c List.mem_cons_self
  have hhash : (some c == some '#') = false := by simpa using hword.head_ne_hash
  have hafter : p.after (c :: cs ++ rest) (c :: cs).length = p.right (c :: cs).length :=
    Position.after_append_of_oneLine hword.oneLine p rest (Nat.le_refl _)
  have hdrop : (c :: cs ++ rest).drop (c :: cs).length = rest := List.drop_left
  have hnone : Fault.audible s.inDirective [] = [] := rfl
  have hscan := hword.scan_eq
  rw [List.cons_append] at hscan hafter hdrop
  rw [if_neg (by simp [hlineEnd]), if_neg (by simp)]
  simp only [readGroup, List.cons_append, List.head?_cons, hhash, Bool.false_and,
    Bool.false_eq_true, if_false, hscan, Cursor.advance, Cursor.positionAt, hafter, hdrop, hnone,
    List.map_nil, List.append_nil, Bool.or_false]
  rw [← List.cons_append, hword.tokens_eq]

/-- At the end of its line a directive ends. -/
theorem read_directiveEnd {cs : List Char} (hfinished : s.finished = false)
    (hin : s.inDirective = true) (h : s.cursor.Before true ('\n' :: cs) p used) :
    s.read = some ⟨[⟨.directiveEnd, "", none, .point p, false, []⟩], [],
      ⟨⟨'\n' :: cs, p, used⟩, false, false⟩⟩ := by
  have hgap : gap s.inDirective ('\n' :: cs) = [] := by
    rw [hin]
    exact gap_true_lineFeed cs
  rw [read_of_before hfinished (hin ▸ h) hgap, if_pos (by simp [hin, isLineEnd])]
  rfl

/-- Behind the last word comes the end of the text. -/
theorem read_endOfFile (hfinished : s.finished = false) (hin : s.inDirective = false)
    (h : s.cursor.Before false [] p used) :
    s.read = some ⟨[⟨.endOfFile, "", none, .point p, !used, []⟩], [],
      ⟨⟨[], p, used⟩, false, true⟩⟩ := by
  have hgap : gap s.inDirective [] = [] := gap_nil _
  rw [read_of_before hfinished (hin ▸ h) hgap, if_neg (by simp [hin]), if_pos rfl, hin]
  rfl

/-- A hash at the beginning of a line opens a directive. -/
theorem read_opening {cs : List Char} {group : Group} (hfinished : s.finished = false)
    (hin : s.inDirective = false) (h : s.cursor.Before false ('#' :: cs) p false)
    (hgroup : directiveOpening ('#' :: cs) = group) (hfaults : group.faults = []) :
    s.read = some ⟨(⟨'#' :: cs, p, false⟩ : Cursor).tokens group.pieces, [],
      ⟨⟨('#' :: cs).drop group.length, p.after ('#' :: cs) group.length, true⟩, true, false⟩⟩ := by
  have hgap : gap s.inDirective ('#' :: cs) = [] := by
    rw [gap]
    cases s.inDirective <;> rfl
  rw [read_of_before hfinished (hin ▸ h) hgap, if_neg (by simp [hin]), if_neg (by simp)]
  simp [readGroup, hin, hgroup, hfaults, Fault.audible, Fault.upToGivingUp, Cursor.advance,
    Cursor.positionAt]

end TokenSource

end CSharpCheck
