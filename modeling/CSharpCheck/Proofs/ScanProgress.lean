import CSharpCheck.Proofs.Scanning.ActiveTexts
import CSharpCheck.Proofs.Scanning.GroupLoops
import CSharpCheck.Proofs.Scanning.Steps

/-!
# Every scan makes progress

A scan in front of a character takes at least one, whatever the character is, however many holes
are open and whether or not a directive line is being read. So every loop of the reader ends that
repeats scans, although nothing else bounds its rounds.
-/

namespace CSharpCheck

open Unbounded (Agrees)

/-! ### Whole texts -/

namespace TokenSource

variable {s : TokenSource} {r : Reading}

/-- The reading of the group at the cursor. -/
def groupReading (s : TokenSource) (findings : List Finding) (c : Cursor) (group : Group) :
    Reading where
  tokens := c.tokens group.pieces
  findings := findings ++ (Fault.audible s.inDirective group.faults).map c.finding
  source :=
    { cursor := { c.advance group.length with lineUsed := true }
      inDirective := s.inDirective || s.opensDirective c
      finished := false }

/-- More steps than are left give nothing more. -/
theorem readUpTo_eq_of_stepsLeft_le {limit limit' : Nat} (h : s.stepsLeft ≤ limit)
    (h' : s.stepsLeft ≤ limit') : s.readUpTo limit = s.readUpTo limit' := by
  induction limit generalizing limit' s with
  | zero =>
    cases hfinished : s.finished with
    | true => rw [readUpTo_of_finished hfinished, readUpTo_of_finished hfinished]
    | false =>
      simp only [stepsLeft, hfinished, Bool.false_eq_true, if_false] at h
      omega
  | succ limit ih =>
    cases hfinished : s.finished with
    | true => rw [readUpTo_of_finished hfinished, readUpTo_of_finished hfinished]
    | false =>
      obtain ⟨r, hread⟩ := exists_read hfinished
      have hsteps := stepsLeft_lt_of_read hread
      obtain ⟨limit', rfl⟩ : ∃ n, limit' = n + 1 := Nat.exists_eq_add_one.2 (by omega)
      have hrest : r.source.readUpTo limit = r.source.readUpTo limit' := ih (by omega) (by omega)
      simp only [readUpTo, hread, hrest]

theorem readings_of_read (h : s.read = some r) : s.readings = r :: r.source.readings := by
  have hsteps := stepsLeft_lt_of_read h
  obtain ⟨limit, hlimit⟩ : ∃ limit, s.stepsLeft = limit + 1 := Nat.exists_eq_add_one.2 (by omega)
  rw [readings, hlimit, readUpTo, h]
  exact congrArg (r :: ·) (readUpTo_eq_of_stepsLeft_le (by omega) (Nat.le_refl _))

theorem readings_of_read_eq_none (h : s.read = none) : s.readings = [] := by
  cases hfinished : s.finished with
  | true => exact readUpTo_of_finished hfinished s.stepsLeft
  | false =>
    obtain ⟨r, hread⟩ := exists_read hfinished
    rw [h] at hread
    contradiction

end TokenSource

namespace Unbounded

/-- The next reading step. -/
noncomputable def read : TokenSource →. Option Reading := fun s ↦
  if s.finished then pure none
  else do
    let items ← gap s.inDirective s.cursor.rest
    let findings := (Fault.audible s.inDirective (gapFaults 0 items)).map s.cursor.finding
    let c := s.cursor.passGap items
    if s.inDirective && c.rest.head?.all isLineEnd then
      pure (some ⟨[c.emptyToken .directiveEnd false], findings, ⟨c, false, false⟩⟩)
    else if c.rest = [] then
      pure (some ⟨[c.emptyToken .endOfFile (!c.lineUsed)], findings, ⟨c, s.inDirective, true⟩⟩)
    else do
      let group ←
        if s.opensDirective c then directiveOpening c.rest
        else scanGroup s.inDirective maxOpenHoles c.rest
      pure (some (s.groupReading findings c group))

/-- A round over a text: a reading step. -/
noncomputable def readingRound :
    List Reading × TokenSource →. List Reading ⊕ List Reading × TokenSource := fun (found, s) ↦ do
  match ← read s with
  | none => pure (.inl found)
  | some r => pure (.inr (found ++ [r], r.source))

/-- All reading steps that are left, up to the first time that there is none. -/
noncomputable def readings : TokenSource →. List Reading := fun s ↦ run readingRound ([], s)

end Unbounded

theorem unbounded_read (s : TokenSource) : Unbounded.read s = Part.some s.read := by
  cases hfinished : s.finished with
  | true => simp [Unbounded.read, TokenSource.read, hfinished]
  | false =>
    simp only [Unbounded.read, TokenSource.read, hfinished, unbounded_gap,
      unbounded_directiveOpening, unbounded_scanGroup, Part.bind_eq_bind, Part.bind_some,
      Bool.false_eq_true, if_false]
    split
    · rfl
    · split
      · rfl
      · rw [TokenSource.readGroup_eq, TokenSource.groupAt]
        split
        · rfl
        · rfl

/-- Every reading step ends and leaves fewer steps to take. -/
theorem exists_readingRound (l : List Reading × TokenSource) :
    ∃ outcome, Unbounded.readingRound l = Part.some outcome ∧
      Agrees (fun l ↦ l.2.stepsLeft) (fun l ↦ l.1 ++ l.2.readings) l outcome := by
  obtain ⟨found, s⟩ := l
  simp only [Unbounded.readingRound, unbounded_read, Part.bind_eq_bind, Part.bind_some]
  cases hread : s.read with
  | none =>
    refine ⟨_, rfl, ?_⟩
    simp [Agrees, TokenSource.readings_of_read_eq_none hread]
  | some r =>
    refine ⟨_, rfl, TokenSource.stepsLeft_lt_of_read hread, ?_⟩
    simp [TokenSource.readings_of_read hread]

theorem unbounded_readings (s : TokenSource) : Unbounded.readings s = Part.some s.readings :=
  Unbounded.run_eq_some _ _ exists_readingRound ([], s)

/-! ### Progress -/

namespace Cursor

/-- Characters that are taken in front of the end of the text move the cursor on. -/
theorem offset_lt_advance {c : Cursor} (hc : c.rest ≠ []) {n : Nat} (hn : 0 < n) :
    c.position.offset < (c.advance n).position.offset := by
  have hrest : 0 < c.rest.length := List.length_pos_iff.2 hc
  show c.position.offset < (c.positionAt n).offset
  rw [offset_positionAt]
  omega

end Cursor

/-- A scan of a group, or of the opening of a directive line, in front of a character ends and has
moved the cursor on. So the reading of any text ends, and so do the loop over a raw string of
several lines, the loop over the tokens of a hole and the loop over excluded text. -/
theorem scans_make_progress (inDirective : Bool) (room : Nat) {c : Cursor} (hc : c.rest ≠ []) :
    (Unbounded.scanGroup inDirective room c.rest =
        Part.some (scanGroup inDirective room c.rest) ∧
      c.position.offset <
        (c.advance (scanGroup inDirective room c.rest).length).position.offset) ∧
    (Unbounded.directiveOpening c.rest = Part.some (directiveOpening c.rest) ∧
      c.position.offset < (c.advance (directiveOpening c.rest).length).position.offset) ∧
    (∀ s : TokenSource, Unbounded.readings s = Part.some s.readings) ∧
    (∀ quotes start lines text, Unbounded.rawBlockBody quotes start lines text =
      Part.some (rawBlockBody quotes start lines text)) ∧
    (∀ depth start text,
      Unbounded.holeTokens (Unbounded.scanGroup inDirective room) inDirective depth start text =
        Part.some (holeTokens (scanGroup inDirective room) inDirective depth start text)) ∧
    ∀ text, Unbounded.excludedLength text = Part.some (excludedLength text) := by
  have hgroup := length_scanGroup_pos inDirective room hc
  have hopening := length_directiveOpening_pos c.rest
  refine ⟨⟨?_, ?_⟩, ⟨?_, ?_⟩, ?_, ?_, ?_, ?_⟩
  · exact unbounded_scanGroup inDirective room c.rest
  · exact Cursor.offset_lt_advance hc hgroup
  · exact unbounded_directiveOpening c.rest
  · exact Cursor.offset_lt_advance hc hopening
  · exact unbounded_readings
  · exact unbounded_rawBlockBody
  · intro depth start text
    apply unbounded_holeTokens
    · exact unbounded_scanGroup inDirective room
    · intro text htext
      exact length_scanGroup_pos inDirective room htext
  · exact unbounded_excludedLength

/-- The scan of an interpolated string with a hole takes all its six characters. -/
theorem scan_of_hole_makes_progress :
    let c := Cursor.ofText ['$', '"', '\x7b', '1', '\x7d', '"']
    c.rest ≠ [] ∧ (scanGroup false maxOpenHoles c.rest).length = 6 ∧
      Unbounded.scanGroup false maxOpenHoles c.rest =
        Part.some (scanGroup false maxOpenHoles c.rest) ∧
      c.position.offset <
        (c.advance (scanGroup false maxOpenHoles c.rest).length).position.offset := by
  have hc : (Cursor.ofText ['$', '"', '\x7b', '1', '\x7d', '"']).rest ≠ [] := by decide
  exact ⟨hc, by decide +kernel, (scans_make_progress false maxOpenHoles hc).1⟩

end CSharpCheck
