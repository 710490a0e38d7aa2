import CSharpCheck.Proofs.Relocation.Runs
import CSharpCheck.Proofs.Scanning.Cursors

/-!
# Sources in front of the same text

Two sources that stand in front of the same text go on in the same way, wherever that text stands in
the two texts that they read. Their steps agree as long as the places in front of them correspond to
each other.
-/

namespace CSharpCheck

/-- The cursors stand in front of the same text, each place of which is moved to the same place. -/
structure Cursor.Alike (m m' : Relocation) (c c' : Cursor) : Prop where
  rest : c'.rest = c.rest
  lineUsed : c'.lineUsed = c.lineUsed
  place (n : Nat) : m.place (c.positionAt n) = m'.place (c'.positionAt n)

/-- The sources stand in front of the same text and are in the same state. -/
structure TokenSource.Alike (m m' : Relocation) (s s' : TokenSource) : Prop where
  cursor : s.cursor.Alike m m' s'.cursor
  inDirective : s'.inDirective = s.inDirective
  finished : s'.finished = s.finished

variable {m m' : Relocation}

namespace Cursor.Alike

variable {c c' : Cursor} (h : c.Alike m m' c')

include h

theorem position : m.place c.position = m'.place c'.position := by
  rw [← c.positionAt_zero, ← c'.positionAt_zero, h.place]

theorem line (n : Nat) : (c'.positionAt n).line = (c.positionAt n).line := by
  rw [← m'.line_place, ← h.place, m.line_place]

theorem advance (n : Nat) : (c.advance n).Alike m m' (c'.advance n) where
  rest := congrArg (List.drop n) h.rest
  lineUsed := by
    have hline := h.line 0
    rw [c'.positionAt_zero, c.positionAt_zero] at hline
    change (c'.lineUsed && (c'.positionAt n).line == c'.position.line) = _
    rw [h.lineUsed, h.line, hline]
    rfl
  place k := by
    rw [positionAt_add, positionAt_add, h.place]

/-- Cursors that are alike stay so when both lines are used, or none. -/
theorem withLine (used : Bool) :
    Alike m m' { c with lineUsed := used } { c' with lineUsed := used } where
  rest := h.rest
  lineUsed := rfl
  place := h.place

theorem passItem (item : GapItem) : (c.passItem item).Alike m m' (c'.passItem item) := by
  unfold Cursor.passItem
  simp only
  split
  · exact (h.advance _).withLine true
  · exact h.advance _

omit h in
theorem passGap (h : c.Alike m m' c') (items : List GapItem) :
    (c.passGap items).Alike m m' (c'.passGap items) := by
  induction items generalizing c c' with
  | nil => exact h
  | cons item items ih => exact ih (h.passItem item)

variable (htext : m.text = m'.text)

include htext

theorem finding (f : Fault) : (c.finding f).relocate m = (c'.finding f).relocate m' := by
  have herror : f.error.relocate m = f.error.relocate m' := by
    cases f.error <;> simp only [LexicalError.relocate, Relocation.char, htext]
  simp only [Cursor.finding, Finding.relocate, Cause.relocate, Span.relocate, h.place, herror]

theorem findings (faults : List Fault) : (faults.map c.finding).map (·.relocate m) =
    (faults.map c'.finding).map (·.relocate m') := by
  simp only [List.map_map]
  exact List.map_congr_left fun f _ ↦ h.finding htext f

theorem token (atLineStart : Bool) (p : Piece) :
    (c.token atLineStart p).relocate m = (c'.token atLineStart p).relocate m' := by
  simp only [Cursor.token, Token.relocate, Span.relocate, h.place, h.rest, htext]

theorem tokens (pieces : List Piece) : (c.tokens pieces).map (·.relocate m) =
    (c'.tokens pieces).map (·.relocate m') := by
  cases pieces with
  | nil => rfl
  | cons p ps =>
    rw [Cursor.tokens, Cursor.tokens, List.map_cons, List.map_cons, h.token htext, h.lineUsed,
      List.map_map, List.map_map]
    exact congrArg _ (List.map_congr_left fun q _ ↦ h.token htext false q)

theorem emptyToken (kind : Kind) (atLineStart : Bool) :
    (c.emptyToken kind atLineStart).relocate m = (c'.emptyToken kind atLineStart).relocate m' := by
  simp only [Cursor.emptyToken, Token.relocate, Span.relocate_point, h.position, htext]

end Cursor.Alike

namespace TokenSource

variable {s s' : TokenSource}

/-- Behind gaps, steps that stand in front of the same text agree. -/
theorem read_of_behindGap (htext : m.text = m'.text) (hin : s'.inDirective = s.inDirective)
    (hfinished : s.finished = false) (hfinished' : s'.finished = false)
    (hfindings : s.gapFindings.map (·.relocate m) = s'.gapFindings.map (·.relocate m'))
    (h : s.behindGap.Alike m m' s'.behindGap) :
    ∃ r r', s.read = some r ∧ s'.read = some r' ∧ r.Agrees m m' r' ∧
      r.source.Alike m m' r'.source := by
  rw [read_eq hfinished, read_eq hfinished', hin, h.rest, h.lineUsed]
  split
  · refine ⟨_, _, rfl, rfl, ⟨?_, hfindings⟩, ⟨h, rfl, rfl⟩⟩
    exact congrArg (List.cons · []) (h.emptyToken htext _ _)
  · split
    · refine ⟨_, _, rfl, rfl, ⟨?_, hfindings⟩, ⟨h, rfl, rfl⟩⟩
      exact congrArg (List.cons · []) (h.emptyToken htext _ _)
    · have hopens : s'.opensDirective s'.behindGap = s.opensDirective s.behindGap := by
        rw [opensDirective, opensDirective, h.rest, h.lineUsed, hin]
      have hgroup : s'.groupAt s'.behindGap = s.groupAt s.behindGap := by
        rw [groupAt, groupAt, hopens, h.rest, hin]
      refine ⟨_, _, rfl, rfl, ⟨?_, ?_⟩, ⟨?_, ?_, rfl⟩⟩
      · rw [readGroup_eq, readGroup_eq, hgroup]
        exact h.tokens htext _
      · rw [readGroup_eq, readGroup_eq, hgroup, hin]
        simp only [List.map_append, hfindings, h.findings htext]
      · rw [readGroup_eq, readGroup_eq, hgroup]
        exact (h.advance _).withLine true
      · rw [readGroup_eq, readGroup_eq, hopens, hin]

namespace Alike

/-- Sources that are alike read steps that agree. -/
theorem read (htext : m.text = m'.text) (h : s.Alike m m' s') :
    (s.read = none ∧ s'.read = none) ∨ ∃ r r', s.read = some r ∧ s'.read = some r' ∧
      r.Agrees m m' r' ∧ r.source.Alike m m' r'.source := by
  cases hfinished : s.finished with
  | true =>
    refine .inl ⟨?_, ?_⟩
    · rw [TokenSource.read, hfinished]
      rfl
    · rw [TokenSource.read, h.finished, hfinished]
      rfl
  | false =>
    have hitems : gap s'.inDirective s'.cursor.rest = gap s.inDirective s.cursor.rest := by
      rw [h.inDirective, h.cursor.rest]
    refine .inr (read_of_behindGap htext h.inDirective hfinished (h.finished.trans hfinished) ?_ ?_)
    · rw [gapFindings, gapFindings, hitems, h.inDirective]
      exact h.cursor.findings htext _
    · rw [behindGap, behindGap, hitems]
      exact h.cursor.passGap _

theorem skipExcluded (h : s.Alike m m' s') : s.skipExcluded.Alike m m' s'.skipExcluded where
  cursor := by
    change Cursor.Alike m m' _ { s'.cursor.advance (excludedLength s'.cursor.rest) with
      lineUsed := false }
    rw [h.cursor.rest]
    exact (h.cursor.advance _).withLine false
  inDirective := h.inDirective
  finished := h.finished

end Alike

/-- Sources that follow steps that agree are alike where these end. -/
theorem Follow.alike {reading reading' : Reading} (h : s.Follow s' reading reading')
    (hreading : reading.source.Alike m m' reading'.source) : s.Alike m m' s' := by
  rcases h with ⟨rfl, rfl⟩ | ⟨-, rfl, rfl⟩
  · exact hreading
  · exact hreading.skipExcluded

end TokenSource

end CSharpCheck
