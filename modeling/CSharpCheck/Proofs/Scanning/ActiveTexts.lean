import Mathlib.Logic.Basic
import CSharpCheck.ActiveText
import CSharpCheck.Proofs.Scanning.Groups

/-!
# The tokens of active text

Directives choose whole scans, so that the active tokens are whole groups, too. A reading that
does not break off goes on to the end of the text, which is the last active token.
-/

namespace CSharpCheck

namespace Cursor

theorem kinds_tokens (c : Cursor) (pieces : List Piece) :
    (c.tokens pieces).map (·.kind) = Piece.kinds pieces := by
  cases pieces with
  | nil => rfl
  | cons p ps =>
    rw [tokens, List.map_cons, List.map_map]
    rfl

/-- The classes of tokens are those of their pieces. -/
theorem forall_kind_tokens (c : Cursor) (pieces : List Piece) (P : Kind → Prop) :
    (∀ t ∈ c.tokens pieces, P t.kind) ↔ ∀ k ∈ Piece.kinds pieces, P k := by
  rw [← c.kinds_tokens, List.forall_mem_map]

theorem rest_advance (c : Cursor) (n : Nat) : (c.advance n).rest = c.rest.drop n := rfl

theorem length_rest_passItem (c : Cursor) (item : GapItem) :
    (c.passItem item).rest.length ≤ c.rest.length := by
  unfold passItem
  split
  all_goals
    simp only [rest_advance, List.length_drop]
    omega

theorem length_rest_passGap (c : Cursor) (items : List GapItem) :
    (c.passGap items).rest.length ≤ c.rest.length := by
  induction items generalizing c with
  | nil => exact Nat.le_refl _
  | cons item items ih => exact Nat.le_trans (ih (c.passItem item)) (c.length_rest_passItem item)

end Cursor

namespace TokenSource

variable {s : TokenSource} {r : Reading}

/-- Whether a directive line opens at the cursor. -/
def opensDirective (s : TokenSource) (c : Cursor) : Bool :=
  c.rest.head? == some '#' && !c.lineUsed && !s.inDirective

/-- The group at the cursor. -/
def groupAt (s : TokenSource) (c : Cursor) : Group :=
  if s.opensDirective c then directiveOpening c.rest
  else scanGroup s.inDirective maxOpenHoles c.rest

theorem readGroup_eq (s : TokenSource) (fs : List Finding) (c : Cursor) : s.readGroup fs c =
    { tokens := c.tokens (s.groupAt c).pieces
      findings := fs ++ (Fault.audible s.inDirective (s.groupAt c).faults).map c.finding
      source :=
        { cursor := { c.advance (s.groupAt c).length with lineUsed := true }
          inDirective := s.inDirective || s.opensDirective c
          finished := false } } := rfl

/-- The cursor in front of what a step reads. -/
def behindGap (s : TokenSource) : Cursor := s.cursor.passGap (gap s.inDirective s.cursor.rest)

/-- What is found in the gap in front of what a step reads. -/
def gapFindings (s : TokenSource) : List Finding :=
  (Fault.audible s.inDirective (gapFaults 0 (gap s.inDirective s.cursor.rest))).map s.cursor.finding

theorem read_eq (h : s.finished = false) : s.read =
    if (s.inDirective && s.behindGap.rest.head?.all isLineEnd) = true then
      some ⟨[s.behindGap.emptyToken .directiveEnd false], s.gapFindings, ⟨s.behindGap, false, false⟩⟩
    else if s.behindGap.rest = [] then
      some ⟨[s.behindGap.emptyToken .endOfFile (!s.behindGap.lineUsed)], s.gapFindings,
        ⟨s.behindGap, s.inDirective, true⟩⟩
    else some (s.readGroup s.gapFindings s.behindGap) := by
  rw [read, h]
  rfl

/-- The three kinds of reading steps, in front of which a gap is passed. -/
theorem read_cases (h : s.read = some r) : s.finished = false ∧ ∃ (c : Cursor) (fs : List Finding),
    c.rest.length ≤ s.cursor.rest.length ∧
      ((s.inDirective = true ∧ r = ⟨[c.emptyToken .directiveEnd false], fs, ⟨c, false, false⟩⟩) ∨
        (s.inDirective = false ∧
          r = ⟨[c.emptyToken .endOfFile (!c.lineUsed)], fs, ⟨c, false, true⟩⟩) ∨
        (c.rest ≠ [] ∧ r = s.readGroup fs c)) := by
  unfold read at h
  split at h
  · contradiction
  · next hfinished =>
    have hgap := s.cursor.length_rest_passGap (gap s.inDirective s.cursor.rest)
    simp only at h
    generalize s.cursor.passGap (gap s.inDirective s.cursor.rest) = c at h hgap
    generalize (Fault.audible s.inDirective _).map s.cursor.finding = fs at h
    refine ⟨by simpa using hfinished, c, fs, hgap, ?_⟩
    split at h
    · next hend =>
      rw [Bool.and_eq_true] at hend
      exact .inl ⟨hend.1, (Option.some.inj h).symm⟩
    · next hend =>
      split at h
      · next hrest =>
        have hoff : s.inDirective = false := by simpa [hrest] using hend
        rw [hoff] at h
        exact .inr (.inl ⟨hoff, (Option.some.inj h).symm⟩)
      · next hrest => exact .inr (.inr ⟨hrest, (Option.some.inj h).symm⟩)

/-- Behind the end of the text nothing is read. -/
theorem readUpTo_of_finished (h : s.finished = true) (limit : Nat) : s.readUpTo limit = [] := by
  cases limit with
  | zero => rfl
  | succ limit => simp [readUpTo, read, h]

/-- There is a reading step as long as the end of the text has not been delivered. -/
theorem exists_read (h : s.finished = false) : ∃ r, s.read = some r := by
  simp only [read, h, Bool.false_eq_true, if_false]
  split
  · exact ⟨_, rfl⟩
  · split <;> exact ⟨_, rfl⟩

/-- The pieces that a group reading turns into tokens. -/
theorem exists_pieces_readGroup (s : TokenSource) (fs : List Finding) {c : Cursor}
    (hc : c.rest ≠ []) :
    ∃ group : Group, (s.readGroup fs c).tokens = c.tokens group.pieces ∧
      Context.Closed (Piece.kinds group.pieces) ∧ 0 < group.length ∧
      (s.readGroup fs c).source.cursor.rest = c.rest.drop group.length := by
  unfold readGroup
  simp only
  split
  · exact ⟨_, rfl, closed_directiveOpening _, length_directiveOpening_pos _, rfl⟩
  · exact ⟨_, rfl, closed_scanGroup _ _ _, length_scanGroup_pos _ _ hc, rfl⟩

/-- Every reading step gives whole groups. -/
theorem closed_of_read (h : s.read = some r) : Context.Closed (r.tokens.map (·.kind)) := by
  obtain ⟨-, c, fs, -, ⟨-, rfl⟩ | ⟨-, rfl⟩ | ⟨hc, rfl⟩⟩ := read_cases h
  · exact .singleton rfl
  · exact .singleton rfl
  · obtain ⟨group, htokens, hclosed, -⟩ := s.exists_pieces_readGroup fs hc
    rw [htokens, Cursor.kinds_tokens]
    exact hclosed

/-- The bound on the reading steps that are left goes down with every step. -/
theorem stepsLeft_lt_of_read (h : s.read = some r) : r.source.stepsLeft < s.stepsLeft := by
  obtain ⟨hfinished, c, fs, hlength, ⟨hin, rfl⟩ | ⟨-, rfl⟩ | ⟨hc, rfl⟩⟩ := read_cases h
  · simp only [stepsLeft, hfinished, hin, Bool.false_eq_true, if_false, if_true]
    omega
  · simp only [stepsLeft, hfinished, Bool.false_eq_true, if_false, if_true]
    omega
  · obtain ⟨group, -, -, hpos, hrest⟩ := s.exists_pieces_readGroup fs hc
    have hcpos : 0 < c.rest.length := List.length_pos_iff.2 hc
    have hgoes : (s.readGroup fs c).source.finished = false := rfl
    simp only [stepsLeft, hfinished, hgoes, Bool.false_eq_true, if_false, hrest, List.length_drop]
    split <;> split <;> omega

theorem stepsLeft_skipExcluded (s : TokenSource) : s.skipExcluded.stepsLeft ≤ s.stepsLeft := by
  have hlength : s.skipExcluded.cursor.rest.length ≤ s.cursor.rest.length := by
    rw [skipExcluded, Cursor.rest_advance, List.length_drop]
    exact Nat.sub_le _ _
  have hfinished : s.skipExcluded.finished = s.finished := rfl
  have hin : s.skipExcluded.inDirective = s.inDirective := rfl
  rw [stepsLeft, stepsLeft, hfinished, hin]
  split
  · exact Nat.le_refl _
  · omega

end TokenSource

/-- The step ends a directive line. -/
def Reading.EndsDirective (r : Reading) : Prop :=
  ∃ t ts, r.tokens = t :: ts ∧ t.kind = .directiveEnd

namespace ActiveReader

variable {script : Bool} {r : ActiveReader} {reading : Reading}

/-- The effect of the directive line that ends with the given token. -/
def lineEffect (script : Bool) (r : ActiveReader) (stop : Token) : Effect :=
  match r.lineUpTo stop with
  | some line => r.state.process script line
  | none => r.state.unchanged []

theorem endLine_eq (script : Bool) (r : ActiveReader) (reading : Reading) (stop : Token) :
    r.endLine script reading stop =
      let effect := r.lineEffect script stop
      (⟨[], reading.findings ++ effect.findings, effect.remarks, effect.state,
          (r.lineUpTo stop).bind r.state.breakdown?⟩,
        ⟨if effect.state.active then reading.source else reading.source.skipExcluded,
          effect.state, []⟩) := rfl

/-- Nothing is active on a directive line, whose tokens are gathered. -/
theorem take_line (script : Bool) {t : Token} {us : List Token}
    (hline : r.line ≠ [] ∨ t.kind = .directiveStart) (htokens : reading.tokens = t :: us)
    (hend : t.kind ≠ .directiveEnd) :
    r.take script reading = (⟨[], reading.findings, [], r.state, none⟩,
      ⟨reading.source, r.state, reading.tokens.reverse ++ r.line⟩) := by
  unfold take
  rw [htokens]
  simp only
  rw [if_neg hend, if_pos hline.symm]

/-- A reading step contributes its own tokens only. -/
theorem tokens_take_subset (script : Bool) (r : ActiveReader) (reading : Reading) :
    (r.take script reading).1.tokens ⊆ reading.tokens := by
  unfold take
  split
  · exact List.nil_subset _
  · next t ts htokens =>
    split
    · exact List.nil_subset _
    · split
      · exact List.nil_subset _
      · split
        · rw [htokens]
          exact List.cons_subset.2 ⟨List.mem_cons_self, List.nil_subset _⟩
        · exact List.Subset.refl _

/-- The active tokens of a reading step are the tokens of the step, or its first token, which ends
the text, or none. -/
theorem closed_take (script : Bool) (h : r.source.read = some reading) :
    Context.Closed ((r.take script reading).1.tokens.map (·.kind)) := by
  unfold take
  split
  · exact .nil
  · next t ts htokens =>
    split
    · exact .nil
    · split
      · exact .nil
      · split
        · next heof => exact .singleton (k := t.kind) (by rw [heof]; rfl)
        · exact TokenSource.closed_of_read h

theorem closed_chunksUpTo (limit : Nat) (r : ActiveReader) :
    Context.Closed (((r.chunksUpTo script limit).flatMap (·.tokens)).map (·.kind)) := by
  induction limit generalizing r with
  | zero => exact .nil
  | succ limit ih =>
    unfold chunksUpTo
    split
    · exact .nil
    · next reading hread =>
      have hfirst := closed_take script hread
      simp only
      split
      · simpa using hfirst
      · rw [List.flatMap_cons, List.map_append]
        exact hfirst.append (ih _)

/-! ### The end of the text -/

/-- A directive line is being gathered only while the source is in one. -/
def Tidy (r : ActiveReader) : Prop := r.source.inDirective = false → r.line = []

/-- Text is skipped only after the end of a directive line. -/
theorem source_take_eq (script : Bool) (r : ActiveReader) (reading : Reading) :
    (r.take script reading).2.source = reading.source ∨
      reading.EndsDirective ∧ (r.take script reading).2.source = reading.source.skipExcluded := by
  unfold take
  split
  · exact .inl rfl
  · next t ts htokens =>
    split
    · next hkind =>
      have hsource : (r.endLine script reading t).2.source = reading.source ∨
          (r.endLine script reading t).2.source = reading.source.skipExcluded :=
        ite_eq_or_eq _ _ _
      exact hsource.imp_right fun hskip ↦ ⟨⟨t, ts, htokens, hkind⟩, hskip⟩
    · split
      · exact .inl rfl
      · split <;> exact .inl rfl

theorem source_take (script : Bool) (r : ActiveReader) (reading : Reading) :
    (r.take script reading).2.source = reading.source ∨
      (r.take script reading).2.source = reading.source.skipExcluded :=
  (r.source_take_eq script reading).imp_right And.right

theorem finished_source_take (script : Bool) (r : ActiveReader) (reading : Reading) :
    (r.take script reading).2.source.finished = reading.source.finished := by
  rcases r.source_take script reading with h | h <;> rw [h]
  rfl

theorem stepsLeft_source_take (script : Bool) (h : r.source.read = some reading) :
    (r.take script reading).2.source.stepsLeft < r.source.stepsLeft := by
  have hlt := TokenSource.stepsLeft_lt_of_read h
  rcases r.source_take script reading with hs | hs
  · rwa [hs]
  · rw [hs]
    exact Nat.lt_of_le_of_lt reading.source.stepsLeft_skipExcluded hlt

theorem line_take (hline : r.line = []) (ts : List Token) {t : Token}
    (htokens : reading.tokens = t :: ts) (ht : t.kind ≠ .directiveStart) :
    (r.take script reading).2.line = [] := by
  unfold take
  rw [htokens]
  simp only
  split
  · rfl
  · split
    · next hkind => simp [ht, hline] at hkind
    · split
      · exact hline
      · rfl

theorem tidy_take (hr : r.Tidy) (h : r.source.read = some reading) :
    (r.take script reading).2.Tidy := by
  obtain ⟨-, c, fs, -, ⟨-, rfl⟩ | ⟨hin, rfl⟩ | ⟨hc, rfl⟩⟩ := TokenSource.read_cases h
  · exact fun _ ↦ rfl
  · exact fun _ ↦ line_take (hr hin) [] rfl (by simp [Cursor.emptyToken])
  · intro hout
    have hout' : (r.source.readGroup fs c).source.inDirective = false := by
      rcases r.source_take script (r.source.readGroup fs c) with hs | hs <;>
        rw [hs] at hout <;> exact hout
    rw [TokenSource.readGroup, Bool.or_eq_false_iff] at hout'
    obtain ⟨hin, hopens⟩ := hout'
    obtain ⟨p, ps, hpieces, hp⟩ := exists_piece_scanGroup r.source.inDirective maxOpenHoles hc
    have hstart : p.kind ≠ .directiveStart := by
      intro heq
      rw [heq] at hp
      rcases hp with hp | hp <;> contradiction
    refine line_take (hr hin) (ps.map (c.token false)) (t := c.token (!c.lineUsed) p) ?_ hstart
    simp only [TokenSource.readGroup, hopens, Bool.false_eq_true, if_false, hpieces]
    rfl

/-- The reader is finished when it has taken the end of the text. -/
theorem exists_eof_of_finished (script : Bool) (hr : r.Tidy) (h : r.source.read = some reading)
    (hfinished : reading.source.finished = true) :
    ∃ eof, (r.take script reading).1.tokens = [eof] ∧ eof.kind = .endOfFile := by
  obtain ⟨-, c, fs, -, ⟨-, rfl⟩ | ⟨hin, rfl⟩ | ⟨-, rfl⟩⟩ := TokenSource.read_cases h
  · contradiction
  · refine ⟨c.emptyToken .endOfFile (!c.lineUsed), ?_, rfl⟩
    simp [take, Cursor.emptyToken, hr hin]
  · contradiction

theorem chunksUpTo_of_finished {r : ActiveReader} (h : r.source.finished = true) (limit : Nat) :
    r.chunksUpTo script limit = [] := by
  cases limit with
  | zero => rfl
  | succ limit => simp [chunksUpTo, TokenSource.read, h]

/-- More steps than are left contribute nothing more. -/
theorem chunksUpTo_eq_of_stepsLeft_le {limit limit' : Nat} {r : ActiveReader}
    (h : r.source.stepsLeft ≤ limit) (h' : r.source.stepsLeft ≤ limit') :
    r.chunksUpTo script limit = r.chunksUpTo script limit' := by
  induction limit generalizing limit' r with
  | zero =>
    cases hfinished : r.source.finished with
    | true => rw [chunksUpTo_of_finished hfinished, chunksUpTo_of_finished hfinished]
    | false =>
      simp only [TokenSource.stepsLeft, hfinished, Bool.false_eq_true, if_false] at h
      omega
  | succ limit ih =>
    cases hfinished : r.source.finished with
    | true => rw [chunksUpTo_of_finished hfinished, chunksUpTo_of_finished hfinished]
    | false =>
      obtain ⟨reading, hread⟩ := TokenSource.exists_read hfinished
      have hsteps := stepsLeft_source_take script hread
      obtain ⟨limit', rfl⟩ : ∃ n, limit' = n + 1 := Nat.exists_eq_add_one.2 (by omega)
      have hrest : (r.take script reading).2.chunksUpTo script limit =
          (r.take script reading).2.chunksUpTo script limit' := ih (by omega) (by omega)
      simp only [chunksUpTo, hread, hrest]

/-- A reading that does not break off comes to the end of the text. -/
theorem exists_eof_chunksUpTo {limit : Nat} {r : ActiveReader} (hr : r.Tidy)
    (hfinished : r.source.finished = false) (hlimit : r.source.stepsLeft ≤ limit)
    (hwhole : (r.chunksUpTo script limit).findSome? (·.breakdown) = none) :
    ∃ body eof, (r.chunksUpTo script limit).flatMap (·.tokens) = body ++ [eof] ∧
      eof.kind = .endOfFile := by
  induction limit generalizing r with
  | zero =>
    simp only [TokenSource.stepsLeft, hfinished, Bool.false_eq_true, if_false] at hlimit
    omega
  | succ limit ih =>
    obtain ⟨reading, hread⟩ := TokenSource.exists_read hfinished
    have hsteps := stepsLeft_source_take script hread
    simp only [chunksUpTo, hread] at hwhole ⊢
    cases hbreak : (r.take script reading).1.breakdown with
    | some b =>
      rw [if_pos (by rw [hbreak]; rfl)] at hwhole
      simp [hbreak] at hwhole
    | none =>
      rw [if_neg (by simp [hbreak])] at hwhole ⊢
      rw [List.findSome?_cons, hbreak] at hwhole
      rw [List.flatMap_cons]
      cases hend : reading.source.finished with
      | true =>
        obtain ⟨eof, htokens, heof⟩ := exists_eof_of_finished script hr hread hend
        rw [chunksUpTo_of_finished ((finished_source_take _ _ _).trans hend), htokens]
        exact ⟨[], eof, rfl, heof⟩
      | false =>
        obtain ⟨body, eof, hrest, heof⟩ := ih (tidy_take hr hread)
          ((finished_source_take _ _ _).trans hend) (by omega) hwhole
        rw [hrest, ← List.append_assoc]
        exact ⟨_, eof, rfl, heof⟩

end ActiveReader

/-- The active tokens of a text. -/
def activeTokens (script : Bool) (symbols : List String) (text : List Char) : List Token :=
  (activeText script symbols text).flatMap (·.tokens)

theorem closed_activeTokens (script : Bool) (symbols : List String) (text : List Char) :
    Context.Closed ((activeTokens script symbols text).map (·.kind)) :=
  ActiveReader.closed_chunksUpTo _ _

/-- The active tokens end with the end of the text, if the reading does not break off. -/
theorem exists_eof_activeTokens {script : Bool} {symbols : List String} {text : List Char}
    (h : (activeText script symbols text).findSome? (·.breakdown) = none) :
    ∃ body eof, activeTokens script symbols text = body ++ [eof] ∧ eof.kind = .endOfFile :=
  ActiveReader.exists_eof_chunksUpTo (fun _ ↦ rfl) rfl (Nat.le_refl _) h

end CSharpCheck
