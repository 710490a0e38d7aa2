import CSharpCheck.Proofs.Scanning.GroupLocality
import CSharpCheck.Proofs.Scanning.Skipping

/-!
# Reading two texts side by side

Where two texts are the same up to some place, a step that stops there at the latest is the same in
both of them: it gives the same tokens and findings and leads to the same place.
-/

namespace CSharpCheck

/-- The cursor at the same place of another text. -/
def Cursor.on (other : List Char) (c : Cursor) : Cursor :=
  { c with rest := other.drop c.position.offset }

/-- The source at the same place of another text. -/
def TokenSource.on (other : List Char) (s : TokenSource) : TokenSource :=
  { s with cursor := s.cursor.on other }

/-- The reading that goes on in another text. -/
def Reading.on (other : List Char) (r : Reading) : Reading :=
  { r with source := r.source.on other }

namespace Cursor

variable {b : Boundary} {c : Cursor} {other : List Char} {k n : Nat}

section

variable (h : SameUpTo b n c.rest (c.on other).rest)

include h

theorem positionAt_on (hk : k ≤ n) : (c.on other).positionAt k = c.positionAt k :=
  h.after_eq c.position hk

/-- The cursor moves on in the other text as it does in its own. -/
theorem advance_on (hk : k ≤ n) : (c.on other).advance k = (c.advance k).on other := by
  have hlength := h.lt_length
  have hrest : (c.on other).rest.drop k = other.drop (c.positionAt k).offset := by
    rw [offset_positionAt, Nat.min_eq_left (by omega), ← List.drop_drop]
    rfl
  rw [advance, positionAt_on h hk, hrest]
  rfl

/-- Further on, the texts are the same up to the same place. -/
theorem sameUpTo_advance (hk : k ≤ n) :
    SameUpTo b (n - k) (c.advance k).rest ((c.advance k).on other).rest := by
  rw [← advance_on h hk]
  exact h.drop hk

theorem finding_on {f : Fault} (hf : f.start ≤ f.stop ∧ f.stop ≤ n) :
    (c.on other).finding f = c.finding f := by
  rw [finding, finding, positionAt_on h (Nat.le_trans hf.1 hf.2), positionAt_on h hf.2]

theorem findings_on {faults : List Fault} (hfaults : Fault.Within n faults) :
    faults.map (c.on other).finding = faults.map c.finding :=
  List.map_congr_left fun f hf ↦ finding_on h (hfaults f hf)

/-- Pieces in front of the place up to which the texts are the same become the same tokens. -/
theorem tokens_on {pieces : List Piece} (hpieces : ∀ p ∈ pieces, p.start + p.length ≤ n) :
    (c.on other).tokens pieces = c.tokens pieces := by
  have htoken (atLineStart : Bool) (p : Piece) (hp : p.start + p.length ≤ n) :
      (c.on other).token atLineStart p = c.token atLineStart p := by
    have htext : ((c.on other).rest.drop p.start).take p.length =
        (c.rest.drop p.start).take p.length :=
      (h.drop (by omega)).take (by omega)
    rw [token, token, htext, positionAt_on h (by omega), positionAt_on h hp]
  cases pieces with
  | nil => rfl
  | cons p ps =>
    have hps := List.forall_mem_cons.1 hpieces
    rw [Cursor.tokens, Cursor.tokens, htoken _ p hps.1]
    exact congrArg _ (List.map_congr_left fun q hq ↦ htoken _ q (hps.2 q hq))

theorem passItem_on {item : GapItem} (hitem : item.length ≤ n) :
    (c.on other).passItem item = (c.passItem item).on other := by
  unfold passItem
  rw [advance_on h hitem]
  split <;> rfl

end

theorem passGap_on {items : List GapItem} (h : SameUpTo b n c.rest (c.on other).rest)
    (hitems : gapLength items ≤ n) : (c.on other).passGap items = (c.passGap items).on other := by
  induction items generalizing c n with
  | nil => rfl
  | cons item items ih =>
    rw [gapLength, List.foldr_cons, ← gapLength] at hitems
    have hnext : SameUpTo b (n - item.length) (c.passItem item).rest
        ((c.passItem item).on other).rest := by
      have hadvance := sameUpTo_advance h (k := item.length) (by omega)
      unfold passItem
      split <;> exact hadvance
    rw [passGap, passGap, List.foldl_cons, List.foldl_cons, ← passGap, ← passGap,
      passItem_on h (by omega)]
    exact ih hnext (by omega)

end Cursor

namespace TokenSource

variable {b : Boundary} {s : TokenSource} {r : Reading} {other : List Char} {n : Nat}

/-- A group that is read in front of the place up to which the texts are the same is the same. If
it opens a directive line, the line must end in front of that place, too. -/
theorem readGroup_on {c : Cursor} (fs : List Finding)
    (h : SameUpTo b n c.rest (c.on other).rest)
    (hline : b = .gap → s.opensDirective c = true → (restOfLine c.rest).length < n)
    (hlength : (s.groupAt c).length ≤ n) :
    (s.on other).readGroup fs (c.on other) = (s.readGroup fs c).on other := by
  have hopens : (s.on other).opensDirective (c.on other) = s.opensDirective c := by
    change ((c.on other).rest.head? == some '#' && !c.lineUsed && !s.inDirective) = _
    rw [h.beq_head? (by decide)]
    rfl
  have hgroup : (s.on other).groupAt (c.on other) = s.groupAt c := by
    unfold groupAt at hlength ⊢
    rw [hopens]
    split
    · next hopen =>
      have hhash : c.rest.head? = some '#' := by
        simp only [opensDirective, Bool.and_eq_true, beq_iff_eq] at hopen
        exact hopen.1.1
      cases b with
      | lineEnd => exact h.directiveOpening_eq hhash
      | gap => exact (h.toLineEnd (hline rfl hopen)).directiveOpening_eq hhash
    · next hopen =>
      rw [if_neg hopen] at hlength
      exact (SameUpTo.local_scanGroup _ _).eq h hlength
  have htokens := Cursor.tokens_on h fun p hp ↦
    Nat.le_trans ((s.covers_groupAt h.ne_nil).tiled.le_of_mem p hp) hlength
  have hfindings := Cursor.findings_on h
    (((s.within_groupAt c).audible s.inDirective).mono hlength)
  rw [readGroup_eq, readGroup_eq, hgroup, hopens, htokens, Cursor.advance_on h hlength]
  change (⟨_, fs ++ (Fault.audible s.inDirective _).map _, _⟩ : Reading) = _
  rw [hfindings]
  rfl

/-- Behind a gap in front of the place up to which the texts are the same both go on in the same
way. -/
theorem behindGap_on (h : SameUpTo b n s.cursor.rest (s.on other).cursor.rest)
    (hle : s.behindGap.position.offset ≤ s.cursor.position.offset + n) :
    (s.on other).behindGap = s.behindGap.on other ∧ (s.on other).gapFindings = s.gapFindings ∧
      ∃ c cs ds, s.behindGap.rest = c :: cs ∧ (s.behindGap.on other).rest = c :: ds ∧
        SameUpTo b (s.cursor.position.offset + n - s.behindGap.position.offset) (c :: cs)
          (c :: ds) := by
  obtain ⟨hrest, hposition⟩ := s.cursor.passGap_eq (gap s.inDirective s.cursor.rest)
  rw [← behindGap] at hrest hposition
  have hn := h.lt_length
  have hoffset := s.cursor.offset_positionAt (gapLength (gap s.inDirective s.cursor.rest))
  rw [← hposition] at hoffset
  have hgap : gapLength (gap s.inDirective s.cursor.rest) ≤ n := by omega
  rw [Nat.min_eq_left (by omega)] at hoffset
  have hitems : gap (s.on other).inDirective (s.on other).cursor.rest =
      gap s.inDirective s.cursor.rest := h.gap_eq hgap
  have hbehind : (s.on other).behindGap = s.behindGap.on other := by
    rw [behindGap, hitems]
    exact Cursor.passGap_on h hgap
  refine ⟨hbehind, ?_, ?_⟩
  · have hfaults := (local_gapFaults 0 (gap s.inDirective s.cursor.rest)).within
    rw [Nat.zero_add] at hfaults
    rw [gapFindings, hitems]
    exact Cursor.findings_on h ((hfaults.audible s.inDirective).mono hgap)
  · obtain ⟨c, cs, ds, hcs, hds, hsame⟩ := h.drop_gap hgap
    rw [← hrest] at hcs
    refine ⟨c, cs, ds, hcs, ?_, ?_⟩
    · rw [← hds]
      change other.drop s.behindGap.position.offset = (other.drop s.cursor.position.offset).drop _
      rw [List.drop_drop, hoffset]
    · rwa [hoffset, Nat.add_sub_add_left]

/-- A step that stops in front of the place up to which the texts are the same is the same in both.
If it opens a directive line, the line must end in front of that place, too. -/
theorem read_on (h : SameUpTo b n s.cursor.rest (s.on other).cursor.rest)
    (hread : s.read = some r)
    (hstop : r.source.cursor.position.offset ≤ s.cursor.position.offset + n)
    (hline : b = .gap → s.opensDirective s.behindGap = true →
      s.behindGap.position.offset + (restOfLine s.behindGap.rest).length <
        s.cursor.position.offset + n) :
    (s.on other).read = some (r.on other) := by
  have hle := behindGap_le_of_read hread
  obtain ⟨hbehind, hfindings, c, cs, ds, hcs, hds, hsame⟩ := behindGap_on h (Nat.le_trans hle hstop)
  have hfinished := finished_of_read hread
  rw [read_eq hfinished] at hread
  rw [read_eq (s := s.on other) hfinished, hbehind, hfindings]
  rw [← hcs, ← hds] at hsame
  have hend : (s.behindGap.on other).rest.head?.all isLineEnd =
      s.behindGap.rest.head?.all isLineEnd := hsame.isLineEnd_head?
  rw [hend]
  change (if (s.inDirective && _) = true then _ else _) = _
  split at hread
  · next hend =>
    cases hread
    rw [if_pos hend]
    rfl
  · next hend =>
    rw [if_neg hend, if_neg hsame.ne_nil_other]
    rw [if_neg hsame.ne_nil] at hread
    cases hread
    refine congrArg some (readGroup_on _ hsame (fun hb hopens ↦ ?_) ?_)
    · have hlt := hline hb hopens
      omega
    · change (s.behindGap.positionAt (s.groupAt s.behindGap).length).offset ≤ _ at hstop
      rw [Cursor.offset_positionAt] at hstop
      have hlt := hsame.lt_length
      omega

/-- Where the same number of characters is skipped, and moving on over them does the same, skipping
does the same. -/
theorem skipExcluded_on
    (hlength : excludedLength (s.on other).cursor.rest = excludedLength s.cursor.rest)
    (hadvance : (s.cursor.on other).advance (excludedLength s.cursor.rest) =
      (s.cursor.advance (excludedLength s.cursor.rest)).on other) :
    (s.on other).skipExcluded = s.skipExcluded.on other := by
  rw [skipExcluded, hlength]
  change ({ s.on other with cursor :=
    { (s.cursor.on other).advance (excludedLength s.cursor.rest) with lineUsed := false } } :
      TokenSource) = _
  rw [hadvance]
  rfl

/-- The same text is skipped if the line at which the skipping stops ends in front of the place up
to which the texts are the same. -/
theorem skipExcluded_on_of_sameUpTo (h : SameUpTo b n s.cursor.rest (s.on other).cursor.rest)
    (hend : s.cursor.rest.head?.all isLineEnd = true)
    (hstop : linesToHash s.cursor.rest +
      (restOfLine (s.cursor.rest.drop (linesToHash s.cursor.rest))).length < n) :
    (s.on other).skipExcluded = s.skipExcluded.on other := by
  refine skipExcluded_on ?_ (Cursor.advance_on h ?_)
  · rw [excludedLength_of_lineEnd hend, excludedLength_of_lineEnd (h.isLineEnd_head?.trans hend),
      h.linesToHash_eq hstop]
  · rw [excludedLength_of_lineEnd hend]
    omega

end TokenSource

end CSharpCheck
