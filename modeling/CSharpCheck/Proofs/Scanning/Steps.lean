import CSharpCheck.Proofs.Scanning.ActiveTexts
import CSharpCheck.Proofs.Scanning.Cursors
import CSharpCheck.Proofs.Scanning.Faults

/-!
# The steps of reading a text

A step passes a gap and reads what stands behind it. It never goes back in the text, and what it
reads lies between the place behind the gap and the place where it stops.
-/

namespace CSharpCheck

namespace Cursor

theorem offset_positionAt (c : Cursor) (n : Nat) :
    (c.positionAt n).offset = c.position.offset + min n c.rest.length :=
  Position.offset_after _ _ _

theorem offset_le_positionAt (c : Cursor) (n : Nat) :
    c.position.offset ≤ (c.positionAt n).offset := by
  rw [offset_positionAt]
  exact Nat.le_add_right _ _

theorem offset_positionAt_mono (c : Cursor) {m n : Nat} (h : m ≤ n) :
    (c.positionAt m).offset ≤ (c.positionAt n).offset := by
  rw [offset_positionAt, offset_positionAt]
  omega

/-- The class and the place of the token of a piece. -/
theorem map_tokens (c : Cursor) (pieces : List Piece) :
    (c.tokens pieces).map (fun t ↦ (t.kind, t.span)) = pieces.map fun p ↦
      (p.kind, (⟨c.positionAt p.start, c.positionAt (p.start + p.length)⟩ : Span)) := by
  cases pieces with
  | nil => rfl
  | cons p ps =>
    rw [tokens, List.map_cons, List.map_map]
    rfl

/-- A token stands where its piece does. -/
theorem exists_piece_of_mem_tokens {c : Cursor} {pieces : List Piece} {t : Token}
    (h : t ∈ c.tokens pieces) : ∃ p ∈ pieces, t.span.start = c.positionAt p.start ∧
      t.span.stop = c.positionAt (p.start + p.length) := by
  have hmem : (t.kind, t.span) ∈ (c.tokens pieces).map fun t ↦ (t.kind, t.span) :=
    List.mem_map_of_mem h
  rw [map_tokens] at hmem
  obtain ⟨p, hp, heq⟩ := List.mem_map.1 hmem
  obtain ⟨-, hspan⟩ := Prod.mk.inj heq
  exact ⟨p, hp, by rw [← hspan], by rw [← hspan]⟩

/-- A piece becomes a token of its class that stops where the piece does. -/
theorem exists_token_of_mem_pieces (c : Cursor) {pieces : List Piece} {p : Piece}
    (h : p ∈ pieces) : ∃ t ∈ c.tokens pieces, t.kind = p.kind ∧
      t.span.stop = c.positionAt (p.start + p.length) := by
  have hmem : (p.kind, ⟨c.positionAt p.start, c.positionAt (p.start + p.length)⟩) ∈
      (c.tokens pieces).map fun t ↦ (t.kind, t.span) := by
    rw [map_tokens]
    exact List.mem_map_of_mem h
  obtain ⟨t, ht, heq⟩ := List.mem_map.1 hmem
  obtain ⟨hkind, hspan⟩ := Prod.mk.inj heq
  exact ⟨t, ht, hkind, by rw [hspan]⟩

/-- Tokens stand one behind the other as their pieces do. -/
theorem pairwise_tokens (c : Cursor) {pieces : List Piece}
    (h : pieces.Pairwise fun p q ↦ p.start + p.length ≤ q.start) :
    (c.tokens pieces).Pairwise (·.span.stop.offset ≤ ·.span.start.offset) := by
  cases h with
  | nil => exact .nil
  | cons hp hps =>
    refine List.pairwise_cons.2 ⟨List.forall_mem_map.2 fun q hq ↦ ?_, List.pairwise_map.2 ?_⟩
    · exact c.offset_positionAt_mono (hp q hq)
    · exact hps.imp c.offset_positionAt_mono

end Cursor

namespace TokenSource

variable {s : TokenSource} {r : Reading} {text : List Char}

theorem covers_groupAt (s : TokenSource) {c : Cursor} (hc : c.rest ≠ []) :
    (s.groupAt c).Covers c.rest := by
  unfold groupAt
  split
  · exact covers_directiveOpening _
  · exact covers_scanGroup _ _ hc

theorem within_groupAt (s : TokenSource) (c : Cursor) :
    Fault.Within (s.groupAt c).length (s.groupAt c).faults := by
  unfold groupAt
  split
  · rw [faults_directiveOpening]
    exact .nil
  · exact within_scanGroup _ _ _

theorem directiveStart_of_opensDirective {c : Cursor} (h : s.opensDirective c = true) :
    ∃ ps, (s.groupAt c).pieces = .bare .directiveStart 0 1 :: ps := by
  rw [TokenSource.groupAt, if_pos h, directiveOpening]
  simp only
  repeat' split
  all_goals exact ⟨_, rfl⟩

/-- What a step can give: the end of a directive line, the end of the text, the opening of a
directive line, or a scan. -/
inductive Gives (s : TokenSource) (r : Reading) : Prop where
  | directiveEnd {t : Token} : s.inDirective = true → r.tokens = [t] → t.kind = .directiveEnd →
      r.source.inDirective = false → r.source.cursor.rest.head?.all isLineEnd = true → Gives s r
  | endOfFile {t : Token} : s.inDirective = false → r.tokens = [t] → t.kind = .endOfFile →
      r.source.inDirective = false → r.source.finished = true → Gives s r
  | directiveStart {t : Token} {ts : List Token} : r.tokens = t :: ts → t.kind = .directiveStart →
      r.source.inDirective = true → Gives s r
  | scan {t : Token} {ts : List Token} : r.tokens = t :: ts →
      (t.kind.isSingle = true ∨ t.kind = .interpolatedStart) →
      r.source.inDirective = s.inDirective → r.source.cursor.lineUsed = true → Gives s r

theorem gives_of_read (h : s.read = some r) : s.Gives r := by
  have hfinished := (read_cases h).1
  rw [read_eq hfinished] at h
  split at h
  · next hend =>
    cases h
    rw [Bool.and_eq_true] at hend
    exact .directiveEnd hend.1 rfl rfl rfl hend.2
  · next hend =>
    split at h
    · next hrest =>
      cases h
      have hin : s.inDirective = false := by simpa [hrest] using hend
      exact .endOfFile hin rfl rfl hin rfl
    · next hrest =>
      cases h
      cases hopens : s.opensDirective s.behindGap with
      | true =>
        obtain ⟨ps, hps⟩ := directiveStart_of_opensDirective hopens
        have htokens : (s.readGroup s.gapFindings s.behindGap).tokens =
            s.behindGap.token (!s.behindGap.lineUsed) (.bare .directiveStart 0 1) ::
              ps.map (s.behindGap.token false) := by
          rw [readGroup_eq, hps]
          rfl
        refine .directiveStart htokens rfl ?_
        rw [readGroup_eq, hopens, Bool.or_true]
      | false =>
        obtain ⟨p, ps, hpieces, hkind⟩ := exists_piece_scanGroup s.inDirective maxOpenHoles hrest
        have htokens : (s.readGroup s.gapFindings s.behindGap).tokens =
            s.behindGap.token (!s.behindGap.lineUsed) p :: ps.map (s.behindGap.token false) := by
          rw [readGroup_eq, groupAt, if_neg (by simp [hopens]), hpieces]
          rfl
        refine .scan htokens hkind ?_ rfl
        rw [readGroup_eq, hopens, Bool.or_false]

theorem finished_of_read (h : s.read = some r) : s.finished = false := (read_cases h).1

/-- A step goes on from the place behind the gap. -/
theorem behindGap_le_of_read (h : s.read = some r) :
    s.behindGap.position.offset ≤ r.source.cursor.position.offset := by
  rw [read_eq (finished_of_read h)] at h
  split at h
  · cases h
    exact Nat.le_refl _
  · split at h
    · cases h
      exact Nat.le_refl _
    · cases h
      exact Cursor.offset_le_positionAt _ _

theorem offset_le_behindGap (s : TokenSource) :
    s.cursor.position.offset ≤ s.behindGap.position.offset := by
  rw [behindGap, (s.cursor.passGap_eq _).2]
  exact Cursor.offset_le_positionAt _ _

/-- A step goes on in the text. -/
theorem offset_le_of_read (h : s.read = some r) :
    s.cursor.position.offset ≤ r.source.cursor.position.offset :=
  Nat.le_trans s.offset_le_behindGap (behindGap_le_of_read h)

theorem offset_le_skipExcluded (s : TokenSource) :
    s.cursor.position.offset ≤ s.skipExcluded.cursor.position.offset :=
  Cursor.offset_le_positionAt _ _

/-- The tokens of a step stand between the gap and the place where the step stops. -/
theorem offset_le_of_mem_tokens (h : s.read = some r) {t : Token} (ht : t ∈ r.tokens) :
    s.behindGap.position.offset ≤ t.span.start.offset ∧
      t.span.start.offset ≤ t.span.stop.offset ∧
        t.span.stop.offset ≤ r.source.cursor.position.offset := by
  rw [read_eq (finished_of_read h)] at h
  split at h
  · cases h
    obtain rfl := List.mem_singleton.1 ht
    exact ⟨Nat.le_refl _, Nat.le_refl _, Nat.le_refl _⟩
  · split at h
    · cases h
      obtain rfl := List.mem_singleton.1 ht
      exact ⟨Nat.le_refl _, Nat.le_refl _, Nat.le_refl _⟩
    · next hrest =>
      cases h
      obtain ⟨p, hp, hstart, hstop⟩ := Cursor.exists_piece_of_mem_tokens ht
      have hle := (s.covers_groupAt hrest).tiled.le_of_mem p hp
      rw [hstart, hstop]
      exact ⟨Cursor.offset_le_positionAt _ _,
        Cursor.offset_positionAt_mono _ (Nat.le_add_right _ _),
        Cursor.offset_positionAt_mono _ hle⟩

/-- The tokens of a reading step stand one behind the other. -/
theorem pairwise_tokens_of_read (h : s.read = some r) :
    r.tokens.Pairwise (·.span.stop.offset ≤ ·.span.start.offset) := by
  rw [read_eq (finished_of_read h)] at h
  split at h
  · cases h
    exact List.pairwise_singleton _ _
  · split at h
    · cases h
      exact List.pairwise_singleton _ _
    · next hrest =>
      cases h
      exact s.behindGap.pairwise_tokens (s.covers_groupAt hrest).tiled.pairwise

/-- What a step finds stands in front of the place where the step stops. -/
theorem offset_le_of_mem_findings (h : s.read = some r) {f : Finding} (hf : f ∈ r.findings) :
    f.span.start.offset ≤ r.source.cursor.position.offset ∧
      f.span.stop.offset ≤ r.source.cursor.position.offset := by
  have hwithin {c : Cursor} {faults : List Fault} {n : Nat} (hfaults : Fault.Within n faults)
      {f : Finding} (hf : f ∈ faults.map c.finding) :
      f.span.start.offset ≤ (c.positionAt n).offset ∧
        f.span.stop.offset ≤ (c.positionAt n).offset := by
    obtain ⟨g, hg, rfl⟩ := List.mem_map.1 hf
    obtain ⟨hle, hn⟩ := hfaults g hg
    exact ⟨c.offset_positionAt_mono (Nat.le_trans hle hn), c.offset_positionAt_mono hn⟩
  have hgap {f : Finding} (hf : f ∈ s.gapFindings) :
      f.span.start.offset ≤ s.behindGap.position.offset ∧
        f.span.stop.offset ≤ s.behindGap.position.offset := by
    have hfaults := (local_gapFaults 0 (gap s.inDirective s.cursor.rest)).within
    rw [Nat.zero_add] at hfaults
    rw [behindGap, (s.cursor.passGap_eq _).2]
    exact hwithin (hfaults.audible s.inDirective) hf
  rw [read_eq (finished_of_read h)] at h
  split at h
  · cases h
    exact hgap hf
  · split at h
    · cases h
      exact hgap hf
    · cases h
      rcases List.mem_append.1 hf with hf | hf
      · obtain ⟨hstart, hstop⟩ := hgap hf
        have hle := s.behindGap.offset_le_positionAt (s.groupAt s.behindGap).length
        exact ⟨Nat.le_trans hstart hle, Nat.le_trans hstop hle⟩
      · exact hwithin ((s.within_groupAt s.behindGap).audible s.inDirective) hf

/-- A directive line ends in front of a line end or at the end of the text. -/
theorem isLineEnd_head_of_endsDirective (h : s.read = some r) (hends : r.EndsDirective) :
    r.source.inDirective = false ∧ r.source.cursor.rest.head?.all isLineEnd = true := by
  obtain ⟨t, ts, htokens, ht⟩ := hends
  cases gives_of_read h with
  | directiveEnd _ _ _ hin hend => exact ⟨hin, hend⟩
  | endOfFile _ hone hkind | directiveStart hone hkind =>
    rw [htokens, List.cons.injEq] at hone
    rw [← hone.1, ht] at hkind
    contradiction
  | scan hone hkind =>
    rw [htokens, List.cons.injEq] at hone
    rw [← hone.1, ht] at hkind
    rcases hkind with hkind | hkind <;> contradiction

end TokenSource

end CSharpCheck
