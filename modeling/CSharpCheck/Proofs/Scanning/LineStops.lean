import CSharpCheck.Proofs.Scanning.Skipping

/-!
# Active tokens stand behind directive lines

Once a directive line has been opened, nothing is active until the line ends. Active tokens that are
read later stand behind that end.
-/

namespace CSharpCheck

theorem length_restOfLine_le_add (text : List Char) (n : Nat) :
    (restOfLine text).length ≤ min n text.length + (restOfLine (text.drop n)).length := by
  induction n generalizing text with
  | zero => exact Nat.le_add_left _ _
  | succ n ih =>
    cases text with
    | nil => exact Nat.zero_le _
    | cons c cs =>
      have hle := ih cs
      rw [restOfLine, List.takeWhile_cons, List.length_cons, Nat.succ_min_succ, List.drop_succ_cons]
      split
      · rw [List.length_cons]
        change (restOfLine cs).length + 1 ≤ _
        omega
      · exact Nat.zero_le _

namespace Cursor

/-- The place where the line of the cursor ends. -/
def lineStop (c : Cursor) : Nat := c.position.offset + (restOfLine c.rest).length

theorem lineStop_of_lineEnd {c : Cursor} (h : c.rest.head?.all isLineEnd = true) :
    c.lineStop = c.position.offset := by
  rw [lineStop, restOfLine_of_lineEnd h]
  rfl

/-- Lines that a cursor comes to end further on. -/
theorem lineStop_le_advance (c : Cursor) (n : Nat) : c.lineStop ≤ (c.advance n).lineStop := by
  have hle := length_restOfLine_le_add c.rest n
  change c.position.offset + _ ≤ (c.positionAt n).offset + (restOfLine (c.rest.drop n)).length
  rw [offset_positionAt]
  omega

theorem lineStop_le_passGap (c : Cursor) (items : List GapItem) :
    c.lineStop ≤ (c.passGap items).lineStop := by
  have hle := c.lineStop_le_advance (gapLength items)
  obtain ⟨hrest, hposition⟩ := c.passGap_eq items
  rw [lineStop, lineStop, hrest, hposition]
  exact hle

/-- A line does not end at a character that ends no line. -/
theorem lineStop_ne {c : Cursor} {text : List Char} (h : c.In text) {place : Nat} {d : Char}
    (hd : text[place]? = some d) (hend : isLineEnd d = false) : c.lineStop ≠ place := by
  rintro rfl
  have hstop := isLineEnd_head_drop_restOfLine c.rest
  rw [List.head?_drop, h.rest, List.getElem?_drop, ← h.rest] at hstop
  change (text[c.lineStop]?).all isLineEnd = true at hstop
  rw [hd, Option.all_some, hend] at hstop
  contradiction

end Cursor

namespace TokenSource

variable {s : TokenSource} {r : Reading}

/-- A step on a directive line ends the line, or the line goes on. -/
theorem lineStop_of_read (h : s.read = some r) (hin : s.inDirective = true) :
    (r.source.inDirective = false ∧ s.cursor.lineStop ≤ r.source.cursor.position.offset ∧
        ∃ t, r.tokens = [t] ∧ t.kind = .directiveEnd) ∨
      (r.source.inDirective = true ∧ s.cursor.lineStop ≤ r.source.cursor.lineStop ∧
        r.tokens ≠ [] ∧ ∀ t ∈ r.tokens.head?, t.kind ≠ .directiveEnd) := by
  have hgap : s.cursor.lineStop ≤ s.behindGap.lineStop := s.cursor.lineStop_le_passGap _
  rw [read_eq (finished_of_read h), hin, Bool.true_and] at h
  split at h
  · next hend =>
    cases h
    rw [Cursor.lineStop_of_lineEnd hend] at hgap
    exact .inl ⟨rfl, hgap, _, rfl, rfl⟩
  · next hend =>
    split at h
    · next hrest =>
      rw [hrest] at hend
      exact absurd rfl hend
    · next hrest =>
      cases h
      have hstart : s.opensDirective s.behindGap = false := by
        rw [opensDirective, hin, Bool.not_true, Bool.and_false]
      obtain ⟨p, ps, hpieces, hkind⟩ := exists_piece_scanGroup s.inDirective maxOpenHoles hrest
      have htokens : (s.readGroup s.gapFindings s.behindGap).tokens =
          s.behindGap.token (!s.behindGap.lineUsed) p :: ps.map (s.behindGap.token false) := by
        rw [readGroup_eq, groupAt, if_neg (by simp [hstart]), hpieces]
        rfl
      refine .inr ⟨?_, Nat.le_trans hgap (Cursor.lineStop_le_advance _ _), ?_, ?_⟩
      · rw [readGroup_eq, hin]
        rfl
      · rw [htokens]
        exact List.cons_ne_nil _ _
      · rw [htokens]
        rintro t ⟨⟩ (heq : p.kind = _)
        rw [heq] at hkind
        rcases hkind with hkind | hkind <;> contradiction

/-- A step that opens a directive line goes on on it. -/
theorem lineStop_of_opensDirective (h : s.read = some r)
    (hopens : s.opensDirective s.behindGap = true) :
    r.source.inDirective = true ∧ s.behindGap.lineStop ≤ r.source.cursor.lineStop ∧
      ∃ t ts, r.tokens = t :: ts ∧ t.kind = .directiveStart := by
  obtain ⟨ps, hps⟩ := directiveStart_of_opensDirective hopens
  have hopens' := hopens
  simp only [opensDirective, Bool.and_eq_true, beq_iff_eq, Bool.not_eq_true'] at hopens'
  obtain ⟨⟨hhash, -⟩, hin⟩ := hopens'
  have hrest : s.behindGap.rest ≠ [] := by
    intro hnil
    rw [hnil] at hhash
    contradiction
  rw [read_eq (finished_of_read h), hin, Bool.false_and, if_neg Bool.false_ne_true,
    if_neg hrest] at h
  cases h
  refine ⟨?_, Cursor.lineStop_le_advance _ _,
    s.behindGap.token (!s.behindGap.lineUsed) (.bare .directiveStart 0 1),
    ps.map (s.behindGap.token false), ?_, rfl⟩
  · rw [readGroup_eq, hopens, Bool.or_true]
  · rw [readGroup_eq, hps]
    rfl

/-- A directive line opens at a hash with nothing but blanks in front of it on its line. -/
theorem opensDirective_of_hashFirst (hin : s.inDirective = false)
    (hused : s.cursor.lineUsed = false) (hhash : hashFirst s.cursor.rest = true) :
    s.opensDirective s.behindGap = true := by
  have hbehind (text : List Char) (hfirst : hashFirst text = true) (c : Cursor) (hc : c.rest = text)
      (hc' : c.lineUsed = false) : (c.passGap (gap false text)).rest.head? = some '#' ∧
        (c.passGap (gap false text)).lineUsed = false := by
    induction text generalizing c with
    | nil => contradiction
    | cons d ds ih =>
      cases hd : isBlank d with
      | true =>
        rw [hashFirst, List.dropWhile_cons, if_pos hd] at hfirst
        rw [gap_blank false hd, Cursor.passGap, List.foldl_cons, ← Cursor.passGap]
        refine ih hfirst (c.passItem .blank) ?_ ?_
        · change c.rest.drop 1 = ds
          rw [hc]
          rfl
        · change (c.lineUsed && _) = false
          rw [hc', Bool.false_and]
      | false =>
        rw [hashFirst, List.dropWhile_cons, if_neg (by simp [hd]), List.head?_cons, beq_iff_eq,
          Option.some.injEq] at hfirst
        subst hfirst
        have hgap : gap false ('#' :: ds) = [] := by
          rw [gap]
          rfl
        rw [hgap]
        exact ⟨congrArg List.head? hc, hc'⟩
  obtain ⟨hhead, hused'⟩ := hbehind _ hhash s.cursor rfl hused
  rw [opensDirective, behindGap, hin, hhead, hused']
  rfl

end TokenSource

namespace ActiveReader

variable {script : Bool} {r : ActiveReader} {reading : Reading} {x : Token} {limit : Nat}

theorem offset_le_source_take (script : Bool) (r : ActiveReader) (reading : Reading) :
    reading.source.cursor.position.offset ≤
      (r.take script reading).2.source.cursor.position.offset := by
  rcases r.source_take script reading with hsource | hsource
  · exact Nat.le_of_eq (congrArg (·.cursor.position.offset) hsource.symm)
  · rw [hsource]
    exact Cursor.offset_le_positionAt _ _

/-- An active token of the steps that are left is one of the next step or of the steps after it. -/
theorem mem_chunksUpTo_succ (h : x ∈ (r.chunksUpTo script (limit + 1)).flatMap (·.tokens)) :
    ∃ reading, r.source.read = some reading ∧
      (x ∈ (r.take script reading).1.tokens ∨
        x ∈ ((r.take script reading).2.chunksUpTo script limit).flatMap (·.tokens)) := by
  rw [chunksUpTo] at h
  split at h
  · contradiction
  · next reading hread =>
    refine ⟨reading, hread, ?_⟩
    simp only at h
    split at h
    · rw [List.flatMap_singleton] at h
      exact .inl h
    · rwa [List.flatMap_cons, List.mem_append] at h

/-- Active tokens stand behind the gap that is passed next. -/
theorem offset_le_of_mem_chunksUpTo (h : x ∈ (r.chunksUpTo script limit).flatMap (·.tokens)) :
    r.source.behindGap.position.offset ≤ x.span.start.offset ∧
      x.span.start.offset ≤ x.span.stop.offset := by
  induction limit generalizing r with
  | zero => contradiction
  | succ limit ih =>
    obtain ⟨reading, hread, hx | hx⟩ := mem_chunksUpTo_succ h
    · obtain ⟨hstart, hle, -⟩ :=
        TokenSource.offset_le_of_mem_tokens hread (tokens_take_subset script r reading hx)
      exact ⟨hstart, hle⟩
    · obtain ⟨hstart, hle⟩ := ih hx
      refine ⟨Nat.le_trans ?_ hstart, hle⟩
      exact Nat.le_trans (TokenSource.behindGap_le_of_read hread)
        (Nat.le_trans (offset_le_source_take script r reading) (TokenSource.offset_le_behindGap _))

/-- Active tokens stand behind the directive line that is being read. -/
theorem lineStop_le_of_gathering (hin : r.source.inDirective = true) (hline : r.line ≠ [])
    (h : x ∈ (r.chunksUpTo script limit).flatMap (·.tokens)) :
    r.source.cursor.lineStop ≤ x.span.start.offset := by
  induction limit generalizing r with
  | zero => contradiction
  | succ limit ih =>
    obtain ⟨reading, hread, hx⟩ := mem_chunksUpTo_succ h
    rcases TokenSource.lineStop_of_read hread hin with
      ⟨-, hle, t, htokens, ht⟩ | ⟨hin', hle, hne, hkind⟩
    · have hnone : (r.take script reading).1.tokens = [] := by
        rw [take, htokens]
        simp only
        rw [if_pos ht]
        rfl
      rw [hnone] at hx
      have hstart := (offset_le_of_mem_chunksUpTo (hx.resolve_left List.not_mem_nil)).1
      refine Nat.le_trans hle (Nat.le_trans ?_ hstart)
      exact Nat.le_trans (offset_le_source_take script r reading)
        (TokenSource.offset_le_behindGap _)
    · obtain ⟨t, ts, htokens⟩ := List.exists_cons_of_ne_nil hne
      rw [htokens] at hkind
      rw [take_line script (.inl hline) htokens (hkind t rfl)] at hx
      refine Nat.le_trans hle (ih hin' ?_ (hx.resolve_left List.not_mem_nil))
      rw [htokens]
      simp

/-- Active tokens stand behind the directive line that the next step opens. -/
theorem lineStop_le_of_opensDirective (hopens : r.source.opensDirective r.source.behindGap = true)
    (h : x ∈ (r.chunksUpTo script limit).flatMap (·.tokens)) :
    r.source.behindGap.lineStop ≤ x.span.start.offset := by
  cases limit with
  | zero => contradiction
  | succ limit =>
    obtain ⟨reading, hread, hx⟩ := mem_chunksUpTo_succ h
    obtain ⟨hin, hle, t, ts, htokens, ht⟩ := TokenSource.lineStop_of_opensDirective hread hopens
    rw [take_line script (.inr ht) htokens (by simp [ht])] at hx
    refine Nat.le_trans hle (lineStop_le_of_gathering hin ?_ (hx.resolve_left List.not_mem_nil))
    rw [htokens]
    simp

end ActiveReader

end CSharpCheck
