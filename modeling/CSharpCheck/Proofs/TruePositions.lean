import Mathlib.Data.List.Permutation
import CSharpCheck.Proofs.Directives.Places
import CSharpCheck.Proofs.Reading.Invariants
import CSharpCheck.Proofs.Scanning.Steps
import CSharpCheck.Proofs.VersionChange

/-!
# Positions tell the truth

Lines and columns are counted character by character while a text is read. What they come to can be
told from the text alone: the line counts the line terminators up to the offset, and the column the
characters since the last of them. Every token and every diagnostic stands in the text so.
-/

namespace CSharpCheck

/-! ### What a position should say -/

/-- Whether a line terminator of the text ends at the offset: an LF, NEL, LINE SEPARATOR or PARAGRAPH
SEPARATOR stands before it, or a CR that no LF follows. A CR LF ends behind its LF only. -/
def TerminatorEndsAt (text : List Char) : (offset : Nat) → Prop
  | 0 => False
  | n + 1 =>
    text[n]? = some '\n' ∨ text[n]? = some '\u0085' ∨ text[n]? = some '\u2028' ∨
      text[n]? = some '\u2029' ∨ (text[n]? = some '\r' ∧ text[n + 1]? ≠ some '\n')

instance (text : List Char) : DecidablePred (TerminatorEndsAt text)
  | 0 => inferInstanceAs (Decidable False)
  | _ + 1 => inferInstanceAs (Decidable (_ ∨ _))

/-- Whether a line of the text starts at the offset. -/
def LineStartsAt (text : List Char) (offset : Nat) : Prop :=
  offset = 0 ∨ TerminatorEndsAt text offset

/-- The position is in the text, its line is one more than the number of line terminators that end
at its offset or before, and its column is one more than the distance to the last of them, or to
the beginning of the text. -/
structure Position.IsTrue (p : Position) (text : List Char) : Prop where
  offset_le : p.offset ≤ text.length
  line : p.line = 1 + (List.range (p.offset + 1)).countP (TerminatorEndsAt text ·)
  column : ∃ start ≤ p.offset, LineStartsAt text start ∧
    (∀ n, start < n → n ≤ p.offset → ¬TerminatorEndsAt text n) ∧ p.column = 1 + (p.offset - start)

/-- The ends of the span are in the text, in order, and true. -/
structure Span.IsTrue (s : Span) (text : List Char) : Prop where
  start : s.start.IsTrue text
  stop : s.stop.IsTrue text
  le : s.start.offset ≤ s.stop.offset

theorem endsLine_iff {text : List Char} {c : Char} {cs : List Char} {n : Nat}
    (h : text.drop n = c :: cs) :
    Position.endsLine c cs.head? = true ↔ TerminatorEndsAt text (n + 1) := by
  have hc : text[n]? = some c := by
    rw [← Nat.add_zero n, ← List.getElem?_drop, h]
    rfl
  have hcs : text[n + 1]? = cs.head? := by
    rw [← List.getElem?_drop, h, List.head?_eq_getElem?]
    rfl
  simp only [Position.endsLine, isLineEnd, TerminatorEndsAt, hc, hcs, Option.some.injEq]
  by_cases hreturn : c = '\r'
  · subst hreturn
    simp
  · simp [hreturn, or_assoc]

theorem Position.first_after_succ {text : List Char} {c : Char} {cs : List Char} {n : Nat}
    (h : text.drop n = c :: cs) :
    Position.first.after text (n + 1) = (Position.first.after text n).step c cs.head? := by
  rw [← after_after, h, after, after_zero]

/-- Counting character by character comes to a true position. -/
theorem Position.isTrue_first_after (text : List Char) {n : Nat} (h : n ≤ text.length) :
    (Position.first.after text n).IsTrue text := by
  induction n with
  | zero =>
    rw [after_zero]
    refine ⟨Nat.zero_le _, rfl, 0, Nat.le_refl _, .inl rfl, fun n hn hn' ↦ ?_, rfl⟩
    exact absurd hn (Nat.not_lt.2 hn')
  | succ n ih =>
    obtain ⟨-, hline, start, hstart, hstarts, hnone, hcolumn⟩ := ih (by omega)
    have hoffset : (Position.first.after text n).offset = n := by
      rw [offset_first_after]
      omega
    obtain ⟨c, cs, hdrop⟩ : ∃ c cs, text.drop n = c :: cs :=
      List.exists_cons_of_ne_nil (by simpa using Nat.lt_of_succ_le h)
    rw [hoffset] at hline hstart hnone hcolumn
    rw [first_after_succ hdrop]
    generalize Position.first.after text n = p at hoffset hline hcolumn
    have hstep : (p.step c cs.head?).offset = n + 1 := by rw [offset_step, hoffset]
    have hcount : (List.range (n + 1 + 1)).countP (TerminatorEndsAt text ·) =
        (List.range (n + 1)).countP (TerminatorEndsAt text ·) +
          if TerminatorEndsAt text (n + 1) then 1 else 0 := by
      rw [List.range_succ, List.countP_append]
      simp
    by_cases hends : TerminatorEndsAt text (n + 1)
    · have hvalue : p.step c cs.head? = ⟨p.line + 1, 1, p.offset + 1⟩ :=
        if_pos ((endsLine_iff hdrop).2 hends)
      refine ⟨hstep ▸ h, ?_, n + 1, Nat.le_of_eq hstep.symm, .inr hends, fun m hm hm' ↦ ?_, ?_⟩
      · rw [hstep, hcount, if_pos hends, hvalue, ← Nat.add_assoc, ← hline]
      · omega
      · rw [hstep, hvalue, Nat.sub_self]
    · have hvalue : p.step c cs.head? = ⟨p.line, p.column + 1, p.offset + 1⟩ :=
        if_neg fun hc ↦ hends ((endsLine_iff hdrop).1 hc)
      refine ⟨hstep ▸ h, ?_, start, by omega, hstarts, fun m hm hm' ↦ ?_, ?_⟩
      · rw [hstep, hcount, if_neg hends, hvalue, Nat.add_zero]
        exact hline
      · rw [hstep] at hm'
        rcases Nat.lt_or_eq_of_le hm' with hlt | rfl
        · exact hnone m hm (by omega)
        · exact hends
      · rw [hstep, hvalue]
        simp only
        omega

theorem Span.In.isTrue {s : Span} {text : List Char} (h : s.In text) : s.IsTrue text where
  start := by
    rw [h.start.1]
    exact Position.isTrue_first_after text h.start.2
  stop := by
    rw [h.stop.1]
    exact Position.isTrue_first_after text h.stop.2
  le := h.le

/-! ### Tokens and findings of the reading steps -/

namespace Reading

/-- The tokens and the findings of the reading stand in the text, and what follows does, too. -/
structure In (r : Reading) (text : List Char) : Prop where
  tokens : ∀ t ∈ r.tokens, t.span.In text
  findings : ∀ x ∈ r.findings, x.span.In text
  source : r.source.cursor.In text

end Reading

namespace Cursor

variable {c : Cursor} {text : List Char}

theorem In.tokens (h : c.In text) (pieces : List Piece) :
    ∀ t ∈ c.tokens pieces, t.span.In text := by
  have htoken (b : Bool) (p : Piece) : (c.token b p).span.In text :=
    h.span (Nat.le_add_right _ _)
  intro t ht
  cases pieces with
  | nil => contradiction
  | cons p ps =>
    rw [Cursor.tokens, List.mem_cons, List.mem_map] at ht
    rcases ht with rfl | ⟨q, -, rfl⟩
    · exact htoken _ p
    · exact htoken _ q

theorem In.findings (h : c.In text) {n : Nat} {faults : List Fault}
    (hfaults : Fault.Within n faults) : ∀ x ∈ faults.map c.finding, x.span.In text := by
  intro x hx
  obtain ⟨f, hf, rfl⟩ := List.mem_map.1 hx
  exact h.span (hfaults f hf).1

end Cursor

namespace TokenSource

variable {s : TokenSource} {r : Reading} {text : List Char}

theorem in_skipExcluded (hs : s.cursor.In text) : s.skipExcluded.cursor.In text :=
  ⟨(hs.advance _).position, (hs.advance _).rest⟩

theorem in_of_read (hs : s.cursor.In text) (h : s.read = some r) : r.In text := by
  have hc := hs.passGap (gap s.inDirective s.cursor.rest)
  have hfindings := hs.findings
    ((local_gapFaults 0 (gap s.inDirective s.cursor.rest)).within.audible s.inDirective)
  unfold read at h
  split at h
  · contradiction
  · simp only at h
    generalize s.cursor.passGap (gap s.inDirective s.cursor.rest) = c at h hc
    generalize (Fault.audible s.inDirective _).map s.cursor.finding = fs at h hfindings
    have hempty (kind : Kind) (atLineStart : Bool) :
        ∀ t ∈ [c.emptyToken kind atLineStart], t.span.In text :=
      List.forall_mem_singleton.2 (Span.point_in hc.position)
    split at h
    · cases h
      exact ⟨hempty _ _, hfindings, hc⟩
    · split at h
      · cases h
        exact ⟨hempty _ _, hfindings, hc⟩
      · cases h
        exact ⟨hc.tokens _, List.forall_mem_append.2
          ⟨hfindings, hc.findings ((within_groupAt s c).audible s.inDirective)⟩,
          ⟨(hc.advance _).position, (hc.advance _).rest⟩⟩

/-- The sources that reading steps lead to from the beginning of a text, when excluded text may be
skipped after any of them. -/
inductive Reached (text : List Char) : TokenSource → Prop where
  | start : Reached text (.ofText text)
  | read {s : TokenSource} {r : Reading} : Reached text s → s.read = some r →
      Reached text r.source
  | skip {s : TokenSource} : Reached text s → Reached text s.skipExcluded

theorem Reached.in (h : Reached text s) : s.cursor.In text := by
  induction h with
  | start => exact Cursor.in_ofText text
  | read _ hread ih => exact (in_of_read ih hread).source
  | skip _ ih => exact in_skipExcluded ih

theorem in_of_mem_readUpTo (hs : s.cursor.In text) (limit : Nat) :
    ∀ r ∈ s.readUpTo limit, r.In text := by
  induction limit generalizing s with
  | zero => exact fun r hr ↦ nomatch hr
  | succ limit ih =>
    unfold readUpTo
    split
    · exact fun r hr ↦ nomatch hr
    · next r hread =>
      have hr := in_of_read hs hread
      exact List.forall_mem_cons.2 ⟨hr, ih hr.source⟩

end TokenSource

/-! ### Active text -/

/-- The tokens and the findings of the chunk stand in the text. -/
structure Chunk.In (c : Chunk) (text : List Char) : Prop where
  tokens : ∀ t ∈ c.tokens, t.span.In text
  findings : ∀ x ∈ c.findings, x.span.In text

theorem PlacedAmong.in {ts : List Token} {fs : List Finding} {text : List Char}
    (h : PlacedAmong ts fs) (hts : ∀ t ∈ ts, t.span.In text) : ∀ x ∈ fs, x.span.In text := by
  intro x hx
  obtain ⟨-, t, ht, hspan⟩ := h x hx
  exact hspan ▸ hts t ht

theorem openBlockFindings_placed (blocks : Blocks) (eof : Token) :
    PlacedAmong [eof] (openBlockFindings blocks eof) :=
  .append (.ite (.single _ List.mem_cons_self) (.nil _))
    (.ite (.single _ List.mem_cons_self) (.nil _))

namespace ActiveReader

variable {r : ActiveReader} {reading : Reading} {text : List Char}

/-- The reader stands in the text, as do the tokens of the line that it is gathering. -/
structure In (r : ActiveReader) (text : List Char) : Prop where
  source : r.source.cursor.In text
  line : ∀ t ∈ r.line, t.span.In text

theorem in_endLine (isScript : Bool) (hr : r.In text) (h : reading.In text) {stop : Token}
    (hstop : stop ∈ reading.tokens) :
    (r.endLine isScript reading stop).1.In text ∧ (r.endLine isScript reading stop).2.In text := by
  have hsource (b : Bool) :
      (if b then reading.source else reading.source.skipExcluded).cursor.In text := by
    split
    · exact h.source
    · exact TokenSource.in_skipExcluded h.source
  refine ⟨⟨(fun t ht ↦ nomatch ht), List.forall_mem_append.2 ⟨h.findings, ?_⟩⟩,
    ⟨hsource _, fun t ht ↦ nomatch ht⟩⟩
  cases hline : r.lineUpTo stop with
  | none => exact fun x hx ↦ nomatch hx
  | some line =>
    refine (DirectiveState.process_placed isScript r.state line).in fun t ht ↦ ?_
    unfold lineUpTo at hline
    split at hline
    · contradiction
    · next hash body hreverse =>
      cases hline
      have hmem : ∀ t ∈ hash :: body, t.span.In text := fun t ht ↦
        hr.line t (List.mem_reverse.1 (hreverse ▸ ht))
      rcases List.mem_cons.1 ht with rfl | ht
      · exact hmem _ List.mem_cons_self
      · rcases List.mem_cons.1 ht with rfl | ht
        · exact h.tokens _ hstop
        · exact hmem t (List.mem_cons_of_mem hash ht)

/-- A step of a reader that stands in the text contributes what stands there. -/
theorem in_take (isScript : Bool) (hr : r.In text) (h : reading.In text) :
    (r.take isScript reading).1.In text ∧ (r.take isScript reading).2.In text := by
  have hnone : ∀ t ∈ ([] : List Token), t.span.In text := fun t ht ↦ nomatch ht
  unfold take
  split
  · exact ⟨⟨hnone, h.findings⟩, ⟨h.source, hr.line⟩⟩
  · next t ts htokens =>
    have ht : t ∈ reading.tokens := htokens ▸ List.mem_cons_self
    split
    · exact in_endLine isScript hr h ht
    · split
      · refine ⟨⟨hnone, h.findings⟩, ⟨h.source, fun u hu ↦ ?_⟩⟩
        rcases List.mem_append.1 hu with hu | hu
        · exact h.tokens u (List.mem_reverse.1 hu)
        · exact hr.line u hu
      · split
        · have heof : ∀ u ∈ [t], u.span.In text := List.forall_mem_singleton.2 (h.tokens t ht)
          exact ⟨⟨heof, List.forall_mem_append.2
            ⟨h.findings, (openBlockFindings_placed _ t).in heof⟩⟩, ⟨h.source, hr.line⟩⟩
        · exact ⟨⟨h.tokens, h.findings⟩, ⟨h.source, hnone⟩⟩

theorem in_chunksUpTo (isScript : Bool) (limit : Nat) (hr : r.In text) :
    ∀ c ∈ r.chunksUpTo isScript limit, c.In text := by
  induction limit generalizing r with
  | zero => exact fun c hc ↦ nomatch hc
  | succ limit ih =>
    unfold chunksUpTo
    split
    · exact fun c hc ↦ nomatch hc
    · next reading hread =>
      obtain ⟨hchunk, hnext⟩ := in_take isScript hr (TokenSource.in_of_read hr.source hread)
      simp only
      split
      · exact List.forall_mem_singleton.2 hchunk
      · exact List.forall_mem_cons.2 ⟨hchunk, ih hnext⟩

end ActiveReader

theorem in_activeText (isScript : Bool) (symbols : List String) (text : List Char) :
    ∀ c ∈ activeText isScript symbols text, c.In text :=
  ActiveReader.in_chunksUpTo _ _ ⟨Cursor.in_ofText text, fun _ ht ↦ nomatch ht⟩

/-! ### The grammar -/

/-- The tokens of the stream stand in the text. -/
def TokenStream.In (s : TokenStream) (text : List Char) : Prop := ∀ i, (s.token i).span.In text

theorem TokenStream.in_of_ofTokens? {tokens : List Token} {stream : TokenStream}
    {text : List Char} (htokens : ∀ t ∈ tokens, t.span.In text)
    (h : ofTokens? tokens = some stream) : stream.In text := by
  unfold ofTokens? at h
  simp only at h
  split at h
  · next eof hlast =>
    split at h
    · cases h
      have hfilter : ∀ t ∈ tokens.filter (·.kind != .bad), t.span.In text := fun t ht ↦
        htokens t (List.mem_filter.1 ht).1
      have heof := hfilter eof (List.mem_of_getLast? hlast)
      intro i
      rw [token, List.getElem?_toArray]
      cases hi : (tokens.filter (·.kind != .bad)).dropLast[i]? with
      | none => exact heof
      | some t => exact hfilter t (List.dropLast_subset _ (List.mem_of_getElem? hi))
    · contradiction
  · contradiction

/-- Every finding of the grammar stands at a token, or where a token starts or stops. -/
theorem Progress.invariant_in {stream : TokenStream} {text : List Char} (h : stream.In text) :
    Progress.Invariant stream fun p ↦ ∀ x ∈ p.found, x.span.In text where
  advance p hp count := by
    unfold advance
    split <;> exact hp
  use p hp feature index := List.forall_mem_cons.2 ⟨h index, hp⟩
  report p hp place e := by
    have hspan : (p.errorSpan stream place).In text := by
      unfold errorSpan
      split
      · exact h _
      · split
        · next t hprevious =>
          unfold previous at hprevious
          split at hprevious
          · contradiction
          · cases hprevious
            exact Span.point_in (h _).stop
        · exact Span.point_in (h _).start
    unfold report
    split
    · exact hp
    · exact List.forall_mem_cons.2 ⟨hspan, hp⟩
  abandon p hp := List.forall_mem_cons.2 ⟨h _, hp⟩

/-- Everything that a reading of the text brings to light stands in the text. -/
theorem Survey.in_findings (isScript : Bool) (symbols : List String) (text : List Char) :
    ∀ x ∈ (Survey.ofText isScript symbols text).findings, x.span.In text := by
  have hchunks := in_activeText isScript symbols text
  refine List.forall_mem_append.2 ⟨fun x hx ↦ ?_, ?_⟩
  · obtain ⟨c, hc, hxc⟩ := List.mem_flatMap.1 hx
    exact (hchunks c hc).findings x hxc
  · have htokens : ∀ t ∈ activeTokens isScript symbols text, t.span.In text := fun t ht ↦ by
      obtain ⟨c, hc, htc⟩ := List.mem_flatMap.1 ht
      exact (hchunks c hc).tokens t htc
    unfold grammarFindings
    cases hprogress : (Survey.ofText isScript symbols text).progress with
    | none => exact fun x hx ↦ nomatch hx
    | some p =>
      replace hprogress : (if _ then none else
        (TokenStream.ofTokens? (activeTokens isScript symbols text)).map
          (readUnit · isScript)) = some p := hprogress
      split at hprogress
      · contradiction
      · obtain ⟨stream, hstream, rfl⟩ := Option.map_eq_some_iff.1 hprogress
        have hin := TokenStream.in_of_ofTokens? htokens hstream
        intro x hx
        exact readUnit_invariant (Progress.invariant_in hin) isScript (fun x hx ↦ nomatch hx)
          x (List.mem_reverse.1 hx)

theorem Gate.span_of_mem_diagnostics {g : Gate} {findings : List Finding} {d : Diagnostic}
    (h : d ∈ g.diagnostics findings) : ∃ x ∈ findings, d.span = x.span := by
  obtain ⟨x, hx, hd⟩ := List.mem_filterMap.1 h
  exact ⟨x, hx, span_of_diagnose hd⟩

/-- Every diagnostic about a text stands in it. -/
theorem span_in_of_validate {o : Options} {text : List Char} {v : Validation}
    (h : validate o text = .ok v) : ∀ d ∈ v.diagnostics, d.span.In text := by
  intro d hd
  unfold validate Survey.verdict at h
  split at h
  · contradiction
  · cases h
    obtain ⟨x, hx, hspan⟩ := Gate.span_of_mem_diagnostics (Diagnostics.mem_sorted.1 hd)
    exact hspan ▸ Survey.in_findings _ _ _ x hx

/-- Positions tell the truth. Whatever the options, every diagnostic stands in the text, its ends
in order, and the lines and columns of both are the ones to be counted in the text. So does every
token that is read, whether all of the text is read or excluded text is skipped on the way. -/
theorem positions_true (text : List Char) :
    (∀ o v, validate o text = .ok v → ∀ d ∈ v.diagnostics, d.span.IsTrue text) ∧
    (∀ t ∈ tokensOf text, t.span.IsTrue text) ∧
    ∀ s r, TokenSource.Reached text s → s.read = some r → ∀ t ∈ r.tokens, t.span.IsTrue text := by
  refine ⟨fun o v hv d hd ↦ ?_, fun t ht ↦ ?_, fun s r hs hread t ht ↦ ?_⟩
  · exact (span_in_of_validate hv d hd).isTrue
  · obtain ⟨r, hr, htr⟩ := List.mem_flatMap.1 ht
    exact ((TokenSource.in_of_mem_readUpTo (Cursor.in_ofText text) _ r hr).tokens t htr).isTrue
  · exact ((TokenSource.in_of_read hs.in hread).tokens t ht).isTrue

/-- Behind a CR LF a new line starts. The hash there opens a directive, which has no name. -/
theorem positions_true_after_carriage_return :
    validate ⟨.default, false, [], []⟩ ['\r', '\n', '#'] = .ok ⟨.v14,
        [⟨.error, "CS1024", "Preprocessor directive expected", ⟨⟨2, 1, 2⟩, ⟨2, 2, 3⟩⟩,
          .preprocessor⟩]⟩ ∧
      Span.IsTrue ⟨⟨2, 1, 2⟩, ⟨2, 2, 3⟩⟩ ['\r', '\n', '#'] ∧
      ∃ r, (TokenSource.ofText ['\r', '\n', '#']).read = some r ∧
        ∀ t ∈ r.tokens, t.span.IsTrue ['\r', '\n', '#'] := by
  have hv : validate ⟨.default, false, [], []⟩ ['\r', '\n', '#'] = .ok ⟨.v14,
      [⟨.error, "CS1024", "Preprocessor directive expected", ⟨⟨2, 1, 2⟩, ⟨2, 2, 3⟩⟩,
        .preprocessor⟩]⟩ := by cbv
  obtain ⟨hdiagnostics, -, hreached⟩ := positions_true ['\r', '\n', '#']
  obtain ⟨r, hread⟩ := TokenSource.exists_read (s := .ofText ['\r', '\n', '#']) rfl
  exact ⟨hv, hdiagnostics _ _ hv _ List.mem_cons_self, r, hread, hreached _ r .start hread⟩

end CSharpCheck
