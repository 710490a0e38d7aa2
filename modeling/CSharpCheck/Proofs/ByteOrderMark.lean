import CSharpCheck.Proofs.Layout
import CSharpCheck.Proofs.Scanning.HoleMarks
import CSharpCheck.Proofs.Scanning.Literals
import CSharpCheck.Proofs.Scanning.OneLine
import CSharpCheck.Proofs.SortedDiagnostics

/-!
# The byte order mark

A byte order mark at the beginning of a text is a blank: the outcome is that of the text behind it,
one place further on. There is one exception. A script may begin with a hash and an exclamation
mark, but only at its very first character, so that behind a byte order mark such a line is refused.
-/

namespace CSharpCheck

/-! ### A blank in front of a step -/

theorem gapFaults_add (n start : Nat) (items : List GapItem) :
    gapFaults (n + start) items = (gapFaults start items).map (·.shift n) := by
  induction items generalizing start with
  | nil => rfl
  | cons item items ih =>
    have hitems := ih (start + item.length)
    rw [← Nat.add_assoc] at hitems
    unfold gapFaults
    cases item with
    | openComment extra => rw [hitems, List.map_cons, Fault.shift]
    | _ => exact hitems

theorem Cursor.finding_shift (c : Cursor) (n : Nat) (f : Fault) :
    c.finding (f.shift n) = (c.advance n).finding f := by
  rw [finding, finding, positionAt_add, positionAt_add]
  rfl

namespace TokenSource

/-- A step outside of directives does not depend on the blanks in front of it. -/
theorem read_blank {s : TokenSource} (hout : s.inDirective = false) {c : Char} {cs : List Char}
    (hrest : s.cursor.rest = c :: cs) (hc : isBlank c = true) :
    s.read = { s with cursor := s.cursor.advance 1 }.read := by
  have hgap : gap s.inDirective s.cursor.rest =
      .blank :: gap s.inDirective (s.cursor.advance 1).rest := by
    rw [hrest, gap_blank _ hc, Cursor.rest_advance, hrest]
    rfl
  have hbehind : s.behindGap = { s with cursor := s.cursor.advance 1 }.behindGap := by
    rw [behindGap, hgap]
    rfl
  have hfindings : s.gapFindings = { s with cursor := s.cursor.advance 1 }.gapFindings := by
    rw [gapFindings, gapFindings, hgap, hout, audible_false, audible_false]
    change (Fault.upToGivingUp (gapFaults (1 + 0) _)).map _ = _
    rw [gapFaults_add, upToGivingUp_shift, List.map_map]
    exact List.map_congr_left fun f _ ↦ s.cursor.finding_shift 1 f
  rcases Bool.eq_false_or_eq_true s.finished with hfinished | hfinished
  · simp [read, hfinished]
  · rw [read_eq hfinished, hbehind, hfindings]
    exact (read_eq (s := { s with cursor := s.cursor.advance 1 }) hfinished).symm

end TokenSource

/-! ### Lines of free text -/

theorem exclamation_of_directiveOpening {text : List Char} {k : Kind} {ks : List Kind}
    (h : Piece.kinds (directiveOpening text).pieces = k :: .directiveMessage :: ks) :
    (text.drop 1).head? = some '!' := by
  unfold directiveOpening at h
  simp only at h
  split at h
  · next hhead => exact beq_iff_eq.1 hhead
  · have hname (rest : List Char) : (nameLexeme false rest).kind ≠ .directiveMessage := by
      intro hkind
      have hsingle := isSingle_nameLexeme false rest
      rw [hkind] at hsingle
      contradiction
    split at h
    · split at h
      · exact absurd (List.cons.inj (List.cons.inj h).2).1 (hname _)
      · exact absurd (List.cons.inj (List.cons.inj h).2).1 (hname _)
    · exact absurd (List.cons.inj h).2 (List.cons_ne_nil _ _).symm

/-- A directive line whose hash is followed by free text opens with an exclamation mark. -/
theorem TokenSource.exclamation_of_read {s : TokenSource} {r : Reading} {text : List Char}
    (h : s.read = some r) (hs : s.cursor.In text) {t u : Token} {ts : List Token}
    (htokens : r.tokens = t :: u :: ts) (ht : t.kind = .directiveStart)
    (hu : u.kind = .directiveMessage) :
    s.cursor.position.offset ≤ t.span.start.offset ∧
      ['#', '!'] <+: text.drop t.span.start.offset := by
  have hbehind : s.behindGap.In text := hs.passGap _
  rw [read_eq (finished_of_read h)] at h
  split at h
  · cases h
    exact absurd (List.cons.inj htokens).2 (List.cons_ne_nil _ _).symm
  · split at h
    · cases h
      exact absurd (List.cons.inj htokens).2 (List.cons_ne_nil _ _).symm
    · next hrest =>
      cases h
      rw [readGroup_eq] at htokens
      have hkinds := congrArg (List.map (·.kind)) htokens
      rw [Cursor.kinds_tokens, List.map_cons, List.map_cons, ht, hu] at hkinds
      cases hopens : s.opensDirective s.behindGap with
      | false =>
        obtain ⟨p, ps, hpieces, hkind⟩ := exists_piece_scanGroup s.inDirective maxOpenHoles hrest
        rw [groupAt, if_neg (by simp [hopens]), hpieces] at hkinds
        have hfirst : p.kind = .directiveStart := (List.cons.inj hkinds).1
        rw [hfirst] at hkind
        rcases hkind with hkind | hkind <;> contradiction
      | true =>
        obtain ⟨ps, hps⟩ := directiveStart_of_opensDirective hopens
        have hstart : t.span.start = s.behindGap.position := by
          rw [hps] at htokens
          rw [← (List.cons.inj htokens).1]
          exact s.behindGap.positionAt_zero
        rw [groupAt, if_pos hopens] at hkinds
        have hexclamation := exclamation_of_directiveOpening hkinds
        simp only [opensDirective, Bool.and_eq_true, beq_iff_eq] at hopens
        obtain ⟨cs, hcs⟩ := List.head?_eq_some_iff.1 hopens.1.1
        rw [hcs] at hexclamation
        obtain ⟨ds, rfl⟩ := List.head?_eq_some_iff.1 hexclamation
        rw [hstart, ← hbehind.rest, hcs]
        exact ⟨s.offset_le_behindGap, ds, rfl⟩

/-- Free text never comes first in a step. -/
theorem TokenSource.exists_first_of_read {s : TokenSource} {r : Reading} (h : s.read = some r) :
    ∃ t ts, r.tokens = t :: ts ∧ t.kind ≠ .directiveMessage := by
  cases gives_of_read h with
  | directiveEnd _ htokens hkind | endOfFile _ htokens hkind | directiveStart htokens hkind =>
    exact ⟨_, _, htokens, by rw [hkind]; decide⟩
  | scan htokens hkind =>
    refine ⟨_, _, htokens, fun hmessage ↦ ?_⟩
    rw [hmessage] at hkind
    rcases hkind with hkind | hkind <;> contradiction

namespace ActiveReader

variable {script : Bool} {text : List Char} {start limit : Nat} {r r' : ActiveReader}
  {reading : Reading}

/-- The line that is gathered behind a step goes on, opens, or is none. -/
theorem line_take_cases (script : Bool) (r : ActiveReader) {t : Token} {ts : List Token}
    (htokens : reading.tokens = t :: ts) : (r.take script reading).2.line = [] ∨
      (r.take script reading).2.line.reverse = r.line.reverse ++ t :: ts ∧
        (r.line ≠ [] ∨ t.kind = .directiveStart) := by
  unfold take
  rw [htokens]
  simp only
  split
  · exact .inl rfl
  · split
    · next hline =>
      refine .inr ⟨?_, hline.symm⟩
      rw [List.reverse_append, List.reverse_reverse]
    · next hline =>
      rw [not_or, Decidable.not_not] at hline
      split
      · exact .inl hline.2
      · exact .inl rfl

/-- The reader has gone on from the offset `start`. If it gathers a line of free text, the line
opens behind `start`, with an exclamation mark behind its hash. -/
structure Behind (text : List Char) (start : Nat) (r : ActiveReader) : Prop where
  place : r.source.cursor.In text
  le : start ≤ r.source.cursor.position.offset
  line {hash name : Token} {args : List Token} : r.line.reverse = hash :: name :: args →
    name.kind = .directiveMessage →
      start ≤ hash.span.start.offset ∧ ['#', '!'] <+: text.drop hash.span.start.offset

theorem Behind.of_in {s : TokenSource} (h : s.cursor.In text) (state : DirectiveState) :
    Behind text s.cursor.position.offset ⟨s, state, []⟩ where
  place := h
  le := Nat.le_refl _
  line hline := absurd hline.symm (List.cons_ne_nil _ _)

theorem Behind.take (script : Bool) (h : r.Behind text start)
    (hread : r.source.read = some reading) : (r.take script reading).2.Behind text start where
  place := by
    have hreading := (TokenSource.in_of_read h.place hread).source
    rcases r.source_take script reading with hsource | hsource <;> rw [hsource]
    · exact hreading
    · exact TokenSource.in_skipExcluded hreading
  le := Nat.le_trans h.le (Nat.le_trans (TokenSource.offset_le_of_read hread)
    (offset_le_source_take script r reading))
  line {hash name args} hline hname := by
    obtain ⟨t, ts, htokens, ht⟩ := TokenSource.exists_first_of_read hread
    rcases line_take_cases script r htokens with hnil | ⟨hgathered, hopens⟩
    · rw [hnil] at hline
      exact absurd hline.symm (List.cons_ne_nil _ _)
    · rw [hgathered] at hline
      cases hbefore : r.line.reverse with
      | nil =>
        -- the line opens with this step
        rw [hbefore] at hline
        obtain ⟨rfl, rfl⟩ := List.cons.inj hline
        have hstart := hopens.resolve_left (by simp [List.reverse_eq_nil_iff.1 hbefore])
        obtain ⟨hle, hhash⟩ := TokenSource.exclamation_of_read hread h.place htokens hstart hname
        exact ⟨Nat.le_trans h.le hle, hhash⟩
      | cons first body =>
        rw [hbefore, List.cons_append] at hline
        obtain ⟨rfl, hbody⟩ := List.cons.inj hline
        cases body with
        | nil => exact absurd hname ((List.cons.inj hbody).1 ▸ ht)
        | cons second later =>
          obtain ⟨rfl, -⟩ := List.cons.inj hbody
          exact h.line hbefore hname

/-- No line of free text opens at the beginning of the text, unless the text begins with one. -/
theorem Behind.keepsStart (h : r.Behind text start)
    (hfree : script = true → ['#', '!'] <+: text → 0 < start) :
    r.KeepsStart (.past .first 0 1) script := by
  intro stop line hline hscript hmessage
  unfold lineUpTo at hline
  split at hline
  · contradiction
  · next hash body hbody =>
    obtain rfl := Option.some.inj hline
    rw [DirectiveLine.isFree, Option.any_eq_true] at hmessage
    obtain ⟨name, hname, hkind⟩ := hmessage
    obtain ⟨args, rfl⟩ := List.head?_eq_some_iff.1 hname
    obtain ⟨hle, hopens⟩ := h.line hbody (beq_iff_eq.1 hkind)
    have hpos : hash.span.start.offset ≠ 0 := by
      intro hzero
      rw [hzero] at hle hopens
      have hlt := hfree hscript hopens
      omega
    exact iff_of_false (Nat.succ_ne_zero _) hpos

/-- Readers that stand in front of the same text, one of them one place further on, contribute the
same, unless the first of them reads the free text that a script may begin with. -/
theorem chunksUpTo_mark (hbehind : r.Behind text start)
    (hfree : script = true → ['#', '!'] <+: text → 0 < start)
    (halike : r.source.Alike (.past .first 0 1) (.past .first 1 0) r'.source)
    (hagrees : r.Agrees (.past .first 0 1) (.past .first 1 0) r') (limit : Nat) :
    (r.chunksUpTo script limit).map (·.relocate (.past .first 0 1)) =
      (r'.chunksUpTo script limit).map (·.relocate (.past .first 1 0)) := by
  have hkeeps {r : ActiveReader} (h : r.Behind text start) (r' : ActiveReader) :
      r.KeepsStart (.past .first 0 1) script ∧ r'.KeepsStart (.past .first 1 0) script :=
    ⟨h.keepsStart hfree, r'.keepsStart_of_zero _ script rfl⟩
  refine chunksUpTo_agree (S := fun _ r r' ↦ r.Behind text start ∧
      r.Agrees (.past .first 0 1) (.past .first 1 0) r' ∧
      r.source.Alike (.past .first 0 1) (.past .first 1 0) r'.source)
    (fun h ↦ hkeeps h.1 _) (fun h ↦ h.2.1) ?_ ⟨hbehind, hagrees, halike⟩
  rintro _ r r' ⟨hbehind, hagrees, halike⟩
  rcases halike.read (by rfl) with hnone | ⟨reading, reading', hread, hread', hreading, halike'⟩
  · exact .inl hnone
  · obtain ⟨hstart, hstart'⟩ := hkeeps hbehind r'
    obtain ⟨-, hagrees', hfollow⟩ := hagrees.take hstart hstart' hreading
    exact .inr ⟨reading, reading', hread, hread', hreading,
      fun _ ↦ ⟨hbehind.take script hread, hagrees', hfollow.alike halike'⟩⟩

/-! ### The first steps -/

/-- A reader that has read nothing of a text whose first character stands at the position. -/
def ofTextAt (p : Position) (text : List Char) (symbols : List String) : ActiveReader :=
  ⟨⟨⟨text, p, false⟩, false, false⟩, .initial symbols, []⟩

theorem chunksUpTo_of_read {s s' : TokenSource} (h : s.read = s'.read) (script : Bool)
    (limit : Nat) (state : DirectiveState) (line : List Token) :
    chunksUpTo script limit ⟨s, state, line⟩ = chunksUpTo script limit ⟨s', state, line⟩ := by
  cases limit with
  | zero => rfl
  | succ limit =>
    rw [chunksUpTo, chunksUpTo, h]
    rfl

/-- A step that does not break the reading off is followed by the others. -/
theorem chunksUpTo_succ {chunk : Chunk} {next : ActiveReader} (hread : r.source.read = some reading)
    (htake : r.take script reading = (chunk, next)) (hgoes : chunk.breakdown = none) :
    r.chunksUpTo script (limit + 1) = chunk :: next.chunksUpTo script limit := by
  rw [chunksUpTo, hread]
  simp only [htake, hgoes, Option.isSome_none, Bool.false_eq_true, if_false]

/-- Behind a byte order mark, the reader reads the text from the next place on. -/
theorem chunksUpTo_byteOrderMark (script : Bool) (limit : Nat) (text : List Char)
    (symbols : List String) :
    (ofText ('\ufeff' :: text) symbols).chunksUpTo script limit =
      (ofTextAt (Position.first.right 1) text symbols).chunksUpTo script limit := by
  refine chunksUpTo_of_read ?_ script limit _ _
  have hblank : isBlank '\ufeff' = true := by decide +kernel
  have hadvance : (Cursor.ofText ('\ufeff' :: text)).advance 1 =
      ⟨text, Position.first.right 1, false⟩ := Cursor.advance_one (by decide) .first text false
  rw [TokenSource.read_blank (s := .ofText ('\ufeff' :: text)) rfl rfl hblank]
  exact congrArg (fun c ↦ TokenSource.read ⟨c, false, false⟩) hadvance

/-- The cursor behind the first line of a text, after something has been read on the line. -/
def behindLine (p : Position) (text : List Char) : Cursor :=
  { (⟨text, p, false⟩ : Cursor).advance (restOfLine text).length with lineUsed := true }

theorem behindLine_in (text : List Char) : (behindLine .first text).In text :=
  let h := (Cursor.in_ofText text).advance (restOfLine text).length
  ⟨h.position, h.rest⟩

theorem offset_behindLine_pos (p : Position) {c : Char} (hc : isLineEnd c = false)
    (cs : List Char) : 0 < (behindLine p (c :: cs)).position.offset := by
  change 0 < (Cursor.positionAt ⟨c :: cs, p, false⟩ (restOfLine (c :: cs)).length).offset
  rw [Cursor.offset_positionAt, restOfLine_cons hc]
  simp only [List.length_cons]
  omega

theorem gap_behindLine (p : Position) (text : List Char) :
    gap true (behindLine p text).rest = [] := by
  have hline : restOfLine (behindLine p text).rest = [] :=
    restOfLine_of_lineEnd (isLineEnd_head_drop_restOfLine text)
  have hlength : gapLength (gap true (behindLine p text).rest) ≤ 0 := by
    have hle := @gapLength_le (behindLine p text).rest (by simp [hline])
    rwa [hline] at hle
  exact gap_eq_nil (by simpa using .inl (Nat.le_zero.1 hlength))

/-- A hash and an exclamation mark open a line of free text. -/
theorem read_freeText (p : Position) (cs : List Char) :
    ∃ hash message, (⟨⟨'#' :: '!' :: cs, p, false⟩, false, false⟩ : TokenSource).read =
        some ⟨[hash, message], [], ⟨behindLine p ('#' :: '!' :: cs), true, false⟩⟩ ∧
      hash.kind = .directiveStart ∧ hash.span = ⟨p, p.right 1⟩ ∧
        message.kind = .directiveMessage := by
  have hlength : 1 + (messagePiece 1 ('!' :: cs)).length =
      (restOfLine ('#' :: '!' :: cs)).length := by
    rw [restOfLine_cons (c := '#') rfl, List.length_cons, Nat.add_comm]
    rfl
  have hgroup : directiveOpening ('#' :: '!' :: cs) =
      ⟨(restOfLine ('#' :: '!' :: cs)).length,
        [.bare .directiveStart 0 1, messagePiece 1 ('!' :: cs)], []⟩ := by
    rw [← hlength]
    rfl
  refine ⟨_, _, TokenSource.read_opening rfl rfl .here hgroup rfl, rfl, ?_, rfl⟩
  exact congrArg₂ Span.mk (Cursor.positionAt_zero _) (Cursor.positionAt_one (by decide) p _ _)

/-- The line ends where the next line begins, or the text ends. -/
theorem read_behindLine (p : Position) (text : List Char) :
    ∃ stop, (⟨behindLine p text, true, false⟩ : TokenSource).read =
        some ⟨[stop], [], ⟨behindLine p text, false, false⟩⟩ ∧ stop.kind = .directiveEnd := by
  refine ⟨(behindLine p text).emptyToken .directiveEnd false, ?_, rfl⟩
  rw [TokenSource.read_of_before rfl .here (gap_behindLine p text), if_pos]
  exact isLineEnd_head_drop_restOfLine text

/-- In front of all other directives a line of free text has no effect, or it is refused. -/
theorem take_freeText (script : Bool) (s : TokenSource) (symbols : List String)
    {hash message stop : Token} (hmessage : message.kind = .directiveMessage)
    (hstop : stop.kind = .directiveEnd) (c : Cursor) :
    take script ⟨s, .initial symbols, [message, hash]⟩ ⟨[stop], [], ⟨c, false, false⟩⟩ =
      (⟨[], if script && hash.span.start.offset == 0 then [] else
          [problemAt .directiveExpected hash], [], .initial symbols, none⟩,
        ⟨⟨c, false, false⟩, .initial symbols, []⟩) := by
  have heffect : lineEffect script ⟨s, .initial symbols, [message, hash]⟩ stop =
      ⟨.initial symbols, if script && hash.span.start.offset == 0 then [] else
        [problemAt .directiveExpected hash], []⟩ := by
    change (DirectiveState.initial symbols).process script ⟨hash, [message], stop⟩ = _
    rw [DirectiveState.process]
    simp only [hmessage, if_true]
    split <;> rfl
  have hbreakdown : (DirectiveState.initial symbols).breakdown? ⟨hash, [message], stop⟩ = none := by
    simp [DirectiveState.breakdown?, Token.isIdentifier, Token.isKeyword, hmessage]
  rw [take]
  simp only [hstop, if_true]
  rw [endLine_eq, heffect]
  exact congrArg (fun b ↦ (Chunk.mk [] _ [] (.initial symbols) b, _)) hbreakdown

/-- A line of free text at the beginning of the text is read in two steps. It is refused unless the
text is a script, and the line its beginning. -/
theorem chunksUpTo_freeText (script : Bool) (limit : Nat) (p : Position) (symbols : List String)
    (cs : List Char) :
    (ofTextAt p ('#' :: '!' :: cs) symbols).chunksUpTo script (limit + 2) =
      ⟨[], [], [], .initial symbols, none⟩ ::
        ⟨[], if script && p.offset == 0 then [] else
            [⟨.directive .directiveExpected, ⟨p, p.right 1⟩⟩], [], .initial symbols, none⟩ ::
          chunksUpTo script limit
            ⟨⟨behindLine p ('#' :: '!' :: cs), false, false⟩, .initial symbols, []⟩ := by
  obtain ⟨hash, message, hread, hstart, hspan, hmessage⟩ := read_freeText p cs
  obtain ⟨stop, hread', hstop⟩ := read_behindLine p ('#' :: '!' :: cs)
  have htake : (ofTextAt p ('#' :: '!' :: cs) symbols).take script
      ⟨[hash, message], [], ⟨behindLine p ('#' :: '!' :: cs), true, false⟩⟩ =
        (⟨[], [], [], .initial symbols, none⟩,
          ⟨⟨behindLine p ('#' :: '!' :: cs), true, false⟩, .initial symbols, [message, hash]⟩) :=
    take_line script (.inr hstart) rfl (by simp [hstart])
  rw [chunksUpTo_succ hread htake rfl,
    chunksUpTo_succ hread' (take_freeText script _ symbols hmessage hstop _) rfl, problemAt, hspan]

end ActiveReader

/-! ### Outcomes -/

/-- A step without active tokens contributes what it finds, and the grammar reads on as without it,
unless the text is given up there. -/
theorem Survey.ofChunks_cons (script : Bool) (state : DirectiveState) (fs : List Finding)
    (cs : List Chunk) (hfound : fs.any (·.isTooComplex) = false) :
    (ofChunks script (⟨[], fs, [], state, none⟩ :: cs)).findings =
        fs ++ (ofChunks script cs).findings ∧
      (ofChunks script (⟨[], fs, [], state, none⟩ :: cs)).breakdown =
        (ofChunks script cs).breakdown := by
  constructor
  · simp only [ofChunks, ofTokens, findings, grammarFindings, List.flatMap_cons, List.nil_append,
      List.any_append, hfound, Bool.false_or, List.append_assoc]
  · simp only [ofChunks, ofTokens, List.findSome?_cons]

/-- A step that finds nothing and has no active tokens does not change the outcome. -/
theorem Survey.verdict_ofChunks_cons (gate : Gate) (script : Bool) (state : DirectiveState)
    (cs : List Chunk) : (ofChunks script (⟨[], [], [], state, none⟩ :: cs)).verdict gate =
      (ofChunks script cs).verdict gate := by
  obtain ⟨hfindings, hbreakdown⟩ := ofChunks_cons script state [] cs rfl
  rw [verdict, verdict, hbreakdown, Validation.ofSurvey, Validation.ofSurvey, hfindings]
  rfl

/-- The outcome with one more diagnostic in front of all others. -/
def Validation.cons (d : Diagnostic) (v : Validation) : Validation :=
  { v with diagnostics := d :: v.diagnostics }

/-- A finding in front of all others becomes the first diagnostic. -/
theorem Survey.verdict_cons (gate : Gate) {s s' : Survey} {f : Finding} {d : Diagnostic}
    (hfindings : s'.findings = f :: s.findings) (hbreakdown : s'.breakdown = s.breakdown)
    (hd : gate.diagnose f = some d)
    (hfirst : ∀ v, s.verdict gate = .ok v →
      ∀ e ∈ v.diagnostics, d.span.start.offset ≤ e.span.start.offset) :
    s'.verdict gate = (s.verdict gate).map (·.cons d) := by
  have hdiagnostics : gate.diagnostics s'.findings = d :: gate.diagnostics s.findings := by
    rw [hfindings, Gate.diagnostics, List.filterMap_cons_some hd]
    rfl
  rw [verdict] at hfirst
  rw [verdict, verdict, hbreakdown]
  cases hgoes : s.breakdown with
  | some breakdown => rfl
  | none =>
    rw [hgoes] at hfirst
    refine congrArg Except.ok ?_
    rw [Validation.ofSurvey, hdiagnostics, Diagnostics.sorted_cons fun e he ↦
      hfirst _ rfl e (Diagnostics.mem_sorted.2 he)]
    rfl

/-- The place of a position of a text when a byte order mark stands in front of the text. -/
def Position.behindMark (p : Position) : Position :=
  ⟨p.line, if p.line = 1 then p.column + 1 else p.column, p.offset + 1⟩

theorem Position.reflow_first (p : Position) : p.reflow .first 0 1 = p.behindMark :=
  if_neg (Nat.not_lt_zero p.offset)

theorem Validation.move_reflow_first (v : Except Breakdown Validation) :
    v.map (·.move (·.reflow .first 0 1)) = v.map (·.move Position.behindMark) :=
  congrArg (fun place ↦ v.map (·.move place)) (funext Position.reflow_first)

/-- The diagnostic for a hash behind a byte order mark that opens no directive. -/
def notADirective : Diagnostic :=
  ⟨.error, "CS1024", "Preprocessor directive expected", ⟨⟨1, 2, 1⟩, ⟨1, 3, 2⟩⟩, .preprocessor⟩

section

variable (script : Bool) (symbols : List String) (text : List Char)

theorem activeText_eq : activeText script symbols text =
    (ActiveReader.ofTextAt .first text symbols).chunksUpTo script (2 * text.length + 1 + 2) :=
  ActiveReader.chunksUpTo_eq_of_stepsLeft_le (Nat.le_refl _) (Nat.le_add_right _ 2)

theorem activeText_byteOrderMark : activeText script symbols ('\ufeff' :: text) =
    (ActiveReader.ofTextAt (Position.first.right 1) text symbols).chunksUpTo script
      (2 * text.length + 1 + 2) :=
  ActiveReader.chunksUpTo_byteOrderMark script _ text symbols

/-- Unless a script begins with a line of free text, a byte order mark moves its active text. -/
theorem activeText_byteOrderMark_agree (h : script = true → ¬['#', '!'] <+: text) :
    (activeText script symbols text).map (·.relocate (.past .first 0 1)) =
      (activeText script symbols ('\ufeff' :: text)).map (·.relocate (.past .first 1 0)) := by
  rw [activeText_eq, activeText_byteOrderMark]
  refine ActiveReader.chunksUpTo_mark (.of_in (Cursor.in_ofText text) _)
    (fun hscript hopens ↦ absurd hopens (h hscript)) ?_ ?_ _
  · exact ⟨Cursor.alike_past .first 0 1 text false, rfl, rfl⟩
  · exact ⟨rfl, rfl⟩

/-- What a script that begins with a line of free text contributes behind the line moves, and at the
line a hash is found that opens no directive. -/
theorem activeText_freeText (cs : List Char) : ∃ rest rest',
    activeText true symbols ('#' :: '!' :: cs) =
        ⟨[], [], [], .initial symbols, none⟩ :: ⟨[], [], [], .initial symbols, none⟩ :: rest ∧
      activeText true symbols ('\ufeff' :: '#' :: '!' :: cs) =
        ⟨[], [], [], .initial symbols, none⟩ ::
          ⟨[], [⟨.directive .directiveExpected, notADirective.span⟩], [], .initial symbols, none⟩ ::
            rest' ∧
      rest.map (·.relocate (.past .first 0 1)) = rest'.map (·.relocate (.past .first 1 0)) := by
  refine ⟨_, _, (activeText_eq true symbols _).trans
    (ActiveReader.chunksUpTo_freeText true _ .first symbols cs),
    (activeText_byteOrderMark true symbols _).trans
      (ActiveReader.chunksUpTo_freeText true _ (Position.first.right 1) symbols cs), ?_⟩
  refine ActiveReader.chunksUpTo_mark (.of_in (ActiveReader.behindLine_in _) _)
    (fun _ _ ↦ ActiveReader.offset_behindLine_pos .first rfl _) ?_ ?_ _
  · exact ⟨((Cursor.alike_past .first 0 1 _ false).advance _).withLine true, rfl, rfl⟩
  · exact ⟨rfl, rfl⟩

end

/-- The free text that a script begins with is refused behind a byte order mark. -/
theorem validate_freeText (o : Options) (hscript : o.script = true) (cs : List Char) :
    validate o ('\ufeff' :: '#' :: '!' :: cs) = (validate o ('#' :: '!' :: cs)).map fun v ↦
      (v.move Position.behindMark).cons notADirective := by
  obtain ⟨rest, rest', hactive, hactive', hrest⟩ := activeText_freeText o.symbols cs
  -- behind the line both texts have the same outcome
  obtain ⟨hfindings, hbreakdown⟩ := Survey.ofChunks_agree true hrest
  have hmoved : (Survey.ofChunks true rest').verdict o.gate =
      ((Survey.ofChunks true rest).verdict o.gate).map (·.move Position.behindMark) :=
    (Validation.map_move_of_relocate (Survey.verdict_agree o.gate hfindings hbreakdown
      (fun f _ ↦ Relocation.restates_past f.cause)
      fun f _ ↦ Relocation.restates_past f.cause)).trans (Validation.move_reflow_first _)
  obtain ⟨hfound, hgoes⟩ := Survey.ofChunks_cons true (.initial o.symbols)
    [⟨.directive .directiveExpected, notADirective.span⟩] rest' rfl
  have hcons := Survey.verdict_cons o.gate hfound hgoes (d := notADirective) rfl fun v hv e he ↦ by
    rw [hmoved] at hv
    cases hplain : (Survey.ofChunks true rest).verdict o.gate with
    | error breakdown =>
      rw [hplain] at hv
      contradiction
    | ok w =>
      rw [hplain] at hv
      obtain rfl := Except.ok.inj hv
      obtain ⟨d, -, rfl⟩ := List.mem_map.1 he
      exact Nat.le_add_left 1 _
  rw [validate, validate, Survey.ofText_eq, Survey.ofText_eq, hscript, hactive, hactive',
    Survey.verdict_ofChunks_cons, Survey.verdict_ofChunks_cons, Survey.verdict_ofChunks_cons, hcons,
    hmoved]
  cases (Survey.ofChunks true rest).verdict o.gate <;> rfl

/-- A byte order mark in front of a text moves the diagnostics and changes nothing else, with one
exception: free text behind a hash and an exclamation mark is allowed at the first character of a
script only, and is refused behind the mark. -/
theorem validate_byteOrderMark (o : Options) (text : List Char) :
    validate o ('\ufeff' :: text) = (validate o text).map fun v ↦
      if o.script && ['#', '!'].isPrefixOf text then (v.move Position.behindMark).cons notADirective
      else v.move Position.behindMark := by
  cases hfree : o.script && ['#', '!'].isPrefixOf text with
  | false =>
    have hactive := activeText_byteOrderMark_agree o.script o.symbols text fun hscript hopens ↦ by
      rw [hscript, List.isPrefixOf_iff_prefix.2 hopens] at hfree
      contradiction
    have hmoved := Validation.map_move_of_relocate (validate_agree o hactive
      (fun f _ ↦ Relocation.restates_past f.cause) fun f _ ↦ Relocation.restates_past f.cause)
    rw [hmoved, Validation.move_reflow_first]
    rfl
  | true =>
    rw [Bool.and_eq_true, List.isPrefixOf_iff_prefix] at hfree
    obtain ⟨hscript, cs, rfl⟩ := hfree
    exact validate_freeText o hscript cs

/-- A script may begin with free text, but not behind a byte order mark. -/
theorem freeText_behind_byteOrderMark :
    validate ⟨.default, true, [], []⟩ "#!x".toList = .ok ⟨.v14, []⟩ ∧
      validate ⟨.default, true, [], []⟩ ('\ufeff' :: "#!x".toList) =
        .ok ⟨.v14, [notADirective]⟩ := by
  decide +kernel

end CSharpCheck
