import CSharpCheck.Proofs.Directives.Readers
import CSharpCheck.Proofs.LosslessScanning
import CSharpCheck.Proofs.Nesting.BlockDirectives
import CSharpCheck.Proofs.ScriptMode
import CSharpCheck.Proofs.TruePositions

/-!
# Nesting of blocks

The directives about blocks that are processed in reading a text, those in excluded text among
them, form a sequence. Errors about the nesting of blocks are reported exactly when the sequence is
not properly nested and complete. At the end of the text there is one for each kind of block of
which one is still open.
-/

namespace CSharpCheck

/-! ### The directives of a text -/

/-- The directive about blocks that is processed in the step, if any. -/
def Chunk.blockDirective? (c : Chunk) : Option BlockDirective :=
  BlockDirective.ofRemarks? c.remarks

/-- The directives about blocks that are processed in the steps. -/
def blockDirectives (steps : List Chunk) : List BlockDirective :=
  steps.filterMap (·.blockDirective?)

/-- The place behind the last character of the text. -/
def endOfText (text : List Char) : Span := .point (Position.first.after text text.length)

/-- A token that is spelled at all does not stand at the end of the text. -/
theorem Token.Quotes.span_ne {t : Token} {text : List Char} (h : t.Quotes text)
    (htext : t.text ≠ "") : t.span ≠ endOfText text := by
  intro hspan
  apply htext
  rw [h, hspan]
  simp [endOfText, Span.point, slice_self, trimEnd]

theorem SpellTo.quotes {text : List Char} {start stop : Nat} {ts : List Token}
    (h : SpellTo text start ts stop) : ∀ t ∈ ts, t.Quotes text := by
  induction h with
  | nil => exact List.forall_mem_nil _
  | gap _ _ _ ih => exact ih
  | token _ hquotes _ _ ih => exact List.forall_mem_cons.2 ⟨hquotes, ih⟩

/-- What is found in scanning tokens is not about blocks. -/
theorem TokenSource.calm_findings {s : TokenSource} {r : Reading} (h : s.read = some r) :
    Calm r.findings := by
  have hcalm (c : Cursor) (faults : List Fault) : Calm (faults.map c.finding) := by
    intro x hx
    obtain ⟨f, -, rfl⟩ := List.mem_map.1 hx
    rfl
  cases hfinished : s.finished with
  | true => simp [read, hfinished] at h
  | false =>
    rw [read_eq hfinished] at h
    split at h
    · cases h
      exact hcalm _ _
    · split at h
      · cases h
        exact hcalm _ _
      · cases h
        exact Calm.append_iff.2 ⟨hcalm _ _, hcalm _ _⟩

/-- What is found next to what is not about blocks. -/
theorem Effect.Follows.prepend {e : Effect} {blocks : Blocks} {directive : Option BlockDirective}
    {name : Token} {fs : List Finding} (h : e.Follows blocks directive name) (hfs : Calm fs) :
    Effect.Follows ⟨e.state, fs ++ e.findings, e.remarks⟩ blocks directive name where
  stays := h.stays
  meets d hd := by
    rw [List.any_append, hfs.any_eq_false, Bool.false_or]
    exact h.meets d hd
  calm hd := Calm.append_iff.2 ⟨hfs, h.calm hd⟩
  placed x hx hnest := by
    rcases List.mem_append.1 hx with hx | hx
    · rw [hfs x hx] at hnest
      contradiction
    · exact h.placed x hx hnest

/-- The step as the effect of a directive line. -/
def Chunk.effect (c : Chunk) : Effect := ⟨c.state, c.findings, c.remarks⟩

namespace ActiveReader

/-- The reader stands in the text, and the tokens of the directive line that it is gathering are
spelled as the text is. -/
structure Collects (r : ActiveReader) (text : List Char) : Prop where
  source : r.source.cursor.In text
  tidy : r.Tidy
  line : ∀ t ∈ r.line, t.Quotes text

variable {script : Bool} {text : List Char} {r : ActiveReader} {reading : Reading}

theorem collects_ofText (text : List Char) (symbols : List String) :
    (ofText text symbols).Collects text :=
  ⟨Cursor.in_ofText text, fun _ ↦ rfl, List.forall_mem_nil _⟩

/-- The directive line that is being gathered grows by the tokens that are read, or it ends. -/
theorem line_take_subset (script : Bool) (r : ActiveReader) (reading : Reading) :
    (r.take script reading).2.line ⊆ reading.tokens ++ r.line := by
  unfold take
  split
  · exact List.subset_append_right _ _
  · split
    · exact List.nil_subset _
    · split
      · intro t ht
        simpa using ht
      · split
        · exact List.subset_append_right _ _
        · exact List.nil_subset _

theorem Collects.take (hr : r.Collects text) (h : r.source.read = some reading) :
    (r.take script reading).2.Collects text where
  source := by
    have hcursor := (TokenSource.in_of_read hr.source h).source
    rcases r.source_take script reading with hsource | hsource
    · rwa [hsource]
    · rw [hsource]
      exact TokenSource.in_skipExcluded hcursor
  tidy := tidy_take hr.tidy h
  line t ht := by
    rcases List.mem_append.1 (r.line_take_subset script reading ht) with ht | ht
    · rcases TokenSource.spellTo_of_read hr.source h with ⟨-, -, hspell⟩ | ⟨-, -, eof, htokens, heof⟩
      · exact hspell.quotes t ht
      · rw [htokens, List.mem_singleton] at ht
        exact ht ▸ heof.quotes
    · exact hr.line t ht

theorem mem_line_of_lineUpTo {stop t : Token} {line : DirectiveLine}
    (h : r.lineUpTo stop = some line) (ht : t ∈ line.body) : t ∈ r.line := by
  unfold lineUpTo at h
  split at h
  · contradiction
  · next hash body hreverse =>
    cases h
    rw [← List.mem_reverse, hreverse]
    exact List.mem_cons_of_mem hash ht

/-- A step that does not end the text follows what the directive about blocks does that it
processes, and then the name of the directive is on the line that has been gathered. -/
theorem follows_take (script : Bool) (hr : r.Collects text) (h : r.source.read = some reading)
    (hgoes : reading.source.finished = false) :
    ∃ name : Token, (r.take script reading).1.effect.Follows r.state.blocks
        (r.take script reading).1.blockDirective? name ∧
      ((r.take script reading).1.blockDirective? ≠ none → name.span ≠ endOfText text) := by
  have hcalm := TokenSource.calm_findings h
  have hnone {c : Chunk} (hfindings : c.findings = reading.findings) (hremarks : c.remarks = [])
      (hblocks : c.state.blocks = r.state.blocks) : ∃ name : Token,
        c.effect.Follows r.state.blocks c.blockDirective? name ∧
          (c.blockDirective? ≠ none → name.span ≠ endOfText text) := by
    have hdirective : c.blockDirective? = none := by
      rw [Chunk.blockDirective?, hremarks]
      rfl
    have hfollows : c.effect.Follows r.state.blocks none default :=
      r.state.follows_none (by rwa [Chunk.effect, hfindings]) hblocks
    rw [hdirective]
    exact ⟨default, hfollows, fun hd ↦ absurd rfl hd⟩
  unfold take
  split
  · exact hnone rfl rfl rfl
  · next t ts htokens =>
    split
    · rw [endLine_eq]
      simp only [lineEffect]
      split
      · next line hline =>
        obtain ⟨name, hfollows, hname⟩ := r.state.follows_process script line
        refine ⟨name, hfollows.prepend hcalm, fun hd ↦ ?_⟩
        obtain ⟨hmem, htext⟩ := hname hd
        exact (hr.line name (mem_line_of_lineUpTo hline hmem)).span_ne htext
      · exact hnone (List.append_nil _) rfl rfl
    · split
      · exact hnone rfl rfl rfl
      · split
        · next heof =>
          rcases TokenSource.spellTo_of_read hr.source h with ⟨-, -, hspell⟩ | ⟨hends, -⟩
          · exact absurd heof (hspell.kind_ne t (htokens ▸ List.mem_cons_self))
          · rw [hends] at hgoes
            contradiction
        · exact hnone rfl rfl rfl

/-- The step that ends the text finds which kinds of blocks are open. -/
theorem take_of_finished (script : Bool) (hr : r.Collects text)
    (h : r.source.read = some reading) (hends : reading.source.finished = true) :
    ∃ eof, eof.span = endOfText text ∧
      (r.take script reading).1 = ⟨[eof], reading.findings ++ openBlockFindings r.state.blocks eof,
        [], r.state, none⟩ := by
  obtain ⟨hgoing, -⟩ | ⟨-, -, eof, htokens, heof⟩ := TokenSource.spellTo_of_read hr.source h
  · rw [hgoing] at hends
    contradiction
  · have hline : r.line = [] := by
      apply hr.tidy
      obtain ⟨-, c, fs, -, ⟨-, rfl⟩ | ⟨hin, -⟩ | ⟨-, rfl⟩⟩ := TokenSource.read_cases h
      · contradiction
      · exact hin
      · contradiction
    refine ⟨eof, heof.span, ?_⟩
    unfold take
    simp [htokens, heof.kind, hline]

end ActiveReader

/-! ### What is found about nesting -/

/-- The finding is about nesting and stands at the end of the text. -/
def Finding.isOfNestingAtEnd (text : List Char) (x : Finding) : Bool :=
  x.isOfNesting && x.span == endOfText text

/-- The finding is about nesting and stands before the end of the text. -/
def Finding.isOfNestingBefore (text : List Char) (x : Finding) : Bool :=
  x.isOfNesting && x.span != endOfText text

/-- What reading steps find about the nesting of blocks when there are open blocks before them. At
the end of the text it is about the blocks that are still open there. -/
structure Blocks.Reports (text : List Char) (blocks : Blocks) (steps : List Chunk) (last : Blocks)
    (misplaced : Bool) : Prop where
  runs : blocks.Runs (blockDirectives steps) last misplaced
  before : (steps.flatMap (·.findings)).any (·.isOfNestingBefore text) = misplaced
  atEnd : ∃ eof, eof.span = endOfText text ∧
    (steps.flatMap (·.findings)).filter (·.isOfNestingAtEnd text) =
      if steps.findSome? (·.breakdown) = none then openBlockFindings last eof else []

namespace Effect.Follows

variable {e : Effect} {blocks : Blocks} {directive : Option BlockDirective} {name : Token}
  {text : List Char}

/-- What is found at a name does not stand at the end of the text. -/
theorem span_ne (h : e.Follows blocks directive name)
    (hname : directive ≠ none → name.span ≠ endOfText text) :
    ∀ x ∈ e.findings, x.isOfNesting = true → x.span ≠ endOfText text := by
  intro x hx hnest
  rw [h.placed x hx hnest]
  apply hname
  intro hnone
  rw [h.calm hnone x hx] at hnest
  contradiction

theorem any_before (h : e.Follows blocks directive name)
    (hname : directive ≠ none → name.span ≠ endOfText text) :
    e.findings.any (·.isOfNestingBefore text) = e.findings.any (·.isOfNesting) := by
  rw [Bool.eq_iff_iff, List.any_eq_true, List.any_eq_true]
  refine exists_congr fun x ↦ and_congr_right fun hx ↦ ?_
  rw [Finding.isOfNestingBefore, Bool.and_eq_true, bne_iff_ne]
  exact and_iff_left_of_imp (h.span_ne hname x hx)

theorem filter_atEnd (h : e.Follows blocks directive name)
    (hname : directive ≠ none → name.span ≠ endOfText text) :
    e.findings.filter (·.isOfNestingAtEnd text) = [] := by
  rw [List.filter_eq_nil_iff]
  intro x hx hend
  rw [Finding.isOfNestingAtEnd, Bool.and_eq_true, beq_iff_eq] at hend
  exact h.span_ne hname x hx hend.1 hend.2

end Effect.Follows

namespace Blocks

variable {text : List Char} {blocks last : Blocks} {c : Chunk} {cs : List Chunk} {name : Token}
  {misplaced : Bool}

/-- What a step does to the blocks it does by its directive, or not at all. -/
theorem Runs.step (h : c.effect.Follows blocks c.blockDirective? name)
    (hruns : Runs c.state.blocks (blockDirectives cs) last misplaced) :
    blocks.Runs (blockDirectives (c :: cs)) last
      (c.findings.any (·.isOfNesting) || misplaced) := by
  unfold blockDirectives
  rw [List.filterMap_cons]
  cases hd : c.blockDirective? with
  | none =>
    have hblocks : c.state.blocks = blocks := h.stays hd
    have hcalm : c.findings.any (·.isOfNesting) = false := (h.calm hd).any_eq_false
    rw [hcalm, Bool.false_or, ← hblocks]
    exact hruns
  | some d => exact .cons (h.meets d hd) hruns

theorem Reports.step (h : c.effect.Follows blocks c.blockDirective? name)
    (hname : c.blockDirective? ≠ none → name.span ≠ endOfText text) (hgoes : c.breakdown = none)
    (hcs : c.state.blocks.Reports text cs last misplaced) :
    blocks.Reports text (c :: cs) last (c.findings.any (·.isOfNesting) || misplaced) where
  runs := .step h hcs.runs
  before := by
    have hbefore : c.findings.any (·.isOfNestingBefore text) = c.findings.any (·.isOfNesting) :=
      h.any_before hname
    rw [List.flatMap_cons, List.any_append, hbefore, hcs.before]
  atEnd := by
    have hend : c.findings.filter (·.isOfNestingAtEnd text) = [] := h.filter_atEnd hname
    obtain ⟨eof, hspan, hcsEnd⟩ := hcs.atEnd
    refine ⟨eof, hspan, ?_⟩
    rw [List.flatMap_cons, List.filter_append, hend, List.findSome?_cons, hgoes]
    exact hcsEnd

/-- Nothing is read behind a step at which the reading breaks off. -/
theorem Reports.broken (h : c.effect.Follows blocks c.blockDirective? name)
    (hname : c.blockDirective? ≠ none → name.span ≠ endOfText text) (hbroken : c.breakdown ≠ none) :
    blocks.Reports text [c] c.state.blocks (c.findings.any (·.isOfNesting)) where
  runs := by
    have hruns : blocks.Runs (blockDirectives [c]) c.state.blocks _ := .step h (.nil _)
    rwa [Bool.or_false] at hruns
  before := by
    have hbefore : c.findings.any (·.isOfNestingBefore text) = c.findings.any (·.isOfNesting) :=
      h.any_before hname
    rw [List.flatMap_singleton, hbefore]
  atEnd := by
    have hend : c.findings.filter (·.isOfNestingAtEnd text) = [] := h.filter_atEnd hname
    refine ⟨{ (default : Token) with span := endOfText text }, rfl, ?_⟩
    rw [List.flatMap_singleton, hend, List.findSome?_singleton, if_neg hbroken]

/-- At the end of the text it is found which kinds of blocks are open. -/
theorem reports_end {fs : List Finding} {eof : Token} (hfs : Calm fs)
    (heof : eof.span = endOfText text) (state : DirectiveState) :
    state.blocks.Reports text [⟨[eof], fs ++ openBlockFindings state.blocks eof, [], state, none⟩]
      state.blocks false := by
  have hopen : ∀ x ∈ openBlockFindings state.blocks eof,
      x.isOfNesting = true ∧ x.span = endOfText text := by
    have hite (b : Bool) {problem : DirectiveProblem}
        (h : Finding.isOfNesting ⟨.directive problem, eof.span⟩ = true) :
        ∀ x ∈ (if b then [problemAt problem eof] else []),
          x.isOfNesting = true ∧ x.span = endOfText text := by
      intro x hx
      split at hx
      · rw [List.mem_singleton.1 hx]
        exact ⟨h, heof⟩
      · contradiction
    exact List.forall_mem_append.2 ⟨hite _ rfl, hite _ rfl⟩
  constructor
  · exact .nil _
  · rw [List.flatMap_singleton, List.any_eq_false]
    intro x hx
    rcases List.mem_append.1 hx with hx | hx
    · simp [Finding.isOfNestingBefore, hfs x hx]
    · simp [Finding.isOfNestingBefore, hopen x hx]
  · refine ⟨eof, heof, ?_⟩
    have hcalm : fs.filter (·.isOfNestingAtEnd text) = [] := by
      rw [List.filter_eq_nil_iff]
      intro x hx
      simp [Finding.isOfNestingAtEnd, hfs x hx]
    have hall : (openBlockFindings state.blocks eof).filter (·.isOfNestingAtEnd text) =
        openBlockFindings state.blocks eof := by
      rw [List.filter_eq_self]
      intro x hx
      simp [Finding.isOfNestingAtEnd, hopen x hx]
    rw [List.flatMap_singleton, List.filter_append, hcalm, hall]
    rfl

end Blocks

namespace ActiveReader

variable {script : Bool} {text : List Char} {r : ActiveReader}

theorem exists_reports {limit : Nat} (hr : r.Collects text) (hfinished : r.source.finished = false)
    (hlimit : r.source.stepsLeft ≤ limit) :
    ∃ last misplaced, r.state.blocks.Reports text (r.chunksUpTo script limit) last misplaced := by
  induction limit generalizing r with
  | zero =>
    simp only [TokenSource.stepsLeft, hfinished, Bool.false_eq_true, if_false] at hlimit
    omega
  | succ limit ih =>
    obtain ⟨reading, hread⟩ := TokenSource.exists_read hfinished
    have hsteps := stepsLeft_source_take script hread
    have hgoing := r.finished_source_take script reading
    have hstate := r.state_take script reading
    simp only [chunksUpTo, hread]
    cases hend : reading.source.finished with
    | true =>
      rw [hend] at hgoing
      obtain ⟨eof, heof, hchunk⟩ := take_of_finished script hr hread hend
      rw [chunksUpTo_of_finished hgoing, hchunk]
      exact ⟨_, _, Blocks.reports_end (TokenSource.calm_findings hread) heof r.state⟩
    | false =>
      rw [hend] at hgoing
      obtain ⟨name, hfollows, hname⟩ := follows_take script hr hread hend
      cases hbreak : (r.take script reading).1.breakdown with
      | some b =>
        rw [if_pos Option.isSome_some]
        exact ⟨_, _, .broken hfollows hname (by simp [hbreak])⟩
      | none =>
        rw [if_neg (by simp)]
        obtain ⟨last, misplaced, hrest⟩ := ih (hr.take hread) hgoing (by omega)
        rw [← hstate] at hrest
        exact ⟨last, _, .step hfollows hname hbreak hrest⟩

end ActiveReader

/-- What the reading of a text finds about the nesting of blocks. -/
theorem exists_reports_activeText (script : Bool) (symbols : List String) (text : List Char) :
    ∃ last misplaced,
      Blocks.Reports text [] (activeText script symbols text) last misplaced :=
  ActiveReader.exists_reports (ActiveReader.collects_ofText text symbols) rfl (Nat.le_refl _)

/-! ### What is reported about nesting -/

/-- The codes of the errors about the nesting of blocks. -/
def nestingCodes : List String :=
  [DirectiveProblem.endifExpected.code, DirectiveProblem.unexpectedDirective.code,
    DirectiveProblem.endregionExpected.code]

/-- The number of diagnostics with the code at the span. -/
def Diagnostics.countAt (ds : Diagnostics) (code : String) (span : Span) : Nat :=
  ds.countP fun d ↦ d.code == code && d.span == span

theorem LexicalError.code_notMem (e : LexicalError) : e.code ∉ nestingCodes := by
  cases e <;> simp [code, nestingCodes, DirectiveProblem.code]

theorem GrammarError.code_notMem (e : GrammarError) : e.code ∉ nestingCodes := by
  unfold code
  split <;> simp [nestingCodes, DirectiveProblem.code]

theorem DirectiveProblem.code_mem_iff (p : DirectiveProblem) (span : Span) :
    p.code ∈ nestingCodes ↔ Finding.isOfNesting ⟨.directive p, span⟩ = true := by
  cases p <;> simp [nestingCodes, code, Finding.isOfNesting]

/-- No other problem has the code of an error about nesting. -/
theorem DirectiveProblem.code_eq_iff {p q : DirectiveProblem} (hp : p.code ∈ nestingCodes) :
    q.code = p.code ↔ q = p := by
  cases p <;> simp [nestingCodes, code] at hp <;> cases q <;> simp [code]

namespace Gate

variable {g : Gate} {x : Finding} {d : Diagnostic}

theorem codeAt_notMem (v : Version) : codeAt v ∉ nestingCodes := by
  cases v <;> decide

theorem code_notMem (f : Feature) : g.code f ∉ nestingCodes := by
  unfold code
  split
  · decide
  · exact codeAt_notMem g.version

/-- The diagnostics with the codes of errors about nesting are the ones for such errors. -/
theorem code_mem_iff (h : g.diagnose x = some d) :
    d.code ∈ nestingCodes ↔ x.isOfNesting = true := by
  obtain ⟨cause, span⟩ := x
  cases cause with
  | lexical e =>
    cases h
    exact iff_of_false e.code_notMem Bool.false_ne_true
  | directive p =>
    cases h
    exact p.code_mem_iff span
  | grammar e =>
    cases h
    exact iff_of_false e.code_notMem Bool.false_ne_true
  | use f =>
    unfold diagnose check at h
    simp only at h
    split at h
    · contradiction
    · cases h
      exact iff_of_false (code_notMem f) Bool.false_ne_true

/-- Errors about nesting are always reported. -/
theorem diagnose_of_isOfNesting (h : x.isOfNesting = true) :
    ∃ p : DirectiveProblem, x.cause = .directive p ∧
      g.diagnose x = some ⟨p.severity, p.code, p.message, x.span, .preprocessor⟩ := by
  obtain ⟨cause, span⟩ := x
  cases cause with
  | directive p => exact ⟨p, rfl, rfl⟩
  | lexical | grammar | use => contradiction

theorem forall_code_notMem_iff (g : Gate) (fs : List Finding) :
    (∀ d ∈ g.diagnostics fs, d.code ∉ nestingCodes) ↔ ∀ x ∈ fs, x.isOfNesting = false := by
  constructor
  · intro h x hx
    rw [Bool.eq_false_iff]
    intro hnest
    obtain ⟨p, -, hp⟩ := diagnose_of_isOfNesting (g := g) hnest
    exact h _ (List.mem_filterMap.2 ⟨x, hx, hp⟩) ((code_mem_iff hp).2 hnest)
  · intro h d hd hmem
    obtain ⟨x, hx, hdiagnose⟩ := List.mem_filterMap.1 hd
    have hnest := (code_mem_iff hdiagnose).1 hmem
    rw [h x hx] at hnest
    contradiction

/-- Errors about nesting at the end of the text are counted by their causes. -/
theorem countAt_diagnostics (g : Gate) (fs : List Finding) (text : List Char)
    {p : DirectiveProblem} (hp : p.code ∈ nestingCodes) :
    (g.diagnostics fs).countAt p.code (endOfText text) =
      (fs.filter (·.isOfNestingAtEnd text)).countP (·.cause == .directive p) := by
  rw [Diagnostics.countAt, diagnostics, List.countP_filterMap, List.countP_filter]
  apply List.countP_congr
  intro x _
  cases hnest : x.isOfNesting with
  | true =>
    obtain ⟨q, hcause, hdiagnose⟩ := diagnose_of_isOfNesting (g := g) hnest
    simp [hdiagnose, hcause, hnest, Finding.isOfNestingAtEnd, DirectiveProblem.code_eq_iff hp]
  | false =>
    cases hdiagnose : g.diagnose x with
    | none => simp [hnest, Finding.isOfNestingAtEnd]
    | some d =>
      have hcode : d.code ≠ p.code := by
        intro heq
        rw [← heq, code_mem_iff hdiagnose, hnest] at hp
        contradiction
      simp [hcode, hnest, Finding.isOfNestingAtEnd]

end Gate

/-- At the end of the text each kind of block is found once, if one is open. -/
theorem countP_openBlockFindings (blocks : Blocks) (eof : Token) :
    (openBlockFindings blocks eof).countP (·.cause == .directive .endifExpected) =
        (if .condition ∈ blocks.map (·.kind) then 1 else 0) ∧
      (openBlockFindings blocks eof).countP (·.cause == .directive .endregionExpected) =
        (if .region ∈ blocks.map (·.kind) then 1 else 0) := by
  have hany (kind : BlockKind) : kind ∈ blocks.map (·.kind) ↔ blocks.anyOpen kind = true := by
    simp [Blocks.anyOpen]
  rw [if_congr (hany _) rfl rfl, if_congr (hany _) rfl rfl]
  unfold openBlockFindings
  cases blocks.anyOpen .condition <;> cases blocks.anyOpen .region <;> constructor <;> rfl

theorem openBlockFindings_eq_nil_iff (blocks : Blocks) (eof : Token) :
    openBlockFindings blocks eof = [] ↔ blocks = [] := by
  cases blocks with
  | nil => exact iff_of_true rfl rfl
  | cons b outer =>
    apply iff_of_false _ (List.cons_ne_nil b outer)
    cases hkind : b.kind <;> simp [openBlockFindings, Blocks.anyOpen, hkind]

/-- What is found about nesting is found at the end of the text or before. -/
theorem forall_isOfNesting_iff (text : List Char) (fs : List Finding) :
    (∀ x ∈ fs, x.isOfNesting = false) ↔ fs.any (·.isOfNestingBefore text) = false ∧
      fs.filter (·.isOfNestingAtEnd text) = [] := by
  rw [List.any_eq_false, List.filter_eq_nil_iff, ← forall₂_and]
  refine forall₂_congr fun x _ ↦ ?_
  simp only [Finding.isOfNestingBefore, Finding.isOfNestingAtEnd]
  cases x.isOfNesting <;> cases h : x.span == endOfText text <;> simp [bne, h]

namespace Blocks.Reports

variable {text : List Char} {steps : List Chunk} {last : Blocks} {misplaced : Bool}

/-- Nothing is found about nesting in a text that is read to its end exactly if its directives are
properly nested and complete. -/
theorem nested_iff (h : Reports text [] steps last misplaced)
    (hwhole : steps.findSome? (·.breakdown) = none) :
    (∀ x ∈ steps.flatMap (·.findings), x.isOfNesting = false) ↔
      BlockDirective.Nested true (blockDirectives steps) := by
  obtain ⟨eof, -, hend⟩ := h.atEnd
  rw [if_pos hwhole] at hend
  rw [forall_isOfNesting_iff text, h.before, hend, openBlockFindings_eq_nil_iff,
    BlockDirective.nested_iff h.runs]

/-- Nothing is found about nesting in a text whose reading breaks off exactly if more directives
could complete those that are processed. -/
theorem exists_nested_append_iff (h : Reports text [] steps last misplaced)
    (hbroken : steps.findSome? (·.breakdown) ≠ none) :
    (∀ x ∈ steps.flatMap (·.findings), x.isOfNesting = false) ↔
      ∃ more, BlockDirective.Nested true (blockDirectives steps ++ more) := by
  obtain ⟨eof, -, hend⟩ := h.atEnd
  rw [if_neg hbroken] at hend
  rw [forall_isOfNesting_iff text, h.before, hend, BlockDirective.exists_nested_append_iff h.runs]
  exact and_iff_left rfl

end Blocks.Reports

/-! ### Sessions -/

/-- The grammar finds nothing about nesting. -/
theorem Survey.calm_grammarFindings (script : Bool) (symbols : List String) (text : List Char) :
    Calm (ofText script symbols text).grammarFindings := by
  intro x hx
  obtain ⟨cause, span⟩ := x
  obtain ⟨e, rfl⟩ | ⟨f, rfl⟩ := isOfGrammar_of_mem_grammarFindings hx <;> rfl

/-- The outcome is free of errors about nesting if the reading of the text is. -/
theorem Validation.forall_code_notMem_iff (o : Options) (text : List Char) :
    (∀ d ∈ (ofSurvey o.gate (Survey.ofText o.script o.symbols text)).diagnostics,
        d.code ∉ nestingCodes) ↔
      ∀ x ∈ (activeText o.script o.symbols text).flatMap (·.findings), x.isOfNesting = false := by
  have hgrammar := Survey.calm_grammarFindings o.script o.symbols text
  simp only [ofSurvey, Diagnostics.mem_sorted]
  rw [Gate.forall_code_notMem_iff, Survey.findings, List.forall_mem_append]
  exact and_iff_left hgrammar

/-- The outcome has the errors at the end of the text that the reading of the text finds there. -/
theorem Validation.countAt_eq (o : Options) (text : List Char) {p : DirectiveProblem}
    (hp : p.code ∈ nestingCodes) :
    (ofSurvey o.gate (Survey.ofText o.script o.symbols text)).diagnostics.countAt p.code
        (endOfText text) =
      (((activeText o.script o.symbols text).flatMap (·.findings)).filter
        (·.isOfNestingAtEnd text)).countP (·.cause == .directive p) := by
  have hgrammar : (Survey.ofText o.script o.symbols text).grammarFindings.filter
      (·.isOfNestingAtEnd text) = [] := by
    rw [List.filter_eq_nil_iff]
    intro x hx
    simp [Finding.isOfNestingAtEnd, Survey.calm_grammarFindings o.script o.symbols text x hx]
  have hsorted : (ofSurvey o.gate (Survey.ofText o.script o.symbols text)).diagnostics.countAt
      p.code (endOfText text) = (o.gate.diagnostics
        (Survey.ofText o.script o.symbols text).findings).countAt p.code (endOfText text) :=
    (Diagnostics.sorted_perm _).countP_eq _
  rw [hsorted, Gate.countAt_diagnostics _ _ _ hp, Survey.findings, List.filter_append, hgrammar,
    List.append_nil]
  rfl

/-- A directive in excluded text is processed, too. -/
example : blockDirectives (activeText false [] "#if A\n#region\n#else\n#endif\n".toList) =
    [.openIf false, .region, .otherwise, .endIf] := by
  decide +kernel

end CSharpCheck
