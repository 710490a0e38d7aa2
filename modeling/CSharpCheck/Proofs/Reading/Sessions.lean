import CSharpCheck.Proofs.Reading.Faultless
import CSharpCheck.Proofs.Reading.Levels
import CSharpCheck.Proofs.Reading.Unfinished
import CSharpCheck.Proofs.ReadingEnds
import CSharpCheck.Proofs.Scanning.SingleTokens
import CSharpCheck.Proofs.VersionChange

/-!
# Sessions over single tokens

When a text consists of single tokens with single spaces between them, a session finds in it what
the grammar finds in the tokens. So the terms on which the tokens are read tell what the session
finds, and at a gate that has all the features that may be used, whether it complains.
-/

namespace CSharpCheck

/-! ### The grammar -/

/-- What is read of a whole text on the terms of enough levels of nesting is achieved by the parser,
if it has that many levels or does not give up. -/
theorem Rule.Achieves.readUnit {A : Allowance} {stream : TokenStream} {isScript : Bool}
    {limit : Nat} {Q : Post Unit} (hmode : A.mode isScript)
    (hreads : ∀ room, limit ≤ room → (unitElements false).Reads
      (grammarRules.terms A stream.tokens.size room []) Q stream.tokens.toList)
    (hnested : limit ≤ maxNesting ∨ (readUnit stream isScript).abandonedAt = none) :
    ∃ result, Achieves A stream Q (result, CSharpCheck.readUnit stream isScript) := by
  have haround : Surroundings.stream ⟨stream, isScript, []⟩ = stream := rfl
  have hachieves {room : Nat} (hroom : limit ≤ room) :=
    (hreads room hroom).achieves haround hmode (Progress.Clear.start stream)
  rcases hnested with hnested | hnested
  · exact ⟨_, hachieves hnested⟩
  · have hmost := runWith_enter_eq_readUnit (Nat.le_max_left maxNesting limit) hnested
    rw [← hmost]
    exact ⟨_, hachieves (Nat.le_max_right maxNesting limit)⟩

/-! ### Surveys -/

/-- A session over single tokens finds what the grammar finds in their tokens. -/
theorem Survey.exists_stream_line {ss : List Single} (hcloses : Single.Closes ss)
    (hgood : ∀ s ∈ ss, s.kind ≠ .bad) (script : Bool) (symbols : List String) :
    ∃ stream : TokenStream, List.Forall₂ Single.IsToken ss stream.tokens.toList ∧
      Apart stream.tokens.toList ∧
      (ofText script symbols (Single.line ss)).breakdown = none ∧
      (ofText script symbols (Single.line ss)).findings =
        (readUnit stream script).found.reverse := by
  obtain ⟨ts, eof, heof, htokens, hapart, hactive, htext, hwhole⟩ :=
    exists_tokens_line hcloses script symbols
  have hall : ts.filter (·.kind != .bad) = ts := by
    refine List.filter_eq_self.2 fun t ht ↦ ?_
    obtain ⟨s, hs, hst⟩ := exists_of_mem_forall₂ htokens ht
    simpa [hst.kind] using hgood s hs
  have hstream := TokenStream.ofTokens?_append ts heof
  rw [hall] at hstream
  rw [activeTokens] at hactive
  refine ⟨⟨ts.toArray, eof⟩, htokens, hapart, hwhole, ?_⟩
  simp [Survey.findings, Survey.grammarFindings, Survey.ofText, Survey.ofTokens, htext, hactive,
    hstream]

/-- If the tokens of a text are read on terms, a session finds nothing but uses of features that may
be used, and it is as the terms say, or it finds an error that may be reported. -/
theorem Survey.findings_line {A : Allowance} {ss : List Single} {script : Bool} {limit : Nat}
    {condition : Prop} (hcloses : Single.Closes ss) (hgood : ∀ s ∈ ss, s.kind ≠ .bad)
    (hmode : A.mode script)
    (hreads : ∀ ts, List.Forall₂ Single.IsToken ss ts → Apart ts → ∀ room, limit ≤ room →
      (Rule.unitElements false).Reads (grammarRules.terms A ts.length room [])
        (fun _ _ ↦ condition) ts) (symbols : List String) :
    (ofText script symbols (Single.line ss)).breakdown = none ∧
      (limit ≤ maxNesting ∨ (∀ x ∈ (ofText script symbols (Single.line ss)).findings,
          x.cause ≠ .grammar .tooComplex) →
        ((∀ x ∈ (ofText script symbols (Single.line ss)).findings,
          ∃ f : Feature, x.cause = .use f ∧ A.allowed f) ∧ condition) ∨
        (A.faulty ∧ ∃ x ∈ (ofText script symbols (Single.line ss)).findings,
          ∃ e : GrammarError, x.cause = .grammar e)) := by
  obtain ⟨stream, htokens, hapart, hwhole, hfindings⟩ :=
    exists_stream_line hcloses hgood script symbols
  refine ⟨hwhole, fun hnested ↦ ?_⟩
  simp only [hfindings, List.mem_reverse] at hnested ⊢
  obtain ⟨_, ⟨hclear, hcondition⟩ | hfaulty⟩ := Rule.Achieves.readUnit hmode
    (fun room hroom ↦ hreads _ htokens hapart room hroom) (hnested.imp_right abandonedAt_readUnit)
  · exact .inl ⟨hclear.found, hcondition⟩
  · exact .inr hfaulty

/-! ### Verdicts -/

/-- A gate has what came out with its version or before. -/
theorem Gate.allows_of_since_le {g : Gate} {f : Feature} (h : f.since ≤ g.version) :
    g.allows f = true := by
  simp [allows, h]

/-- A broken rule of the grammar is diagnosed at every gate. -/
theorem Gate.diagnose_grammar (g : Gate) {x : Finding} {e : GrammarError}
    (h : x.cause = .grammar e) :
    g.diagnose x = some ⟨.error, e.code, e.message, x.span, .grammar⟩ := by
  rw [diagnose, h]

/-- A gate diagnoses no uses of features that it has. -/
theorem Gate.diagnostics_eq_nil {g : Gate} {xs : List Finding}
    (h : ∀ x ∈ xs, ∃ f : Feature, x.cause = .use f ∧ g.allows f = true) :
    g.diagnostics xs = [] := by
  refine List.filterMap_eq_nil_iff.2 fun x hx ↦ ?_
  obtain ⟨f, hcause, hf⟩ := h x hx
  rw [diagnose, hcause]
  exact if_pos hf

/-- The outcome of a session that does not break off. -/
theorem validate_eq_ok {o : Options} {text : List Char}
    (h : (Survey.ofText o.script o.symbols text).breakdown = none) :
    validate o text = .ok (.ofSurvey o.gate (Survey.ofText o.script o.symbols text)) := by
  rw [validate, Survey.verdict, h]

namespace Validation

variable {g : Gate} {s : Survey}

/-- What is diagnosed is among the diagnostics. -/
theorem mem_diagnostics_ofSurvey {x : Finding} {d : Diagnostic} (hx : x ∈ s.findings)
    (hd : g.diagnose x = some d) : d ∈ (ofSurvey g s).diagnostics :=
  Diagnostics.mem_sorted.2 (List.mem_filterMap.2 ⟨x, hx, hd⟩)

/-- A session that does not complain about nesting has not given up for it. -/
theorem ne_tooComplex_of_ofSurvey
    (h : ∀ d ∈ (ofSurvey g s).diagnostics, d.code ≠ GrammarError.code .tooComplex) :
    ∀ x ∈ s.findings, x.cause ≠ .grammar .tooComplex := fun _ hx hcause ↦
  h _ (mem_diagnostics_ofSurvey hx (g.diagnose_grammar hcause)) rfl

end Validation

/-- If the tokens of a text are read on the terms of a gate, with an error only if the condition
fails, a session complains exactly if the condition fails. -/
theorem validate_line {o : Options} {ss : List Single} {limit : Nat} {condition : Prop}
    (hcloses : Single.Closes ss) (hgood : ∀ s ∈ ss, s.kind ≠ .bad)
    (hreads : ∀ ts, List.Forall₂ Single.IsToken ss ts → Apart ts → ∀ room, limit ≤ room →
      (Rule.unitElements false).Reads
        (grammarRules.terms ⟨(o.gate.allows · = true), (· = o.script), ¬condition⟩ ts.length room [])
        (fun _ _ ↦ condition) ts) :
    ∃ v, validate o (Single.line ss) = .ok v ∧ v.version = o.gate.version ∧
      (limit ≤ maxNesting ∨ (∀ d ∈ v.diagnostics, d.code ≠ GrammarError.code .tooComplex) →
        (v.diagnostics = [] ↔ condition)) := by
  obtain ⟨hwhole, hfindings⟩ := Survey.findings_line hcloses hgood rfl hreads o.symbols
  refine ⟨_, validate_eq_ok hwhole, rfl, fun hnested ↦ ?_⟩
  rcases hfindings (hnested.imp_right Validation.ne_tooComplex_of_ofSurvey) with
    ⟨huses, hcondition⟩ | ⟨hcondition, x, hx, e, hcause⟩
  · have hnone : (Validation.ofSurvey o.gate
        (Survey.ofText o.script o.symbols (Single.line ss))).diagnostics = [] := by
      rw [Validation.ofSurvey, Gate.diagnostics_eq_nil huses, Diagnostics.sorted,
        List.mergeSort_nil]
    exact iff_of_true hnone hcondition
  · have hmem := Validation.mem_diagnostics_ofSurvey hx (o.gate.diagnose_grammar hcause)
    exact iff_of_false (List.ne_nil_of_mem hmem) hcondition

/-- If the tokens of a text cannot be read to an end, a session complains. -/
theorem validate_line_unfinished {o : Options} {ss : List Single} (hcloses : Single.Closes ss)
    (hgood : ∀ s ∈ ss, s.kind ≠ .bad)
    (hends : ∀ s ∈ ss, ∀ x ∈ endSymbols, s.kind ≠ .symbol x)
    (hfails : ∀ ts, List.Forall₂ Single.IsToken ss ts → Apart ts →
      (Rule.unitElements false).FailsAt ts) :
    ∃ v, validate o (Single.line ss) = .ok v ∧ v.version = o.gate.version ∧ v.diagnostics ≠ [] := by
  obtain ⟨stream, htokens, hapart, hwhole, hfound⟩ :=
    Survey.exists_stream_line hcloses hgood o.script o.symbols
  have hendless : (Progress.start stream).Endless := by
    refine ⟨fun x hx t ht ↦ ?_, nofun, nofun⟩
    obtain ⟨s, hs, hst⟩ := exists_of_mem_forall₂ htokens ht
    simpa [Token.is, hst.kind] using hends s hs x hx
  obtain ⟨x, hx, e, hcause⟩ : (readUnit stream o.script).Faulty :=
    hfails _ htokens hapart hendless rfl
  refine ⟨_, validate_eq_ok hwhole, rfl, ?_⟩
  have hmem : x ∈ (Survey.ofText o.script o.symbols (Single.line ss)).findings := by
    rw [hfound]
    exact List.mem_reverse.2 hx
  exact List.ne_nil_of_mem
    (Validation.mem_diagnostics_ofSurvey hmem (o.gate.diagnose_grammar hcause))

end CSharpCheck
