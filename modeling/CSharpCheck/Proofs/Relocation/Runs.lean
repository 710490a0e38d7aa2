import CSharpCheck.Proofs.Relocation.Directives
import CSharpCheck.Proofs.Relocation.Machine
import CSharpCheck.Proofs.Scanning.ActiveTexts
import CSharpCheck.Validation
import Mathlib.Data.List.Sort

/-!
# Two texts read side by side

Two readers of two texts agree when each can be relocated so that both have done the same. Where
every step of one has a step of the other that agrees with it, the active texts agree, and with them
everything that is found in them.
-/

namespace CSharpCheck

/-- The relocated contribution of a step. -/
def Chunk.relocate (m : Relocation) (c : Chunk) : Chunk :=
  ⟨c.tokens.map (·.relocate m), c.findings.map (·.relocate m), c.remarks.map (·.relocate m),
    c.state.relocate m, c.breakdown⟩

/-- The steps give the same tokens and findings, up to where these stand. -/
structure Reading.Agrees (m m' : Relocation) (r r' : Reading) : Prop where
  tokens : r.tokens.map (·.relocate m) = r'.tokens.map (·.relocate m')
  findings : r.findings.map (·.relocate m) = r'.findings.map (·.relocate m')

/-- The readers have processed the same directives, up to where these stand. -/
structure ActiveReader.Agrees (m m' : Relocation) (r r' : ActiveReader) : Prop where
  state : r.state.relocate m = r'.state.relocate m'
  line : r.line.map (·.relocate m) = r'.line.map (·.relocate m')

/-- The sources are what the steps lead to, or the steps end directive lines and both sources skip
excluded text there. -/
def TokenSource.Follow (s s' : TokenSource) (reading reading' : Reading) : Prop :=
  s = reading.source ∧ s' = reading'.source ∨
    reading.EndsDirective ∧ s = reading.source.skipExcluded ∧ s' = reading'.source.skipExcluded

namespace ActiveReader

/-! ### Directive lines -/

section

variable (m : Relocation) (script : Bool) (r : ActiveReader) (stop : Token)

theorem lineUpTo_relocate :
    lineUpTo ⟨r.source, r.state.relocate m, r.line.map (·.relocate m)⟩ (stop.relocate m) =
      (r.lineUpTo stop).map (·.relocate m) := by
  unfold lineUpTo
  rw [← List.map_reverse]
  cases r.line.reverse <;> rfl

/-- The reader of a script is not on a line of free text of which only the relocation knows, or does
not know, that it is the beginning of the text. -/
def KeepsStart : Prop := ∀ stop line, r.lineUpTo stop = some line → script = true →
  line.isFree = true → (m.offset line.hash.span.start.offset = 0 ↔ line.hash.span.start.offset = 0)

theorem keepsStart_of_zero (hzero : m.offset 0 = 0) : r.KeepsStart m script := by
  intro stop line _ _ _
  rw [← m.offset_inj (a := line.hash.span.start.offset), hzero]

theorem lineEffect_relocate (hstart : r.KeepsStart m script) :
    lineEffect script ⟨r.source, r.state.relocate m, r.line.map (·.relocate m)⟩ (stop.relocate m) =
      (r.lineEffect script stop).relocate m := by
  rw [lineEffect, lineEffect, lineUpTo_relocate]
  cases hline : r.lineUpTo stop with
  | none => rfl
  | some line => exact r.state.process_relocate m script line (hstart stop line hline)

theorem breakdown?_relocate :
    (lineUpTo ⟨r.source, r.state.relocate m, r.line.map (·.relocate m)⟩ (stop.relocate m)).bind
        (r.state.relocate m).breakdown? =
      (r.lineUpTo stop).bind r.state.breakdown? := by
  rw [lineUpTo_relocate]
  cases r.lineUpTo stop with
  | none => rfl
  | some line => exact r.state.breakdown?_relocate m line

end

variable {m m' : Relocation} {script : Bool} {r r' : ActiveReader} {reading reading' : Reading}

/-- The ends of lines that agree have effects that agree. -/
theorem Agrees.endLine (hstart : r.KeepsStart m script) (hstart' : r'.KeepsStart m' script)
    (h : r.Agrees m m' r') (hreading : reading.Agrees m m' reading')
    (hends : reading.EndsDirective) {stop stop' : Token}
    (hstop : stop.relocate m = stop'.relocate m') :
    (r.endLine script reading stop).1.relocate m =
        (r'.endLine script reading' stop').1.relocate m' ∧
      (r.endLine script reading stop).2.Agrees m m' (r'.endLine script reading' stop').2 ∧
      (r.endLine script reading stop).2.source.Follow (r'.endLine script reading' stop').2.source
        reading reading' := by
  have heffect : (r.lineEffect script stop).relocate m =
      (r'.lineEffect script stop').relocate m' := by
    rw [← r.lineEffect_relocate m script stop hstart,
      ← r'.lineEffect_relocate m' script stop' hstart', h.state, h.line, hstop]
    rfl
  have hbreakdown : (r.lineUpTo stop).bind r.state.breakdown? =
      (r'.lineUpTo stop').bind r'.state.breakdown? := by
    rw [← r.breakdown?_relocate m stop, ← r'.breakdown?_relocate m' stop', h.state, h.line, hstop]
    rfl
  have hstate := congrArg Effect.state heffect
  have hactive : (r.lineEffect script stop).state.active =
      (r'.lineEffect script stop').state.active := by
    have hrelocated := congrArg DirectiveState.active hstate
    simpa only [Effect.relocate, DirectiveState.active_relocate] using hrelocated
  rw [endLine_eq, endLine_eq]
  refine ⟨?_, ⟨hstate, rfl⟩, ?_⟩
  · simp only [Chunk.relocate, List.map_append, hreading.findings, hbreakdown]
    have hfindings := congrArg Effect.findings heffect
    have hremarks := congrArg Effect.remarks heffect
    simp only [Effect.relocate] at hstate hfindings hremarks
    simp only [hstate, hfindings, hremarks, List.map_nil]
  · simp only [hactive]
    split
    · exact .inl ⟨rfl, rfl⟩
    · exact .inr ⟨hends, rfl, rfl⟩

theorem openBlockFindings_relocate (m : Relocation) (blocks : Blocks) (eof : Token) :
    openBlockFindings (blocks.map (·.relocate m)) (eof.relocate m) =
      (openBlockFindings blocks eof).map (·.relocate m) := by
  simp only [openBlockFindings, Blocks.anyOpen_relocate, List.map_append]
  congr 1 <;> split <;> rfl

/-- Steps that agree contribute the same, up to where it stands. -/
theorem Agrees.take (hstart : r.KeepsStart m script) (hstart' : r'.KeepsStart m' script)
    (h : r.Agrees m m' r') (hreading : reading.Agrees m m' reading') :
    (r.take script reading).1.relocate m = (r'.take script reading').1.relocate m' ∧
      (r.take script reading).2.Agrees m m' (r'.take script reading').2 ∧
      (r.take script reading).2.source.Follow (r'.take script reading').2.source
        reading reading' := by
  unfold ActiveReader.take
  cases htokens : reading.tokens with
  | nil =>
    have htokens' := hreading.tokens
    rw [htokens, List.map_nil, eq_comm, List.map_eq_nil_iff] at htokens'
    rw [htokens']
    refine ⟨?_, ⟨h.state, h.line⟩, .inl ⟨rfl, rfl⟩⟩
    simp only [Chunk.relocate, hreading.findings, h.state, List.map_nil]
  | cons t ts =>
    have hall := hreading.tokens
    rw [htokens, List.map_cons] at hall
    obtain ⟨t', ts', htokens', ht, hts⟩ := List.map_eq_cons_iff.1 hall.symm
    have hkind : t.kind = t'.kind := by
      rw [← t.kind_relocate m, ← t'.kind_relocate m', ht]
    have hseen : { r.state with seenToken := true }.relocate m =
        { r'.state with seenToken := true }.relocate m' := by
      have hstate := h.state
      simp only [DirectiveState.relocate, DirectiveState.mk.injEq] at hstate ⊢
      exact ⟨hstate.1, hstate.2.1, trivial⟩
    have hblocks : r.state.blocks.map (·.relocate m) = r'.state.blocks.map (·.relocate m') :=
      congrArg DirectiveState.blocks h.state
    have hline : r.line ≠ [] ↔ r'.line ≠ [] := by
      rw [not_iff_not, ← List.map_eq_nil_iff (f := (·.relocate m)), h.line, List.map_eq_nil_iff]
    rw [htokens']
    simp only [hkind, hline]
    split
    · next hend =>
      exact h.endLine hstart hstart' hreading ⟨t, ts, htokens, hkind.trans hend⟩ ht.symm
    · split
      · refine ⟨?_, ⟨h.state, ?_⟩, .inl ⟨rfl, rfl⟩⟩
        · simp only [Chunk.relocate, hreading.findings, h.state, List.map_nil]
        · simp only [List.map_append, List.map_reverse, List.map_cons, ht, hts, h.line]
      · split
        · refine ⟨?_, ⟨h.state, h.line⟩, .inl ⟨rfl, rfl⟩⟩
          simp only [Chunk.relocate, List.map_append, List.map_cons, List.map_nil, ht,
            hreading.findings, ← openBlockFindings_relocate, hblocks, h.state]
        · refine ⟨?_, ⟨hseen, rfl⟩, .inl ⟨rfl, rfl⟩⟩
          simp only [Chunk.relocate, List.map_cons, ht, hts, hreading.findings, hseen, List.map_nil]

/-- Where every step of one reader has a step of the other that agrees with it, the readers
contribute the same, up to where it stands. -/
theorem chunksUpTo_agree {S : Nat → ActiveReader → ActiveReader → Prop}
    (hstart : ∀ {limit r r'}, S limit r r' → r.KeepsStart m script ∧ r'.KeepsStart m' script)
    (hagrees : ∀ {limit r r'}, S limit r r' → r.Agrees m m' r')
    (hstep : ∀ {limit r r'}, S (limit + 1) r r' →
      (r.source.read = none ∧ r'.source.read = none) ∨
        ∃ reading reading', r.source.read = some reading ∧ r'.source.read = some reading' ∧
          reading.Agrees m m' reading' ∧
          ((r.take script reading).1.breakdown = none →
            S limit (r.take script reading).2 (r'.take script reading').2))
    {limit : Nat} (h : S limit r r') :
    (r.chunksUpTo script limit).map (·.relocate m) =
      (r'.chunksUpTo script limit).map (·.relocate m') := by
  induction limit generalizing r r' with
  | zero => rfl
  | succ limit ih =>
    rcases hstep h with ⟨hread, hread'⟩ | ⟨reading, reading', hread, hread', hreading, hnext⟩
    · rw [chunksUpTo, chunksUpTo, hread, hread']
      rfl
    · have hchunk := ((hagrees h).take (hstart h).1 (hstart h).2 hreading).1
      have hbreakdown := congrArg Chunk.breakdown hchunk
      rw [chunksUpTo, chunksUpTo, hread, hread']
      simp only [Chunk.relocate] at hbreakdown
      simp only [hbreakdown]
      cases hends : (r'.take script reading').1.breakdown with
      | some breakdown =>
        simp only [Option.isSome_some, if_true, List.map_cons, List.map_nil, hchunk]
      | none =>
        have hrest := ih (hnext (hbreakdown.trans hends))
        simp only [Option.isSome_none, Bool.false_eq_true, if_false, List.map_cons, hchunk, hrest]

end ActiveReader

/-! ### Findings -/

section

variable (m : Relocation)

theorem TokenStream.ofTokens?_relocate (ts : List Token) :
    ofTokens? (ts.map (·.relocate m)) = (ofTokens? ts).map (·.relocate m) := by
  have hfilter : (ts.map (·.relocate m)).filter (·.kind != .bad) =
      (ts.filter (·.kind != .bad)).map (·.relocate m) := by
    rw [List.filter_map]
    rfl
  simp only [ofTokens?, hfilter, List.getLast?_map]
  cases (ts.filter (·.kind != .bad)).getLast? with
  | none => rfl
  | some eof =>
    simp only [Option.map_some, Token.kind_relocate]
    split
    · simp only [Option.map_some, relocate, ← List.map_dropLast, List.map_toArray]
    · rfl

theorem Finding.isTooComplex_relocate (f : Finding) :
    (f.relocate m).isTooComplex = f.isTooComplex := by
  rcases f with ⟨cause, span⟩
  cases cause with
  | lexical e => cases e <;> rfl
  | directive p => cases p <;> rfl
  | grammar e => cases e <;> rfl
  | use => rfl

end

variable {m m' : Relocation}

/-- The survey of an active text. -/
def Survey.ofChunks (script : Bool) (chunks : List Chunk) : Survey :=
  let survey := ofTokens script (chunks.flatMap (·.findings)) (chunks.flatMap (·.remarks))
    (chunks.flatMap (·.tokens))
  { survey with breakdown := chunks.findSome? (·.breakdown) }

theorem Survey.ofText_eq (script : Bool) (symbols : List String) (text : List Char) :
    ofText script symbols text = ofChunks script (activeText script symbols text) := rfl

/-- Where active texts agree, so do the findings, and the reading breaks off for the same reason. -/
theorem Survey.ofChunks_agree (script : Bool) {chunks chunks' : List Chunk}
    (h : chunks.map (·.relocate m) = chunks'.map (·.relocate m')) :
    (ofChunks script chunks).findings.map (·.relocate m) =
        (ofChunks script chunks').findings.map (·.relocate m') ∧
      (ofChunks script chunks).breakdown = (ofChunks script chunks').breakdown := by
  have hflat {α β : Type} {m : Relocation} (field : Chunk → List α) (f : α → β)
      (field' : Chunk → List β) (hfield : ∀ c : Chunk, field' (c.relocate m) = (field c).map f)
      (chunks : List Chunk) :
      (chunks.flatMap field).map f = (chunks.map (·.relocate m)).flatMap field' := by
    simp only [List.map_flatMap, List.flatMap_map, hfield]
  have htokens : (chunks.flatMap (·.tokens)).map (·.relocate m) =
      (chunks'.flatMap (·.tokens)).map (·.relocate m') := by
    rw [hflat (·.tokens) _ (·.tokens) (fun _ ↦ rfl), h,
      hflat (·.tokens) _ (·.tokens) (fun _ ↦ rfl)]
  have hfindings : (chunks.flatMap (·.findings)).map (·.relocate m) =
      (chunks'.flatMap (·.findings)).map (·.relocate m') := by
    rw [hflat (·.findings) _ (·.findings) (fun _ ↦ rfl), h,
      hflat (·.findings) _ (·.findings) (fun _ ↦ rfl)]
  have hcomplex (fs : List Finding) (m : Relocation) :
      (fs.map (·.relocate m)).any (·.isTooComplex) = fs.any (·.isTooComplex) := by
    simp only [List.any_map, Function.comp_def, Finding.isTooComplex_relocate]
  have hgiven : (chunks.flatMap (·.findings)).any (·.isTooComplex) =
      (chunks'.flatMap (·.findings)).any (·.isTooComplex) := by
    rw [← hcomplex _ m, hfindings, hcomplex]
  have hstream : (TokenStream.ofTokens? (chunks.flatMap (·.tokens))).map (·.relocate m) =
      (TokenStream.ofTokens? (chunks'.flatMap (·.tokens))).map (·.relocate m') := by
    rw [← TokenStream.ofTokens?_relocate, htokens, TokenStream.ofTokens?_relocate]
  have hbreakdown : chunks.findSome? (·.breakdown) = chunks'.findSome? (·.breakdown) := by
    have hmap (chunks : List Chunk) (m : Relocation) :
        (chunks.map (·.relocate m)).findSome? (·.breakdown) = chunks.findSome? (·.breakdown) := by
      rw [List.findSome?_map]
      rfl
    rw [← hmap chunks m, h, hmap]
  have hgrammar (ts : List Token) (m : Relocation) :
      ((((TokenStream.ofTokens? ts).map (readUnit · script)).map (·.found.reverse)).getD []).map
          (·.relocate m) =
        ((((TokenStream.ofTokens? ts).map (·.relocate m)).map (readUnit · script)).map
          (·.found.reverse)).getD [] := by
    cases TokenStream.ofTokens? ts with
    | none => rfl
    | some s =>
      simp only [Option.map_some, Option.getD_some, found_readUnit_relocate, List.map_reverse]
  simp only [ofChunks, ofTokens, findings, grammarFindings, List.map_append, hfindings, hgiven,
    hbreakdown, and_true]
  split
  · rfl
  · rw [hgrammar _ m, hstream, ← hgrammar]

/-! ### Diagnostics -/

/-- The diagnostic with its place moved and its message rewritten. -/
def Diagnostic.relocate (m : Relocation) (d : Diagnostic) : Diagnostic :=
  { d with message := m.text d.message, span := d.span.relocate m }

/-- The outcome with its diagnostics relocated. -/
def Validation.relocate (m : Relocation) (v : Validation) : Validation :=
  { v with diagnostics := v.diagnostics.map (Diagnostic.relocate m) }

/-- Rewriting what a cause quotes rewrites the message. -/
def Relocation.Restates (m : Relocation) (cause : Cause) : Prop :=
  ∀ (gate : Gate) (span : Span), gate.diagnose ⟨cause.relocate m, span⟩ =
    (gate.diagnose ⟨cause, span⟩).map fun d ↦ { d with message := m.text d.message }

/-- Where no text is rewritten, a cause quotes what it quoted. -/
theorem Cause.relocate_of_text_eq_id (htext : m.text = id) (cause : Cause) :
    cause.relocate m = cause := by
  have hchar (c : Char) : m.char c = c := m.char_of_text (congrFun htext _)
  cases cause with
  | lexical e => cases e <;> simp only [relocate, LexicalError.relocate, hchar]
  | directive p => cases p <;> simp only [relocate, DirectiveProblem.relocate, htext, id]
  | grammar e => cases e <;> simp only [relocate, GrammarError.relocate, htext, id]
  | use => rfl

theorem Relocation.restates_of_text_eq_id (htext : m.text = id) (cause : Cause) :
    m.Restates cause := by
  intro gate span
  rw [cause.relocate_of_text_eq_id htext, htext]
  exact Option.map_id'.symm

theorem Gate.diagnose_relocate (gate : Gate) {f : Finding} (h : m.Restates f.cause) :
    gate.diagnose (f.relocate m) = (gate.diagnose f).map (·.relocate m) := by
  have hspan (cause : Cause) (span : Span) : gate.diagnose ⟨cause, span.relocate m⟩ =
      (gate.diagnose ⟨cause, span⟩).map fun d ↦ { d with span := d.span.relocate m } := by
    cases cause with
    | use f =>
      simp only [diagnose, check]
      split <;> rfl
    | _ => rfl
  rw [Finding.relocate, hspan, h gate f.span, Option.map_map]
  rfl

theorem Gate.diagnostics_relocate (gate : Gate) {fs : List Finding}
    (h : ∀ f ∈ fs, m.Restates f.cause) :
    gate.diagnostics (fs.map (·.relocate m)) = (gate.diagnostics fs).map (·.relocate m) := by
  rw [diagnostics, diagnostics, List.filterMap_map, List.map_filterMap]
  exact List.filterMap_congr fun f hf ↦ gate.diagnose_relocate (h f hf)

/-- Sorting does not see where diagnostics are moved, since they stay in order. -/
theorem Diagnostics.sorted_relocate (m : Relocation) (ds : Diagnostics) :
    ds.sorted.map (Diagnostic.relocate m) =
      Diagnostics.sorted (ds.map (Diagnostic.relocate m)) := by
  refine List.map_mergeSort fun d _ e _ ↦ ?_
  simp only [Diagnostic.relocate, Span.relocate, m.offset_place, m.offset_le]

/-- Surveys that find the same have the same outcome, up to where it stands. -/
theorem Survey.verdict_agree (gate : Gate) {s s' : Survey}
    (hfindings : s.findings.map (·.relocate m) = s'.findings.map (·.relocate m'))
    (hbreakdown : s.breakdown = s'.breakdown) (hcauses : ∀ f ∈ s.findings, m.Restates f.cause)
    (hcauses' : ∀ f ∈ s'.findings, m'.Restates f.cause) :
    (s.verdict gate).map (·.relocate m) = (s'.verdict gate).map (·.relocate m') := by
  have hdiagnostics : (gate.diagnostics s.findings).map (Diagnostic.relocate m) =
      (gate.diagnostics s'.findings).map (Diagnostic.relocate m') := by
    rw [← gate.diagnostics_relocate hcauses, hfindings, gate.diagnostics_relocate hcauses']
  simp only [verdict, hbreakdown]
  cases s'.breakdown with
  | some breakdown => rfl
  | none =>
    simp only [Except.map, Validation.ofSurvey, Validation.relocate, Diagnostics.sorted_relocate,
      hdiagnostics]

/-- Where the active texts of two texts agree, so do the outcomes. -/
theorem validate_agree (o : Options) {text text' : List Char}
    (h : (activeText o.script o.symbols text).map (·.relocate m) =
      (activeText o.script o.symbols text').map (·.relocate m'))
    (hcauses : ∀ f ∈ (Survey.ofText o.script o.symbols text).findings, m.Restates f.cause)
    (hcauses' : ∀ f ∈ (Survey.ofText o.script o.symbols text').findings, m'.Restates f.cause) :
    (validate o text).map (·.relocate m) = (validate o text').map (·.relocate m') := by
  obtain ⟨hfindings, hbreakdown⟩ := Survey.ofChunks_agree o.script h
  exact Survey.verdict_agree o.gate hfindings hbreakdown hcauses hcauses'

end CSharpCheck
