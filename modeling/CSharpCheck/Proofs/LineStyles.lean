import CSharpCheck.Proofs.Layout
import CSharpCheck.Proofs.LineFeeds.Sources

/-!
# Ways to end a line

Whether lines end with CR LF, with CR or with LF makes no difference: the text with LF for both has
the same diagnostics, at the same lines and columns. This needs that no token stops between the CR
and the LF of a CR LF, where the recovery behind an overlong character literal may stop.
-/

namespace CSharpCheck

/-! ### Tokens that are read -/

/-- The next reading steps for the active text, at most `limit` of them and none after a
breakdown. -/
def ActiveReader.readingsUpTo (script : Bool) : (limit : Nat) → ActiveReader → List Reading
  | 0, _ => []
  | limit + 1, r =>
    match r.source.read with
    | none => []
    | some reading =>
      let (chunk, r) := r.take script reading
      if chunk.breakdown.isSome then [reading] else reading :: readingsUpTo script limit r

/-- The tokens that are read for the active text, those of directive lines among them. -/
def tokensRead (script : Bool) (symbols : List String) (text : List Char) : List Token :=
  let r := ActiveReader.ofText text symbols
  (r.readingsUpTo script r.source.stepsLeft).flatMap (·.tokens)

/-! ### Diagnostics of the text with line feeds -/

/-- The place in the text with line feeds of a place in the text. -/
def Position.withLineFeeds (text : List Char) (p : Position) : Position :=
  { p with offset := (lineFeeds (text.take p.offset)).length }

/-- The diagnostic about the text with line feeds. -/
def Diagnostic.withLineFeeds (text : List Char) (d : Diagnostic) : Diagnostic :=
  { d with
    message := CSharpCheck.withLineFeeds d.message
    span := ⟨d.span.start.withLineFeeds text, d.span.stop.withLineFeeds text⟩ }

/-- The outcome for the text with line feeds. -/
def Validation.withLineFeeds (text : List Char) (v : Validation) : Validation :=
  { v with diagnostics := v.diagnostics.map (Diagnostic.withLineFeeds text) }

/-- Every place of the text with line feeds is found again from where it is spelled. -/
theorem Position.withLineFeeds_spell {text : List Char} {p : Position}
    (h : p.offset ≤ (lineFeeds text).length) :
    (p.spell (spelledLength text)).withLineFeeds text = p := by
  have hoffset : (lineFeeds (text.take (spelledLength text p.offset))).length = p.offset := by
    rw [← take_lineFeeds, List.length_take, Nat.min_eq_left h]
  exact congrArg (Position.mk p.line p.column) hoffset

/-! ### Reading side by side -/

/-- All tokens of the next steps stop at places that the text with line feeds has, too. -/
def ActiveReader.StopsWhole (script : Bool) (φ : Nat → Nat) (limit : Nat) (r : ActiveReader) :
    Prop :=
  ∀ reading ∈ r.readingsUpTo script limit, ∀ t ∈ reading.tokens, t.span.stop.offset ∈ Set.range φ

theorem ActiveReader.StopsWhole.step {script : Bool} {φ : Nat → Nat} {limit : Nat}
    {r : ActiveReader} (h : r.StopsWhole script φ (limit + 1)) {reading : Reading}
    (hread : r.source.read = some reading) :
    (∀ t ∈ reading.tokens, t.span.stop.offset ∈ Set.range φ) ∧
      ((r.take script reading).1.breakdown = none →
        (r.take script reading).2.StopsWhole script φ limit) := by
  rw [StopsWhole, readingsUpTo, hread] at h
  simp only at h
  split at h
  · next hbreakdown =>
    refine ⟨h _ List.mem_cons_self, fun hnone ↦ ?_⟩
    rw [hnone] at hbreakdown
    contradiction
  · exact ⟨h _ List.mem_cons_self, fun _ later hlater ↦ h later (List.mem_cons_of_mem _ hlater)⟩

theorem length_lineFeeds_le (text : List Char) : (lineFeeds text).length ≤ text.length := by
  have hle := (strictMono_spelledLength text).le_apply (x := (lineFeeds text).length)
  rwa [spelledLength_length] at hle

theorem activeText_lineFeeds (script : Bool) (symbols : List String) (text : List Char)
    (hstops : ∀ t ∈ tokensRead script symbols text, ¬PartsPair text t.span.stop.offset) :
    (activeText script symbols text).map (·.relocate .feedingLines) =
      (activeText script symbols (lineFeeds text)).map
        (·.relocate (.spelling _ (strictMono_spelledLength text))) := by
  have hφ := strictMono_spelledLength text
  have hlength := length_lineFeeds_le text
  have hlimit : activeText script symbols (lineFeeds text) =
      (ActiveReader.ofText (lineFeeds text) symbols).chunksUpTo script
        (ActiveReader.ofText text symbols).source.stepsLeft := by
    refine ActiveReader.chunksUpTo_eq_of_stepsLeft_le (Nat.le_refl _) ?_
    change 2 * (lineFeeds text).length + 0 + 1 ≤ 2 * text.length + 0 + 1
    omega
  have hwhole : (ActiveReader.ofText text symbols).StopsWhole script (spelledLength text)
      (ActiveReader.ofText text symbols).source.stepsLeft := fun reading hreading t ht ↦
    mem_range_spelledLength (hstops t (List.mem_flatMap.2 ⟨reading, hreading, ht⟩))
  have hkeeps (r : ActiveReader) : r.KeepsStart .feedingLines script ∧
      r.KeepsStart (.spelling _ hφ) script :=
    ⟨r.keepsStart_of_zero _ script rfl, r.keepsStart_of_zero _ script (spelledLength_zero text)⟩
  rw [hlimit]
  refine ActiveReader.chunksUpTo_agree (S := fun limit r r' ↦
      r.Agrees .feedingLines (.spelling _ hφ) r' ∧
        r.source.Spells (spelledLength text) r'.source ∧
        r.StopsWhole script (spelledLength text) limit)
    (fun {_ r r'} _ ↦ ⟨(hkeeps r).1, (hkeeps r').2⟩) And.left ?_
    ⟨⟨rfl, rfl⟩, TokenSource.spells_ofText text, hwhole⟩
  rintro limit r r' ⟨hagrees, hspells, hwhole⟩
  rcases hspells.read hφ fun reading hread ↦ (hwhole.step hread).1 with
    hnone | ⟨reading, reading', hread, hread', hreading, hsource⟩
  · exact .inl hnone
  · obtain ⟨-, hagrees', hfollow⟩ := hagrees.take (hkeeps r).1 (hkeeps r').2 hreading
    exact .inr ⟨reading, reading', hread, hread', hreading, fun hgoes ↦
      ⟨hagrees', hfollow.spells hsource, (hwhole.step hread).2 hgoes⟩⟩

/-! ### Outcomes -/

theorem Validation.eq_withLineFeeds_of_relocate {text : List Char} {v w : Validation}
    (hw : ∀ d ∈ w.diagnostics, d.span.In (lineFeeds text))
    (h : v.relocate .feedingLines =
      w.relocate (.spelling _ (strictMono_spelledLength text))) : w = v.withLineFeeds text := by
  obtain ⟨version, ds⟩ := v
  obtain ⟨version', es⟩ := w
  simp only [relocate, mk.injEq] at h
  obtain ⟨rfl, hds⟩ := h
  -- both lists are moved to the text with line feeds, where the second comes from
  have hmoved := congrArg (List.map (Diagnostic.move (Position.withLineFeeds text))) hds
  rw [List.map_map, List.map_map] at hmoved
  have hback : es.map (Diagnostic.move (Position.withLineFeeds text) ∘
      Diagnostic.relocate (.spelling _ (strictMono_spelledLength text))) = es := by
    refine (List.map_congr_left fun d hd ↦ ?_).trans (List.map_id _)
    have hspan := hw d hd
    exact congrArg (fun span ↦ { d with span := span }) (congrArg₂ Span.mk
      (Position.withLineFeeds_spell hspan.start.2) (Position.withLineFeeds_spell hspan.stop.2))
  rw [hback] at hmoved
  exact congrArg (Validation.mk version) hmoved.symm

/-- Where no token that is read stops between the CR and the LF of a CR LF, the way in which lines
end makes no difference: the text with LF for every CR LF and for every other CR has the same
diagnostics, up to offsets and to the line ends in what the messages quote. -/
theorem validate_lineFeeds (o : Options) (text : List Char)
    (hstops : ∀ t ∈ tokensRead o.script o.symbols text, ¬PartsPair text t.span.stop.offset) :
    validate o (lineFeeds text) = (validate o text).map (·.withLineFeeds text) := by
  have hagree := validate_agree o (activeText_lineFeeds o.script o.symbols text hstops)
    (fun f _ ↦ Relocation.restates_feedingLines f.cause)
    fun f _ ↦ Relocation.restates_of_text_eq_id rfl f.cause
  cases hfed : validate o (lineFeeds text) with
  | error breakdown =>
    rw [hfed] at hagree
    cases hv : validate o text with
    | error => rw [hv] at hagree; exact hagree.symm
    | ok => rw [hv] at hagree; contradiction
  | ok w =>
    have hw := span_in_of_validate hfed
    rw [hfed] at hagree
    cases hv : validate o text with
    | error => rw [hv] at hagree; contradiction
    | ok v =>
      rw [hv] at hagree
      exact congrArg Except.ok
        (Validation.eq_withLineFeeds_of_relocate hw (Except.ok.inj hagree))

/-- The message quotes a string over two lines, with LF for the CR LF in it. -/
theorem validate_lineFeeds_verbatim :
    validate ⟨.default, false, [], []⟩ (lineFeeds "class C \x7b @\"a\r\nb\" \x7d".toList) =
      .ok ⟨.v14, [⟨.error, "CS1519",
        "Invalid token '@\"a\nb\"' in class, record, struct, or interface member declaration",
        ⟨⟨1, 11, 10⟩, ⟨2, 3, 16⟩⟩, .grammar⟩]⟩ := by
  have hbefore : validate ⟨.default, false, [], []⟩ "class C \x7b @\"a\r\nb\" \x7d".toList =
      .ok ⟨.v14, [⟨.error, "CS1519",
        "Invalid token '@\"a\r\nb\"' in class, record, struct, or interface member declaration",
        ⟨⟨1, 11, 10⟩, ⟨2, 3, 17⟩⟩, .grammar⟩]⟩ := by
    decide +kernel
  rw [validate_lineFeeds _ _ (by decide +kernel), hbefore]
  decide +kernel

/-- Behind a backslash in an overlong character literal, of CR LF only the CR is taken, and the
literal ends at the LF, with five errors. One LF is taken, and the literal goes on behind it. -/
theorem not_validate_lineFeeds :
    ¬∀ (o : Options) (text : List Char),
      (validate o (lineFeeds text)).map (·.diagnostics.map (·.code)) =
        (validate o text).map (·.diagnostics.map (·.code)) := by
  intro h
  have hfed : validate ⟨.default, false, [], []⟩
      (lineFeeds "class C \x7b char c = 'ab\\\r\nd'; \x7d".toList) =
        .ok ⟨.v14, [⟨.error, "CS1012", "Too many characters in character literal",
          ⟨⟨1, 20, 19⟩, ⟨2, 3, 26⟩⟩, .lexical⟩]⟩ := by
    decide +kernel
  have hsurvey :
      (Survey.ofText false [] "class C \x7b char c = 'ab\\\r\nd'; \x7d".toList).breakdown = none ∧
      ((Gate.ofChoice .default []).diagnostics
        (Survey.ofText false [] "class C \x7b char c = 'ab\\\r\nd'; \x7d".toList).findings).length =
        5 := by
    decide +kernel
  have hcodes := h ⟨.default, false, [], []⟩ "class C \x7b char c = 'ab\\\r\nd'; \x7d".toList
  rw [hfed, validate, Survey.verdict, hsurvey.1] at hcodes
  have hlength := congrArg List.length (Except.ok.inj hcodes)
  rw [List.length_map, List.length_map, Validation.ofSurvey, (Diagnostics.sorted_perm _).length_eq]
    at hlength
  exact absurd (hlength.trans hsurvey.2) (by decide)

end CSharpCheck
