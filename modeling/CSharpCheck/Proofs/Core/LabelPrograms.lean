import CSharpCheck.Proofs.Core.LabelPatterns
import CSharpCheck.Proofs.Core.Programs

/-!
# Programs with a label are read

The rules read the program with a switch over a label from its first token to its last one, if the
label is read as a whole. Otherwise the colon is missed where the label goes on.
-/

namespace CSharpCheck.Core

/-- The value that is matched, in its parentheses. -/
def subject : Expression :=
  .operations (.operand (.primary (.parentheses
    (.operations (.operand (.primary (.callable (.name subjectName))))))))

namespace Setting

variable {C : Setting} {room : Nat} {around : List TypeKind} {ts us rest : Ahead}

/-- A label is read up to its colon if it is read as a whole. -/
theorem Passage.reads_switchLabel {e : Label} {t c : Token} (ht : t.kind = .keyword .caseWord)
    (h : C.Passage e.words us (c :: rest)) (hc : c.kind = .symbol .colon)
    (hC : C.HasPatterns) (hroom : 2 * e.depth + 2 ≤ room)
    (hfaulty : e.isWhole = false → C.faulty) {Q : Post Unit} (hQ : e.isWhole = true → Q () rest) :
    Rule.switchLabel.Reads (C.terms room around) Q (t :: us) := by
  have hdefault : Ahead.isWord (t :: us) .defaultWord = false := by
    simp [Ahead.isWord, Token.isWord, ht]
  have hneed {vs : Ahead} (hvs : e.StopsAt (c :: rest) vs) :
      (Rule.need .colon).Reads (C.terms room around) Q vs := by
    rw [Label.StopsAt] at hvs
    cases hwhole : e.isWhole with
    | false =>
      rw [hwhole] at hvs
      refine Rule.reads_need_missing (is_eq_false_of_not_mem hvs (by decide)) ?_
      rw [terms, Rules.toAllowance_terms]
      exact hfaulty hwhole
    | true =>
      rw [hwhole] at hvs
      obtain rfl : vs = c :: rest := hvs
      exact Rule.reads_need (by simp [Token.is, hc]) (hQ hwhole)
  have hwhen {vs : Ahead} (hvs : vs <:+ us) : vs.isContextual "when" = false := by
    cases vs with
    | nil => rfl
    | cons v vs => exact h.plain.ordinary v (hvs.subset List.mem_cons_self) "when" (by decide)
  simp only [Rule.switchLabel, Rule.reads_bind, Rule.reads_nextWord, hdefault, Bool.false_eq_true,
    if_false, Rule.reads_skipToken, Rule.reads_here]
  have hpattern : Rule.pattern.Reads (C.terms room around)
      (fun _ vs ↦ e.StopsAt (c :: rest) vs) us :=
    readsLabels hC room around h (by simp [Ahead.isOneOf, Token.isOneOf, hc])
      hroom hfaulty fun _ _ hvs ↦ hvs
  refine hpattern.later fun kind vs hvs hstops ↦ ?_
  have hmatching : (C.terms room around).allowed .patternMatching := by
    rw [terms, Rules.toAllowance_terms]
    exact hC.matching
  split
  · simp only [Rule.reads_requireAt, Rule.reads_bind, Rule.reads_nextContextual, hwhen hvs,
      Bool.false_eq_true, if_false]
    exact ⟨hmatching, hneed hstops⟩
  · simp only [Rule.reads_bind, Rule.reads_nextContextual, hwhen hvs,
      Bool.false_eq_true, if_false]
    exact hneed hstops

/-- A statement that ends the section is read. -/
theorem reads_break {t u : Token} (ht : t.kind = .keyword .breakWord)
    (hu : u.kind = .symbol .semicolon) {Q : Post Unit} (hQ : Q () us) :
    Rule.statement.Reads (C.terms (room + 1) around) Q (t :: u :: us) := by
  have hjump : Rule.jumpStatement.Reads (C.terms room around) Q (t :: u :: us) := by
    simp only [Rule.jumpStatement, Rule.reads_bind, Rule.reads_skipToken]
    exact Rule.reads_need (by simp [Token.is, hu]) hQ
  exact ReadsStatements.statementRule_word ht rfl false hjump

/-- A statement that alone stands in front of a closing brace is read. What holds behind the
statement holds behind the list of statements. -/
theorem reads_statements_once (rest : Ahead) (condition : Prop) {T : Terms} {t c : Token}
    {inSwitch : Bool} {Q : Post Unit} (hstart : t.is .closeBrace = false)
    (hlabel : Ahead.isSwitchLabel (t :: us) = false) (hc : c.kind = .symbol .closeBrace)
    (hsize : (t :: us).length ≤ T.size) (hlength : (c :: rest).length < (t :: us).length)
    (h : ∀ Q : Post Unit, (condition → Q () (c :: rest)) → Rule.statement.Reads T Q (t :: us))
    (hQ : condition → Q () (c :: rest)) : (Rule.statements inSwitch).Reads T Q (t :: us) := by
  refine Rule.reads_whileAhead_once (c :: rest) condition ?_ ?_ hlength
    (fun Q hQ ↦ Rule.reads_statementOrRecover hsize hlength h hQ) hQ
  · simp [Rule.isBefore, Ahead.is, hstart, hlabel]
  · simp [Rule.isBefore, Ahead.is, Token.is, hc]

/-- A section with a label is read up to the closing brace if the label is read as a whole. -/
theorem Passage.reads_section {e : Label} {t d b s c : Token} (ht : t.kind = .keyword .caseWord)
    (h : C.Passage e.words us (d :: b :: s :: c :: rest)) (hd : d.kind = .symbol .colon)
    (hb : b.kind = .keyword .breakWord) (hs : s.kind = .symbol .semicolon)
    (hc : c.kind = .symbol .closeBrace) (hC : C.HasPatterns)
    (hroom : 2 * e.depth + 2 ≤ room + 1) (hfaulty : e.isWhole = false → C.faulty) {Q : Post Unit}
    (hQ : e.isWhole = true → Q () (c :: rest)) :
    (Rule.whileAhead (·.isSwitchLabel) Rule.switchLabel >>= fun _ ↦ Rule.statements true).Reads
      (C.terms (room + 1) around) Q (t :: us) := by
  have hlength := h.suffix.length_le
  have hsize := h.length
  simp only [List.length_cons] at hlength
  have hlabel : Ahead.isSwitchLabel (b :: s :: c :: rest) = false := by
    simp [Ahead.isSwitchLabel, Ahead.isWord, Token.isWord, hb]
  rw [Rule.reads_bind]
  refine Rule.reads_whileAhead_once (b :: s :: c :: rest) (e.isWhole = true) ?_ hlabel ?_
    (fun Q hQ ↦ h.reads_switchLabel ht hd hC hroom hfaulty hQ) fun hwhole ↦ ?_
  · simp [Ahead.isSwitchLabel, Ahead.isWord, Token.isWord, ht]
  · simp only [List.length_cons]
    omega
  · refine reads_statements_once rest True ?_ hlabel hc ?_ ?_
      (fun Q hQ ↦ reads_break hb hs (hQ trivial)) fun _ ↦ hQ hwhole
    · simp [Token.is, hb]
    · rw [terms, Rules.size_terms]
      simp only [List.length_cons]
      omega
    · simp only [List.length_cons]
      omega

/-- A switch over a label is read to its end if the label is read as a whole. -/
theorem Passage.reads_switchStatement {e : Label} {w p x q o t d b s c : Token}
    (hsubject : C.Stretch subject.words subject.parenthesized (p :: x :: q :: o :: t :: us)
      (o :: t :: us))
    (hp : p.kind = .symbol .openParen)
    (ho : o.kind = .symbol .openBrace) (ht : t.kind = .keyword .caseWord)
    (h : C.Passage e.words us (d :: b :: s :: c :: rest)) (hd : d.kind = .symbol .colon)
    (hb : b.kind = .keyword .breakWord) (hs : s.kind = .symbol .semicolon)
    (hc : c.kind = .symbol .closeBrace) (hC : C.HasPatterns)
    (hroom : 2 * e.depth + 4 ≤ room + 1) (hfaulty : e.isWhole = false → C.faulty) {Q : Post Unit}
    (hQ : e.isWhole = true → Q () rest) :
    Rule.switchStatement.Reads (C.terms (room + 1) around) Q (w :: p :: x :: q :: o :: t :: us) := by
  have hparen : Ahead.is (p :: x :: q :: o :: t :: us) .openParen = true := by
    simp [Ahead.is, Token.is, hp]
  have hlength := h.suffix.length_le
  have hsize := hsubject.length
  simp only [List.length_cons] at hlength hsize
  have hdepth : subject.depthAsRead = 1 := by decide
  simp only [Rule.switchStatement, Rule.reads_bind, Rule.reads_skipToken, Rule.reads_next, hparen,
    if_true]
  refine hsubject.expression (by simp [Token.isOneOf, ho, closers]) (by omega) ?_
  refine Rule.reads_expect (by simp [Token.is, ho]) ?_
  simp only [if_true, Rule.reads_bind]
  refine Rule.reads_whileAhead_once (c :: rest) (e.isWhole = true) ?_ ?_ ?_
    (fun Q hQ ↦ Rule.reads_statementOrRecover ?_ ?_
      (fun Q hQ ↦ h.reads_section ht hd hb hs hc hC (by omega) hfaulty hQ) hQ)
    fun hwhole ↦ Rule.reads_need (by simp [Token.is, hc]) (hQ hwhole)
  · simp [Rule.isBefore, Ahead.is, Token.is, ht]
  · simp [Rule.isBefore, Ahead.is, Token.is, hc]
  · simp only [List.length_cons]
    omega
  · rw [terms, Rules.size_terms]
    simp only [List.length_cons]
    omega
  · simp only [List.length_cons]
    omega

/-- The program with a switch over a label is read to its end if the label is read as a whole and
the nesting suffices. -/
theorem Passage.reads_program {e : Label} (h : C.Passage e.programWords ts []) (hC : C.HasPatterns)
    (hroom : 2 * e.depth + 8 ≤ room) (hfaulty : e.isWhole = false → C.faulty) :
    (Rule.unitElements false).Reads (C.terms room [])
      (fun _ us ↦ us = [] ∧ e.isWhole = true) ts := by
  obtain ⟨room, rfl⟩ : ∃ n, room = n + 5 := ⟨room - 5, by omega⟩
  have hsize := h.length
  obtain ⟨t₁, ts, rfl, h₁, h⟩ := h.cons
  obtain ⟨t₂, ts, rfl, h₂, h⟩ := h.cons
  obtain ⟨t₃, ts, rfl, h₃, h⟩ := h.cons
  obtain ⟨t₄, ts, rfl, h₄, h⟩ := h.cons
  obtain ⟨t₅, ts, rfl, h₅, h⟩ := h.cons
  obtain ⟨t₆, ts, rfl, h₆, h⟩ := h.cons
  obtain ⟨t₇, ts, rfl, h₇, h⟩ := h.cons
  obtain ⟨v, ts, rfl, hv, h⟩ := h.cons
  obtain ⟨w, ts, rfl, hw, hsubject⟩ := h.cons
  obtain ⟨p, ts, rfl, hp, h⟩ := hsubject.cons
  obtain ⟨x, ts, rfl, hx, h⟩ := h.cons
  obtain ⟨q, ts, rfl, hq, h⟩ := h.cons
  obtain ⟨o, ts, rfl, ho, h⟩ := h.cons
  obtain ⟨t, us, rfl, ht, h⟩ := h.cons
  replace h : C.Passage (e.words ++ [symbolSingle .colon, wordSingle .breakWord,
      symbolSingle .semicolon, symbolSingle .closeBrace, symbolSingle .closeBrace,
      symbolSingle .closeBrace]) us [] := h
  obtain ⟨vs, h, hend⟩ := h.append
  obtain ⟨d, vs, rfl, hd, hend⟩ := hend.cons
  obtain ⟨b, vs, rfl, hb, hend⟩ := hend.cons
  obtain ⟨s, vs, rfl, hs, hend⟩ := hend.cons
  obtain ⟨c₁, vs, rfl, hc₁, hend⟩ := hend.cons
  obtain ⟨c₂, vs, rfl, hc₂, hend⟩ := hend.cons
  obtain ⟨c₃, vs, rfl, hc₃, hend⟩ := hend.cons
  obtain rfl := hend.nil
  have hlength := h.suffix.length_le
  simp only [List.length_cons] at hlength hsize
  have hstretch : C.Stretch subject.words subject.parenthesized (p :: x :: q :: o :: t :: us)
      (o :: t :: us) := by
    have hlength := hsubject.length
    refine ⟨⟨[p, x, q], rfl, ?_⟩, hsubject.plain, fun h ↦ by simp [hC.products] at h, hlength⟩
    simp [hp.kind, hx.kind, hq.kind, subject, Expression.words, Operations.words, Unary.words,
      Primary.words, Callable.words, Word.kind]
  refine reads_methodProgram h₁.kind h₂.kind h₃.kind h₄.kind rfl h₅.kind h₆.kind h₇.kind hv.kind
    hc₃.kind rfl (by simpa using hsize) fun Q hQ ↦ ?_
  rw [Rule.block, Rule.reads_bind]
  refine Rule.reads_expect (by simp [Token.is, hv.kind]) ?_
  simp only [if_true, Rule.reads_bind]
  refine reads_statements_once [c₃] (e.isWhole = true) ?_ ?_ hc₂.kind ?_ ?_
    (fun Q hQ ↦ ?_) fun hwhole ↦ Rule.reads_need (by simp [Token.is, hc₂.kind]) (hQ hwhole)
  · simp [Token.is, hw.kind]
  · simp [Ahead.isSwitchLabel, Ahead.isWord, Token.isWord, hw.kind]
  · rw [terms, Rules.size_terms]
    simp only [List.length_cons]
    omega
  · simp only [List.length_cons]
    omega
  · exact ReadsStatements.statementRule_word hw.kind rfl false
      (h.reads_switchStatement hstretch hp.kind ho.kind ht.kind hd.kind hb.kind hs.kind hc₁.kind hC
        (by omega) hfaulty hQ)

end Setting

end CSharpCheck.Core
