import CSharpCheck.Proofs.ReadingEnds
import CSharpCheck.Proofs.Scanning.ActiveTexts
import CSharpCheck.Proofs.SortedDiagnostics

/-!
# Successful validations

A validation succeeds only if none of its findings becomes an error: no rule of the language has
been found broken, and the session has all the features whose use has been noted.
-/

namespace CSharpCheck

/-- The session makes an error of the finding. -/
def Gate.Objects (g : Gate) (x : Finding) : Prop :=
  ∃ d, g.diagnose x = some d ∧ d.isError = true

namespace Gate

variable {g : Gate} {x : Finding}

theorem objects_of_lexical {e : LexicalError} (h : x.cause = .lexical e) : g.Objects x := by
  rw [Objects, diagnose, h]
  exact ⟨_, rfl, rfl⟩

theorem objects_of_grammar {e : GrammarError} (h : x.cause = .grammar e) : g.Objects x := by
  rw [Objects, diagnose, h]
  exact ⟨_, rfl, rfl⟩

theorem objects_of_isTooComplex (h : x.isTooComplex = true) : g.Objects x := by
  simp only [Finding.isTooComplex, Bool.or_eq_true, beq_iff_eq] at h
  exact h.elim objects_of_lexical objects_of_grammar

/-- A use of a feature that the session lacks becomes an error. -/
theorem allows_of_not_objects {f : Feature} {span : Span} (h : ¬g.Objects ⟨.use f, span⟩) :
    g.allows f = true := by
  by_contra hlacks
  refine h ⟨⟨.error, g.code f, g.message f, span, .version⟩, ?_, rfl⟩
  exact if_neg hlacks

end Gate

/-- A validation succeeds only if the session objects to none of its findings. -/
theorem Validation.not_objects_of_success {g : Gate} {s : Survey}
    (h : (ofSurvey g s).success = true) {x : Finding} (hx : x ∈ s.findings) : ¬g.Objects x := by
  rintro ⟨d, hd, herror⟩
  have herrors : Diagnostics.hasErrors (g.diagnostics s.findings) = true :=
    List.any_eq_true.2 ⟨d, List.mem_filterMap.2 ⟨x, hx, hd⟩, herror⟩
  rw [success, ofSurvey, Diagnostics.hasErrors_sorted, herrors] at h
  contradiction

/-- What the grammar finds in a text that has not been given up before. -/
theorem Survey.mem_grammarFindings {script : Bool} {symbols : List String} {text : List Char}
    {x : Finding} : x ∈ (ofText script symbols text).grammarFindings ↔
      ((activeText script symbols text).flatMap (·.findings)).any (·.isTooComplex) = false ∧
        ∃ stream, TokenStream.ofTokens? (activeTokens script symbols text) = some stream ∧
          x ∈ (readUnit stream script).found := by
  simp only [grammarFindings, ofText, ofTokens]
  rw [← activeTokens]
  split
  · next hcomplex => simp [hcomplex]
  · next hsimple =>
    cases hstream : TokenStream.ofTokens? (activeTokens script symbols text) with
    | none => simp
    | some stream =>
      rw [Bool.not_eq_true] at hsimple
      rw [and_iff_right hsimple]
      simp

/-- What a validation that succeeds has read. -/
theorem exists_of_validate_eq_ok {o : Options} {text : List Char} {v : Validation}
    (hv : validate o text = .ok v) (hsuccess : v.success = true) :
    ∃ body eof, activeTokens o.script o.symbols text = body ++ [eof] ∧ eof.kind = .endOfFile ∧
      ∀ stream, TokenStream.ofTokens? (body ++ [eof]) = some stream →
        ∀ x ∈ (readUnit stream o.script).found, ¬o.gate.Objects x := by
  rw [validate, Survey.verdict] at hv
  split at hv
  · contradiction
  · next hwhole =>
    cases hv
    obtain ⟨body, eof, htokens, heof⟩ := exists_eof_activeTokens hwhole
    refine ⟨body, eof, htokens, heof, fun stream hstream x hx ↦ ?_⟩
    refine Validation.not_objects_of_success hsuccess (List.mem_append_right _ ?_)
    have hsimple : ((activeText o.script o.symbols text).flatMap (·.findings)).any
        (·.isTooComplex) = false := by
      rw [List.any_eq_false]
      intro y hy hcomplex
      exact Validation.not_objects_of_success hsuccess (List.mem_append_left _ hy)
        (Gate.objects_of_isTooComplex hcomplex)
    rw [← htokens] at hstream
    exact Survey.mem_grammarFindings.mpr ⟨hsimple, stream, hstream, hx⟩

/-- A reading whose findings the session does not object to has found no rule broken. -/
theorem not_faulty_of_not_objects {g : Gate} {p : Progress}
    (h : ∀ x ∈ p.found, ¬g.Objects x) : ¬p.Faulty := by
  rintro ⟨x, hx, e, hcause⟩
  exact h x hx (Gate.objects_of_grammar hcause)

end CSharpCheck
