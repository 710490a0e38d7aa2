import Mathlib
import CSharpCheck.Proofs.Script.Texts
import CSharpCheck.Proofs.Script.Units

/-!
# Validation as a script

Whatever is valid regular code is a valid script with the same diagnostics, unless it declares a
namespace. Scripts only allow more: directives of their own, statements after declarations, and an
expression without a semicolon at the end.
-/

namespace CSharpCheck

/-- The finding is one that the grammar may have. -/
def Finding.IsOfGrammar (x : Finding) : Prop :=
  (∃ e, x.cause = .grammar e) ∨ ∃ f, x.cause = .use f

theorem isOfGrammar_of_mem_found {stream : TokenStream} {script : Bool} :
    ∀ x ∈ (readUnit stream script).found, x.IsOfGrammar := by
  have hinvariant : Progress.Invariant stream fun p ↦ ∀ x ∈ p.found, x.IsOfGrammar := {
    advance := fun p hp count ↦ by
      rw [Progress.found_advance]
      exact hp
    use := fun p hp f index ↦ List.forall_mem_cons.mpr ⟨.inr ⟨f, rfl⟩, hp⟩
    report := fun p hp place e ↦ by
      unfold Progress.report
      split
      · exact hp
      · exact List.forall_mem_cons.mpr ⟨.inl ⟨e, rfl⟩, hp⟩
    abandon := fun p hp ↦ List.forall_mem_cons.mpr ⟨.inl ⟨_, rfl⟩, hp⟩ }
  exact readUnit_invariant hinvariant script (List.forall_mem_nil _)

theorem isOfGrammar_of_mem_grammarFindings {script : Bool} {symbols : List String}
    {text : List Char} {x : Finding} (h : x ∈ (Survey.ofText script symbols text).grammarFindings) :
    x.IsOfGrammar := by
  obtain ⟨-, stream, -, hx⟩ := Survey.mem_grammarFindings.mp h
  exact isOfGrammar_of_mem_found x hx

/-- The grammar finds nothing but what becomes an error or no diagnostic at all. -/
theorem Gate.diagnose_eq_none {g : Gate} {x : Finding} (hx : x.IsOfGrammar) (h : ¬g.Objects x) :
    g.diagnose x = none := by
  obtain ⟨cause, span⟩ := x
  obtain ⟨e, rfl⟩ | ⟨f, rfl⟩ := hx
  · exact absurd (objects_of_grammar rfl) h
  · exact if_pos (allows_of_not_objects h)

theorem TokenStream.mem_of_ofTokens? {ts : List Token} {stream : TokenStream}
    (h : ofTokens? ts = some stream) : ∀ t ∈ stream.tokens.toList, t ∈ ts := by
  intro t ht
  simp only [ofTokens?] at h
  split at h
  · split at h
    · cases h
      exact (List.mem_filter.mp ((List.dropLast_sublist _).subset ht)).1
    · contradiction
  · contradiction

/-- Without namespaces and errors the grammar finds in a script only what it finds in regular
code. -/
theorem Survey.grammarFindings_script {g : Gate} {symbols : List String} {text : List Char}
    (hactive : activeText true symbols text = activeText false symbols text)
    (hwords : ∀ t ∈ activeTokens false symbols text, t.isWord .namespaceWord = false)
    (h : ∀ x ∈ (ofText false symbols text).grammarFindings, ¬g.Objects x) :
    (ofText true symbols text).grammarFindings ⊆ (ofText false symbols text).grammarFindings := by
  intro x hx
  rw [mem_grammarFindings, activeTokens, hactive] at hx
  obtain ⟨hsimple, stream, hstream, hx⟩ := hx
  have hregular {y : Finding} (hy : y ∈ (readUnit stream false).found) :
      y ∈ (ofText false symbols text).grammarFindings :=
    mem_grammarFindings.mpr ⟨hsimple, stream, hstream, hy⟩
  have hclean : ¬(readUnit stream false).Faulty :=
    not_faulty_of_not_objects fun y hy ↦ h y (hregular hy)
  have hstreamWords : ∀ t ∈ stream.tokens.toList, t.isWord .namespaceWord = false :=
    fun t ht ↦ hwords t (TokenStream.mem_of_ofTokens? hstream t ht)
  exact hregular (readUnit_script_found hstreamWords hclean hx)

/-- What becomes of the findings of valid regular code does not change in a script. -/
theorem Survey.diagnostics_script {g : Gate} {symbols : List String} {text : List Char}
    (hwords : ∀ t ∈ activeTokens false symbols text, t.isWord .namespaceWord = false)
    (h : ∀ x ∈ (ofText false symbols text).findings, ¬g.Objects x) :
    (ofText true symbols text).breakdown = (ofText false symbols text).breakdown ∧
      g.diagnostics (ofText true symbols text).findings =
        g.diagnostics (ofText false symbols text).findings := by
  have hactive : activeText true symbols text = activeText false symbols text :=
    activeText_script fun x hx ↦ h x (List.mem_append_left _ hx)
  have hregular : ∀ x ∈ (ofText false symbols text).grammarFindings, g.diagnose x = none :=
    fun x hx ↦ Gate.diagnose_eq_none (isOfGrammar_of_mem_grammarFindings hx)
      (h x (List.mem_append_right _ hx))
  have hsubset : (ofText true symbols text).grammarFindings ⊆
      (ofText false symbols text).grammarFindings :=
    grammarFindings_script hactive hwords fun x hx ↦ h x (List.mem_append_right _ hx)
  have hscript : ∀ x ∈ (ofText true symbols text).grammarFindings, g.diagnose x = none :=
    fun x hx ↦ hregular x (hsubset hx)
  constructor
  · unfold ofText
    rw [hactive]
  · rw [findings, findings, Gate.diagnostics_append, Gate.diagnostics_append]
    have htext : (ofText true symbols text).textFindings =
        (ofText false symbols text).textFindings := by
      unfold ofText ofTokens
      rw [hactive]
    rw [htext, Gate.diagnostics, Gate.diagnostics, Gate.diagnostics,
      List.filterMap_eq_nil_iff.mpr hregular, List.filterMap_eq_nil_iff.mpr hscript]

/-- What succeeds as regular code and has no word in it that begins a namespace succeeds as a
script, with the same diagnostics. -/
theorem validate_script {o : Options} {text : List Char} {v : Validation}
    (hv : validate { o with script := false } text = .ok v) (hsuccess : v.success = true)
    (hwords : ∀ t ∈ activeTokens false o.symbols text, t.isWord .namespaceWord = false) :
    validate { o with script := true } text = .ok v := by
  change (Survey.ofText false o.symbols text).verdict o.gate = .ok v at hv
  change (Survey.ofText true o.symbols text).verdict o.gate = .ok v
  rw [Survey.verdict] at hv ⊢
  split at hv
  · contradiction
  · next hwhole =>
    cases hv
    obtain ⟨hbreakdown, hdiagnostics⟩ :=
      Survey.diagnostics_script hwords fun x ↦ Validation.not_objects_of_success hsuccess
    rw [hbreakdown, hwhole, Validation.ofSurvey, hdiagnostics, Validation.ofSurvey]

/-- A call is a valid statement of regular code and of a script, with the same warning above it. -/
theorem validate_script_call : ∃ v,
    validate ⟨.default, false, [], []⟩ "#warning old\na();".toList = .ok v ∧ v.success = true ∧
      (∀ t ∈ activeTokens false [] "#warning old\na();".toList, t.isWord .namespaceWord = false) ∧
      validate ⟨.default, true, [], []⟩ "#warning old\na();".toList = .ok v := by
  have hv : validate ⟨.default, false, [], []⟩ "#warning old\na();".toList =
      .ok ⟨.v14, [⟨.warning, "CS1030", "#warning: 'old'", ⟨⟨1, 2, 1⟩, ⟨1, 9, 8⟩⟩,
        .preprocessor⟩]⟩ := by cbv
  have hall : (activeTokens false [] "#warning old\na();".toList).all
      (fun t ↦ !t.isWord .namespaceWord) = true := by cbv
  have hwords : ∀ t ∈ activeTokens false [] "#warning old\na();".toList,
      t.isWord .namespaceWord = false :=
    fun t ht ↦ by simpa using List.all_eq_true.mp hall t ht
  exact ⟨_, hv, rfl, hwords, validate_script (o := ⟨.default, false, [], []⟩) hv rfl hwords⟩

end CSharpCheck
