import CSharpCheck.Proofs.SortedDiagnostics
import CSharpCheck.Validation

/-!
# Sessions that differ in their version

The gate has no part in the reading of a text: it only decides which uses of features become
diagnostics. So sessions over one text that differ in nothing but the version, or the preview
features that are switched on, report the same broken rules, and the more a gate allows, the fewer
uses of features are reported.
-/

namespace CSharpCheck

/-! ### The feature that a diagnostic is about -/

/-- The part of a text between its first two single quotes. -/
private def quotedPart (text : List Char) : List Char :=
  ((text.dropWhile (· != '\'')).drop 1).takeWhile (· != '\'')

private theorem quotedPart_append {b middle after : List Char}
    (hb : '\'' ∉ b) (hm : '\'' ∉ middle) :
    quotedPart (b ++ '\'' :: (middle ++ '\'' :: after)) = middle := by
  have plain {cs : List Char} (h : '\'' ∉ cs) : ∀ c ∈ cs, (c != '\'') = true := by
    intro c hc
    simpa using ne_of_mem_of_not_mem hc h
  rw [quotedPart, List.dropWhile_append_of_pos (plain hb), List.dropWhile_cons_of_neg (by simp),
    List.drop_one, List.tail_cons, List.takeWhile_append_of_pos (plain hm),
    List.takeWhile_cons_of_neg (by simp), List.append_nil]

private theorem quote_not_mem_ofList {cs : List Char} (h : '\'' ∉ cs) :
    '\'' ∉ (String.ofList cs).toList := by
  rwa [String.toList_ofList]

namespace Feature

/-- No title has a single quote in it. -/
theorem quote_not_mem_title (f : Feature) : '\'' ∉ f.title.toList := by
  cases f <;> exact quote_not_mem_ofList (by decide)

/-- A feature can be found by its title. -/
theorem find?_title (f : Feature) : all.find? (·.title == f.title) = some f := by
  have found : ∀ f ∈ all, all.find? (·.title == f.title) = some f := by decide +kernel
  exact found f f.mem_all

/-- The titles tell the features apart. -/
theorem title_injective {f g : Feature} (h : f.title = g.title) : f = g := by
  have hf := f.find?_title
  rw [h, g.find?_title] at hf
  exact (Option.some.inj hf).symm

end Feature

namespace Gate

/-- A message about a feature quotes its title. -/
private theorem quotedPart_message (g : Gate) (f : Feature) :
    quotedPart (g.message f).toList = f.title.toList := by
  unfold message
  split
  · simpa [String.toList_append] using
      quotedPart_append (b := "The feature ".toList) (by decide +kernel)
        f.quote_not_mem_title
  · simpa [String.toList_append] using
      quotedPart_append (b := "Feature ".toList) (by decide +kernel) f.quote_not_mem_title

/-- The messages of one gate tell the features apart. -/
theorem message_injective {g : Gate} {f f' : Feature} (h : g.message f = g.message f') :
    f = f' := by
  refine Feature.title_injective (String.toList_inj.1 ?_)
  rw [← g.quotedPart_message f, h, g.quotedPart_message f']

/-! ### What a gate makes of a finding -/

theorem check_eq_some_iff {g : Gate} {f : Feature} {span : Span} {d : Diagnostic} :
    g.check f span = some d ↔
      g.allows f = false ∧ d = ⟨.error, g.code f, g.message f, span, .version⟩ := by
  unfold check
  split
  · simp [*]
  · simp [*, eq_comm]

/-- A diagnostic stands where its finding does. -/
theorem span_of_diagnose {g : Gate} {x : Finding} {d : Diagnostic} (h : g.diagnose x = some d) :
    d.span = x.span := by
  unfold diagnose at h
  split at h
  · cases h
    rfl
  · cases h
    rfl
  · cases h
    rfl
  · obtain ⟨-, rfl⟩ := check_eq_some_iff.1 h
    rfl

/-- A finding about something else than a version becomes the same diagnostic at every gate. -/
theorem diagnose_filter_language (g h : Gate) (x : Finding) :
    (g.diagnose x).filter (·.category != .version) =
      (h.diagnose x).filter (·.category != .version) := by
  rcases x with ⟨cause, span⟩
  cases cause with
  | lexical e => rfl
  | directive p => rfl
  | grammar e => rfl
  | use f => simp only [diagnose, check]; split <;> split <;> rfl

/-- A finding that becomes a diagnostic about a version is a use of a feature. -/
theorem mem_diagnostics_version {g : Gate} {findings : List Finding} {d : Diagnostic}
    (hd : d ∈ g.diagnostics findings) (hv : d.category = .version) :
    ∃ f span, ⟨.use f, span⟩ ∈ findings ∧ g.check f span = some d := by
  obtain ⟨⟨cause, span⟩, hx, hdx⟩ := List.mem_filterMap.1 hd
  cases cause with
  | use f => exact ⟨f, span, hx, hdx⟩
  | lexical e => cases hdx; cases hv
  | directive p => cases hdx; cases hv
  | grammar e => cases hdx; cases hv

/-- The broken rules that are reported do not depend on the gate. -/
theorem diagnostics_filter_language (g h : Gate) (findings : List Finding) :
    (g.diagnostics findings).filter (·.category != .version) =
      (h.diagnostics findings).filter (·.category != .version) := by
  simp only [diagnostics, List.filter_filterMap, diagnose_filter_language g h]

end Gate

namespace Validation

/-- The outcome of a session with the gate says that the feature is used at the span and that the
session does not have it. -/
def Reports (v : Validation) (g : Gate) (f : Feature) (span : Span) : Prop :=
  ∃ d ∈ v.diagnostics, g.check f span = some d

/-- The diagnostics about broken rules, which are those that are not about versions. -/
def brokenRules (v : Validation) : Diagnostics := v.diagnostics.filter (·.category != .version)

/-- What is reported is what is used and not allowed. -/
theorem reports_ofSurvey_iff {g : Gate} {s : Survey} {f : Feature} {span : Span} :
    (ofSurvey g s).Reports g f span ↔ ⟨.use f, span⟩ ∈ s.findings ∧ g.allows f = false := by
  constructor
  · rintro ⟨d, hd, hcheck⟩
    obtain ⟨hallows, rfl⟩ := Gate.check_eq_some_iff.1 hcheck
    obtain ⟨f', span', hx, hcheck'⟩ :=
      Gate.mem_diagnostics_version (Diagnostics.mem_sorted.1 hd) rfl
    obtain ⟨-, heq⟩ := Gate.check_eq_some_iff.1 hcheck'
    obtain rfl := Gate.message_injective (congrArg Diagnostic.message heq)
    obtain rfl : span = span' := congrArg Diagnostic.span heq
    exact ⟨hx, hallows⟩
  · rintro ⟨hx, hallows⟩
    have hcheck : g.check f span = some _ := Gate.check_eq_some_iff.2 ⟨hallows, rfl⟩
    exact ⟨_, Diagnostics.mem_sorted.2 (List.mem_filterMap.2 ⟨_, hx, hcheck⟩), hcheck⟩

/-- The broken rules that one reading brings to light do not depend on the gate. -/
theorem brokenRules_ofSurvey (g h : Gate) (s : Survey) :
    (ofSurvey g s).brokenRules = (ofSurvey h s).brokenRules := by
  simp only [brokenRules, ofSurvey, ← Diagnostics.sorted_filter,
    Gate.diagnostics_filter_language g h]

/-- How the outcome `w` of a session with the gate `h` compares with the outcome `v` of one with
the gate `g` that allows no more: the broken rules are the same, and no use of a feature is
reported anew. -/
structure Loosened (g h : Gate) (v w : Validation) : Prop where
  brokenRules : w.brokenRules = v.brokenRules
  reports : ∀ f span, w.Reports h f span → v.Reports g f span
  success : v.success = true → w.success = true

/-- A gate that allows more loosens the outcome. -/
theorem loosened_ofSurvey {g h : Gate} (hgh : ∀ f, g.allows f = true → h.allows f = true)
    (s : Survey) : Loosened g h (ofSurvey g s) (ofSurvey h s) where
  brokenRules := brokenRules_ofSurvey h g s
  reports f span hw := by
    rw [reports_ofSurvey_iff] at hw ⊢
    exact ⟨hw.1, Bool.eq_false_iff.2 fun ha ↦ by simp [hgh f ha] at hw⟩
  success hv := by
    simp only [success, Bool.not_eq_true', ofSurvey, Diagnostics.hasErrors_sorted] at hv ⊢
    simp only [Diagnostics.hasErrors, List.any_eq_false] at hv ⊢
    intro d hd herror
    by_cases hversion : d.category = .version
    · obtain ⟨f, span, hx, hcheck⟩ := Gate.mem_diagnostics_version hd hversion
      obtain ⟨hallows, -⟩ := Gate.check_eq_some_iff.1 hcheck
      have hforbids : g.allows f = false :=
        Bool.eq_false_iff.2 fun ha ↦ by simp [hgh f ha] at hallows
      exact hv _ (List.mem_filterMap.2 ⟨_, hx, Gate.check_eq_some_iff.2 ⟨hforbids, rfl⟩⟩) rfl
    · have hkept : d ∈ (h.diagnostics s.findings).filter (·.category != .version) :=
        List.mem_filter.2 ⟨hd, by simpa using hversion⟩
      rw [Gate.diagnostics_filter_language h g] at hkept
      exact hv d (List.mem_filter.1 hkept).1 herror

/-- Whether a gate keeps a diagnostic that another gate for the same version has reported. -/
private def keptBy (h : Gate) (d : Diagnostic) : Bool :=
  d.category != .version || !Feature.all.any fun f ↦ h.allows f && d.message == h.message f

private theorem diagnose_filter_keptBy {g h : Gate} (hversion : h.version = g.version)
    (hgh : ∀ f, g.allows f = true → h.allows f = true) (x : Finding) :
    (g.diagnose x).filter (keptBy h) = h.diagnose x := by
  have hmessage (f : Feature) : h.message f = g.message f := by
    simp only [Gate.message, hversion]
  have hcode (f : Feature) : h.code f = g.code f := by
    simp only [Gate.code, hversion]
  rcases x with ⟨cause, span⟩
  cases cause with
  | lexical e => rfl
  | directive p => rfl
  | grammar e => rfl
  | use f =>
    simp only [Gate.diagnose, Gate.check]
    by_cases hh : h.allows f = true
    · by_cases hg : g.allows f = true
      · simp [hh, hg]
      · simpa [hh, hg, keptBy, ← hmessage] using ⟨f, f.mem_all, hh, rfl⟩
    · have hg : ¬g.allows f = true := fun hg ↦ hh (hgh f hg)
      have hkept :
          Feature.all.any (fun f' ↦ h.allows f' && h.message f == h.message f') = false := by
        rw [List.any_eq_false]
        intro f' _ hf'
        rw [Bool.and_eq_true, beq_iff_eq] at hf'
        exact hh (Gate.message_injective hf'.2 ▸ hf'.1)
      simp [hh, hg, keptBy, ← hmessage, hcode, hkept]

/-- At one version, a gate that allows more only takes diagnostics away. -/
theorem sublist_ofSurvey {g h : Gate} (hversion : h.version = g.version)
    (hgh : ∀ f, g.allows f = true → h.allows f = true) (s : Survey) :
    (ofSurvey h s).diagnostics.Sublist (ofSurvey g s).diagnostics := by
  have hfilter : h.diagnostics s.findings = (g.diagnostics s.findings).filter (keptBy h) := by
    simp only [Gate.diagnostics, List.filter_filterMap, diagnose_filter_keptBy hversion hgh]
  simp only [ofSurvey, hfilter, Diagnostics.sorted_filter]
  exact List.filter_sublist

end Validation

/-- Two readings of a text either break off alike, or both come to an outcome and the outcomes are
related. -/
inductive Alike (R : Validation → Validation → Prop) :
    Except Breakdown Validation → Except Breakdown Validation → Prop
  | broken (b : Breakdown) : Alike R (.error b) (.error b)
  | settled {v w : Validation} : R v w → Alike R (.ok v) (.ok w)

namespace Survey

/-- What holds of the outcomes for one survey holds of the verdicts on it. -/
theorem verdict_alike {R : Validation → Validation → Prop} {g h : Gate} (s : Survey)
    (hR : R (.ofSurvey g s) (.ofSurvey h s)) : Alike R (s.verdict g) (s.verdict h) := by
  unfold verdict
  cases s.breakdown with
  | some b => exact .broken b
  | none => exact .settled hR

end Survey

namespace Gate

/-- Switching on more features enables more. -/
theorem enabled_ofChoice_subset (choice : VersionChoice) {features more : List String}
    (h : features ⊆ more) :
    (ofChoice choice features).enabled ⊆ (ofChoice choice more).enabled := by
  intro name hname
  simp only [ofChoice, List.mem_eraseDups, List.mem_mergeSort, List.mem_map] at hname ⊢
  obtain ⟨feature, hfeature, rfl⟩ := hname
  exact ⟨feature, h hfeature, rfl⟩

end Gate

end CSharpCheck
