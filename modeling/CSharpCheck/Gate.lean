import CSharpCheck.Finding
import CSharpCheck.Text.LowerCase

/-!
# The version gate

The gate knows the language version of a session and the preview features that are switched on.
It turns findings into diagnostics: broken rules always become one, a use of a feature only when
the session does not have the feature.
-/

namespace CSharpCheck

/-- The version and the switched-on preview features of a session. -/
structure Gate where
  version : Version
  /-- The names of the switched-on features in lower case, sorted, each once. -/
  enabled : List String
  deriving DecidableEq, Repr

namespace Gate

/-- The gate for a choice of version and a list of feature names in any case. -/
def ofChoice (choice : VersionChoice) (features : List String) : Gate where
  version := choice.resolve
  enabled := ((features.map lowerCase).mergeSort fun a b ↦ decide (a ≤ b)).eraseDups

/-- Whether the session has the feature. A preview feature may also be switched on by its
title. -/
def allows (g : Gate) (f : Feature) : Bool :=
  f.since ≤ g.version || (f.since == .preview && g.enabled.contains f.title)

/-- The code that says that a version lacks a feature. -/
def codeAt : Version → String
  | .v1 => "CS8022" | .v2 => "CS8023" | .v3 => "CS8024" | .v4 => "CS8025" | .v5 => "CS8026"
  | .v6 => "CS8059" | .v7 => "CS8107" | .v7_1 => "CS8302" | .v7_2 => "CS8320" | .v7_3 => "CS8370"
  | .v8 => "CS8400" | .v9 => "CS8773" | .v10 => "CS8936" | .v11 => "CS9058" | .v12 => "CS9202"
  | .v13 => "CS9260"
  | .v14 | .preview => "CS8652"

/-- The code of the diagnostic for a feature that the session lacks. -/
def code (g : Gate) (f : Feature) : String :=
  if f.since = .preview then "CS8652" else codeAt g.version

/-- The message of the diagnostic for a feature that the session lacks. -/
def message (g : Gate) (f : Feature) : String :=
  if f.since = .preview then
    "The feature '" ++ f.title ++ "' is currently in Preview and *unsupported*. " ++
      "To use Preview features, use the 'preview' language version."
  else
    "Feature '" ++ f.title ++ "' is not available in C# " ++ g.version.display ++
      ". Please use language version " ++ f.since.display ++ " or greater."

/-- The diagnostic for a use of a feature, unless the session has it. -/
def check (g : Gate) (f : Feature) (span : Span) : Option Diagnostic :=
  if g.allows f then none else some ⟨.error, g.code f, g.message f, span, .version⟩

/-- The diagnostic that a finding becomes in the session, if any. -/
def diagnose (g : Gate) (finding : Finding) : Option Diagnostic :=
  match finding.cause with
  | .lexical e => some ⟨.error, e.code, e.message, finding.span, .lexical⟩
  | .directive p => some ⟨p.severity, p.code, p.message, finding.span, .preprocessor⟩
  | .grammar e => some ⟨.error, e.code, e.message, finding.span, .grammar⟩
  | .use f => g.check f finding.span

/-- The diagnostics that findings become, in the order of the findings. -/
def diagnostics (g : Gate) (findings : List Finding) : Diagnostics :=
  findings.filterMap g.diagnose

/-- A later version has every feature that an earlier one has. -/
theorem allows_mono {g h : Gate} (hv : g.version ≤ h.version) (he : g.enabled ⊆ h.enabled)
    {f : Feature} (hf : g.allows f = true) : h.allows f = true := by
  simp only [allows, Bool.or_eq_true, Bool.and_eq_true, decide_eq_true_eq,
    List.contains_iff_mem] at hf ⊢
  rcases hf with hf | ⟨hf, hm⟩
  · exact .inl (Nat.le_trans hf hv)
  · exact .inr ⟨hf, he hm⟩

/-- Diagnosing lists one after the other is diagnosing them at once. -/
theorem diagnostics_append (g : Gate) (xs ys : List Finding) :
    g.diagnostics (xs ++ ys) = g.diagnostics xs ++ g.diagnostics ys :=
  List.filterMap_append

end Gate

end CSharpCheck
