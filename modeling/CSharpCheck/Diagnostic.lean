import CSharpCheck.Text.Position

/-!
# Diagnostics

A diagnostic is a message about a stretch of source text. Only errors decide the verdict on a
text; warnings and remarks inform. A list of diagnostics is kept in the order of reporting, and
`Diagnostics.sorted` puts it into the order of the text.
-/

namespace CSharpCheck

/-- How much a diagnostic matters. -/
inductive Severity where
  | error | warning | info
  deriving DecidableEq, Repr, Inhabited

namespace Severity

/-- The word that a printed diagnostic shows. -/
def text : Severity → String
  | .error => "error"
  | .warning => "warning"
  | .info => "info"

end Severity

/-- What kind of rule a diagnostic is about. -/
inductive Category where
  | lexical | preprocessor | version | grammar
  deriving DecidableEq, Repr, Inhabited

/-- A message about a stretch of source text. -/
structure Diagnostic where
  severity : Severity
  code : String
  message : String
  span : Span
  category : Category
  deriving DecidableEq, Repr, Inhabited

namespace Diagnostic

/-- Whether the diagnostic counts against the text. -/
def isError (d : Diagnostic) : Bool := d.severity == .error

/-- Whether the diagnostic is a warning. -/
def isWarning (d : Diagnostic) : Bool := d.severity == .warning

/-- The printed form: source name, position, severity, code and message. -/
def format (d : Diagnostic) (source : String) : String :=
  source ++ d.span.start.format ++ ": " ++ d.severity.text ++ " " ++ d.code ++ ": " ++ d.message

end Diagnostic

/-- Diagnostics in the order in which they were reported. -/
abbrev Diagnostics := List Diagnostic

namespace Diagnostics

/-- Whether some diagnostic is an error. -/
def hasErrors (ds : Diagnostics) : Bool := ds.any (·.isError)

/-- The number of errors. -/
def errorCount (ds : Diagnostics) : Nat := ds.countP (·.isError)

/-- The number of warnings. -/
def warningCount (ds : Diagnostics) : Nat := ds.countP (·.isWarning)

/-- The diagnostics in the order of the text. Those that start at the same offset stay in the
order in which they were reported. -/
def sorted (ds : Diagnostics) : Diagnostics :=
  ds.mergeSort fun a b ↦ a.span.start.offset ≤ b.span.start.offset

/-- Sorting loses and adds nothing. -/
theorem sorted_perm (ds : Diagnostics) : ds.sorted.Perm ds :=
  List.mergeSort_perm ds _

/-- There are errors exactly when their number is positive. -/
theorem hasErrors_iff (ds : Diagnostics) : ds.hasErrors = true ↔ 0 < ds.errorCount := by
  simp [hasErrors, errorCount, List.countP_pos_iff]

end Diagnostics

end CSharpCheck
