import CSharpCheck.Proofs.Core.Texts
import CSharpCheck.Proofs.Reading.Sessions

/-!
# Core programs are accepted

A core program that is not nested too deeply is accepted at the default version. An older version
has nothing to complain about in it either, if it uses nothing newer, except for the product of a
dotted name and a name in parentheses, in which the version sees a deconstruction.
-/

namespace CSharpCheck.Core

/-! ### The tokens of programs -/

/-- No strings and characters stand around the statements of a program. -/
theorem mem_words_of_isQuoted {ss : Statements} {w : Word} (h : w ∈ programWords ss)
    (hw : w.isQuoted = true) : w ∈ ss.words := by
  simp only [programWords, List.mem_append] at h
  have haround : ∀ w ∈ programHead ++ [.symbol .closeBrace, .symbol .closeBrace],
      w.isQuoted = false := by
    simp [programHead, Word.isQuoted, Word.kind]
  rw [List.forall_mem_append] at haround
  rcases h with h | h | h
  · simp [haround.1 w h] at hw
  · exact h
  · simp [haround.2 w h] at hw

/-- The tokens of a program are plain if the features may be used that its statements need. -/
theorem plain_programWords {ss : Statements} {ts : List Token} {allowed : Feature → Prop}
    (h : List.Forall₂ IsToken (programWords ss) ts) (hapart : Apart ts)
    (hquoted : ∀ w ∈ ss.words, w.isQuoted = true → allowed .escapeCharacter)
    (hless : .symbol .less ∈ ss.words → allowed .generics ∧ allowed .deconstruction) :
    Plain allowed ts := by
  refine plain_of_forall₂ h hapart ?_ (fun w hw hq ↦ hquoted w (mem_words_of_isQuoted hw hq) hq)
    fun hmem ↦ hless (by simpa [programWords, programHead] using hmem)
  simp [programWords, programHead, ss.fatArrow_not_mem]

/-! ### Sessions -/

/-- If nothing stands in the way of reading a program, a session finds nothing in it but uses of
features that may be used. -/
theorem Setting.findings_ofText (C : Setting) {ss : Statements} (script : Bool)
    (hmode : C.mode script) (hfaulty : ¬C.faulty) (hsuits : Suits C.products ss.parenthesized)
    (hquoted : ∀ w ∈ ss.words, w.isQuoted = true → C.allowed .escapeCharacter)
    (hless : .symbol .less ∈ ss.words → C.allowed .generics ∧ C.allowed .deconstruction)
    (symbols : List String) :
    (Survey.ofText script symbols (programText ss)).breakdown = none ∧
      (2 * ss.depthAsRead + 6 ≤ maxNesting ∨
        (∀ x ∈ (Survey.ofText script symbols (programText ss)).findings,
          x.cause ≠ .grammar .tooComplex) →
      ∀ x ∈ (Survey.ofText script symbols (programText ss)).findings,
        ∃ f : Feature, x.cause = .use f ∧ C.allowed f) := by
  obtain ⟨vs, hvs⟩ := exists_forall₂_isSingle (programWords ss)
  have hreads (ts : Ahead) (htokens : List.Forall₂ Single.IsToken vs ts) (hapart : Apart ts)
      (room : Nat) (hroom : 2 * ss.depthAsRead + 6 ≤ room) :
      (Rule.unitElements false).Reads (grammarRules.terms C.toAllowance ts.length room [])
        (fun _ _ ↦ True) ts := by
    obtain ⟨room, rfl⟩ : ∃ n, room = n + 3 := ⟨room - 3, by omega⟩
    have hwords := forall₂_isToken hvs htokens
    have hplain := plain_programWords hwords hapart hquoted hless
    have hstretch : Stretch { C with size := ts.length } (programWords ss) ss.parenthesized ts [] :=
      ⟨⟨ts, (List.append_nil ts).symm, map_kind_of_forall₂ hwords⟩, hplain, hsuits, Nat.le_refl _⟩
    rw [programWords, ← ss.words_asRead, ← ss.parenthesized_asRead, ← programWords] at hstretch
    exact (reads_program hstretch ss.isSettled_asRead
      (show 2 * ss.depthAsRead + 3 ≤ room by omega)).later fun _ _ _ _ ↦ trivial
  have hline : Single.line vs = programText ss := line_eq_textOf hvs
  have hend : MayEnd (programWords ss) := (((MayEnd.single rfl).cons _).append _).append _
  obtain ⟨hwhole, hfindings⟩ :=
    Survey.findings_line (hend.closes hvs) (ne_bad_of_forall₂ hvs) hmode hreads symbols
  rw [hline] at hwhole hfindings
  exact ⟨hwhole, fun hnested ↦ ((hfindings hnested).resolve_right fun h ↦ hfaulty h.1).1⟩

/-- At the default version a core program is accepted if no place in it is more than 40 levels deep
as its text is read. -/
theorem validate_programText {ss : Statements} (hdepth : ss.depthAsRead ≤ 40) (script : Bool)
    (symbols features : List String) :
    validate ⟨.default, script, symbols, features⟩ (programText ss) = .ok ⟨.v14, []⟩ := by
  let o : Options := ⟨.default, script, symbols, features⟩
  have hallows {f : Feature} (hf : f.since ≤ .v14) : o.gate.allows f = true :=
    Gate.allows_of_since_le hf
  let C : Setting :=
    ⟨⟨fun f ↦ o.gate.allows f = true, fun _ ↦ True, False⟩, true, fun _ ↦ hallows (by decide), 0⟩
  have hsuits : Suits C.products ss.parenthesized := by simp [Suits, C]
  obtain ⟨hwhole, hfindings⟩ := C.findings_ofText script trivial id hsuits
    (fun _ _ _ ↦ hallows (by decide)) (fun _ ↦ ⟨hallows (by decide), hallows (by decide)⟩) symbols
  have hnone : o.gate.diagnostics (Survey.ofText script symbols (programText ss)).findings = [] :=
    Gate.diagnostics_eq_nil (hfindings (.inl (by rw [maxNesting]; omega)))
  have hverdict := validate_eq_ok (o := o) hwhole
  rw [Validation.ofSurvey, hnone, Diagnostics.sorted, List.mergeSort_nil] at hverdict
  exact hverdict

/-- The operand `a` with minus signs before it. -/
def Unary.negated : (signs : Nat) → Unary
  | 0 => .primary (.callable (.name .a))
  | signs + 1 => .sign .minus (negated signs)

/-- Comparisons of the form `- a < a > ( … )` in one another. As they are read, the minus signs are
those of a call with type arguments. -/
def Expression.comparisons (signs : Nat) : (count : Nat) → Expression
  | 0 => .operations (.operand (.negated 0))
  | count + 1 =>
    .operations (.operation (.operation (.operand (.negated signs)) .less (.negated 0)) .greater
      (.primary (.parentheses (comparisons signs count))))

/-- The operand `a` in parentheses. -/
def Expression.wrapped : (count : Nat) → Expression
  | 0 => .operations (.operand (.negated 0))
  | count + 1 => .operations (.operand (.primary (.parentheses (wrapped count))))

/-- A chain of the form `if ( a ) if ( a ) ; else …`. As it is read, every `else` belongs to an
inner `if`. -/
def Body.dangling (last : Body) : (count : Nat) → Body
  | 0 => last
  | count + 1 =>
    .ifElse (.wrapped 0) (.ifThen (.wrapped 0) .empty) (dangling last count)

/-- As it is put together, such a chain is hardly deeper than its last statement. -/
theorem Body.elseDepth_dangling (last : Body) (count : Nat) :
    (last.dangling count).elseDepth Expression.depthAsRead ≤
      max 2 (last.elseDepth Expression.depthAsRead) := by
  have hwrapped : Expression.depthAsRead (.wrapped 0) = 0 := by decide
  induction count with
  | zero => exact Nat.le_max_right _ _
  | succ count ih =>
    simp only [dangling, elseDepth, depth, hwrapped]
    omega

/-- The program of a single assignment. -/
def assignmentTo (n : Name) (value : Expression) : Statements :=
  .cons (.body (.assignment n value)) .nil

/-- A name, a less-than sign, a name, a greater-than sign and parentheses are accepted. -/
theorem validate_programText_comparison :
    (assignmentTo .a (.comparisons 1 1)).depthAsRead ≤ 40 ∧
      validate ⟨.default, false, [], []⟩ (programText (assignmentTo .a (.comparisons 1 1))) =
        .ok ⟨.v14, []⟩ := by
  have hdepth : (assignmentTo .a (.comparisons 1 1)).depthAsRead ≤ 40 := by
    simp only [assignmentTo, Statements.depthAsRead, Statements.asRead, Statement.asRead,
      Body.asRead, Statements.depth, Statement.depth, Body.depth]
    decide
  exact ⟨hdepth, validate_programText hdepth false [] []⟩

/-- Neither the depth of expressions nor that of statements can be taken as put together. -/
theorem exists_rejected_of_depth_le :
    (∃ ss : Statements, ss.IsSettled ∧ ss.depth Expression.depth ≤ 40 ∧
      validate ⟨.default, false, [], []⟩ (programText ss) ≠ .ok ⟨.v14, []⟩) ∧
    ∃ ss : Statements, ss.depth Expression.depthAsRead ≤ 40 ∧
      validate ⟨.default, false, [], []⟩ (programText ss) ≠ .ok ⟨.v14, []⟩ := by
  constructor
  · refine ⟨assignmentTo .a (.comparisons 30 3), ⟨trivial, trivial⟩, ?_, by decide +kernel⟩
    simp only [assignmentTo, Statements.depth, Statement.depth, Body.depth]
    decide +kernel
  · refine ⟨.cons (.body ((Body.assignment .a (.wrapped 39)).dangling 16)) .nil, ?_,
      by decide +kernel⟩
    have hlast : (Body.assignment .a (.wrapped 39)).elseDepth Expression.depthAsRead ≤ 40 := by
      simp only [Body.elseDepth, Body.depth]
      decide +kernel
    have hchain := (Body.assignment .a (.wrapped 39)).elseDepth_dangling 16
    rw [Body.elseDepth_eq] at hchain
    simp only [Statements.depth, Statement.depth]
    omega

/-- A session complains about a core program without less-than signs, strings and characters only
if it is too deeply nested, or if a product of a dotted name and a name stands in parentheses, in
which it sees a deconstruction. -/
theorem validate_programText_early {ss : Statements} (hless : .symbol .less ∉ ss.words)
    (hquoted : ∀ w ∈ ss.words, w.isQuoted = false) (o : Options) :
    ∃ v, validate o (programText ss) = .ok v ∧
      ((∀ d ∈ v.diagnostics, d.code ≠ GrammarError.code .tooComplex) →
        ∀ d ∈ v.diagnostics, o.gate.check .deconstruction d.span = some d ∧
          ∃ e ∈ ss.parenthesized, e.isProduct = true) := by
  let products : Bool := ss.parenthesized.any (·.isProduct)
  let C : Setting :=
    ⟨⟨fun f ↦ f = .deconstruction ∧ products = true, fun _ ↦ True, False⟩, products,
      fun h ↦ ⟨rfl, h⟩, 0⟩
  have hsuits : Suits C.products ss.parenthesized := by
    intro hnone e he
    simpa using List.any_eq_false.1 hnone e he
  obtain ⟨hwhole, hfindings⟩ := C.findings_ofText o.script trivial id hsuits
    (fun w hw hq ↦ absurd (hquoted w hw) (by simp [hq])) (fun h ↦ absurd h hless) o.symbols
  refine ⟨_, validate_eq_ok hwhole, fun hnested d hd ↦ ?_⟩
  obtain ⟨x, hx, hdx⟩ := List.mem_filterMap.1 (Diagnostics.mem_sorted.1 hd)
  obtain ⟨f, hcause, rfl, hproducts⟩ :=
    hfindings (.inr (Validation.ne_tooComplex_of_ofSurvey hnested)) x hx
  rw [Gate.diagnose, hcause] at hdx
  replace hdx : o.gate.check .deconstruction x.span = some d := hdx
  obtain ⟨-, hspan⟩ := Gate.check_eq_some_iff.1 hdx
  have hspan' : d.span = x.span := by rw [hspan]
  refine ⟨by rw [hspan', hdx], ?_⟩
  obtain ⟨e, he, hproduct⟩ := List.any_eq_true.1 hproducts
  exact ⟨e, he, hproduct⟩


/-- Parentheses around a name get no complaint. -/
theorem validate_programText_early_wrapped :
    Word.symbol .less ∉ (assignmentTo .a (.wrapped 1)).words ∧
      (∀ w ∈ (assignmentTo .a (.wrapped 1)).words, w.isQuoted = false) ∧
      ∃ v, validate ⟨.concrete .v1, false, [], []⟩ (programText (assignmentTo .a (.wrapped 1))) =
          .ok v ∧
        ((∀ d ∈ v.diagnostics, d.code ≠ GrammarError.code .tooComplex) →
          ∀ d ∈ v.diagnostics,
            (Gate.ofChoice (.concrete .v1) []).check .deconstruction d.span = some d ∧
              ∃ e ∈ (assignmentTo .a (.wrapped 1)).parenthesized, e.isProduct = true) := by
  have hwords : (assignmentTo .a (.wrapped 1)).words = [.name .a, .symbol .equals,
      .symbol .openParen, .name .a, .symbol .closeParen, .symbol .semicolon] := rfl
  have hless : Word.symbol .less ∉ (assignmentTo .a (.wrapped 1)).words := by simp [hwords]
  have hquoted : ∀ w ∈ (assignmentTo .a (.wrapped 1)).words, w.isQuoted = false := by
    simp [hwords, Word.isQuoted, Word.kind]
  exact ⟨hless, hquoted, validate_programText_early hless hquoted ⟨.concrete .v1, false, [], []⟩⟩

/-- The product of `a` and `a`. -/
def Operations.square : Operations :=
  .operation (.operand (.negated 0)) .multiply (.negated 0)

/-- The first version complains about a product in parentheses. -/
theorem not_validate_programText_early :
    ¬∀ (ss : Statements) (o : Options) (v : Validation), .symbol .less ∉ ss.words →
      (∀ w ∈ ss.words, w.isQuoted = false) → validate o (programText ss) = .ok v →
      (∀ d ∈ v.diagnostics, d.code ≠ GrammarError.code .tooComplex) →
      ∀ d ∈ v.diagnostics, d.category ≠ .version := by
  intro h
  let ss := assignmentTo .a
    (.operations (.operand (.primary (.parentheses (.operations .square)))))
  have hwords : ss.words = [.name .a, .symbol .equals, .symbol .openParen, .name .a,
      .symbol .star, .name .a, .symbol .closeParen, .symbol .semicolon] := rfl
  have hless : Word.symbol .less ∉ ss.words := by simp [hwords]
  have hquoted : ∀ w ∈ ss.words, w.isQuoted = false := by simp [hwords, Word.isQuoted, Word.kind]
  have hv : validate ⟨.concrete .v1, false, [], []⟩ (programText ss) =
      .ok ⟨.v1, [⟨.error, "CS8022", "Feature 'deconstruction' is not available in C# 1. " ++
        "Please use language version 7.0 or greater.", ⟨⟨1, 30, 29⟩, ⟨1, 31, 30⟩⟩, .version⟩]⟩ := by
    decide +kernel
  exact h ss _ _ hless hquoted hv (by simp [GrammarError.code]) _ List.mem_cons_self rfl

end CSharpCheck.Core
