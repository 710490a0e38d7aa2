import CSharpCheck.Proofs.Core.LoneExpressions
import CSharpCheck.Proofs.Core.Texts
import CSharpCheck.Proofs.Reading.Sessions

/-!
# Scripts that are an expression

A script may consist of an expression without a semicolon. It is accepted exactly if the expression
does not begin like a declaration: then it is taken for one, although what follows does not make a
declaration.
-/

namespace CSharpCheck.Core

/-! ### Reading -/

namespace Setting

variable {C : Setting} {room : Nat} {around : List TypeKind} {ts : Ahead}

/-- In a script an expression may be read as a statement at the end of the text. -/
theorem expressionStatement_end {e : Expression}
    (hscript : ∀ isScript, C.mode isScript → isScript = true)
    (hts : C.Stretch e.words e.parenthesized ts []) (hroom : 2 * e.depthAsRead + 2 ≤ room)
    {Q : Post Unit} (hQ : Q () []) :
    (Rule.expressionStatement true).Reads (C.terms room around) Q ts := by
  rw [Rule.expressionStatement, Rule.reads_bind]
  refine hts.expression (by simp) hroom ?_
  rw [Rule.reads_bind, Rule.accept, Rule.reads_acceptIf]
  intro isScript hmode
  obtain rfl := hscript isScript (by simpa [terms] using hmode)
  simpa using hQ

/-- The tokens of words are those symbols only that are among the words. -/
theorem Stretch.not_is {words : List Word} {inner : List Expression}
    (h : C.Stretch words inner ts []) {s : Symbol} (hs : .symbol s ∉ words) :
    ∀ t ∈ ts, t.is s = false := by
  obtain ⟨us, rfl, hus⟩ := h.covers
  intro t ht
  rw [List.append_nil] at ht
  have hmem : t.kind ∈ kinds words := hus ▸ List.mem_map_of_mem ht
  have hne : t.kind ≠ .symbol s := fun hk ↦ hs (symbol_mem_of_mem_kinds (hk ▸ hmem))
  simpa [Token.is] using hne

/-- A lone expression is taken for a declaration if it begins like one. -/
theorem Stretch.declares {e : Expression} (h : C.Stretch e.words e.parenthesized ts [])
    (hless : .symbol .less ∉ e.words) :
    (ts.isMemberOnly || ts.localKind.isSome) = startsDeclaration (kinds e.words) := by
  obtain ⟨S, -, -, -, hfits⟩ := h.exists_site (by simp)
  obtain ⟨us, rfl, hus⟩ := h.covers
  rw [hfits.toRuns.declares_eq (fun s hs ↦ h.not_is (e.symbol_not_mem hs)) (h.not_is hless),
    List.append_nil, hus]

/-- An expression that does not begin like a declaration is read as the only element of a script. -/
theorem reads_expression {e : Expression} (hless : .symbol .less ∉ e.words)
    (hscript : ∀ isScript, C.mode isScript → isScript = true)
    (hts : C.Stretch e.words e.parenthesized ts []) (hroom : 2 * e.depthAsRead + 2 ≤ room)
    (hstarts : startsDeclaration (kinds e.words) = false) :
    (Rule.unitElements false).Reads (C.terms (room + 1) []) (fun _ vs ↦ vs = [] ∧ True) ts := by
  have hdeclares := hts.declares hless
  rw [hstarts, Bool.or_eq_false_iff] at hdeclares
  obtain ⟨hmember, hlocal⟩ := hdeclares
  rw [Option.isSome_eq_false_iff, Option.isNone_iff_eq_none] at hlocal
  obtain ⟨S, -, hrest, -, hfits⟩ := hts.exists_site (by simp)
  obtain ⟨d, hbefore⟩ := hfits.toRuns.before
  obtain ⟨t, us, rfl, -⟩ := hbefore.exists_head
  refine reads_unitElements (by simpa [terms] using hts.length) fun state Q hQ ↦ ?_
  obtain ⟨next, hnext, hbody⟩ := hfits.toRuns.unitElement state
  rw [hnext]
  intro previous
  rw [hbody _ rfl, hmember, if_neg (by simp)]
  intro isScript hmode
  obtain rfl := hscript isScript (by simpa [terms] using hmode)
  obtain ⟨next, hnext, hbody⟩ := hfits.toRuns.statementRule hrest true
  have hread : (Rule.statementRule true).Reads (C.terms room [])
      (fun _ vs ↦ ∀ state, Q state vs) (t :: us) := by
    rw [hnext]
    intro previous
    rw [hbody _ rfl, hlocal]
    exact expressionStatement_end hscript hts hroom (hQ trivial)
  simp only [Bool.not_true, Bool.false_and, Bool.false_eq_true, if_false]
  exact hread.later fun _ _ _ hstate ↦ hstate _

end Setting

/-- An expression that begins like a declaration cannot be read. -/
theorem Setting.Stretch.failsAt_unitElements {C : Setting} {e : Expression} {ts : Ahead}
    (hts : C.Stretch e.words e.parenthesized ts []) (hless : .symbol .less ∉ e.words)
    (hstarts : startsDeclaration (kinds e.words) = true) :
    (Rule.unitElements false).FailsAt ts := by
  have hdeclares := hts.declares hless
  rw [hstarts, Bool.or_eq_true_iff] at hdeclares
  obtain ⟨S, -, hrest, -, hfits⟩ := hts.exists_site (by simp)
  obtain ⟨d, hbefore⟩ := hfits.toRuns.before
  obtain ⟨t, us, rfl, -⟩ := hbefore.exists_head
  refine .loop (.ask ?_) _
  simp only [List.isEmpty_cons, Bool.false_and, Bool.or_false, Bool.false_eq_true, if_false]
  refine .bind_left ?_ _
  generalize (⟨false, false, false, false⟩ : Rule.UnitState) = state
  obtain ⟨next, hnext, hbody⟩ := hfits.toRuns.unitElement state
  cases hmember : Ahead.isMemberOnly (t :: us) with
  | true => exact .elementOrRecover hnext fun v hv ↦ (hbody v hv).trans (if_pos hmember)
  | false =>
    obtain ⟨next', hnext', hbody'⟩ := hfits.toRuns.statementRule hrest true
    refine .here fun _ ↦ .bind_left ?_ _
    rw [hnext]
    refine .look fun v hv ↦ ?_
    rw [hbody v hv, hmember, if_neg (by simp)]
    refine .topLevelStatement ?_ state
    rw [hnext']
    refine .look fun v hv ↦ ?_
    rw [hbody' v hv]
    cases hlocal : Ahead.localKind (t :: us) with
    | none => simp [hmember, hlocal] at hdeclares
    | some kind =>
      cases kind with
      | function => exact Rule.fails_localFunction _
      | «variable» => exact Rule.fails_localDeclaration _

/-! ### Sessions -/

/-- A script that is an expression without less-than signs is accepted at the default version
exactly if the expression does not begin like a declaration, unless it is too deeply nested for the
parser. -/
theorem validate_textOf_expression {e : Expression} (hless : .symbol .less ∉ e.words)
    (symbols features : List String) :
    ∃ v, validate ⟨.default, true, symbols, features⟩ (textOf e.words) = .ok v ∧ v.version = .v14 ∧
      (e.depth ≤ 48 ∨ (∀ d ∈ v.diagnostics, d.code ≠ GrammarError.code .tooComplex) →
        (v.diagnostics = [] ↔ startsDeclaration (kinds e.words) = false)) := by
  let o : Options := ⟨.default, true, symbols, features⟩
  have hallows {f : Feature} (hf : f.since ≤ .v14) : o.gate.allows f = true :=
    Gate.allows_of_since_le hf
  obtain ⟨vs, hvs⟩ := exists_forall₂_isSingle e.words
  have hcloses := e.mayEnd_words.closes hvs
  have hline : Single.line vs = textOf e.words := line_eq_textOf hvs
  let C (size : Nat) : Setting :=
    ⟨⟨(o.gate.allows · = true), (· = true), ¬True⟩, true, fun _ ↦ hallows (by decide), size⟩
  have hstretch (ts : Ahead) (htokens : List.Forall₂ Single.IsToken vs ts) (hapart : Apart ts) :
      (C ts.length).Stretch e.words e.parenthesized ts [] := by
    have hwords := forall₂_isToken hvs htokens
    have hplain : Plain (o.gate.allows · = true) ts :=
      plain_of_forall₂ hwords hapart (e.symbol_not_mem (by decide))
        (fun _ _ _ ↦ hallows (by decide)) fun h ↦ absurd h hless
    exact ⟨⟨ts, (List.append_nil ts).symm, map_kind_of_forall₂ hwords⟩, hplain, nofun,
      Nat.le_refl _⟩
  rw [← hline]
  cases hstarts : startsDeclaration (kinds e.words) with
  | true =>
    have hends : ∀ v ∈ vs, ∀ x ∈ endSymbols, v.kind ≠ .symbol x := by
      intro v hv x hx hkind
      obtain ⟨w, hw, hsingle⟩ := exists_of_mem_forall₂ hvs hv
      exact e.symbol_not_mem hx (Word.eq_symbol (hsingle.kind.symm.trans hkind) ▸ hw)
    obtain ⟨v, hv, hversion, hsome⟩ := validate_line_unfinished (o := o) hcloses
      (ne_bad_of_forall₂ hvs) hends fun ts htokens hapart ↦
        (hstretch ts htokens hapart).failsAt_unitElements hless hstarts
    exact ⟨v, hv, hversion, fun _ ↦ iff_of_false hsome (by simp)⟩
  | false =>
    have hreads (ts : Ahead) (htokens : List.Forall₂ Single.IsToken vs ts) (hapart : Apart ts)
        (room : Nat) (hroom : 2 * e.depthAsRead + 3 ≤ room) : (Rule.unitElements false).Reads
          (grammarRules.terms ⟨(o.gate.allows · = true), (· = true), ¬True⟩ ts.length room [])
          (fun _ _ ↦ True) ts := by
      obtain ⟨room, rfl⟩ : ∃ n, room = n + 1 := ⟨room - 1, by omega⟩
      have hread : (Rule.unitElements false).Reads ((C ts.length).terms (room + 1) [])
          (fun _ vs ↦ vs = [] ∧ True) ts :=
        Setting.reads_expression hless (fun _ h ↦ h) (hstretch ts htokens hapart) (by omega) hstarts
      exact hread.later fun _ _ _ _ ↦ trivial
    obtain ⟨v, hv, hversion, hnone⟩ := validate_line (o := o) hcloses (ne_bad_of_forall₂ hvs) hreads
    have hdepth := Expression.depthAsRead_le hless
    exact ⟨v, hv, hversion, fun hnested ↦ iff_of_true
      ((hnone (hnested.imp_left fun h ↦ by rw [maxNesting]; omega)).2 trivial) rfl⟩

/-- A name as an operand. -/
def Name.operand (n : Name) : Unary := .primary (.callable (.name n))

/-- A conditional between a name and itself. -/
def Name.choice (n : Name) : Expression :=
  .conditional (.operand n.operand) (.operations (.operand n.operand))
    (.operations (.operand n.operand))

/-- The product of a name and itself. -/
def Name.product (n : Name) : Expression :=
  .operations (.operation (.operand n.operand) .multiply n.operand)

/-- A conditional between names does not begin like a declaration. -/
theorem validate_textOf_choice :
    Word.symbol .less ∉ Name.a.choice.words ∧
      startsDeclaration (kinds Name.a.choice.words) = false ∧
      ∃ v, validate ⟨.default, true, [], []⟩ (textOf Name.a.choice.words) = .ok v ∧
        v.version = .v14 ∧
        (Name.a.choice.depth ≤ 48 ∨
            (∀ d ∈ v.diagnostics, d.code ≠ GrammarError.code .tooComplex) →
          (v.diagnostics = [] ↔ startsDeclaration (kinds Name.a.choice.words) = false)) := by
  have hwords : Name.a.choice.words =
      [.name .a, .symbol .question, .name .a, .symbol .colon, .name .a] := rfl
  have hless : Word.symbol .less ∉ Name.a.choice.words := by simp [hwords]
  exact ⟨hless, rfl, validate_textOf_expression hless [] []⟩

/-- A product of names is taken for the declaration of a variable of a pointer type. -/
theorem not_validate_textOf_expression :
    ¬∀ (e : Expression) (v : Validation), .symbol .less ∉ e.words →
      validate ⟨.default, true, [], []⟩ (textOf e.words) = .ok v →
      (∀ d ∈ v.diagnostics, d.code ≠ GrammarError.code .tooComplex) → v.diagnostics = [] := by
  intro h
  have hwords : Name.a.product.words = [.name .a, .symbol .star, .name .a] := rfl
  have hless : Word.symbol .less ∉ Name.a.product.words := by simp [hwords]
  have hv : validate ⟨.default, true, [], []⟩ (textOf Name.a.product.words) =
      .ok ⟨.v14, [⟨.error, "CS1002", "; expected", ⟨⟨1, 6, 5⟩, ⟨1, 6, 5⟩⟩, .grammar⟩]⟩ := by
    decide +kernel
  have hnone := h _ _ hless hv (by simp [GrammarError.code])
  contradiction

end CSharpCheck.Core
