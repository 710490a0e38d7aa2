import CSharpCheck.Proofs.Reading.Invariants
import CSharpCheck.Proofs.Rules.Declarations

/-!
# Rules and the order of statements

No rule for a nonterminal reports a statement to be out of place. This is left to the rule for whole
texts.
-/

namespace CSharpCheck

namespace Rule

variable {α : Type}

/-- Without the order of statements no error about it is reported. -/
theorem reportsOnly_without_order (r : Rule α) :
    (r.without .order).ReportsOnly (· ≠ .statementAfterDeclarations) := by
  induction r with
  | pure result => exact True.intro
  | report place error next ih =>
    by_cases he : error = .statementAfterDeclarations
    · rw [without, if_pos ⟨rfl, he⟩]
      exact ih
    · rw [without, if_neg fun h ↦ he h.2]
      exact ⟨he, ih⟩
  | call q next ih => cases q <;> exact ih
  | loop init round next ihround ih => exact ⟨ihround, ih⟩
  | within kind body next ihbody ih => exact ⟨ihbody, ih⟩
  | _ => assumption

theorem reportsOnly_of_without {r : Rule α} (h : r.without .order = r) :
    r.ReportsOnly (· ≠ .statementAfterDeclarations) :=
  h ▸ r.reportsOnly_without_order

@[simp] theorem without_order_script (next : Bool → Rule α) :
    (script next).without .order = script fun isScript ↦ (next isScript).without .order := rfl

@[simp] theorem without_order_namespace (next : Bool → Rule α) :
    (call .namespaceDeclaration next).without .order =
      call .namespaceDeclaration fun fileScoped ↦ (next fileScoped).without .order := rfl

@[simp] theorem without_order_expressionStatement (topLevel : Bool) :
    (expressionStatement topLevel).without .order = expressionStatement topLevel := by
  simp [expressionStatement]

@[simp] theorem without_order_statementRule (topLevel : Bool) :
    (statementRule topLevel).without .order = statementRule topLevel := by
  refine congrArg look (funext fun v ↦ ?_)
  cases hword : wordStatementAhead v.ahead with
  | some rule => simp [hword, without_wordStatementAhead hword]
  | none =>
    cases hkind : v.ahead.localKind with
    | none => simp [hword, hkind]
    | some kind => cases kind <;> simp [hword, hkind]

/-- In a namespace there are no statements. -/
@[simp] theorem without_order_unitElement (state : UnitState) :
    (unitElement true state).without .order = unitElement true state := by
  simp [unitElement]

@[simp] theorem without_order_unitElements :
    (unitElements true).without .order = unitElements true := by
  simp [unitElements, elementOrRecover]

@[simp] theorem without_order_namespaceRule : namespaceRule.without .order = namespaceRule := by
  simp [namespaceRule, namespaceRest, namespaceBody]

end Rule

/-- No nonterminal is concerned with the order of statements. -/
theorem grammarRules_without_order (q : Nonterminal) :
    (grammarRules q).without .order = grammarRules q := by
  cases q <;> simp [grammarRules]

end CSharpCheck
