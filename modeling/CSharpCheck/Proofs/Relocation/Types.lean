import CSharpCheck.Proofs.Relocation.Rules

/-!
# Types, attributes and blocks on relocated tokens

The rules for what declarations, statements and expressions have in common do on relocated tokens
what they do on the tokens themselves.
-/

namespace CSharpCheck.Rule

variable (m : Relocation) (n : Nat)

/-! ### Names and types -/

@[simp] theorem onRelocated_type (inExpression : Bool) :
    (type inExpression).onRelocated m n = (type inExpression).relocate m n := by
  refine congrArg look (funext fun v ↦ ?_)
  cases hstop : (v.ahead.typeScan inExpression).stop <;> simp [hstop, GrammarError.relocate]

@[simp] theorem onRelocated_needType :
    needType.onRelocated m n = needType.relocate m n := by simp [needType]

@[simp] theorem onRelocated_genericSuffix :
    genericSuffix.onRelocated m n = genericSuffix.relocate m n := by
  refine congrArg look (funext fun v ↦ ?_)
  cases hstop : v.ahead.expressionArgumentsEnd <;> simp [hstop]

@[simp] theorem onRelocated_namePart :
    namePart.onRelocated m n = namePart.relocate m n := by simp [namePart]

@[simp] theorem onRelocated_dottedName : dottedName.onRelocated m n = dottedName.relocate m n := by
  simp [dottedName]

/-! ### Attributes -/

@[simp] theorem onRelocated_attributeArguments :
    attributeArguments.onRelocated m n = attributeArguments.relocate m n := by
  simp [attributeArguments]

@[simp] theorem onRelocated_attributeItem :
    attributeItem.onRelocated m n = attributeItem.relocate m n := by
  refine congrArg look (funext fun v ↦ ?_)
  have hless (ts : Ahead) := ts.findIdx?_relocate m (p := (·.is .less)) (by simp)
  cases hstop : v.ahead.nameScan.stop with
  | none => simp [hstop]
  | some length =>
    cases h : (v.ahead.take length).findIdx? (·.is .less) <;> simp [hstop, hless, h]

/-- The target of an attribute section is the relocated token. -/
theorem onRelocated_attributeSection :
    attributeSection.onRelocated m n =
      Option.map (·.relocate m) <$> attributeSection.relocate m n := by
  refine congrArg (advance 1) (congrArg look (funext fun v ↦ ?_))
  rcases hahead : v.ahead with _ | ⟨t, _ | ⟨colon, ts⟩⟩
  · simp [hahead]
  · simp [hahead]
  · simp only [hahead]
    by_cases h : (t.isIdentifier || t.isKeyword) && colon.is .colon
    · simp [hahead, h]
    · simp [hahead, h]

@[simp] theorem onRelocated_attributeSections :
    attributeSections.onRelocated m n = attributeSections.relocate m n := by
  simp [attributeSections, onRelocated_attributeSection]

/-! ### Parameters -/

theorem parameterModifier?_relocate (ts : Ahead) :
    parameterModifier? (ts.relocate m) = (parameterModifier? ts).map (·.relocate m) := by
  cases ts with
  | nil => rfl
  | cons t rest =>
    have hscoped : (t.relocate m).isContextual "scoped" = t.isContextual "scoped" :=
      t.isContextual_relocate m (by decide)
    simp [parameterModifier?, hscoped]

theorem parameterModifierFeature?_relocate (before : List Placed) (t : Token) :
    parameterModifierFeature? (before.map (·.relocate m)) (t.relocate m) =
      parameterModifierFeature? before t := by
  simp [parameterModifierFeature?, Option.any_map]

/-- The parameter modifiers are the relocated tokens. -/
theorem onRelocated_parameterModifiers :
    parameterModifiers.onRelocated m n =
      List.map (·.relocate m) <$> parameterModifiers.relocate m n := by
  refine onRelocated_collecting m n fun before ↦ congrArg look (funext fun v ↦ ?_)
  cases hmodifier : parameterModifier? v.ahead with
  | none => simp [parameterModifier?_relocate, hmodifier, Round.map]
  | some t =>
    cases hfeature : parameterModifierFeature? before t <;>
      simp [parameterModifier?_relocate, hmodifier, parameterModifierFeature?_relocate, hfeature,
        Round.map]

@[simp] theorem onRelocated_defaultValue (f : Feature) :
    (defaultValue f).onRelocated m n = (defaultValue f).relocate m n := by
  simp [defaultValue]

@[simp] theorem onRelocated_parameterList (opening closing : Symbol) :
    (parameterList opening closing).onRelocated m n =
      (parameterList opening closing).relocate m n := by
  simp [parameterList, onRelocated_parameterModifiers]

@[simp] theorem onRelocated_parameters : parameters.onRelocated m n = parameters.relocate m n := by
  simp [parameters]

@[simp] theorem onRelocated_typeParameters :
    typeParameters.onRelocated m n = typeParameters.relocate m n := by
  simp [typeParameters]

@[simp] theorem onRelocated_optionalTypeParameters :
    optionalTypeParameters.onRelocated m n = optionalTypeParameters.relocate m n := by
  simp [optionalTypeParameters]

@[simp] theorem onRelocated_typeConstraint :
    typeConstraint.onRelocated m n = typeConstraint.relocate m n := by
  simp +decide [typeConstraint]

@[simp] theorem onRelocated_constraintClauses :
    constraintClauses.onRelocated m n = constraintClauses.relocate m n := by
  simp +decide [constraintClauses]

/-! ### Blocks -/

@[simp] theorem onRelocated_moves (rule : Rule Unit) :
    (moves rule).onRelocated m n = moves (rule.onRelocated m n) := by
  simp [moves]

@[simp] theorem relocate_moves (rule : Rule Unit) :
    (moves rule).relocate m n = moves (rule.relocate m n) := by
  simp [moves]

@[simp] theorem onRelocated_recover (inStatement : Bool) :
    (recover inStatement).onRelocated m n = (recover inStatement).relocate m n := by
  simp [recover]

@[simp] theorem onRelocated_statementOrRecover (rule : Rule Unit) :
    (statementOrRecover rule).onRelocated m n =
      (do
        unless ← moves (rule.onRelocated m n) do
          errorHere (.invalidTerm (m.text (← nextText)))
          Rule.relocate m n (recover true)) := by
  simp [statementOrRecover]

@[simp] theorem relocate_statementOrRecover (rule : Rule Unit) :
    (statementOrRecover rule).relocate m n =
      (do
        unless ← moves (rule.relocate m n) do
          errorHere (.invalidTerm (m.text (← nextText)))
          Rule.relocate m n (recover true)) := by
  simp [statementOrRecover, GrammarError.relocate]

@[simp] theorem onRelocated_statements (inSwitch : Bool) :
    (statements inSwitch).onRelocated m n = (statements inSwitch).relocate m n := by
  simp [statements, Ahead.isSwitchLabel]

@[simp] theorem onRelocated_block : block.onRelocated m n = block.relocate m n := by simp [block]

@[simp] theorem onRelocated_expressionBody :
    expressionBody.onRelocated m n = expressionBody.relocate m n := by
  simp [expressionBody]

@[simp] theorem onRelocated_inInterface :
    inInterface.onRelocated m n = inInterface.relocate m n := rfl

@[simp] theorem onRelocated_body (f : Option Feature) :
    (body f).onRelocated m n = (body f).relocate m n := by
  cases f <;> simp [body]

@[simp] theorem onRelocated_condition : condition.onRelocated m n = condition.relocate m n := by
  simp [condition]

@[simp] theorem onRelocated_variableInitializer :
    variableInitializer.onRelocated m n = variableInitializer.relocate m n := by
  simp [variableInitializer]

end CSharpCheck.Rule
