import CSharpCheck.Grammar.Pattern
import CSharpCheck.Proofs.Rules.Concerns

/-!
# Types, expressions and patterns have no concerns of whole texts
-/

namespace CSharpCheck.Rule

variable {c : Concern}

/-! ### Recovery -/

@[simp] theorem without_recover (inStatement : Bool) :
    (recover inStatement).without c = recover inStatement := by
  simp [recover]

/-! ### Types -/

@[simp] theorem without_type (inExpression : Bool) :
    (type inExpression).without c = type inExpression := by
  refine congrArg look (funext fun v ↦ ?_)
  dsimp only
  split <;> simp

@[simp] theorem without_needType : needType.without c = needType := by
  simp [needType]

@[simp] theorem without_genericSuffix : genericSuffix.without c = genericSuffix := by
  refine congrArg look (funext fun v ↦ ?_)
  dsimp only
  rw [without_ite]
  refine ite_congr rfl (fun _ ↦ ?_) fun _ ↦ rfl
  split <;> simp

@[simp] theorem without_namePart : namePart.without c = namePart := by
  simp [namePart]

@[simp] theorem without_dottedName : dottedName.without c = dottedName := by
  simp [dottedName]

@[simp] theorem without_attributeArguments : attributeArguments.without c = attributeArguments := by
  simp [attributeArguments]

@[simp] theorem without_attributeItem : attributeItem.without c = attributeItem := by
  refine congrArg look (funext fun v ↦ ?_)
  dsimp only
  split
  · simp
  · split <;> simp

@[simp] theorem without_attributeSection : attributeSection.without c = attributeSection := by
  rw [attributeSection, without_bind, without_skipToken]
  refine bind_congr fun _ ↦ ?_
  rw [without_bind]
  refine congr (congrArg bind (congrArg look (funext fun v ↦ ?_))) (funext fun target ↦ by simp)
  dsimp only
  split <;> simp

@[simp] theorem without_attributeSections : attributeSections.without c = attributeSections := by
  simp [attributeSections]

@[simp] theorem without_parameterModifiers : parameterModifiers.without c = parameterModifiers := by
  refine congrArg (loop [] · pure) (funext fun modifiers ↦ congrArg look (funext fun v ↦ ?_))
  dsimp only
  split
  · rfl
  · split <;> simp

@[simp] theorem without_defaultValue (f : Feature) : (defaultValue f).without c = defaultValue f := by
  simp [defaultValue]

@[simp] theorem without_parameterList (opening closing : Symbol) :
    (parameterList opening closing).without c = parameterList opening closing := by
  simp [parameterList]

@[simp] theorem without_parameters : parameters.without c = parameters := by
  simp [parameters]

@[simp] theorem without_typeParameters : typeParameters.without c = typeParameters := by
  simp [typeParameters]

@[simp] theorem without_optionalTypeParameters :
    optionalTypeParameters.without c = optionalTypeParameters := by
  simp [optionalTypeParameters]

@[simp] theorem without_typeConstraint : typeConstraint.without c = typeConstraint := by
  simp [typeConstraint]

@[simp] theorem without_constraintClauses : constraintClauses.without c = constraintClauses := by
  simp [constraintClauses]

/-! ### Blocks and bodies -/

@[simp] theorem without_moves (rule : Rule Unit) : (moves rule).without c = moves (rule.without c) := by
  simp [moves]

@[simp] theorem without_statementOrRecover (rule : Rule Unit) :
    (statementOrRecover rule).without c = statementOrRecover (rule.without c) := by
  simp [statementOrRecover]

@[simp] theorem without_statements (inSwitch : Bool) :
    (statements inSwitch).without c = statements inSwitch := by
  simp [statements]

@[simp] theorem without_block : block.without c = block := by
  simp [block]

@[simp] theorem without_expressionBody : expressionBody.without c = expressionBody := by
  simp [expressionBody]

@[simp] theorem without_inInterface : inInterface.without c = inInterface := by
  simp [inInterface]

@[simp] theorem without_body (expressionFeature : Option Feature) :
    (body expressionFeature).without c = body expressionFeature := by
  cases expressionFeature <;> simp [body]

@[simp] theorem without_condition : condition.without c = condition := by
  simp [condition]

@[simp] theorem without_variableInitializer : variableInitializer.without c = variableInitializer := by
  simp [variableInitializer]

/-! ### Expressions -/

@[simp] theorem without_argument (closing : Symbol) :
    (argument closing).without c = argument closing := by
  simp [argument]

@[simp] theorem without_arguments (closing : Symbol) :
    (arguments closing).without c = arguments closing := by
  simp [arguments]

@[simp] theorem without_initializerRule : initializerRule.without c = initializerRule := by
  simp [initializerRule]

@[simp] theorem without_objectInitializer : objectInitializer.without c = objectInitializer := by
  simp [objectInitializer]

@[simp] theorem without_optionalObjectInitializer :
    optionalObjectInitializer.without c = optionalObjectInitializer := by
  simp [optionalObjectInitializer]

@[simp] theorem without_optionalInitializer : optionalInitializer.without c = optionalInitializer := by
  simp [optionalInitializer]

@[simp] theorem without_rankCommas : rankCommas.without c = rankCommas := by
  simp [rankCommas]

@[simp] theorem without_creationRest (isArray : Bool) :
    (creationRest isArray).without c = creationRest isArray := by
  simp [creationRest]

@[simp] theorem without_afterBracket : afterBracket.without c = afterBracket := by
  simp [afterBracket]

@[simp] theorem without_creation : creation.without c = creation := by
  simp [creation]

@[simp] theorem without_optionalStackInitializer :
    optionalStackInitializer.without c = optionalStackInitializer := by
  simp [optionalStackInitializer]

@[simp] theorem without_stackAllocation : stackAllocation.without c = stackAllocation := by
  simp [stackAllocation]

@[simp] theorem without_tupleElement (count : TupleCount) :
    (tupleElement count).without c = tupleElement count := by
  simp [tupleElement]

@[simp] theorem without_requireTuple (start : Nat) (count : TupleCount) :
    (requireTuple start count).without c = requireTuple start count := by
  simp [requireTuple]

@[simp] theorem without_parenthesized : parenthesized.without c = parenthesized := by
  simp [parenthesized]

@[simp] theorem without_collection : collection.without c = collection := by
  simp [collection]

@[simp] theorem without_requireTokenFeatures (index : Nat) (features : List Feature) :
    (requireTokenFeatures index features).without c = requireTokenFeatures index features := by
  induction features with
  | nil => rfl
  | cons f fs ih => simp [requireTokenFeatures, ih]

@[simp] theorem without_tokenWithFeatures :
    tokenWithFeatures.without c = tokenWithFeatures := by
  simp [tokenWithFeatures]

@[simp] theorem without_holeRule : holeRule.without c = holeRule := by
  simp [holeRule]

@[simp] theorem without_interpolatedString : interpolatedString.without c = interpolatedString := by
  simp [interpolatedString]

@[simp] theorem without_rangeClause : rangeClause.without c = rangeClause := by
  simp [rangeClause]

@[simp] theorem without_acceptContextual (word : String) :
    (acceptContextual word).without c = acceptContextual word := by
  simp [acceptContextual]

@[simp] theorem without_continuation : continuation.without c = continuation := by
  simp [continuation]

@[simp] theorem without_queryClause : queryClause.without c = queryClause := by
  simp [queryClause]

@[simp] theorem without_query : query.without c = query := by
  simp [query]

@[simp] theorem without_nameExpression : nameExpression.without c = nameExpression := by
  simp [nameExpression]

@[simp] theorem without_typeInParentheses : typeInParentheses.without c = typeInParentheses := by
  simp [typeInParentheses]

theorem without_wordExpression (k : Keyword) : (wordExpression k).map (without c) = wordExpression k := by
  cases k <;> simp [wordExpression, Keyword.namesType]

@[simp] theorem without_primary : primary.without c = primary := by
  refine congrArg look (funext fun v ↦ ?_)
  dsimp only
  split
  all_goals try simp
  next k _ =>
    have hword := without_wordExpression (c := c) k
    cases h : wordExpression k <;> simp_all

@[simp] theorem without_postfixPart : postfixPart.without c = postfixPart := by
  simp [postfixPart]

@[simp] theorem without_postfixExpression : postfixExpression.without c = postfixExpression := by
  rw [postfixExpression, without_bind, without_primary]
  refine bind_congr fun _ ↦ congrArg (loop false · pure) (funext fun state ↦ ?_)
  rw [without_bind, without_postfixPart]
  exact bind_congr fun part ↦ by cases part <;> rfl

@[simp] theorem without_switchArms (start : Nat) : (switchArms start).without c = switchArms start := by
  simp [switchArms]

@[simp] theorem without_rightOperand (op : Operator) (start : Nat) (operand : Rule Bool) :
    (rightOperand op start operand).without c = rightOperand op start (operand.without c) := by
  unfold rightOperand
  split <;> simp

@[simp] theorem without_binaryRound (precedence : Nat) (operand : Nat → Rule Bool)
    (conditional : Bool) : (binaryRound precedence operand conditional).without c =
      binaryRound precedence (fun p ↦ (operand p).without c) conditional := by
  refine congrArg look (funext fun v ↦ ?_)
  dsimp only
  split
  · rfl
  · split <;> simp

@[simp] theorem without_binaryWithin (room precedence : Nat) :
    (binaryWithin room precedence).without c = binaryWithin room precedence := by
  induction room generalizing precedence with
  | zero => rfl
  | succ room ih => simp [binaryWithin, ih]

@[simp] theorem without_binary (precedence : Nat) :
    (binary precedence).without c = binary precedence := by
  simp [binary]

@[simp] theorem without_conditional : conditional.without c = conditional := by
  simp [conditional]

@[simp] theorem without_unaryRule : unaryRule.without c = unaryRule := by
  simp [unaryRule]

@[simp] theorem without_lambdaParameters : lambdaParameters.without c = lambdaParameters := by
  simp only [lambdaParameters, without_bind, without_expect, without_ite, without_accept, without_pure,
    without_commaSeparated, without_need, without_attributeSections, without_parameterModifiers, without_ask,
    without_needIdentifier, without_defaultValue]
  refine bind_congr fun opened ↦ ite_congr rfl (fun _ ↦ ?_) fun _ ↦ rfl
  refine bind_congr fun closed ↦ ite_congr rfl (fun _ ↦ rfl) fun _ ↦ ?_
  refine congrArg (fun item ↦ commaSeparated item >>= _) ?_
  refine bind_congr fun _ ↦ bind_congr fun modifiers ↦ bind_congr fun untyped ↦ ?_
  refine ite_congr rfl (fun _ ↦ ?_) fun _ ↦ by simp
  cases modifiers <;> rfl

@[simp] theorem without_lambdaModifiers : lambdaModifiers.without c = lambdaModifiers := by
  simp [lambdaModifiers]

@[simp] theorem without_lambdaSignature : lambdaSignature.without c = lambdaSignature := by
  simp [lambdaSignature]

@[simp] theorem without_lambda : lambda.without c = lambda := by
  simp [lambda]

@[simp] theorem without_expressionRule : expressionRule.without c = expressionRule := by
  refine congrArg (loop false · pure) (funext fun _ ↦ ?_)
  simp only [without_bind, without_ask, without_ite, without_lambda, without_conditional]
  refine bind_congr fun isLambda ↦ ?_
  split
  · rfl
  · refine bind_congr fun access ↦ congrArg look (funext fun v ↦ ?_)
    dsimp only
    split <;> simp

/-! ### Patterns -/

@[simp] theorem without_designation : designation.without c = designation := by
  simp [designation]

@[simp] theorem without_subpattern (count : SubpatternCount) :
    (subpattern count).without c = subpattern count := by
  simp [subpattern]

@[simp] theorem without_subpatterns : subpatterns.without c = subpatterns := by
  simp [subpatterns]

@[simp] theorem without_propertyName : propertyName.without c = propertyName := by
  simp [propertyName]

@[simp] theorem without_propertyPattern : propertyPattern.without c = propertyPattern := by
  simp [propertyPattern]

@[simp] theorem without_optionalPropertyPattern :
    optionalPropertyPattern.without c = optionalPropertyPattern := by
  simp [optionalPropertyPattern]

@[simp] theorem without_listPattern : listPattern.without c = listPattern := by
  simp [listPattern]

@[simp] theorem without_parenthesizedPattern : parenthesizedPattern.without c = parenthesizedPattern := by
  simp [parenthesizedPattern]

@[simp] theorem without_typedPattern (length : Nat) :
    (typedPattern length).without c = typedPattern length := by
  simp [typedPattern]

@[simp] theorem without_constantPattern : constantPattern.without c = constantPattern := by
  simp [constantPattern]

@[simp] theorem without_primaryPattern : primaryPattern.without c = primaryPattern := by
  refine congrArg look (funext fun v ↦ ?_)
  cases hstop : (v.ahead.typeScan true).stop with
  | none => simp [hstop]
  | some length =>
    simp only [hstop, without_ite]
    refine ite_congr rfl (fun _ ↦ by simp) fun _ ↦ ?_
    refine ite_congr rfl (fun _ ↦ by simp) fun _ ↦ ?_
    refine ite_congr rfl (fun _ ↦ by simp) fun _ ↦ ?_
    refine ite_congr rfl (fun _ ↦ by simp) fun _ ↦ ?_
    refine ite_congr rfl (fun _ ↦ by simp) fun _ ↦ ?_
    refine ite_congr rfl (fun _ ↦ by simp) fun _ ↦ ?_
    rw [without_bind, without_typedPattern]
    exact bind_congr fun kind ↦ by cases kind <;> simp

@[simp] theorem without_notPattern : notPattern.without c = notPattern := by
  simp [notPattern]

@[simp] theorem without_joinedPatterns (word : String) (item : Rule (Option PatternKind)) :
    (joinedPatterns word item).without c = joinedPatterns word (item.without c) := by
  simp [joinedPatterns]

@[simp] theorem without_patternRule : patternRule.without c = patternRule := by
  simp [patternRule]

@[simp] theorem without_varDesignationRule : varDesignationRule.without c = varDesignationRule := by
  simp [varDesignationRule]

end CSharpCheck.Rule
