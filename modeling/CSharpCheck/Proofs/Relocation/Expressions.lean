import CSharpCheck.Proofs.Relocation.Types

/-!
# Expressions and patterns on relocated tokens

The rules for expressions and patterns do on relocated tokens what they do on the tokens
themselves.
-/

namespace CSharpCheck.Rule

variable (m : Relocation) (n : Nat)

/-! ### Arguments and initializers -/

@[simp] theorem onRelocated_argument (closing : Symbol) :
    (argument closing).onRelocated m n = (argument closing).relocate m n := by
  simp [argument]

@[simp] theorem onRelocated_arguments (closing : Symbol) :
    (arguments closing).onRelocated m n = (arguments closing).relocate m n := by
  simp [arguments]

@[simp] theorem onRelocated_initializerRule :
    initializerRule.onRelocated m n = initializerRule.relocate m n := by
  simp [initializerRule]

@[simp] theorem onRelocated_objectInitializer :
    objectInitializer.onRelocated m n = objectInitializer.relocate m n := by
  simp [objectInitializer]

@[simp] theorem onRelocated_optionalObjectInitializer :
    optionalObjectInitializer.onRelocated m n = optionalObjectInitializer.relocate m n := by
  simp [optionalObjectInitializer]

@[simp] theorem onRelocated_optionalInitializer :
    optionalInitializer.onRelocated m n = optionalInitializer.relocate m n := by
  simp [optionalInitializer]

@[simp] theorem onRelocated_rankCommas : rankCommas.onRelocated m n = rankCommas.relocate m n := by
  simp [rankCommas]

@[simp] theorem onRelocated_creationRest (isArray : Bool) :
    (creationRest isArray).onRelocated m n = (creationRest isArray).relocate m n := by
  simp [creationRest, GrammarError.relocate]

@[simp] theorem onRelocated_afterBracket :
    afterBracket.onRelocated m n = afterBracket.relocate m n := by
  simp [afterBracket, Option.any_map]

@[simp] theorem onRelocated_creation : creation.onRelocated m n = creation.relocate m n := by
  simp [creation]

@[simp] theorem onRelocated_optionalStackInitializer :
    optionalStackInitializer.onRelocated m n = optionalStackInitializer.relocate m n := by
  simp [optionalStackInitializer]

@[simp] theorem onRelocated_stackAllocation :
    stackAllocation.onRelocated m n = stackAllocation.relocate m n := by
  simp [stackAllocation]

/-! ### Primary expressions -/

@[simp] theorem onRelocated_tupleElement (count : TupleCount) :
    (tupleElement count).onRelocated m n = (tupleElement count).relocate m n := by
  simp [tupleElement]

@[simp] theorem onRelocated_requireTuple (start : Nat) (count : TupleCount) :
    (requireTuple start count).onRelocated m n = (requireTuple start count).relocate m n := by
  simp [requireTuple]

@[simp] theorem onRelocated_parenthesized :
    parenthesized.onRelocated m n = parenthesized.relocate m n := by
  simp [parenthesized]

@[simp] theorem onRelocated_collection : collection.onRelocated m n = collection.relocate m n := by
  simp [collection]

@[simp] theorem onRelocated_requireTokenFeatures (index : Nat) (features : List Feature) :
    (requireTokenFeatures index features).onRelocated m n =
      (requireTokenFeatures index features).relocate m n := by
  induction features with
  | nil => rfl
  | cons f features ih => simp [requireTokenFeatures, ih]

@[simp] theorem onRelocated_tokenWithFeatures :
    tokenWithFeatures.onRelocated m n = tokenWithFeatures.relocate m n := by
  simp [tokenWithFeatures, Function.comp_def]

@[simp] theorem onRelocated_holeRule : holeRule.onRelocated m n = holeRule.relocate m n := by
  simp [holeRule, GrammarError.relocate]

@[simp] theorem onRelocated_interpolatedString :
    interpolatedString.onRelocated m n = interpolatedString.relocate m n := by
  simp [interpolatedString]

@[simp] theorem onRelocated_rangeClause :
    rangeClause.onRelocated m n = rangeClause.relocate m n := by
  simp [rangeClause]

@[simp] theorem onRelocated_acceptContextual {word : String} (hword : OneLine word) :
    (acceptContextual word).onRelocated m n = (acceptContextual word).relocate m n := by
  simp [acceptContextual, hword]

@[simp] theorem onRelocated_continuation :
    continuation.onRelocated m n = continuation.relocate m n := by
  simp +decide [continuation]

@[simp] theorem onRelocated_queryClause :
    queryClause.onRelocated m n = queryClause.relocate m n := by
  simp +decide [queryClause]

@[simp] theorem onRelocated_query : query.onRelocated m n = query.relocate m n := by
  simp +decide [query, GrammarError.relocate]

@[simp] theorem onRelocated_nameExpression :
    nameExpression.onRelocated m n = nameExpression.relocate m n := by
  simp +decide [nameExpression]

@[simp] theorem onRelocated_typeInParentheses :
    typeInParentheses.onRelocated m n = typeInParentheses.relocate m n := by
  simp [typeInParentheses]

/-- The rules for reserved words are the same. -/
theorem onRelocated_wordExpression (k : Keyword) :
    (wordExpression k).map (·.onRelocated m n) = (wordExpression k).map (·.relocate m n) := by
  cases k <;> simp [wordExpression, Keyword.namesType]

@[simp] theorem onRelocated_primary : primary.onRelocated m n = primary.relocate m n := by
  refine congrArg look (funext fun v ↦ ?_)
  have hkinds : (v.ahead.relocate m).head?.map Token.kind = v.ahead.head?.map Token.kind := by
    cases v.ahead <;> rfl
  simp only [View.ahead_relocate, hkinds, Ahead.text_head?_relocate]
  split
  all_goals try simp [GrammarError.relocate]
  next k _ =>
    have hword := onRelocated_wordExpression m n k
    cases h : wordExpression k <;> simp_all [GrammarError.relocate]

@[simp] theorem onRelocated_postfixPart :
    postfixPart.onRelocated m n = postfixPart.relocate m n := by
  simp [postfixPart, Option.any_map]

@[simp] theorem onRelocated_postfixExpression :
    postfixExpression.onRelocated m n = postfixExpression.relocate m n := by
  rw [postfixExpression, onRelocated_bind, relocate_bind, onRelocated_primary]
  refine bind_congr fun _ ↦ onRelocated_loop m n (fun state ↦ ?_) (fun _ ↦ rfl) false
  rw [onRelocated_bind, relocate_bind, onRelocated_postfixPart]
  exact bind_congr fun part ↦ by cases part <;> rfl

/-! ### Operators -/

@[simp] theorem onRelocated_switchArms (start : Nat) :
    (switchArms start).onRelocated m n = (switchArms start).relocate m n := by
  simp +decide [switchArms]

theorem onRelocated_rightOperand (op : Operator) (start : Nat) {operand : Rule Bool}
    (h : operand.onRelocated m n = operand.relocate m n) :
    (rightOperand op start operand).onRelocated m n =
      (rightOperand op start operand).relocate m n := by
  unfold rightOperand
  split <;> simp [h, Option.any_map]

theorem onRelocated_binaryRound {precedence : Nat} {operand : Nat → Rule Bool}
    (h : ∀ p, (operand p).onRelocated m n = (operand p).relocate m n) (conditional : Bool) :
    (binaryRound precedence operand conditional).onRelocated m n =
      (binaryRound precedence operand conditional).relocate m n := by
  refine congrArg look (funext fun v ↦ ?_)
  simp only [View.ahead_relocate, Ahead.operator_relocate, View.index_relocate]
  split
  · rfl
  · next op count _ =>
    split
    · rfl
    · next p _ =>
      simp [onRelocated_rightOperand m n op v.index (h (p + 1))]

@[simp] theorem onRelocated_binaryWithin (room precedence : Nat) :
    (binaryWithin room precedence).onRelocated m n =
      (binaryWithin room precedence).relocate m n := by
  induction room generalizing precedence with
  | zero => rfl
  | succ room ih =>
    rw [binaryWithin, onRelocated_bind, relocate_bind, onRelocated_unary]
    exact bind_congr fun first ↦
      onRelocated_loop m n (onRelocated_binaryRound m n ih) (fun _ ↦ rfl) first

@[simp] theorem onRelocated_binary (precedence : Nat) :
    (binary precedence).onRelocated m n = (binary precedence).relocate m n := by
  simp [binary]

@[simp] theorem onRelocated_conditional :
    conditional.onRelocated m n = conditional.relocate m n := by
  simp [conditional]

@[simp] theorem onRelocated_unaryRule : unaryRule.onRelocated m n = unaryRule.relocate m n := by
  simp +decide [unaryRule, Option.any_map]

/-! ### Lambdas and assignments -/

@[simp] theorem onRelocated_lambdaParameters :
    lambdaParameters.onRelocated m n = lambdaParameters.relocate m n := by
  rw [lambdaParameters, onRelocated_bind, relocate_bind, onRelocated_expect]
  refine bind_congr fun opened ↦ ?_
  cases opened with
  | false => rfl
  | true =>
    simp only [if_true, onRelocated_bind, relocate_bind, onRelocated_accept, relocate_accept]
    refine bind_congr fun closed ↦ ?_
    cases closed with
    | true => rfl
    | false =>
      simp only [Bool.false_eq_true, if_false, onRelocated_bind, relocate_bind, onRelocated_need,
        onRelocated_commaSeparated, relocate_commaSeparated, onRelocated_attributeSections,
        onRelocated_parameterModifiers, bind_map_left]
      refine congrArg (fun r ↦ commaSeparatedWithin n r >>= _) ?_
      refine bind_congr fun _ ↦ bind_congr fun modifiers ↦ ?_
      cases modifiers <;> simp

@[simp] theorem onRelocated_lambdaModifiers :
    lambdaModifiers.onRelocated m n = lambdaModifiers.relocate m n := by
  simp +decide [lambdaModifiers]

@[simp] theorem onRelocated_lambdaSignature :
    lambdaSignature.onRelocated m n = lambdaSignature.relocate m n := by
  simp [lambdaSignature]

@[simp] theorem onRelocated_lambda : lambda.onRelocated m n = lambda.relocate m n := by
  simp [lambda, onRelocated_attributeSection]

@[simp] theorem onRelocated_expressionRule :
    expressionRule.onRelocated m n = expressionRule.relocate m n := by
  refine onRelocated_loop m n (fun _ ↦ ?_) (fun _ ↦ rfl) false
  simp only [onRelocated_bind, relocate_bind, onRelocated_ask, relocate_ask,
    Ahead.isLambda_relocate, onRelocated_ite, relocate_ite, onRelocated_lambda,
    onRelocated_conditional]
  refine bind_congr fun isLambda ↦ ?_
  split
  · rfl
  · refine bind_congr fun access ↦ congrArg look (funext fun v ↦ ?_)
    cases hoperator : v.ahead.operator <;> simp [hoperator]

/-! ### Patterns -/

@[simp] theorem onRelocated_designation :
    designation.onRelocated m n = designation.relocate m n := by
  simp [designation]

@[simp] theorem onRelocated_subpattern (count : SubpatternCount) :
    (subpattern count).onRelocated m n = (subpattern count).relocate m n := by
  simp [subpattern]

@[simp] theorem onRelocated_subpatterns :
    subpatterns.onRelocated m n = subpatterns.relocate m n := by
  simp [subpatterns]

@[simp] theorem onRelocated_propertyName :
    propertyName.onRelocated m n = propertyName.relocate m n := by
  simp [propertyName]

@[simp] theorem onRelocated_propertyPattern :
    propertyPattern.onRelocated m n = propertyPattern.relocate m n := by
  simp [propertyPattern]

@[simp] theorem onRelocated_optionalPropertyPattern :
    optionalPropertyPattern.onRelocated m n = optionalPropertyPattern.relocate m n := by
  simp [optionalPropertyPattern]

@[simp] theorem onRelocated_listPattern :
    listPattern.onRelocated m n = listPattern.relocate m n := by
  simp [listPattern]

@[simp] theorem onRelocated_parenthesizedPattern :
    parenthesizedPattern.onRelocated m n = parenthesizedPattern.relocate m n := by
  simp [parenthesizedPattern]

@[simp] theorem onRelocated_typedPattern (length : Nat) :
    (typedPattern length).onRelocated m n = (typedPattern length).relocate m n := by
  simp [typedPattern]

@[simp] theorem onRelocated_constantPattern :
    constantPattern.onRelocated m n = constantPattern.relocate m n := by
  simp [constantPattern]

@[simp] theorem onRelocated_primaryPattern :
    primaryPattern.onRelocated m n = primaryPattern.relocate m n := by
  refine congrArg look (funext fun v ↦ ?_)
  cases hstop : (v.ahead.typeScan true).stop with
  | none => simp +decide [hstop]
  | some length =>
    simp +decide only [View.ahead_relocate, Ahead.typeScan_relocate, hstop, Ahead.isOneOf_relocate,
      Ahead.is_relocate, Ahead.isContextual_relocate, Ahead.tail_relocate,
      Ahead.isIdentifier_relocate]
    split_ifs
    all_goals try simp; done
    rw [onRelocated_bind, relocate_bind, onRelocated_typedPattern]
    exact bind_congr fun kind ↦ by cases kind <;> simp

@[simp] theorem onRelocated_notPattern : notPattern.onRelocated m n = notPattern.relocate m n := by
  simp +decide [notPattern]

theorem onRelocated_joinedPatterns {word : String} (hword : OneLine word)
    {item : Rule (Option PatternKind)} (h : item.onRelocated m n = item.relocate m n) :
    (joinedPatterns word item).onRelocated m n = (joinedPatterns word item).relocate m n := by
  simp [joinedPatterns, hword, h]

@[simp] theorem onRelocated_patternRule : patternRule.onRelocated m n = patternRule.relocate m n :=
  onRelocated_joinedPatterns m n (by decide)
    (onRelocated_joinedPatterns m n (by decide) (onRelocated_notPattern m n))

@[simp] theorem onRelocated_varDesignationRule :
    varDesignationRule.onRelocated m n = varDesignationRule.relocate m n := by
  simp [varDesignationRule]

end CSharpCheck.Rule
