import CSharpCheck.Grammar.CompilationUnit
import CSharpCheck.Proofs.Rules.Expressions

/-!
# Statements and declarations without concerns of whole texts

All statements but expressions at the top level, all declarations but namespaces, and the using
directives are the same in scripts, and they do not report a statement to be out of place.
-/

namespace CSharpCheck.Rule

variable {c : Concern}

/-! ### Statements -/

@[simp] theorem without_localModifierList : localModifierList.without c = localModifierList := by
  refine congrArg (loop [] · pure) (funext fun modifiers ↦ congrArg look (funext fun v ↦ ?_))
  dsimp only
  split
  · rfl
  · rw [without_ite]
    refine ite_congr rfl (fun _ ↦ ?_) fun _ ↦ rfl
    split <;> simp

@[simp] theorem without_variableDeclarators : variableDeclarators.without c = variableDeclarators := by
  simp [variableDeclarators]

@[simp] theorem without_localVariables : localVariables.without c = localVariables := by
  simp [localVariables]

@[simp] theorem without_localDeclaration : localDeclaration.without c = localDeclaration := by
  simp [localDeclaration]

@[simp] theorem without_requireAtWord (k : Keyword) (f : Feature) (modifiers : List Placed) :
    (requireAtWord k f modifiers).without c = requireAtWord k f modifiers := by
  induction modifiers with
  | nil => rfl
  | cons m ms ih => simp [requireAtWord, ih]

@[simp] theorem without_localFunction : localFunction.without c = localFunction := by
  simp [localFunction]

@[simp] theorem without_embeddedStatement : embeddedStatement.without c = embeddedStatement := by
  simp [embeddedStatement]

@[simp] theorem without_ifStatement : ifStatement.without c = ifStatement := by
  simp [ifStatement]

@[simp] theorem without_guardedStatement : guardedStatement.without c = guardedStatement := by
  simp [guardedStatement]

@[simp] theorem without_doStatement : doStatement.without c = doStatement := by
  simp [doStatement]

@[simp] theorem without_variablesOr (other : Rule Unit) :
    (variablesOr other).without c = variablesOr (other.without c) := by
  simp [variablesOr]

@[simp] theorem without_forStatement : forStatement.without c = forStatement := by
  simp [forStatement]

@[simp] theorem without_foreachVariable : foreachVariable.without c = foreachVariable := by
  simp [foreachVariable]

@[simp] theorem without_foreachStatement : foreachStatement.without c = foreachStatement := by
  simp [foreachStatement]

@[simp] theorem without_switchLabel : switchLabel.without c = switchLabel := by
  simp [switchLabel]

@[simp] theorem without_switchStatement : switchStatement.without c = switchStatement := by
  simp [switchStatement]

@[simp] theorem without_catchClause : catchClause.without c = catchClause := by
  simp [catchClause]

@[simp] theorem without_tryStatement : tryStatement.without c = tryStatement := by
  simp [tryStatement]

@[simp] theorem without_usingStatement : usingStatement.without c = usingStatement := by
  simp [usingStatement]

@[simp] theorem without_fixedStatement : fixedStatement.without c = fixedStatement := by
  simp [fixedStatement]

@[simp] theorem without_jumpStatement : jumpStatement.without c = jumpStatement := by
  simp [jumpStatement]

@[simp] theorem without_gotoStatement : gotoStatement.without c = gotoStatement := by
  simp [gotoStatement]

@[simp] theorem without_returnStatement : returnStatement.without c = returnStatement := by
  simp [returnStatement]

@[simp] theorem without_yieldStatement : yieldStatement.without c = yieldStatement := by
  simp [yieldStatement]

/-- No statement that begins with a reserved word of its own has a concern of whole texts. -/
theorem without_wordStatementAhead {ts : Ahead} {rule : Rule Unit}
    (h : wordStatementAhead ts = some rule) : rule.without c = rule := by
  unfold wordStatementAhead at h
  split at h
  · next k _ =>
    cases k <;> first | contradiction | (cases h; simp)
  · contradiction

/-! ### Declarations -/

@[simp] theorem without_requireAtPlace (f : Feature) (place : Option Nat) :
    (requireAtPlace f place).without c = requireAtPlace f place := by
  cases place <;> rfl

@[simp] theorem without_requireAtText (text : String) (f : Feature) (modifiers : List Placed) :
    (requireAtText text f modifiers).without c = requireAtText text f modifiers := by
  induction modifiers with
  | nil => rfl
  | cons m ms ih => simp [requireAtText, ih]

@[simp] theorem without_requireModifiers (modifiers : List Placed) :
    (requireModifiers modifiers).without c = requireModifiers modifiers := by
  induction modifiers with
  | nil => rfl
  | cons m ms ih =>
    rw [requireModifiers]
    split <;> simp [ih]

@[simp] theorem without_requireReferences (previous : Option Token) (modifiers : List Placed) :
    (requireReferences previous modifiers).without c = requireReferences previous modifiers := by
  induction modifiers generalizing previous with
  | nil => rfl
  | cons m ms ih => simp [requireReferences, ih]

@[simp] theorem without_requireReadonlyMember (modifiers : List Placed) :
    (requireReadonlyMember modifiers).without c = requireReadonlyMember modifiers :=
  without_requireAtWord _ _ _

@[simp] theorem without_modifierList : modifierList.without c = modifierList := by
  refine congrArg look (funext fun v ↦ ?_)
  dsimp only
  rw [without_bind, without_skip]
  refine bind_congr fun _ ↦ ?_
  split <;> simp

@[simp] theorem without_qualifiedPart : qualifiedPart.without c = qualifiedPart := by
  simp [qualifiedPart]

@[simp] theorem without_memberName : memberName.without c = memberName := by
  rw [memberName, without_bind, without_skipToken]
  refine bind_congr fun _ ↦ congrArg (loop false · pure) (funext fun _ ↦ ?_)
  refine congrArg look (funext fun v ↦ ?_)
  dsimp only
  split <;> simp

@[simp] theorem without_invalidMember : invalidMember.without c = invalidMember := by
  simp [invalidMember]

@[simp] theorem without_typeBody : typeBody.without c = typeBody := by
  simp [typeBody]

@[simp] theorem without_baseList : baseList.without c = baseList := by
  simp [baseList]

@[simp] theorem without_enumMember : enumMember.without c = enumMember := by
  simp [enumMember]

@[simp] theorem without_enumDeclaration : enumDeclaration.without c = enumDeclaration := by
  simp [enumDeclaration]

@[simp] theorem without_delegateDeclaration : delegateDeclaration.without c = delegateDeclaration := by
  simp [delegateDeclaration]

@[simp] theorem without_typeKeyword : typeKeyword.without c = typeKeyword := by
  simp [typeKeyword]

@[simp] theorem without_requireTypeModifiers (kind : TypeKind) (modifiers : List Placed) :
    (requireTypeModifiers kind modifiers).without c = requireTypeModifiers kind modifiers := by
  cases kind <;> simp [requireTypeModifiers]

@[simp] theorem without_structuredType (modifiers : List Placed) :
    (structuredType modifiers).without c = structuredType modifiers := by
  simp [structuredType]

@[simp] theorem without_typeDeclarationRule (modifiers : List Placed) :
    (typeDeclarationRule modifiers).without c = typeDeclarationRule modifiers := by
  simp [typeDeclarationRule]

@[simp] theorem without_extensionReceiver : extensionReceiver.without c = extensionReceiver := by
  simp [extensionReceiver]

@[simp] theorem without_extensionBlock : extensionBlock.without c = extensionBlock := by
  simp [extensionBlock]

@[simp] theorem without_method (modifiers : List Placed) :
    (method modifiers).without c = method modifiers := by
  simp [method]

@[simp] theorem without_accessorModifiers : accessorModifiers.without c = accessorModifiers := by
  simp [accessorModifiers]

@[simp] theorem without_accessorBody (automatic : Bool) (name : Nat) :
    (accessorBody automatic name).without c = accessorBody automatic name := by
  simp [accessorBody]

@[simp] theorem without_accessor (ofEvent automatic : Bool) :
    (accessor ofEvent automatic).without c = accessor ofEvent automatic := by
  cases ofEvent <;> simp [accessor]

@[simp] theorem without_accessors (modifiers : List Placed) (ofEvent : Bool) :
    (accessors modifiers ofEvent).without c = accessors modifiers ofEvent := by
  simp [accessors]

@[simp] theorem without_property (modifiers : List Placed) :
    (property modifiers).without c = property modifiers := by
  simp [property]

@[simp] theorem without_indexer (modifiers : List Placed) :
    (indexer modifiers).without c = indexer modifiers := by
  simp [indexer]

@[simp] theorem without_optionalSize : optionalSize.without c = optionalSize := by
  simp [optionalSize]

@[simp] theorem without_optionalValue : optionalValue.without c = optionalValue := by
  simp [optionalValue]

@[simp] theorem without_fieldRest (modifiers : List Placed) :
    (fieldRest modifiers).without c = fieldRest modifiers := by
  simp [fieldRest]

@[simp] theorem without_event (modifiers : List Placed) :
    (event modifiers).without c = event modifiers := by
  simp [event]

@[simp] theorem without_checkedOperator : checkedOperator.without c = checkedOperator := by
  simp [checkedOperator]

@[simp] theorem without_operatorRest : operatorRest.without c = operatorRest := by
  simp [operatorRest]

@[simp] theorem without_operatorSign : operatorSign.without c = operatorSign := by
  refine congrArg look (funext fun v ↦ ?_)
  dsimp only
  rw [without_ite]
  refine ite_congr rfl (fun _ ↦ rfl) fun _ ↦ ?_
  split <;> simp

@[simp] theorem without_operatorDeclaration : operatorDeclaration.without c = operatorDeclaration := by
  simp [operatorDeclaration]

@[simp] theorem without_conversionOperator : conversionOperator.without c = conversionOperator := by
  simp [conversionOperator]

@[simp] theorem without_constructorInitializer :
    constructorInitializer.without c = constructorInitializer := by
  simp [constructorInitializer]

@[simp] theorem without_constructor (modifiers : List Placed) :
    (constructor modifiers).without c = constructor modifiers := by
  simp [constructor]

@[simp] theorem without_finalizer : finalizer.without c = finalizer := by
  simp [finalizer]

@[simp] theorem without_constant : constant.without c = constant := by
  simp [constant]

@[simp] theorem without_requireFieldTargets (targets : List Placed) :
    (requireFieldTargets targets).without c = requireFieldTargets targets :=
  without_requireAtText _ _ _

@[simp] theorem without_namedMember (targets modifiers : List Placed) :
    (namedMember targets modifiers).without c = namedMember targets modifiers := by
  simp [namedMember]

@[simp] theorem without_typedMember (targets modifiers : List Placed) :
    (typedMember targets modifiers).without c = typedMember targets modifiers := by
  simp [typedMember]

@[simp] theorem without_memberAttributes : memberAttributes.without c = memberAttributes := by
  refine congrArg (loop [] · pure) (funext fun targets ↦ ?_)
  simp only [without_bind, without_next, without_ite, without_attributeSection, without_pure]
  refine bind_congr fun opened ↦ ite_congr rfl (fun _ ↦ bind_congr fun target ↦ ?_) fun _ ↦ rfl
  cases target <;> rfl

@[simp] theorem without_memberRule : memberRule.without c = memberRule := by
  simp [memberRule]

/-! ### Using directives -/

@[simp] theorem without_aliasDirective : aliasDirective.without c = aliasDirective := by
  simp [aliasDirective]

@[simp] theorem without_aliasedType : aliasedType.without c = aliasedType := by
  simp [aliasedType]

@[simp] theorem without_usingTarget : usingTarget.without c = usingTarget := by
  simp [usingTarget]

@[simp] theorem without_usingDirective : usingDirective.without c = usingDirective := by
  simp [usingDirective]

end CSharpCheck.Rule
