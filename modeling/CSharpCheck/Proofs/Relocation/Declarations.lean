import CSharpCheck.Proofs.Relocation.Expressions

/-!
# Statements and declarations on relocated tokens

The rules for statements, declarations and compilation units do on relocated tokens what they
do on the tokens themselves.
-/

namespace CSharpCheck.Rule

variable (m : Relocation) (n : Nat)

/-! ### Declarations among statements -/

theorem localModifierFeature?_relocate (before : List Placed) (t : Token) :
    localModifierFeature? (before.map (·.relocate m)) (t.relocate m) =
      localModifierFeature? before t := by
  have hasync : (t.relocate m).isContextual "async" = t.isContextual "async" :=
    t.isContextual_relocate m (by decide)
  simp [localModifierFeature?, hasync, Option.any_map]

/-- The modifiers of a local declaration are the relocated tokens. -/
theorem onRelocated_localModifierList :
    localModifierList.onRelocated m n =
      List.map (·.relocate m) <$> localModifierList.relocate m n := by
  refine onRelocated_collecting m n fun before ↦ congrArg look (funext fun v ↦ ?_)
  cases hahead : v.ahead with
  | nil => simp [hahead, Round.map]
  | cons t ts =>
    have hmodifier := Ahead.isLocalModifier_relocate m (t :: ts)
    rw [Ahead.relocate_cons] at hmodifier
    cases hfeature : localModifierFeature? before t <;>
      by_cases h : Ahead.isLocalModifier (t :: ts) <;>
      simp [hahead, hmodifier, h, localModifierFeature?_relocate, hfeature, Round.map]

@[simp] theorem onRelocated_variableDeclarators :
    variableDeclarators.onRelocated m n = variableDeclarators.relocate m n := by
  simp [variableDeclarators]

@[simp] theorem onRelocated_localVariables :
    localVariables.onRelocated m n = localVariables.relocate m n := by
  simp [localVariables, onRelocated_localModifierList]

@[simp] theorem onRelocated_localDeclaration :
    localDeclaration.onRelocated m n = localDeclaration.relocate m n := by
  simp [localDeclaration]

@[simp] theorem requireAtWord_relocate (k : Keyword) (f : Feature) (modifiers : List Placed) :
    requireAtWord k f (modifiers.map (·.relocate m)) = requireAtWord k f modifiers := by
  induction modifiers with
  | nil => rfl
  | cons p ps ih => simp [requireAtWord, ih]

@[simp] theorem onRelocated_requireAtWord (k : Keyword) (f : Feature) (modifiers : List Placed) :
    (requireAtWord k f modifiers).onRelocated m n = (requireAtWord k f modifiers).relocate m n := by
  induction modifiers with
  | nil => rfl
  | cons p ps ih => simp [requireAtWord, ih]

@[simp] theorem onRelocated_localFunction :
    localFunction.onRelocated m n = localFunction.relocate m n := by
  simp [localFunction, onRelocated_localModifierList]

/-! ### Statements -/

@[simp] theorem onRelocated_embeddedStatement :
    embeddedStatement.onRelocated m n = embeddedStatement.relocate m n := by
  simp [embeddedStatement, GrammarError.relocate]

@[simp] theorem onRelocated_ifStatement :
    ifStatement.onRelocated m n = ifStatement.relocate m n := by
  simp [ifStatement]

@[simp] theorem onRelocated_guardedStatement :
    guardedStatement.onRelocated m n = guardedStatement.relocate m n := by
  simp [guardedStatement]

@[simp] theorem onRelocated_doStatement :
    doStatement.onRelocated m n = doStatement.relocate m n := by
  simp [doStatement]

@[simp] theorem onRelocated_variablesOr (other : Rule Unit) :
    (variablesOr other).onRelocated m n =
      (do
        if ← ask fun ts ↦ ts.localKind == some .variable then localVariables.relocate m n
        else other.onRelocated m n) := by
  simp [variablesOr]

@[simp] theorem relocate_variablesOr (other : Rule Unit) :
    (variablesOr other).relocate m n =
      (do
        if ← ask fun ts ↦ ts.localKind == some .variable then localVariables.relocate m n
        else other.relocate m n) := by
  simp [variablesOr]

@[simp] theorem onRelocated_forStatement :
    forStatement.onRelocated m n = forStatement.relocate m n := by
  simp [forStatement]

@[simp] theorem onRelocated_foreachVariable :
    foreachVariable.onRelocated m n = foreachVariable.relocate m n := by
  simp [foreachVariable]

@[simp] theorem onRelocated_foreachStatement :
    foreachStatement.onRelocated m n = foreachStatement.relocate m n := by
  simp [foreachStatement]

@[simp] theorem onRelocated_switchLabel :
    switchLabel.onRelocated m n = switchLabel.relocate m n := by
  simp +decide [switchLabel]

@[simp] theorem onRelocated_switchStatement :
    switchStatement.onRelocated m n = switchStatement.relocate m n := by
  simp [switchStatement]

@[simp] theorem onRelocated_catchClause :
    catchClause.onRelocated m n = catchClause.relocate m n := by
  simp +decide [catchClause]

@[simp] theorem onRelocated_tryStatement :
    tryStatement.onRelocated m n = tryStatement.relocate m n := by
  simp [tryStatement, GrammarError.relocate]

@[simp] theorem onRelocated_usingStatement :
    usingStatement.onRelocated m n = usingStatement.relocate m n := by
  simp [usingStatement]

@[simp] theorem onRelocated_fixedStatement :
    fixedStatement.onRelocated m n = fixedStatement.relocate m n := by
  simp [fixedStatement]

@[simp] theorem onRelocated_jumpStatement :
    jumpStatement.onRelocated m n = jumpStatement.relocate m n := by
  simp [jumpStatement]

@[simp] theorem onRelocated_gotoStatement :
    gotoStatement.onRelocated m n = gotoStatement.relocate m n := by
  simp [gotoStatement]

@[simp] theorem onRelocated_returnStatement :
    returnStatement.onRelocated m n = returnStatement.relocate m n := by
  simp [returnStatement]

@[simp] theorem onRelocated_yieldStatement :
    yieldStatement.onRelocated m n = yieldStatement.relocate m n := by
  simp [yieldStatement]

@[simp] theorem onRelocated_expressionStatement (topLevel : Bool) :
    (expressionStatement topLevel).onRelocated m n =
      (expressionStatement topLevel).relocate m n := by
  simp [expressionStatement]

theorem onRelocated_wordStatement {k : Keyword} {r : Rule Unit} (h : wordStatement k = some r) :
    r.onRelocated m n = r.relocate m n := by
  unfold wordStatement at h
  split at h <;> first | contradiction | (cases h; simp)

@[simp] theorem onRelocated_statementRule (topLevel : Bool) :
    (statementRule topLevel).onRelocated m n = (statementRule topLevel).relocate m n := by
  refine congrArg look (funext fun v ↦ ?_)
  have hword : wordStatementAhead (v.ahead.relocate m) = wordStatementAhead v.ahead := by
    cases v.ahead <;> rfl
  simp +decide only [View.ahead_relocate, Ahead.is_relocate, hword]
  cases hrule : wordStatementAhead v.ahead with
  | some rule =>
    have hrule : rule.onRelocated m n = rule.relocate m n := by
      cases hahead : v.ahead with
      | nil => simp [hahead, wordStatementAhead] at hrule
      | cons t ts =>
        rw [hahead] at hrule
        unfold wordStatementAhead at hrule
        split at hrule
        · exact onRelocated_wordStatement m n hrule
        · contradiction
    simp [hrule]
  | none => rcases hkind : v.ahead.localKind with _ | _ | _ <;> simp +decide [hkind]

/-! ### Modifiers and names -/

@[simp] theorem placeOf?_relocate (k : Keyword) (modifiers : List Placed) :
    placeOf? k (modifiers.map (·.relocate m)) = placeOf? k modifiers := by
  simp [placeOf?, List.find?_map, Function.comp_def]

@[simp] theorem lastPlaceOf?_relocate {word : String} (hword : OneLine word)
    (modifiers : List Placed) :
    lastPlaceOf? word (modifiers.map (·.relocate m)) = lastPlaceOf? word modifiers := by
  simp [lastPlaceOf?, ← List.map_reverse, List.find?_map, Function.comp_def, m.text_beq hword]

@[simp] theorem onRelocated_requireAtPlace (f : Feature) (index : Option Nat) :
    (requireAtPlace f index).onRelocated m n = (requireAtPlace f index).relocate m n := by
  cases index <;> rfl

@[simp] theorem requireAtText_relocate {word : String} (hword : OneLine word) (f : Feature)
    (modifiers : List Placed) :
    requireAtText word f (modifiers.map (·.relocate m)) = requireAtText word f modifiers := by
  induction modifiers with
  | nil => rfl
  | cons p ps ih => simp [requireAtText, ih, m.text_eq_iff hword]

@[simp] theorem onRelocated_requireAtText (text : String) (f : Feature) (modifiers : List Placed) :
    (requireAtText text f modifiers).onRelocated m n =
      (requireAtText text f modifiers).relocate m n := by
  induction modifiers with
  | nil => rfl
  | cons p ps ih => simp [requireAtText, ih]

theorem modifierFeature?_relocate (t : Token) :
    modifierFeature? (t.relocate m) = modifierFeature? t := by
  have hasync : m.text t.text = "async" ↔ _ := m.text_eq_iff (by decide)
  have hrequired : m.text t.text = "required" ↔ _ := m.text_eq_iff (by decide)
  have hfile : m.text t.text = "file" ↔ _ := m.text_eq_iff (by decide)
  unfold modifierFeature?
  rw [Token.text_relocate]
  split <;> split <;> simp_all

@[simp] theorem requireModifiers_relocate (modifiers : List Placed) :
    requireModifiers (modifiers.map (·.relocate m)) = requireModifiers modifiers := by
  induction modifiers with
  | nil => rfl
  | cons p ps ih => simp [requireModifiers, modifierFeature?_relocate, ih]

@[simp] theorem onRelocated_requireModifiers (modifiers : List Placed) :
    (requireModifiers modifiers).onRelocated m n = (requireModifiers modifiers).relocate m n := by
  induction modifiers with
  | nil => rfl
  | cons p ps ih => cases h : modifierFeature? p.token <;> simp [requireModifiers, h, ih]

/-- The modifiers of a declaration are the relocated tokens. -/
theorem onRelocated_modifierList :
    modifierList.onRelocated m n = List.map (·.relocate m) <$> modifierList.relocate m n := by
  refine congrArg look (funext fun v ↦ ?_)
  have hmodifiers (ts : Ahead) (index : Nat) :
      ((Ahead.relocate m ts).zipIdx.map fun x ↦ (⟨index + x.2, x.1⟩ : Placed)) =
        (ts.zipIdx.map fun x ↦ (⟨index + x.2, x.1⟩ : Placed)).map (Placed.relocate m) := by
    simp [Ahead.relocate, List.zipIdx_map, Function.comp_def]
  simp only [View.ahead_relocate, Ahead.modifiers_relocate, Ahead.take_relocate,
    View.index_relocate, hmodifiers, placeOf?_relocate]
  split <;> simp [-List.map_map]

@[simp] theorem requireReferences_relocate (previous : Option Token) (modifiers : List Placed) :
    requireReferences (previous.map (·.relocate m)) (modifiers.map (·.relocate m)) =
      requireReferences previous modifiers := by
  induction modifiers generalizing previous with
  | nil => rfl
  | cons p ps ih =>
    have hrest := ih (some p.token)
    rw [Option.map_some] at hrest
    simp [requireReferences, hrest, Option.any_map]

@[simp] theorem onRelocated_requireReferences (previous : Option Token) (modifiers : List Placed) :
    (requireReferences previous modifiers).onRelocated m n =
      (requireReferences previous modifiers).relocate m n := by
  induction modifiers generalizing previous with
  | nil => rfl
  | cons p ps ih => simp [requireReferences, ih]

@[simp] theorem requireReadonlyMember_relocate (modifiers : List Placed) :
    requireReadonlyMember (modifiers.map (·.relocate m)) = requireReadonlyMember modifiers :=
  requireAtWord_relocate m _ _ modifiers

@[simp] theorem onRelocated_requireReadonlyMember (modifiers : List Placed) :
    (requireReadonlyMember modifiers).onRelocated m n =
      (requireReadonlyMember modifiers).relocate m n :=
  onRelocated_requireAtWord m n _ _ modifiers

@[simp] theorem onRelocated_qualifiedPart :
    qualifiedPart.onRelocated m n = qualifiedPart.relocate m n := by
  simp [qualifiedPart]

@[simp] theorem onRelocated_memberName : memberName.onRelocated m n = memberName.relocate m n := by
  rw [memberName, onRelocated_bind, relocate_bind, onRelocated_skipToken]
  refine bind_congr fun _ ↦ onRelocated_loop m n (fun _ ↦ ?_) (fun _ ↦ rfl) false
  refine congrArg look (funext fun v ↦ ?_)
  cases h : v.ahead.qualifierArguments <;> simp [h]

@[simp] theorem onRelocated_invalidMember :
    invalidMember.onRelocated m n = invalidMember.relocate m n := by
  simp [invalidMember, GrammarError.relocate]

/-! ### Types -/

@[simp] theorem onRelocated_typeBody : typeBody.onRelocated m n = typeBody.relocate m n := by
  simp [typeBody]

@[simp] theorem onRelocated_baseList : baseList.onRelocated m n = baseList.relocate m n := by
  simp [baseList]

@[simp] theorem onRelocated_enumMember : enumMember.onRelocated m n = enumMember.relocate m n := by
  have hrest (ts : Ahead) := ts.takeWhile_relocate m 
    (p := (!·.isOneOf [.comma, .closeBrace])) (by simp)
  simp [enumMember, hrest]

@[simp] theorem onRelocated_enumDeclaration :
    enumDeclaration.onRelocated m n = enumDeclaration.relocate m n := by
  simp [enumDeclaration]

@[simp] theorem onRelocated_delegateDeclaration :
    delegateDeclaration.onRelocated m n = delegateDeclaration.relocate m n := by
  simp [delegateDeclaration]

@[simp] theorem onRelocated_typeKeyword :
    typeKeyword.onRelocated m n = typeKeyword.relocate m n := by
  simp +decide [typeKeyword]

@[simp] theorem requireTypeModifiers_relocate (kind : TypeKind) (modifiers : List Placed) :
    requireTypeModifiers kind (modifiers.map (·.relocate m)) =
      requireTypeModifiers kind modifiers := by
  cases kind <;> simp +decide [requireTypeModifiers]

@[simp] theorem onRelocated_requireTypeModifiers (kind : TypeKind) (modifiers : List Placed) :
    (requireTypeModifiers kind modifiers).onRelocated m n =
      (requireTypeModifiers kind modifiers).relocate m n := by
  cases kind <;> simp [requireTypeModifiers]

@[simp] theorem onRelocated_structuredType (modifiers : List Placed) :
    (structuredType (modifiers.map (·.relocate m))).onRelocated m n =
      (structuredType modifiers).relocate m n := by
  simp +decide [structuredType]

@[simp] theorem onRelocated_typeDeclarationRule (modifiers : List Placed) :
    (typeDeclarationRule (modifiers.map (·.relocate m))).onRelocated m n =
      (typeDeclarationRule modifiers).relocate m n := by
  simp +decide [typeDeclarationRule]

@[simp] theorem onRelocated_extensionReceiver :
    extensionReceiver.onRelocated m n = extensionReceiver.relocate m n := by
  simp [extensionReceiver, onRelocated_parameterModifiers]

@[simp] theorem onRelocated_extensionBlock :
    extensionBlock.onRelocated m n = extensionBlock.relocate m n := by
  simp [extensionBlock]

/-! ### Members -/

@[simp] theorem onRelocated_method (modifiers : List Placed) :
    (method (modifiers.map (·.relocate m))).onRelocated m n =
      (method modifiers).relocate m n := by
  simp +decide [method]

@[simp] theorem onRelocated_accessorModifiers :
    accessorModifiers.onRelocated m n = accessorModifiers.relocate m n := by
  simp [accessorModifiers]

@[simp] theorem onRelocated_accessorBody (automatic : Bool) (name : Nat) :
    (accessorBody automatic name).onRelocated m n = (accessorBody automatic name).relocate m n := by
  simp [accessorBody]

@[simp] theorem onRelocated_accessor (ofEvent automatic : Bool) :
    (accessor ofEvent automatic).onRelocated m n = (accessor ofEvent automatic).relocate m n := by
  have hnames : ∀ name ∈ accessorNames ofEvent, OneLine name := by
    cases ofEvent <;> decide
  cases ofEvent <;>
    simp +decide [accessor, Option.any_map, m.text_mem hnames,
      Ahead.accessorRecovery_relocate m _ hnames, GrammarError.relocate]

@[simp] theorem onRelocated_accessors (modifiers : List Placed) (ofEvent : Bool) :
    (accessors (modifiers.map (·.relocate m)) ofEvent).onRelocated m n =
      (accessors modifiers ofEvent).relocate m n := by
  simp [accessors, Function.comp_def]

@[simp] theorem onRelocated_property (modifiers : List Placed) :
    (property (modifiers.map (·.relocate m))).onRelocated m n =
      (property modifiers).relocate m n := by
  simp [property]

@[simp] theorem onRelocated_indexer (modifiers : List Placed) :
    (indexer (modifiers.map (·.relocate m))).onRelocated m n =
      (indexer modifiers).relocate m n := by
  simp [indexer]

@[simp] theorem onRelocated_optionalSize :
    optionalSize.onRelocated m n = optionalSize.relocate m n := by
  simp [optionalSize]

@[simp] theorem onRelocated_optionalValue :
    optionalValue.onRelocated m n = optionalValue.relocate m n := by
  simp [optionalValue]

@[simp] theorem onRelocated_fieldRest (modifiers : List Placed) :
    (fieldRest (modifiers.map (·.relocate m))).onRelocated m n =
      (fieldRest modifiers).relocate m n := by
  simp [fieldRest]

@[simp] theorem onRelocated_event (modifiers : List Placed) :
    (event (modifiers.map (·.relocate m))).onRelocated m n = (event modifiers).relocate m n := by
  have hrest : (fieldRest []).onRelocated m n =
      (fieldRest []).relocate m n := onRelocated_fieldRest m n []
  simp +decide [event, hrest]

@[simp] theorem onRelocated_checkedOperator :
    checkedOperator.onRelocated m n = checkedOperator.relocate m n := by
  simp [checkedOperator]

@[simp] theorem onRelocated_operatorRest :
    operatorRest.onRelocated m n = operatorRest.relocate m n := by
  simp [operatorRest]

@[simp] theorem onRelocated_operatorSign :
    operatorSign.onRelocated m n = operatorSign.relocate m n := by
  refine congrArg look (funext fun v ↦ ?_)
  cases hoperator : v.ahead.operator <;> simp [hoperator, GrammarError.relocate]

@[simp] theorem onRelocated_operatorDeclaration :
    operatorDeclaration.onRelocated m n = operatorDeclaration.relocate m n := by
  simp [operatorDeclaration]

@[simp] theorem onRelocated_conversionOperator :
    conversionOperator.onRelocated m n = conversionOperator.relocate m n := by
  simp [conversionOperator]

@[simp] theorem onRelocated_constructorInitializer :
    constructorInitializer.onRelocated m n = constructorInitializer.relocate m n := by
  simp [constructorInitializer, GrammarError.relocate]

@[simp] theorem onRelocated_constructor (modifiers : List Placed) :
    (constructor (modifiers.map (·.relocate m))).onRelocated m n =
      (constructor modifiers).relocate m n := by
  simp +decide [constructor]

@[simp] theorem onRelocated_finalizer : finalizer.onRelocated m n = finalizer.relocate m n := by
  simp [finalizer]

@[simp] theorem onRelocated_constant : constant.onRelocated m n = constant.relocate m n := by
  simp [constant]

@[simp] theorem requireFieldTargets_relocate (targets : List Placed) :
    requireFieldTargets (targets.map (·.relocate m)) = requireFieldTargets targets :=
  requireAtText_relocate m (by decide) _ targets

@[simp] theorem onRelocated_requireFieldTargets (targets : List Placed) :
    (requireFieldTargets targets).onRelocated m n = (requireFieldTargets targets).relocate m n :=
  onRelocated_requireAtText m n _ _ targets

@[simp] theorem onRelocated_namedMember (targets modifiers : List Placed) :
    (namedMember (targets.map (·.relocate m)) (modifiers.map (·.relocate m))).onRelocated m n =
      (namedMember targets modifiers).relocate m n := by
  have hfields : (targets.map (·.relocate m)).filter (·.token.isIdentifier) =
      (targets.filter (·.token.isIdentifier)).map (·.relocate m) := by
    simp [List.filter_map, Function.comp_def]
  simp only [namedMember, hfields]
  simp [-List.map_map]

@[simp] theorem onRelocated_typedMember (targets modifiers : List Placed) :
    (typedMember (targets.map (·.relocate m)) (modifiers.map (·.relocate m))).onRelocated m n =
      (typedMember targets modifiers).relocate m n := by
  have hreferences := requireReferences_relocate m none modifiers
  rw [Option.map_none] at hreferences
  simp [typedMember, hreferences]

/-- The targets of the attributes of a member are the relocated tokens. -/
theorem onRelocated_memberAttributes :
    memberAttributes.onRelocated m n =
      List.map (·.relocate m) <$> memberAttributes.relocate m n := by
  refine onRelocated_collecting m n fun targets ↦ ?_
  rw [onRelocated_bind, relocate_bind, onRelocated_next, map_bind]
  refine bind_congr fun opened ↦ ?_
  cases opened with
  | false => rfl
  | true =>
    simp only [if_true, onRelocated_bind, relocate_bind, onRelocated_attributeSection,
      bind_map_left, map_bind]
    refine bind_congr fun target ↦ ?_
    cases target <;> simp [Round.map]

@[simp] theorem onRelocated_memberRule : memberRule.onRelocated m n = memberRule.relocate m n := by
  simp +decide [memberRule, onRelocated_memberAttributes, onRelocated_modifierList, Option.any_map]

/-! ### Compilation units -/

@[simp] theorem onRelocated_aliasDirective :
    aliasDirective.onRelocated m n = aliasDirective.relocate m n := by
  simp [aliasDirective]

@[simp] theorem onRelocated_aliasedType :
    aliasedType.onRelocated m n = aliasedType.relocate m n := by
  simp [aliasedType]

@[simp] theorem onRelocated_usingTarget :
    usingTarget.onRelocated m n = usingTarget.relocate m n := by
  simp [usingTarget]

@[simp] theorem onRelocated_usingDirective :
    usingDirective.onRelocated m n = usingDirective.relocate m n := by
  simp +decide [usingDirective]

@[simp] theorem onRelocated_topLevelStatement (state : UnitState) :
    (topLevelStatement state).onRelocated m n = (topLevelStatement state).relocate m n := by
  simp [topLevelStatement, GrammarError.relocate]

@[simp] theorem onRelocated_unitElement (inNamespace : Bool) (state : UnitState) :
    (unitElement inNamespace state).onRelocated m n =
      (unitElement inNamespace state).relocate m n := by
  simp +decide [unitElement, GrammarError.relocate, onRelocated_attributeSection]

@[simp] theorem onRelocated_elementOrRecover (inNamespace : Bool) (state : UnitState) :
    (elementOrRecover inNamespace state).onRelocated m n =
      (elementOrRecover inNamespace state).relocate m n := by
  simp [elementOrRecover, GrammarError.relocate]

@[simp] theorem onRelocated_unitElements (inNamespace : Bool) :
    (unitElements inNamespace).onRelocated m n = (unitElements inNamespace).relocate m n := by
  simp [unitElements]

@[simp] theorem onRelocated_namespaceBody :
    namespaceBody.onRelocated m n = namespaceBody.relocate m n := by
  simp [namespaceBody]

@[simp] theorem onRelocated_namespaceRest :
    namespaceRest.onRelocated m n = namespaceRest.relocate m n := by
  simp [namespaceRest]

@[simp] theorem onRelocated_namespaceRule :
    namespaceRule.onRelocated m n = namespaceRule.relocate m n := by
  simp [namespaceRule, GrammarError.relocate]

end CSharpCheck.Rule
