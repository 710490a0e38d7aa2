import CSharpCheck.Grammar.CompilationUnit
import CSharpCheck.Proofs.Relocation.Basic

/-!
# Questions about relocated tokens

No question of the grammar about the tokens ahead depends on where they stand or on how their texts
are written.
-/

namespace CSharpCheck

/-- The relocated tokens. -/
def Ahead.relocate (m : Relocation) (ts : Ahead) : Ahead := ts.map (·.relocate m)

namespace Ahead

variable (m : Relocation) (ts : Ahead)

@[simp] theorem relocate_nil : relocate m [] = [] := rfl

@[simp] theorem relocate_cons (t : Token) :
    relocate m (t :: ts) = t.relocate m :: relocate m ts := rfl

@[simp] theorem head?_relocate : (ts.relocate m).head? = ts.head?.map (·.relocate m) := by
  simp [relocate]

@[simp] theorem length_relocate : (ts.relocate m).length = ts.length := List.length_map _

@[simp] theorem isEmpty_relocate : (ts.relocate m).isEmpty = ts.isEmpty := by
  cases ts <;> rfl

@[simp] theorem drop_relocate (n : Nat) : (ts.relocate m).drop n = relocate m (ts.drop n) :=
  List.map_drop.symm

@[simp] theorem take_relocate (n : Nat) : (ts.relocate m).take n = relocate m (ts.take n) :=
  List.map_take.symm

@[simp] theorem tail_relocate : (ts.relocate m).tail = relocate m ts.tail := drop_relocate m ts 1

@[simp] theorem listTail_relocate : List.tail (ts.relocate m) = relocate m (List.tail ts) :=
  List.map_tail.symm

/-- A number of tokens at the beginning does not change when the question does not see the
change. -/
theorem takeWhile_relocate {p : Token → Bool} (hp : ∀ t : Token, p (t.relocate m) = p t) :
    (ts.relocate m).takeWhile p = relocate m (ts.takeWhile p) := by
  simp only [relocate, List.takeWhile_map, Function.comp_def, hp]

@[simp] theorem takeWhile_is_relocate (s : Symbol) :
    (ts.relocate m).takeWhile (·.is s) = relocate m (ts.takeWhile (·.is s)) :=
  takeWhile_relocate m ts fun t ↦ by rw [Token.is_relocate]

theorem findIdx?_relocate {p : Token → Bool} (hp : ∀ t : Token, p (t.relocate m) = p t) :
    (ts.relocate m).findIdx? p = ts.findIdx? p := by
  simp only [relocate, List.findIdx?_map, Function.comp_def, hp]

/-! ### The next token -/

@[simp] theorem is_relocate : (ts.relocate m).is = ts.is := by
  funext s
  simp [is, Option.any_map]

@[simp] theorem isOneOf_relocate : (ts.relocate m).isOneOf = ts.isOneOf := by
  funext s
  simp [isOneOf, Option.any_map]

@[simp] theorem isWord_relocate : (ts.relocate m).isWord = ts.isWord := by
  funext k
  simp [isWord, Option.any_map]

@[simp] theorem isWordOf_relocate : (ts.relocate m).isWordOf = ts.isWordOf := by
  funext k
  simp [isWordOf, Option.any_map]

@[simp] theorem isIdentifier_relocate : (ts.relocate m).isIdentifier = ts.isIdentifier := by
  simp [isIdentifier, Option.any_map]

@[simp] theorem isKeyword_relocate : (ts.relocate m).isKeyword = ts.isKeyword := by
  simp [isKeyword, Option.any_map]

@[simp] theorem isKind_relocate : (ts.relocate m).isKind = ts.isKind := by
  funext k
  simp [isKind, Option.any_map]

@[simp] theorem isContextual_relocate {word : String} (hword : OneLine word) :
    (ts.relocate m).isContextual word = ts.isContextual word := by
  simp [isContextual, Option.any_map, Token.isContextual_relocate _ _ hword]

theorem text_head?_relocate :
    ((ts.relocate m).head?.map (·.text)).getD "" = m.text ((ts.head?.map (·.text)).getD "") := by
  cases ts with
  | nil => exact (m.text_eq_self (show OneLine "" by decide)).symm
  | cons => rfl

/-! ### Brackets and names -/

@[simp] theorem closeFrom_relocate (opening closing : Symbol) (depth : Nat) :
    closeFrom opening closing depth (ts.relocate m) = closeFrom opening closing depth ts := by
  induction ts generalizing depth with
  | nil => rfl
  | cons t ts ih => simp [closeFrom, ih]

@[simp] theorem matchingClose_relocate (opening closing : Symbol) :
    matchingClose opening closing (ts.relocate m) = matchingClose opening closing ts :=
  closeFrom_relocate m ts opening closing 0

@[simp] theorem attributeSections_relocate :
    (ts.relocate m).attributeSections = ts.attributeSections := by
  induction hlength : ts.length using Nat.strongRecOn generalizing ts with
  | ind length ih =>
    cases ts with
    | nil => simp [attributeSections, is]
    | cons t rest =>
      have hrest (close : Nat) :
          attributeSections (relocate m (rest.drop close)) = attributeSections (rest.drop close) :=
        ih _ (by simp only [List.length_drop, ← hlength, List.length_cons]; omega) _ rfl
      rw [relocate_cons, attributeSections, attributeSections]
      simp [← relocate_cons, hrest]

@[simp] theorem hasTypeSigns_relocate (generics : Bool) (depth : Int) :
    hasTypeSigns generics depth (ts.relocate m) = hasTypeSigns generics depth ts := by
  induction ts generalizing depth with
  | nil => rfl
  | cons t ts ih => simp [hasTypeSigns, ih]

@[simp] theorem isTypeOnly_relocate : (ts.relocate m).isTypeOnly = ts.isTypeOnly :=
  hasTypeSigns_relocate m ts true 0

@[simp] theorem isDottedNameFrom_relocate (nameNext : Bool) :
    isDottedNameFrom nameNext (ts.relocate m) = isDottedNameFrom nameNext ts := by
  induction ts generalizing nameNext with
  | nil => rfl
  | cons t ts ih => simp [isDottedNameFrom, ih]

@[simp] theorem isDottedName_relocate : (ts.relocate m).isDottedName = ts.isDottedName :=
  isDottedNameFrom_relocate m ts true

end Ahead

/-! ### Types -/

/-- A scanner for types that does not see where tokens stand. -/
def InnerScan.Blind (m : Relocation) (inner : InnerScan) : Prop :=
  ∀ place ts, inner place (Ahead.relocate m ts) = inner place ts

variable {m : Relocation} {inner : InnerScan}

theorem typeSuffixes_relocate (inExpression : Bool) (place : Nat) (ts : Ahead) :
    typeSuffixes inExpression place (ts.relocate m) = typeSuffixes inExpression place ts := by
  induction hlength : ts.length using Nat.strongRecOn generalizing ts place with
  | ind length ih =>
    cases ts with
    | nil => simp [typeSuffixes]
    | cons t rest =>
      have hrest (place n : Nat) :
          typeSuffixes inExpression place (Ahead.relocate m (rest.drop n)) =
            typeSuffixes inExpression place (rest.drop n) :=
        ih _ (by simp only [List.length_drop, ← hlength, List.length_cons]; omega) _ _ rfl
      have hnext := hrest (place + 1) 0
      rw [List.drop_zero] at hnext
      rw [Ahead.relocate_cons, typeSuffixes, typeSuffixes]
      simp [hrest, hnext, Option.any_map]

/-- A list of types is a type and what comes after it. -/
theorem typeList_eq (passing : Bool) (place : Nat) (ts : Ahead) :
    typeList inner passing place ts =
      let words := if passing then
          (ts.takeWhile (·.isWordOf [.refWord, .inWord, .outWord, .readonlyWord])).length
        else 0
      (inner (place + words) (ts.drop words)).andThen fun stop ↦
        match ts.drop (stop - place) with
        | [] => .fail
        | t :: rest =>
          if t.is .comma then typeList inner passing (stop + 1) rest
          else if t.is .greater then .done (stop + 1)
          else .fail := by
  rw [typeList]
  simp only [TypeScan.andThen]
  split
  · rfl
  · split
    · next hnil => rw [hnil]
    · next hcons =>
      rw [hcons]
      simp only
      split
      · rfl
      · split <;> rfl

theorem typeList_relocate (hinner : inner.Blind m) (passing : Bool) (place : Nat) (ts : Ahead) :
    typeList inner passing place (ts.relocate m) = typeList inner passing place ts := by
  induction hlength : ts.length using Nat.strongRecOn generalizing ts place with
  | ind length ih =>
    have hwords := Ahead.takeWhile_relocate m ts
      (p := (·.isWordOf [.refWord, .inWord, .outWord, .readonlyWord])) fun _ ↦ rfl
    rw [typeList_eq, typeList_eq]
    simp only [hwords, Ahead.length_relocate, Ahead.drop_relocate, hinner _ _]
    congr 1
    funext stop
    cases hdrop : ts.drop (stop - place) with
    | nil => rfl
    | cons t rest =>
      have hlt : rest.length < length := by
        have := congrArg List.length hdrop
        simp only [List.length_drop, List.length_cons] at this
        omega
      simp [ih _ hlt _ _ rfl]

theorem typeArguments_relocate (hinner : inner.Blind m) (place : Nat) (ts : Ahead) :
    typeArguments inner place (ts.relocate m) = typeArguments inner place ts := by
  simp [typeArguments, typeList_relocate hinner]

theorem qualifiedName_relocate (hinner : inner.Blind m) (place : Nat) (ts : Ahead) :
    qualifiedName inner place (ts.relocate m) = qualifiedName inner place ts := by
  induction hlength : ts.length using Nat.strongRecOn generalizing ts place with
  | ind length ih =>
    cases ts with
    | nil => simp [qualifiedName]
    | cons t rest =>
      have hrest (place n : Nat) : qualifiedName inner place (Ahead.relocate m (rest.drop n)) =
          qualifiedName inner place (rest.drop n) :=
        ih _ (by simp only [List.length_drop, ← hlength, List.length_cons]; omega) _ _ rfl
      have hname := hrest (place + 2) 1
      rw [List.drop_one] at hname
      rw [Ahead.relocate_cons, qualifiedName, qualifiedName]
      simp [typeArguments_relocate hinner, hrest, hname]

/-- The elements of a tuple type are an element and what comes after it. -/
theorem tupleElements_eq (count place : Nat) (ts : Ahead) :
    tupleElements inner count place ts = (inner place ts).andThen fun stop ↦
      let stop := if Ahead.isIdentifier (ts.drop (stop - place)) then stop + 1 else stop
      match ts.drop (stop - place) with
      | [] => .fail
      | t :: rest =>
        if t.is .comma then tupleElements inner (count + 1) (stop + 1) rest
        else if t.is .closeParen && 0 < count then .done (stop + 1)
        else .fail := by
  rw [tupleElements]
  simp only [TypeScan.andThen]
  split
  · rfl
  · split
    · next hnil => rw [hnil]
    · next hcons =>
      rw [hcons]
      simp only
      split
      · rfl
      · split <;> rfl

theorem tupleElements_relocate (hinner : inner.Blind m) (count place : Nat) (ts : Ahead) :
    tupleElements inner count place (ts.relocate m) = tupleElements inner count place ts := by
  induction hlength : ts.length using Nat.strongRecOn generalizing ts place count with
  | ind length ih =>
    rw [tupleElements_eq, tupleElements_eq]
    simp only [Ahead.drop_relocate, Ahead.isIdentifier_relocate, hinner _ _]
    congr 1
    funext stop
    generalize (if Ahead.isIdentifier (ts.drop (stop - place)) then stop + 1 else stop) = stop
    cases hdrop : ts.drop (stop - place) with
    | nil => rfl
    | cons t rest =>
      have hlt : rest.length < length := by
        have := congrArg List.length hdrop
        simp only [List.length_drop, List.length_cons] at this
        omega
      simp [ih _ hlt _ _ _ rfl]

theorem conventionLength_relocate (ts : Ahead) :
    conventionLength (ts.relocate m) = conventionLength ts := by
  simp (disch := decide) [conventionLength]

/-- Types are found without a look at where tokens stand. -/
theorem blind_typeWithin (room : Nat) (inExpression : Bool) :
    (typeWithin room inExpression).Blind m := by
  induction room generalizing inExpression with
  | zero => exact fun _ _ ↦ rfl
  | succ room ih =>
    intro place ts
    simp [typeWithin, typeStem, tupleType, tupleElements_relocate (ih false), functionPointer,
      conventionLength_relocate, typeList_relocate (ih false), qualifiedName_relocate (ih false),
      typeSuffixes_relocate, Option.any_map]

namespace Ahead

variable (m : Relocation) (ts : Ahead)

@[simp] theorem typeScan_relocate (inExpression : Bool) :
    (ts.relocate m).typeScan inExpression = ts.typeScan inExpression :=
  blind_typeWithin _ _ _ _

@[simp] theorem typeEnd_relocate : (ts.relocate m).typeEnd = ts.typeEnd := by
  simp [typeEnd]

@[simp] theorem nameScan_relocate : (ts.relocate m).nameScan = ts.nameScan :=
  qualifiedName_relocate (blind_typeWithin _ _) _ _

@[simp] theorem argumentScan_relocate : (ts.relocate m).argumentScan = ts.argumentScan :=
  typeArguments_relocate (blind_typeWithin _ _) _ _

@[simp] theorem argumentsEnd_relocate : (ts.relocate m).argumentsEnd = ts.argumentsEnd := by
  simp [argumentsEnd]

@[simp] theorem expressionArgumentsEnd_relocate :
    (ts.relocate m).expressionArgumentsEnd = ts.expressionArgumentsEnd := by
  simp [expressionArgumentsEnd]

/-! ### Operators -/

@[simp] theorem greaterOperator_relocate (t : Token) :
    greaterOperator (t.relocate m) (ts.relocate m) = greaterOperator t ts := by
  rcases ts with _ | ⟨u, _ | ⟨v, ts⟩⟩ <;> simp [greaterOperator]

@[simp] theorem operator_relocate : (ts.relocate m).operator = ts.operator := by
  cases ts with
  | nil => rfl
  | cons t rest =>
    have hwith : (t.relocate m).isContextual "with" = t.isContextual "with" :=
      t.isContextual_relocate m (by decide)
    simp [operator, hwith]

/-! ### Recovery -/

@[simp] theorem bracesFrom_relocate (depth : Nat) :
    bracesFrom depth (ts.relocate m) = bracesFrom depth ts := by
  induction ts generalizing depth with
  | nil => rfl
  | cons t ts ih => simp [bracesFrom, ih]

@[simp] theorem unit_relocate (inStatement : Bool) :
    unit inStatement (ts.relocate m) = unit inStatement ts := by
  simp [unit]

@[simp] theorem toBoundary_relocate (inStatement : Bool) :
    toBoundary inStatement (ts.relocate m) = toBoundary inStatement ts := by
  induction hlength : ts.length using Nat.strongRecOn generalizing ts with
  | ind length ih =>
    cases ts with
    | nil => simp [toBoundary]
    | cons t rest =>
      have hrest (n : Nat) : toBoundary inStatement (relocate m (rest.drop n)) =
          toBoundary inStatement (rest.drop n) :=
        ih _ (by simp only [List.length_drop, ← hlength, List.length_cons]; omega) _ rfl
      have hunit := unit_relocate m (t :: rest) inStatement
      rw [relocate_cons] at hunit
      rw [relocate_cons, toBoundary, toBoundary]
      simp [hrest, hunit]

@[simp] theorem recovery_relocate (inStatement : Bool) :
    recovery inStatement (ts.relocate m) = recovery inStatement ts := by
  simp [recovery]

theorem toAccessor_relocate {names : List String} (hnames : ∀ name ∈ names, OneLine name) :
    toAccessor names (ts.relocate m) = toAccessor names ts := by
  induction hlength : ts.length using Nat.strongRecOn generalizing ts with
  | ind length ih =>
    cases ts with
    | nil => simp [toAccessor]
    | cons t rest =>
      have hrest (n : Nat) : toAccessor names (relocate m (rest.drop n)) =
          toAccessor names (rest.drop n) :=
        ih _ (by simp only [List.length_drop, ← hlength, List.length_cons]; omega) _ rfl
      have hunit := unit_relocate m (t :: rest) false
      rw [relocate_cons] at hunit
      rw [relocate_cons, toAccessor, toAccessor]
      simp only [Token.is_relocate, Token.isIdentifier_relocate, Token.text_relocate,
        m.contains_text _ hnames, hunit, drop_relocate, hrest]

theorem accessorRecovery_relocate {names : List String} (hnames : ∀ name ∈ names, OneLine name) :
    accessorRecovery names (ts.relocate m) = accessorRecovery names ts := by
  simp [accessorRecovery, toAccessor_relocate m _ hnames]

@[simp] theorem toHoleEnd_relocate (depth : Nat) :
    toHoleEnd depth (ts.relocate m) = toHoleEnd depth ts := by
  induction ts generalizing depth with
  | nil => rfl
  | cons t ts ih => simp [toHoleEnd, ih]

/-! ### Expressions and patterns -/

@[simp] theorem isCast_relocate : (ts.relocate m).isCast = ts.isCast := by
  simp only [isCast, drop_relocate, typeEnd_relocate, take_relocate, isTypeOnly_relocate]
  cases typeEnd (ts.drop 1) with
  | none => rfl
  | some stop =>
    simp only
    cases (ts.drop 1).drop stop <;> simp [Option.any_map]

@[simp] theorem afterLambdaModifiers_relocate :
    afterLambdaModifiers (ts.relocate m) = relocate m (afterLambdaModifiers ts) := by
  induction ts with
  | nil => rfl
  | cons t ts ih =>
    have hasync : (t.relocate m).isContextual "async" = t.isContextual "async" :=
      t.isContextual_relocate m (by decide)
    simp only [relocate_cons, afterLambdaModifiers, Token.isWord_relocate, hasync,
      isIdentifier_relocate, is_relocate, isWord_relocate, ih]
    split <;> rfl

@[simp] theorem isLambdaParameters_relocate :
    (ts.relocate m).isLambdaParameters = ts.isLambdaParameters := by
  simp [isLambdaParameters]

@[simp] theorem isLambda_relocate : (ts.relocate m).isLambda = ts.isLambda := by
  simp [isLambda]

@[simp] theorem isDeclarationBefore_relocate (symbols : List Symbol) :
    (ts.relocate m).isDeclarationBefore symbols = ts.isDeclarationBefore symbols := by
  simp [isDeclarationBefore]

@[simp] theorem isTypedRange_relocate : (ts.relocate m).isTypedRange = ts.isTypedRange := by
  simp [isTypedRange]

@[simp] theorem isRange_relocate : (ts.relocate m).isRange = ts.isRange := by
  simp [isRange]

@[simp] theorem isQuery_relocate : (ts.relocate m).isQuery = ts.isQuery := by
  simp [isQuery]

@[simp] theorem isDeconstruction_relocate :
    (ts.relocate m).isDeconstruction = ts.isDeconstruction := by
  simp [isDeconstruction]

@[simp] theorem isIndexerInitializer_relocate :
    (ts.relocate m).isIndexerInitializer = ts.isIndexerInitializer := by
  simp [isIndexerInitializer]

@[simp] theorem isDesignation_relocate : (ts.relocate m).isDesignation = ts.isDesignation := by
  have hwords := m.contains_text ["and", "or", "when"] (by decide)
  simp only [isDesignation, isIdentifier_relocate, head?_relocate, Option.any_map,
    Token.text_relocate, hwords]

@[simp] theorem isPatternWord_relocate {word : String} (hword : OneLine word) :
    (ts.relocate m).isPatternWord word = ts.isPatternWord word := by
  simp [isPatternWord, hword, Option.any_map]

/-! ### Statements -/

@[simp] theorem isSwitchLabel_relocate : (ts.relocate m).isSwitchLabel = ts.isSwitchLabel := by
  simp [isSwitchLabel]

@[simp] theorem isLocalModifier_relocate :
    (ts.relocate m).isLocalModifier = ts.isLocalModifier := by
  simp +decide [isLocalModifier]

@[simp] theorem localModifiers_relocate : (ts.relocate m).localModifiers = ts.localModifiers := by
  induction ts with
  | nil => rfl
  | cons t ts ih =>
    have hmodifier := isLocalModifier_relocate m (t :: ts)
    rw [relocate_cons] at hmodifier
    simp [localModifiers, hmodifier, ih]

@[simp] theorem isGenericCall_relocate : (ts.relocate m).isGenericCall = ts.isGenericCall := by
  simp [isGenericCall]

@[simp] theorem localKind_relocate : (ts.relocate m).localKind = ts.localKind := by
  simp +decide [localKind]

@[simp] theorem isLabel_relocate : (ts.relocate m).isLabel = ts.isLabel := by
  simp [isLabel]

@[simp] theorem isAttributedFunction_relocate :
    (ts.relocate m).isAttributedFunction = ts.isAttributedFunction := by
  simp [isAttributedFunction]

/-! ### Declarations -/

@[simp] theorem precedesDeclaration_relocate :
    (ts.relocate m).precedesDeclaration = ts.precedesDeclaration := by
  simp [precedesDeclaration]

@[simp] theorem isModifier_relocate : (ts.relocate m).isModifier = ts.isModifier := by
  have hwords := m.contains_text contextualModifiers (by decide)
  simp only [isModifier, isWordOf_relocate, head?_relocate, Option.any_map,
    Token.isIdentifier_relocate, Token.text_relocate, hwords, precedesDeclaration_relocate]

@[simp] theorem isMemberModifier_relocate :
    (ts.relocate m).isMemberModifier = ts.isMemberModifier := by
  simp +decide [isMemberModifier]

@[simp] theorem modifiers_relocate : (ts.relocate m).modifiers = ts.modifiers := by
  induction ts with
  | nil => rfl
  | cons t ts ih =>
    have hmodifier := isModifier_relocate m (t :: ts)
    rw [relocate_cons] at hmodifier
    simp [modifiers, hmodifier, ih]

@[simp] theorem hasMemberModifier_relocate :
    (ts.relocate m).hasMemberModifier = ts.hasMemberModifier := by
  induction ts with
  | nil => rfl
  | cons t ts ih =>
    have hmodifier := isModifier_relocate m (t :: ts)
    have hmember := isMemberModifier_relocate m (t :: ts)
    rw [relocate_cons] at hmodifier hmember
    simp [hasMemberModifier, hmodifier, hmember, ih]

@[simp] theorem isTypeKeyword_relocate : (ts.relocate m).isTypeKeyword = ts.isTypeKeyword := by
  simp +decide [isTypeKeyword]

@[simp] theorem isTypeDeclaration_relocate :
    (ts.relocate m).isTypeDeclaration = ts.isTypeDeclaration := by
  simp [isTypeDeclaration]

@[simp] theorem qualifierArguments_relocate :
    (ts.relocate m).qualifierArguments = ts.qualifierArguments := by
  simp [qualifierArguments]

@[simp] theorem declaredName_relocate : (ts.relocate m).declaredName = ts.declaredName := by
  induction hlength : ts.length using Nat.strongRecOn generalizing ts with
  | ind length ih =>
    cases ts with
    | nil => simp [declaredName]
    | cons t rest =>
      have hrest (n : Nat) :
          declaredName (relocate m (tail (rest.drop n))) = declaredName (tail (rest.drop n)) :=
        ih _ (by simp only [tail, List.length_drop, ← hlength, List.length_cons]; omega)
          _ rfl
      rw [relocate_cons, declaredName, declaredName]
      simp [hrest]

@[simp] theorem isMemberOnly_relocate : (ts.relocate m).isMemberOnly = ts.isMemberOnly := by
  simp [isMemberOnly]

/-! ### Compilation units -/

@[simp] theorem isUsingDirective_relocate (inNamespace : Bool) :
    (ts.relocate m).isUsingDirective inNamespace = ts.isUsingDirective inNamespace := by
  simp +decide [isUsingDirective]

@[simp] theorem isGlobalAttribute_relocate :
    (ts.relocate m).isGlobalAttribute = ts.isGlobalAttribute := by
  simp +decide [isGlobalAttribute]

end Ahead

end CSharpCheck
