import CSharpCheck.Version

/-!
# Version-sensitive features

The constructs of the language that not every version has, each with the title that diagnostics
print and the version that introduced it.
-/

namespace CSharpCheck

/-- A construct that some versions of the language do not have. -/
inductive Feature where
  | generics | anonymousMethods | nullableTypes | staticClasses | partialTypes
  | namespaceAliasQualifier | iterators | propertyAccessorModifiers | fixedBuffers | externAlias
  | lambdas | queryExpressions | objectInitializers | collectionInitializers | anonymousTypes
  | implicitlyTypedArrays | autoProperties | extensionMethods | partialMethods
  | namedArguments | optionalParameters | genericVariance
  | async
  | interpolatedStrings | nullPropagation | expressionBodiedMembers | autoPropertyInitializer
  | exceptionFilter | dictionaryInitializer | usingStatic
  | tuples | patternMatching | localFunctions | refLocalsAndReturns | outVariableDeclaration
  | throwExpression | binaryLiterals | digitSeparators | expressionBodiedAccessors
  | deconstruction
  | defaultLiteral
  | leadingDigitSeparator | privateProtected | refStructs | readonlyStructs | readonlyReferences
  | refConditional
  | attributesOnBackingFields | stackallocInitializer | refReassignment
  | nullableReferenceTypes | asyncStreams | recursivePatterns | switchExpression | indexAndRange
  | nullCoalescingAssignment | usingDeclarations | staticLocalFunctions
  | alternativeInterpolatedVerbatim | readonlyMembers | defaultInterfaceImplementation
  | records | initOnlySetters | topLevelStatements | targetTypedNew | patternCombinators
  | relationalPatterns | staticAnonymousFunctions | functionPointers | withExpressions
  | fileScopedNamespace | globalUsing | recordStructs | extendedPropertyPatterns
  | lambdaAttributes | lambdaReturnType | mixedDeconstruction
  | rawStringLiterals | listPatterns | utf8StringLiterals | requiredMembers | fileLocalTypes
  | newlinesInInterpolations | unsignedRightShift | genericAttributes
  | checkedUserDefinedOperators
  | primaryConstructors | collectionExpressions | lambdaOptionalParameters | usingTypeAlias
  | refReadonlyParameters
  | escapeCharacter | allowsRefStruct
  | nullConditionalAssignment | extensions | simpleLambdaParameterModifiers
  | partialEventsAndConstructors | userDefinedCompoundAssignment
  | dictionaryExpressions
  deriving DecidableEq, Repr, Inhabited

namespace Feature

/-- Every feature, in the order of the versions that introduced them. -/
def all : List Feature :=
  [.generics, .anonymousMethods, .nullableTypes, .staticClasses, .partialTypes,
   .namespaceAliasQualifier, .iterators, .propertyAccessorModifiers, .fixedBuffers, .externAlias,
   .lambdas, .queryExpressions, .objectInitializers, .collectionInitializers, .anonymousTypes,
   .implicitlyTypedArrays, .autoProperties, .extensionMethods, .partialMethods, .namedArguments,
   .optionalParameters, .genericVariance, .async, .interpolatedStrings, .nullPropagation,
   .expressionBodiedMembers, .autoPropertyInitializer, .exceptionFilter, .dictionaryInitializer,
   .usingStatic, .tuples, .patternMatching, .localFunctions, .refLocalsAndReturns,
   .outVariableDeclaration, .throwExpression, .binaryLiterals, .digitSeparators,
   .expressionBodiedAccessors, .deconstruction, .defaultLiteral, .leadingDigitSeparator,
   .privateProtected, .refStructs, .readonlyStructs, .readonlyReferences, .refConditional,
   .attributesOnBackingFields, .stackallocInitializer, .refReassignment, .nullableReferenceTypes,
   .asyncStreams, .recursivePatterns, .switchExpression, .indexAndRange,
   .nullCoalescingAssignment, .usingDeclarations, .staticLocalFunctions,
   .alternativeInterpolatedVerbatim, .readonlyMembers, .defaultInterfaceImplementation, .records,
   .initOnlySetters, .topLevelStatements, .targetTypedNew, .patternCombinators,
   .relationalPatterns, .staticAnonymousFunctions, .functionPointers, .withExpressions,
   .fileScopedNamespace, .globalUsing, .recordStructs, .extendedPropertyPatterns,
   .lambdaAttributes, .lambdaReturnType, .mixedDeconstruction, .rawStringLiterals, .listPatterns,
   .utf8StringLiterals, .requiredMembers, .fileLocalTypes, .newlinesInInterpolations,
   .unsignedRightShift, .genericAttributes, .checkedUserDefinedOperators, .primaryConstructors,
   .collectionExpressions, .lambdaOptionalParameters, .usingTypeAlias, .refReadonlyParameters,
   .escapeCharacter, .allowsRefStruct, .nullConditionalAssignment, .extensions,
   .simpleLambdaParameterModifiers, .partialEventsAndConstructors, .userDefinedCompoundAssignment,
   .dictionaryExpressions]

/-- The title of a feature in diagnostics. A preview feature is switched on by its title. -/
def title : Feature → String
  | .generics => "generics"
  | .anonymousMethods => "anonymous methods"
  | .nullableTypes => "nullable types"
  | .staticClasses => "static classes"
  | .partialTypes => "partial types"
  | .namespaceAliasQualifier => "namespace alias qualifier"
  | .iterators => "iterators"
  | .propertyAccessorModifiers => "access modifiers on properties"
  | .fixedBuffers => "fixed size buffers"
  | .externAlias => "extern alias"
  | .lambdas => "lambda expression"
  | .queryExpressions => "query expression"
  | .objectInitializers => "object initializer"
  | .collectionInitializers => "collection initializer"
  | .anonymousTypes => "anonymous types"
  | .implicitlyTypedArrays => "implicitly typed array"
  | .autoProperties => "automatically implemented properties"
  | .extensionMethods => "extension method"
  | .partialMethods => "partial method"
  | .namedArguments => "named argument"
  | .optionalParameters => "optional parameter"
  | .genericVariance => "generic variance"
  | .async => "async function"
  | .interpolatedStrings => "interpolated strings"
  | .nullPropagation => "null propagating operator"
  | .expressionBodiedMembers => "expression-bodied method"
  | .autoPropertyInitializer => "auto property initializer"
  | .exceptionFilter => "exception filter"
  | .dictionaryInitializer => "dictionary initializer"
  | .usingStatic => "using static"
  | .tuples => "tuples"
  | .patternMatching => "pattern matching"
  | .localFunctions => "local functions"
  | .refLocalsAndReturns => "byref locals and returns"
  | .outVariableDeclaration => "out variable declaration"
  | .throwExpression => "throw expression"
  | .binaryLiterals => "binary literals"
  | .digitSeparators => "digit separators"
  | .expressionBodiedAccessors => "expression body constructor, destructor and accessor"
  | .deconstruction => "deconstruction"
  | .defaultLiteral => "default literal"
  | .leadingDigitSeparator => "leading digit separator"
  | .privateProtected => "private protected"
  | .refStructs => "ref structs"
  | .readonlyStructs => "readonly structures"
  | .readonlyReferences => "readonly references"
  | .refConditional => "ref conditional expression"
  | .attributesOnBackingFields => "field-targeted attributes on auto-properties"
  | .stackallocInitializer => "stackalloc initializer"
  | .refReassignment => "ref reassignment"
  | .nullableReferenceTypes => "nullable reference types"
  | .asyncStreams => "async streams"
  | .recursivePatterns => "recursive patterns"
  | .switchExpression => "switch expression"
  | .indexAndRange => "index and range operators"
  | .nullCoalescingAssignment => "coalescing assignment"
  | .usingDeclarations => "using declarations"
  | .staticLocalFunctions => "static local functions"
  | .alternativeInterpolatedVerbatim => "alternative interpolated verbatim strings"
  | .readonlyMembers => "readonly members"
  | .defaultInterfaceImplementation => "default interface implementation"
  | .records => "records"
  | .initOnlySetters => "init-only setters"
  | .topLevelStatements => "top-level statements"
  | .targetTypedNew => "target-typed object creation"
  | .patternCombinators => "and, or, not patterns"
  | .relationalPatterns => "relational pattern"
  | .staticAnonymousFunctions => "static anonymous function"
  | .functionPointers => "function pointers"
  | .withExpressions => "with expression"
  | .fileScopedNamespace => "file-scoped namespace"
  | .globalUsing => "global using directive"
  | .recordStructs => "record structs"
  | .extendedPropertyPatterns => "extended property patterns"
  | .lambdaAttributes => "lambda attributes"
  | .lambdaReturnType => "lambda return type"
  | .mixedDeconstruction => "mixed declarations and expressions in deconstruction"
  | .rawStringLiterals => "raw string literals"
  | .listPatterns => "list pattern"
  | .utf8StringLiterals => "utf-8 string literals"
  | .requiredMembers => "required members"
  | .fileLocalTypes => "file types"
  | .newlinesInInterpolations => "newlines in interpolations"
  | .unsignedRightShift => "unsigned right shift"
  | .genericAttributes => "generic attributes"
  | .checkedUserDefinedOperators => "checked user-defined operators"
  | .primaryConstructors => "primary constructors"
  | .collectionExpressions => "collection expressions"
  | .lambdaOptionalParameters => "lambda optional parameters"
  | .usingTypeAlias => "using type alias"
  | .refReadonlyParameters => "ref readonly parameters"
  | .escapeCharacter => "string escape character"
  | .allowsRefStruct => "allows ref struct constraint"
  | .nullConditionalAssignment => "null conditional assignment"
  | .extensions => "extensions"
  | .simpleLambdaParameterModifiers => "simple lambda parameters with modifiers"
  | .partialEventsAndConstructors => "partial events and constructors"
  | .userDefinedCompoundAssignment => "user-defined compound assignment"
  | .dictionaryExpressions => "dictionary-expressions"

/-- The first version that has the feature. -/
def since : Feature → Version
  | .generics | .anonymousMethods | .nullableTypes | .staticClasses | .partialTypes
  | .namespaceAliasQualifier | .iterators | .propertyAccessorModifiers | .fixedBuffers
  | .externAlias => .v2
  | .lambdas | .queryExpressions | .objectInitializers | .collectionInitializers | .anonymousTypes
  | .implicitlyTypedArrays | .autoProperties | .extensionMethods | .partialMethods => .v3
  | .namedArguments | .optionalParameters | .genericVariance => .v4
  | .async => .v5
  | .interpolatedStrings | .nullPropagation | .expressionBodiedMembers | .autoPropertyInitializer
  | .exceptionFilter | .dictionaryInitializer | .usingStatic => .v6
  | .tuples | .patternMatching | .localFunctions | .refLocalsAndReturns | .outVariableDeclaration
  | .throwExpression | .binaryLiterals | .digitSeparators | .expressionBodiedAccessors
  | .deconstruction => .v7
  | .defaultLiteral => .v7_1
  | .leadingDigitSeparator | .privateProtected | .refStructs | .readonlyStructs
  | .readonlyReferences | .refConditional => .v7_2
  | .attributesOnBackingFields | .stackallocInitializer | .refReassignment => .v7_3
  | .nullableReferenceTypes | .asyncStreams | .recursivePatterns | .switchExpression
  | .indexAndRange | .nullCoalescingAssignment | .usingDeclarations | .staticLocalFunctions
  | .alternativeInterpolatedVerbatim | .readonlyMembers | .defaultInterfaceImplementation => .v8
  | .records | .initOnlySetters | .topLevelStatements | .targetTypedNew | .patternCombinators
  | .relationalPatterns | .staticAnonymousFunctions | .functionPointers | .withExpressions => .v9
  | .fileScopedNamespace | .globalUsing | .recordStructs | .extendedPropertyPatterns
  | .lambdaAttributes | .lambdaReturnType | .mixedDeconstruction => .v10
  | .rawStringLiterals | .listPatterns | .utf8StringLiterals | .requiredMembers | .fileLocalTypes
  | .newlinesInInterpolations | .unsignedRightShift | .genericAttributes
  | .checkedUserDefinedOperators => .v11
  | .primaryConstructors | .collectionExpressions | .lambdaOptionalParameters | .usingTypeAlias
  | .refReadonlyParameters => .v12
  | .escapeCharacter | .allowsRefStruct => .v13
  | .nullConditionalAssignment | .extensions | .simpleLambdaParameterModifiers
  | .partialEventsAndConstructors | .userDefinedCompoundAssignment => .v14
  | .dictionaryExpressions => .preview

/-- The features that single tokens carry, in the order in which a token lists them. -/
def lexical : List Feature :=
  [.alternativeInterpolatedVerbatim, .binaryLiterals, .digitSeparators, .escapeCharacter,
   .interpolatedStrings, .leadingDigitSeparator, .newlinesInInterpolations, .rawStringLiterals,
   .utf8StringLiterals]

/-- The features of a token in listing order, each once. -/
def listed (seen : List Feature) : List Feature :=
  lexical.filter (seen.contains ·)

theorem mem_listed {seen : List Feature} {f : Feature} :
    f ∈ listed seen ↔ f ∈ lexical ∧ f ∈ seen := by
  rw [listed, List.mem_filter, List.contains_iff_mem]

/-- Every feature is in the list of all features. -/
theorem mem_all (f : Feature) : f ∈ all := by
  cases f <;> decide

end Feature

end CSharpCheck
