/-!
# Reserved words

The words that are never names, and the words that are names except in certain places.
-/

namespace CSharpCheck

/-- A reserved word. -/
inductive Keyword where
  | abstractWord | asWord | baseWord | boolWord | breakWord | byteWord | caseWord | catchWord
  | charWord | checkedWord | classWord | constWord | continueWord | decimalWord | defaultWord
  | delegateWord | doWord | doubleWord | elseWord | enumWord | eventWord | explicitWord
  | externWord | falseWord | finallyWord | fixedWord | floatWord | forWord | foreachWord
  | gotoWord | ifWord | implicitWord | inWord | intWord | interfaceWord | internalWord | isWord
  | lockWord | longWord | namespaceWord | newWord | nullWord | objectWord | operatorWord | outWord
  | overrideWord | paramsWord | privateWord | protectedWord | publicWord | readonlyWord | refWord
  | returnWord | sbyteWord | sealedWord | shortWord | sizeofWord | stackallocWord | staticWord
  | stringWord | structWord | switchWord | thisWord | throwWord | trueWord | tryWord | typeofWord
  | uintWord | ulongWord | uncheckedWord | unsafeWord | ushortWord | usingWord | virtualWord
  | voidWord | volatileWord | whileWord
  deriving DecidableEq, Repr, Inhabited

namespace Keyword

/-- Every reserved word, in alphabetical order. -/
def all : List Keyword :=
  [.abstractWord, .asWord, .baseWord, .boolWord, .breakWord, .byteWord, .caseWord, .catchWord,
   .charWord, .checkedWord, .classWord, .constWord, .continueWord, .decimalWord, .defaultWord,
   .delegateWord, .doWord, .doubleWord, .elseWord, .enumWord, .eventWord, .explicitWord,
   .externWord, .falseWord, .finallyWord, .fixedWord, .floatWord, .forWord, .foreachWord,
   .gotoWord, .ifWord, .implicitWord, .inWord, .intWord, .interfaceWord, .internalWord, .isWord,
   .lockWord, .longWord, .namespaceWord, .newWord, .nullWord, .objectWord, .operatorWord,
   .outWord, .overrideWord, .paramsWord, .privateWord, .protectedWord, .publicWord, .readonlyWord,
   .refWord, .returnWord, .sbyteWord, .sealedWord, .shortWord, .sizeofWord, .stackallocWord,
   .staticWord, .stringWord, .structWord, .switchWord, .thisWord, .throwWord, .trueWord, .tryWord,
   .typeofWord, .uintWord, .ulongWord, .uncheckedWord, .unsafeWord, .ushortWord, .usingWord,
   .virtualWord, .voidWord, .volatileWord, .whileWord]

/-- The spelling of a reserved word. -/
def text : Keyword → String
  | .abstractWord => "abstract" | .asWord => "as" | .baseWord => "base" | .boolWord => "bool"
  | .breakWord => "break" | .byteWord => "byte" | .caseWord => "case" | .catchWord => "catch"
  | .charWord => "char" | .checkedWord => "checked" | .classWord => "class"
  | .constWord => "const" | .continueWord => "continue" | .decimalWord => "decimal"
  | .defaultWord => "default" | .delegateWord => "delegate" | .doWord => "do"
  | .doubleWord => "double" | .elseWord => "else" | .enumWord => "enum" | .eventWord => "event"
  | .explicitWord => "explicit" | .externWord => "extern" | .falseWord => "false"
  | .finallyWord => "finally" | .fixedWord => "fixed" | .floatWord => "float" | .forWord => "for"
  | .foreachWord => "foreach" | .gotoWord => "goto" | .ifWord => "if"
  | .implicitWord => "implicit" | .inWord => "in" | .intWord => "int"
  | .interfaceWord => "interface" | .internalWord => "internal" | .isWord => "is"
  | .lockWord => "lock" | .longWord => "long" | .namespaceWord => "namespace" | .newWord => "new"
  | .nullWord => "null" | .objectWord => "object" | .operatorWord => "operator"
  | .outWord => "out" | .overrideWord => "override" | .paramsWord => "params"
  | .privateWord => "private" | .protectedWord => "protected" | .publicWord => "public"
  | .readonlyWord => "readonly" | .refWord => "ref" | .returnWord => "return"
  | .sbyteWord => "sbyte" | .sealedWord => "sealed" | .shortWord => "short"
  | .sizeofWord => "sizeof" | .stackallocWord => "stackalloc" | .staticWord => "static"
  | .stringWord => "string" | .structWord => "struct" | .switchWord => "switch"
  | .thisWord => "this" | .throwWord => "throw" | .trueWord => "true" | .tryWord => "try"
  | .typeofWord => "typeof" | .uintWord => "uint" | .ulongWord => "ulong"
  | .uncheckedWord => "unchecked" | .unsafeWord => "unsafe" | .ushortWord => "ushort"
  | .usingWord => "using" | .virtualWord => "virtual" | .voidWord => "void"
  | .volatileWord => "volatile" | .whileWord => "while"

/-- The reserved word that a text spells. -/
def ofText? (text : String) : Option Keyword :=
  all.find? (·.text == text)

/-- Every reserved word is in the list of all of them. -/
theorem mem_all (k : Keyword) : k ∈ all := by
  cases k <;> decide

/-- The words that name a type without any declaration. -/
def namesType : Keyword → Bool
  | .boolWord | .byteWord | .charWord | .decimalWord | .doubleWord | .floatWord | .intWord
  | .longWord | .objectWord | .sbyteWord | .shortWord | .stringWord | .uintWord | .ulongWord
  | .ushortWord | .voidWord => true
  | _ => false

end Keyword

/-- The names that have a meaning of their own in some places. -/
def contextualWords : List String :=
  ["add", "alias", "allows", "and", "args", "ascending", "async", "await", "by", "descending",
   "dynamic", "equals", "extension", "field", "file", "from", "get", "global", "group", "init",
   "into", "join", "let", "managed", "nameof", "nint", "not", "notnull", "nuint", "on", "or",
   "orderby", "partial", "record", "remove", "required", "scoped", "select", "set", "unmanaged",
   "value", "var", "when", "where", "with", "yield"]

end CSharpCheck
