import CSharpCheck.Directive.Line
import CSharpCheck.Grammar.Rule
import Mathlib.Order.Monotone.Basic

/-!
# Relocated tokens and findings

Two texts whose tokens correspond to each other have tokens and findings that differ in where they
stand and in how their texts are written. A relocation says how places are moved and texts
rewritten: lines and the order of places stay, and no text becomes a word that it was not.
-/

namespace CSharpCheck

/-- A word that no line end stands in. -/
def OneLine (word : String) : Prop := ∀ c ∈ word.toList, isLineEnd c = false

instance (word : String) : Decidable (OneLine word) :=
  List.decidableBAll (isLineEnd · = false) word.toList

/-- Reserved words are words. -/
theorem oneLine_text (k : Keyword) : OneLine k.text := by
  cases k <;> decide

/-- A change of where tokens stand and of how their texts are written. -/
structure Relocation where
  place : Position → Position
  text : String → String
  /-- Where the place at an offset is moved. -/
  offset : Nat → Nat
  offset_place (p : Position) : (place p).offset = offset p.offset
  line_place (p : Position) : (place p).line = p.line
  strictMono : StrictMono offset
  text_eq_iff {t word : String} : OneLine word → (text t = word ↔ t = word)

namespace Relocation

variable (m : Relocation)

theorem offset_inj {a b : Nat} : m.offset a = m.offset b ↔ a = b :=
  m.strictMono.injective.eq_iff

theorem offset_le {a b : Nat} : m.offset a ≤ m.offset b ↔ a ≤ b :=
  m.strictMono.le_iff_le

/-! ### Texts -/

/-- A word is not rewritten. -/
theorem text_eq_self {word : String} (hword : OneLine word) : m.text word = word :=
  (m.text_eq_iff hword).2 rfl

theorem text_beq {t word : String} (hword : OneLine word) : (m.text t == word) = (t == word) := by
  rw [Bool.eq_iff_iff, beq_iff_eq, beq_iff_eq, m.text_eq_iff hword]

/-- A question that is answered alike for all texts but words does not see the change. -/
theorem answer_text {α : Type} {question : String → α} (refusal : α)
    (hwords : ∀ word, question word ≠ refusal → OneLine word) (t : String) :
    question (m.text t) = question t := by
  by_cases h : question t = refusal
  · by_contra hne
    have hword := hwords (m.text t) fun h' ↦ hne (h'.trans h.symm)
    exact hne (congrArg question ((m.text_eq_iff hword).1 rfl).symm)
  · rw [m.text_eq_self (hwords t h)]

theorem text_mem {words : List String} (hwords : ∀ word ∈ words, OneLine word) {t : String} :
    m.text t ∈ words ↔ t ∈ words := by
  constructor
  · exact fun h ↦ (m.text_eq_iff (hwords _ h)).1 rfl ▸ h
  · exact fun h ↦ (m.text_eq_self (hwords _ h)).symm ▸ h

/-- The character that a text of one character is rewritten to. -/
def char (c : Char) : Char := (m.text c.toString).toList.headD c

theorem char_of_text {c d : Char} (h : m.text c.toString = d.toString) : m.char c = d := by
  rw [char, h, Char.toString_eq_singleton, String.toList_singleton]
  rfl

theorem contains_text (words : List String) (hwords : ∀ word ∈ words, OneLine word) (t : String) :
    words.contains (m.text t) = words.contains t := by
  rw [Bool.eq_iff_iff, List.contains_iff_mem, List.contains_iff_mem, m.text_mem hwords]

end Relocation

/-! ### Places -/

/-- The span with its ends moved. -/
def Span.relocate (m : Relocation) (s : Span) : Span := ⟨m.place s.start, m.place s.stop⟩

@[simp] theorem Span.relocate_point (m : Relocation) (p : Position) :
    (Span.point p).relocate m = .point (m.place p) := rfl

/-! ### Tokens -/

/-- The relocated token. -/
def Token.relocate (m : Relocation) (t : Token) : Token :=
  { t with text := m.text t.text, span := t.span.relocate m }

namespace Token

variable (m : Relocation) (t : Token)

@[simp] theorem kind_relocate : (t.relocate m).kind = t.kind := (rfl)

@[simp] theorem text_relocate : (t.relocate m).text = m.text t.text := rfl

@[simp] theorem name_relocate : (t.relocate m).name = t.name := rfl

@[simp] theorem features_relocate : (t.relocate m).features = t.features := rfl

@[simp] theorem span_relocate : (t.relocate m).span = t.span.relocate m := rfl

@[simp] theorem is_relocate : (t.relocate m).is = t.is := (rfl)

@[simp] theorem isOneOf_relocate : (t.relocate m).isOneOf = t.isOneOf := (rfl)

@[simp] theorem isWord_relocate : (t.relocate m).isWord = t.isWord := (rfl)

@[simp] theorem isWordOf_relocate : (t.relocate m).isWordOf = t.isWordOf := (rfl)

@[simp] theorem isIdentifier_relocate : (t.relocate m).isIdentifier = t.isIdentifier := (rfl)

@[simp] theorem isKeyword_relocate : (t.relocate m).isKeyword = t.isKeyword := (rfl)

@[simp] theorem isLiteral_relocate : (t.relocate m).isLiteral = t.isLiteral := (rfl)

@[simp] theorem namesType_relocate : (t.relocate m).namesType = t.namesType := (rfl)

@[simp] theorem startsExpression_relocate :
    (t.relocate m).startsExpression = t.startsExpression := (rfl)

@[simp] theorem startsType_relocate : (t.relocate m).startsType = t.startsType := (rfl)

@[simp] theorem startsPattern_relocate : (t.relocate m).startsPattern = t.startsPattern := (rfl)

@[simp] theorem startsAwaitOperand_relocate :
    (t.relocate m).startsAwaitOperand = t.startsAwaitOperand := (rfl)

theorem isContextual_relocate {word : String} (hword : OneLine word) :
    (t.relocate m).isContextual word = t.isContextual word := by
  simp [isContextual, m.text_beq hword]

@[simp] theorem followsCast_relocate : (t.relocate m).followsCast = t.followsCast := by
  have hblockers := m.contains_text castBlockers (by decide) t.text
  simp only [followsCast, isIdentifier_relocate, text_relocate, isLiteral_relocate, kind_relocate,
    namesType_relocate, isWordOf_relocate, isOneOf_relocate, hblockers]

/-- Tokens touch at the same places. -/
@[simp] theorem touches_relocate (u : Token) :
    (t.relocate m).touches (u.relocate m) = t.touches u := by
  rw [touches, touches, Bool.eq_iff_iff, beq_iff_eq, beq_iff_eq]
  simp only [span_relocate, Span.relocate, m.offset_place]
  exact m.offset_inj

end Token

/-- The relocated token with its place among the tokens. -/
def Placed.relocate (m : Relocation) (p : Placed) : Placed := ⟨p.index, p.token.relocate m⟩

@[simp] theorem Placed.relocate_mk (m : Relocation) (index : Nat) (t : Token) :
    Placed.relocate m ⟨index, t⟩ = ⟨index, t.relocate m⟩ := rfl

@[simp] theorem Placed.index_relocate (m : Relocation) (p : Placed) :
    (p.relocate m).index = p.index := rfl

@[simp] theorem Placed.token_relocate (m : Relocation) (p : Placed) :
    (p.relocate m).token = p.token.relocate m := rfl

/-! ### Findings -/

/-- The lexical error with the character that it shows rewritten. -/
def LexicalError.relocate (m : Relocation) : LexicalError → LexicalError
  | .unexpectedCharacter c => .unexpectedCharacter (m.char c)
  | e => e

/-- The broken rule of the grammar with the text that it quotes rewritten. -/
def GrammarError.relocate (m : Relocation) : GrammarError → GrammarError
  | .wordExpected word => .wordExpected (m.text word)
  | .invalidTerm text => .invalidTerm (m.text text)
  | .invalidMember text => .invalidMember (m.text text)
  | e => e

/-- The problem with a directive with the text that it quotes rewritten. -/
def DirectiveProblem.relocate (m : Relocation) : DirectiveProblem → DirectiveProblem
  | .errorText text => .errorText (m.text text)
  | .warningText text => .warningText (m.text text)
  | .scriptOnly name => .scriptOnly (m.text name)
  | .scriptAfterToken name => .scriptAfterToken (m.text name)
  | p => p

/-- What a finding is about, with the text that it quotes rewritten. -/
def Cause.relocate (m : Relocation) : Cause → Cause
  | .lexical e => .lexical (e.relocate m)
  | .directive p => .directive (p.relocate m)
  | .grammar e => .grammar (e.relocate m)
  | c => c

/-- The relocated finding. -/
def Finding.relocate (m : Relocation) (f : Finding) : Finding :=
  ⟨f.cause.relocate m, f.span.relocate m⟩

end CSharpCheck
