import CSharpCheck.Proofs.Core.Programs
import CSharpCheck.Proofs.Core.Spelling
import CSharpCheck.Proofs.Reading.Unfinished
import CSharpCheck.Proofs.ReadingEnds
import CSharpCheck.Proofs.Scanning.SingleTokens

/-!
# The tokens of core programs

The text of a program is read word by word. Every word is one token, and nothing is found.
-/

namespace CSharpCheck.Core

/-! ### Words and tokens -/

/-- Whether a word is a string or a character, which may hold escapes. -/
def Word.isQuoted (w : Word) : Bool := w.kind == .stringLiteral || w.kind == .characterLiteral

/-- The token is that of the word. -/
structure IsToken (w : Word) (t : Token) : Prop where
  kind : t.kind = w.kind
  text : t.text = String.ofList w.text
  features : ∀ f ∈ t.features, f = .escapeCharacter ∧ w.isQuoted = true

/-- Whether a word may stand at the end of a text. -/
def Word.mayEnd : Word → Bool
  | .symbol s => s.mayEnd
  | _ => true

/-- The single token is the word. -/
structure IsSingle (w : Word) (s : Single) : Prop where
  chars : s.chars = w.text
  kind : s.kind = w.kind
  features : ∀ f ∈ s.features, f = .escapeCharacter ∧ w.isQuoted = true
  closes : w.mayEnd = true → ReadsAs s.chars s.kind s.name s.features []

/-- Every word of a program is read as one token. -/
theorem Word.exists_single (w : Word) : ∃ s, IsSingle w s := by
  have hread {name : Option String} {features : List Feature}
      (hword : IsFullWord false w.text [⟨w.kind, 0, w.text.length, name, features⟩])
      (hfeatures : ∀ f ∈ features, f = .escapeCharacter ∧ w.isQuoted = true) : ∃ s, IsSingle w s :=
    ⟨.ofWord hword.isWord, rfl, rfl, hfeatures, fun _ ↦ .of_isFullWord hword⟩
  cases w with
  | name n => exact hread n.isFullWord (by simp)
  | reserved k => exact hread (k.isFullWord_text false) (by simp)
  | symbol s =>
    exact ⟨.ofWord (s.isWord_text false), rfl, rfl, nofun,
      fun hend ↦ .of_isFullWord (Symbol.isFullWord_text hend false)⟩
  | literal l =>
    obtain ⟨features, hfeatures, hword⟩ := l.isFullWord
    refine hread hword fun f hf ↦ ⟨(hfeatures f hf).1, ?_⟩
    have hkind := (hfeatures f hf).2
    cases l with
    | decimal => exact absurd rfl hkind
    | string | character => rfl

theorem exists_forall₂_isSingle (ws : List Word) : ∃ ss, List.Forall₂ IsSingle ws ss := by
  induction ws with
  | nil => exact ⟨[], .nil⟩
  | cons w ws ih =>
    obtain ⟨ss, hss⟩ := ih
    obtain ⟨s, hs⟩ := w.exists_single
    exact ⟨s :: ss, .cons hs hss⟩

/-- The text of words is that of their single tokens. -/
theorem line_eq_textOf {ws : List Word} {ss : List Single} (h : List.Forall₂ IsSingle ws ss) :
    Single.line ss = textOf ws := by
  have hchars : ss.map (·.chars) = ws.map (·.text) := by
    induction h with
    | nil => rfl
    | cons hs _ ih => rw [List.map_cons, List.map_cons, hs.chars, ih]
  rw [Single.line, hchars, textOf]

theorem forall₂_isToken {ws : List Word} {ss : List Single} {ts : List Token}
    (h : List.Forall₂ IsSingle ws ss) (ht : List.Forall₂ Single.IsToken ss ts) :
    List.Forall₂ IsToken ws ts := by
  induction h generalizing ts with
  | nil =>
    cases ht
    exact .nil
  | cons hs _ ih =>
    cases ht with
    | cons ht hts =>
      refine .cons ⟨ht.kind.trans hs.kind, by rw [ht.text, hs.chars], ?_⟩ (ih hts)
      rw [ht.features]
      exact hs.features

/-! ### The last word -/

/-- The last of the words may stand at the end of a text. -/
def MayEnd (ws : List Word) : Prop := ∃ vs w, ws = vs ++ [w] ∧ w.mayEnd = true

namespace MayEnd

variable {ws : List Word}

theorem single {w : Word} (h : w.mayEnd = true) : MayEnd [w] := ⟨[], w, rfl, h⟩

theorem append (vs : List Word) (h : MayEnd ws) : MayEnd (vs ++ ws) := by
  obtain ⟨us, w, rfl, hw⟩ := h
  exact ⟨vs ++ us, w, (List.append_assoc ..).symm, hw⟩

theorem cons (w : Word) (h : MayEnd ws) : MayEnd (w :: ws) := h.append [w]

/-- The text of the words is read to its end. -/
theorem closes {ss : List Single} (h : MayEnd ws) (hss : List.Forall₂ IsSingle ws ss) :
    Single.Closes ss := by
  obtain ⟨vs, w, rfl, hend⟩ := h
  replace hss := List.forall₂_reverse_iff.2 hss
  rw [List.reverse_append, List.reverse_singleton, List.singleton_append,
    List.forall₂_cons_left_iff] at hss
  obtain ⟨s, ss', hs, -, hrest⟩ := hss
  intro s' hs'
  rw [← List.head?_reverse, hrest] at hs'
  cases hs'
  exact hs.closes hend

end MayEnd

mutual

/-- An expression may stand at the end of a text. -/
theorem Expression.mayEnd_words (e : Expression) : MayEnd e.words := by
  match e with
  | .assignment target value => exact (value.mayEnd_words.cons _).append _
  | .operations chain => exact chain.mayEnd_words
  | .conditional test yes no => exact (((no.mayEnd_words.cons _).append _).cons _).append _

theorem Operations.mayEnd_words (o : Operations) : MayEnd o.words := by
  match o with
  | .operand u => exact u.mayEnd_words
  | .operation left op right => exact (right.mayEnd_words.cons _).append _

theorem Unary.mayEnd_words (u : Unary) : MayEnd u.words := by
  match u with
  | .primary p => exact p.mayEnd_words
  | .sign s u => exact u.mayEnd_words.cons _

theorem Primary.mayEnd_words (p : Primary) : MayEnd p.words := by
  match p with
  | .parentheses e => exact ((MayEnd.single rfl).append _).cons _
  | .callable c => exact c.mayEnd_words

theorem Callable.mayEnd_words (c : Callable) : MayEnd c.words := by
  match c with
  | .name n | .literal l | .constant k => exact .single rfl
  | .member p n => exact ((MayEnd.single rfl).cons _).append _
  | .emptyCall c => exact ((MayEnd.single rfl).cons _).append _
  | .call c args | .index p args => exact (((MayEnd.single rfl).append _).cons _).append _

end

/-! ### Symbols that are not there -/

theorem Operation.ne_symbol (op : Operation) {s : Symbol} (hs : s ∈ endSymbols) :
    s ≠ op.symbol := by
  rintro rfl
  cases op <;> simp [symbol, endSymbols] at hs

theorem Sign.ne_symbol (sign : Sign) {s : Symbol} (hs : s ∈ endSymbols) : s ≠ sign.symbol := by
  rintro rfl
  cases sign <;> simp [symbol, endSymbols] at hs

/-- The symbols with which declarations end are not those of expressions. -/
theorem ne_of_endSymbol {s x : Symbol} (hs : s ∈ endSymbols) (hx : x ∉ endSymbols) : s ≠ x := by
  rintro rfl
  exact hx hs

section

variable {s : Symbol}

mutual

/-- No symbol with which declarations end stands in an expression. -/
theorem Expression.symbol_not_mem (e : Expression) (hs : s ∈ endSymbols) :
    Word.symbol s ∉ e.words := by
  have hequals := ne_of_endSymbol (x := .equals) hs (by decide)
  have hquestion := ne_of_endSymbol (x := .question) hs (by decide)
  have hcolon := ne_of_endSymbol (x := .colon) hs (by decide)
  match e with
  | .assignment target value =>
    simp [Expression.words, target.symbol_not_mem hs, value.symbol_not_mem hs, hequals]
  | .operations chain => exact chain.symbol_not_mem hs
  | .conditional test yes no =>
    simp [Expression.words, test.symbol_not_mem hs, yes.symbol_not_mem hs, no.symbol_not_mem hs,
      hquestion, hcolon]

theorem Operations.symbol_not_mem (o : Operations) (hs : s ∈ endSymbols) :
    Word.symbol s ∉ o.words := by
  match o with
  | .operand u => exact u.symbol_not_mem hs
  | .operation left op right =>
    simp [Operations.words, left.symbol_not_mem hs, right.symbol_not_mem hs, op.ne_symbol hs]

theorem Unary.symbol_not_mem (u : Unary) (hs : s ∈ endSymbols) : Word.symbol s ∉ u.words := by
  match u with
  | .primary p => exact p.symbol_not_mem hs
  | .sign sign u => simp [Unary.words, u.symbol_not_mem hs, sign.ne_symbol hs]

theorem Primary.symbol_not_mem (p : Primary) (hs : s ∈ endSymbols) : Word.symbol s ∉ p.words := by
  have hopen := ne_of_endSymbol (x := .openParen) hs (by decide)
  have hclose := ne_of_endSymbol (x := .closeParen) hs (by decide)
  match p with
  | .parentheses e => simp [Primary.words, e.symbol_not_mem hs, hopen, hclose]
  | .callable c => exact c.symbol_not_mem hs

theorem Callable.symbol_not_mem (c : Callable) (hs : s ∈ endSymbols) : Word.symbol s ∉ c.words := by
  have hdot := ne_of_endSymbol (x := .dot) hs (by decide)
  have hopen := ne_of_endSymbol (x := .openParen) hs (by decide)
  have hclose := ne_of_endSymbol (x := .closeParen) hs (by decide)
  have hbracket := ne_of_endSymbol (x := .openBracket) hs (by decide)
  have hbracket' := ne_of_endSymbol (x := .closeBracket) hs (by decide)
  match c with
  | .name n | .literal l | .constant k => simp [Callable.words]
  | .member p n => simp [Callable.words, p.symbol_not_mem hs, hdot]
  | .emptyCall c => simp [Callable.words, c.symbol_not_mem hs, hopen, hclose]
  | .call c args =>
    simp [Callable.words, c.symbol_not_mem hs, args.symbol_not_mem hs, hopen, hclose]
  | .index p args =>
    simp [Callable.words, p.symbol_not_mem hs, args.symbol_not_mem hs, hbracket, hbracket']

theorem Expressions.symbol_not_mem (es : Expressions) (hs : s ∈ endSymbols) :
    Word.symbol s ∉ es.words := by
  have hcomma := ne_of_endSymbol (x := .comma) hs (by decide)
  match es with
  | .one e => exact e.symbol_not_mem hs
  | .more e es => simp [Expressions.words, e.symbol_not_mem hs, es.symbol_not_mem hs, hcomma]

end

end

theorem Expression.fatArrow_not_mem (e : Expression) : Word.symbol .fatArrow ∉ e.words :=
  e.symbol_not_mem (by decide)

theorem Expressions.fatArrow_not_mem (es : Expressions) : Word.symbol .fatArrow ∉ es.words :=
  es.symbol_not_mem (by decide)

mutual

theorem Statement.fatArrow_not_mem (s : Statement) : Word.symbol .fatArrow ∉ s.words := by
  match s with
  | .declaration n value => simp [Statement.words, value.fatArrow_not_mem]
  | .body b => exact b.fatArrow_not_mem

theorem Body.fatArrow_not_mem (b : Body) : Word.symbol .fatArrow ∉ b.words := by
  match b with
  | .empty | .emptyCall f => simp [Body.words]
  | .block ss => simp [Body.words, ss.fatArrow_not_mem]
  | .assignment n value | .return value => simp [Body.words, value.fatArrow_not_mem]
  | .call f args => simp [Body.words, args.fatArrow_not_mem]
  | .ifThen test b | .whileDo test b =>
    simp [Body.words, Expression.conditionWords, test.fatArrow_not_mem, b.fatArrow_not_mem]
  | .doWhile b test =>
    simp [Body.words, Expression.conditionWords, test.fatArrow_not_mem, b.fatArrow_not_mem]
  | .ifElse test yes no =>
    simp [Body.words, Expression.conditionWords, test.fatArrow_not_mem, yes.fatArrow_not_mem,
      no.fatArrow_not_mem]

theorem Statements.fatArrow_not_mem (ss : Statements) : Word.symbol .fatArrow ∉ ss.words := by
  match ss with
  | .nil => simp [Statements.words]
  | .cons s ss => simp [Statements.words, s.fatArrow_not_mem, ss.fatArrow_not_mem]

end

/-! ### What the tokens are like -/

variable {ts : List Token}

/-- No token is a contextual word. -/
theorem IsToken.not_isContextual {w : Word} {t : Token} (h : IsToken w t) {word : String}
    (hword : word ∈ contextualWords) : t.isContextual word = false := by
  cases w with
  | name n =>
    have htext : t.text ≠ word := by
      rw [h.text]
      exact n.text_ne_contextual hword
    simp [Token.isContextual, htext]
  | literal l =>
    cases l <;> simp [Token.isContextual, Token.isIdentifier, h.kind, Word.kind, Literal.kind]
  | reserved k | symbol s => simp [Token.isContextual, Token.isIdentifier, h.kind, Word.kind]

/-- Only a symbol is read as that symbol. -/
theorem Word.eq_symbol {w : Word} {s : Symbol} (h : w.kind = .symbol s) : w = .symbol s := by
  cases w with
  | symbol s => simpa [kind] using h
  | literal l => cases l <;> simp [kind, Literal.kind] at h
  | name | reserved => simp [kind] at h

theorem symbol_mem_of_mem_kinds {ws : List Word} {s : Symbol} (h : .symbol s ∈ kinds ws) :
    .symbol s ∈ ws := by
  obtain ⟨w, hw, hkind⟩ := List.mem_map.1 h
  exact Word.eq_symbol hkind ▸ hw

theorem IsToken.eq_symbol {w : Word} {t : Token} (h : IsToken w t) {s : Symbol}
    (ht : t.kind = .symbol s) : w = .symbol s := Word.eq_symbol (h.kind ▸ ht)

/-- The tokens of words are plain if the features may be used that the words need. -/
theorem plain_of_forall₂ {ws : List Word} {allowed : Feature → Prop}
    (h : List.Forall₂ IsToken ws ts) (hapart : Apart ts) (harrow : .symbol .fatArrow ∉ ws)
    (hquoted : ∀ w ∈ ws, w.isQuoted = true → allowed .escapeCharacter)
    (hless : .symbol .less ∈ ws → allowed .generics ∧ allowed .deconstruction) :
    Plain allowed ts where
  ordinary t ht word hword := by
    obtain ⟨w, -, hw⟩ := exists_of_mem_forall₂ h ht
    exact hw.not_isContextual hword
  arrow t ht hkind := by
    obtain ⟨w, hmem, hw⟩ := exists_of_mem_forall₂ h ht
    exact harrow (hw.eq_symbol hkind ▸ hmem)
  apart t u us hus := (List.isChain_cons_cons.1 (hapart.suffix hus)).1
  features t ht f hf := by
    obtain ⟨w, hmem, hw⟩ := exists_of_mem_forall₂ h ht
    obtain ⟨rfl, hq⟩ := hw.features f hf
    exact hquoted w hmem hq
  less t ht hkind := by
    obtain ⟨w, hmem, hw⟩ := exists_of_mem_forall₂ h ht
    exact hless (hw.eq_symbol hkind ▸ hmem)

theorem map_kind_of_forall₂ {ws : List Word} (h : List.Forall₂ IsToken ws ts) :
    ts.map (·.kind) = kinds ws := by
  induction h with
  | nil => rfl
  | cons ht _ ih => rw [List.map_cons, ht.kind, ih, kinds_cons]

theorem IsSingle.ne_bad {w : Word} {s : Single} (h : IsSingle w s) : s.kind ≠ .bad := by
  rw [h.kind]
  cases w with
  | literal l => cases l <;> simp [Word.kind, Literal.kind]
  | name | reserved | symbol => simp [Word.kind]

theorem ne_bad_of_forall₂ {ws : List Word} {ss : List Single} (h : List.Forall₂ IsSingle ws ss) :
    ∀ s ∈ ss, s.kind ≠ .bad := fun _ hs ↦
  have ⟨_, _, hw⟩ := exists_of_mem_forall₂ h hs
  hw.ne_bad

end CSharpCheck.Core
