import CSharpCheck.Proofs.Core.Expressions

/-!
# Statements are read

The rules for statements read every statement of a core program to its end, if the nesting that is
left suffices for its depth as read. An `else` behind a statement is left alone unless the statement
ends with an `if` that has none.
-/

namespace CSharpCheck.Core

/-! ### Stretches of tokens -/

/-- In what setting programs are read: what may come up, whether parenthesised products may occur,
and the number of all tokens. -/
structure Setting extends Allowance where
  products : Bool
  deconstruction : products = true → allowed .deconstruction
  size : Nat

/-- The terms of the grammar when `room` levels of nesting are left. -/
def Setting.terms (C : Setting) (room : Nat) (around : List TypeKind) : Terms :=
  grammarRules.terms C.toAllowance C.size room around

/-- The tokens up to `rest` are those of the words, in which `inner` stands in parentheses. -/
structure Setting.Stretch (C : Setting) (words : List Word) (inner : List Expression)
    (ts rest : Ahead) : Prop where
  covers : ∃ us : Ahead, ts = us ++ rest ∧ us.map (·.kind) = kinds words
  plain : Plain C.allowed ts
  suits : Suits C.products inner
  length : ts.length ≤ C.size

namespace Setting.Stretch

variable {C : Setting} {words more : List Word} {inner others : List Expression} {ts rest : Ahead}

theorem suffix (h : C.Stretch words inner ts rest) : rest <:+ ts := by
  obtain ⟨us, rfl, -⟩ := h.covers
  exact List.suffix_append us rest

theorem nil (h : C.Stretch [] inner ts rest) : ts = rest := by
  obtain ⟨us, rfl, hus⟩ := h.covers
  rw [List.map_eq_nil_iff.1 hus, List.nil_append]

theorem cons {w : Word} (h : C.Stretch (w :: words) inner ts rest) :
    ∃ t us, ts = t :: us ∧ t.kind = w.kind ∧ C.Stretch words inner us rest := by
  obtain ⟨us, rfl, hus⟩ := h.covers
  cases us with
  | nil => simp at hus
  | cons t us =>
    rw [List.map_cons, kinds_cons, List.cons.injEq] at hus
    have hlength := h.length
    rw [List.cons_append, List.length_cons] at hlength
    exact ⟨t, us ++ rest, rfl, hus.1, ⟨us, rfl, hus.2⟩, h.plain.tail, h.suits, by omega⟩

theorem append (h : C.Stretch (words ++ more) (inner ++ others) ts rest) :
    ∃ us, C.Stretch words inner ts us ∧ C.Stretch more others us rest := by
  obtain ⟨us, rfl, hus⟩ := h.covers
  rw [kinds_append] at hus
  obtain ⟨vs, ws, rfl, hvs, hws⟩ := List.map_eq_append_iff.1 hus
  have hlength := h.length
  have hplain := h.plain
  rw [List.append_assoc] at hlength hplain
  rw [List.length_append] at hlength
  refine ⟨ws ++ rest, ⟨⟨vs, List.append_assoc _ _ _, hvs⟩, h.plain, (suits_append.1 h.suits).1,
    h.length⟩, ⟨ws, rfl, hws⟩, hplain.of_append, (suits_append.1 h.suits).2, by omega⟩

/-- Words at the end hold nothing in parentheses. -/
theorem append_nil (h : C.Stretch (words ++ more) inner ts rest) :
    ∃ us, C.Stretch words inner ts us ∧ C.Stretch more [] us rest := by
  rw [← List.append_nil inner] at h
  exact h.append

theorem mono (h : C.Stretch words inner ts rest) (hsub : others ⊆ inner) :
    C.Stretch words others ts rest :=
  ⟨h.covers, h.plain, fun hp e he ↦ h.suits hp e (hsub he), h.length⟩

theorem length_lt (h : C.Stretch words inner ts rest) (hne : words ≠ []) :
    rest.length < ts.length := by
  obtain ⟨us, rfl, hus⟩ := h.covers
  cases us with
  | nil =>
    rw [List.map_nil, eq_comm, kinds, List.map_eq_nil_iff] at hus
    contradiction
  | cons t us =>
    simp only [List.length_append, List.length_cons]
    omega

end Setting.Stretch

/-- An expression has come to its end where what is behind it begins. -/
theorem Site.Ends.eq_rest {S : Site} {b : Nat} {outer : List Level} {us : Ahead}
    (h : S.Ends 1 [] b outer us) : us = S.rest := by
  obtain ⟨c, l, -, hfits⟩ := h.fits
  have hloose {s : Symbol} {t : Token} {vs : Ahead} (hus : us = t :: vs) (ht : t.kind = .symbol s) :
      tightness s < 1 := h.looser s (is_eq_true_iff.2 ⟨t, vs, hus, ht⟩)
  cases hfits.behindOperand (.inr rfl) with
  | end_ hrest => exact hrest.symm
  | operation ht hs =>
    have hless := hloose rfl ht
    have hinfix := (precedence_infixSymbol _ hs).2
    simp only [Operator.coalescing] at hinfix
    omega
  | member ht | call ht | index ht | assignment ht | question ht | typeArguments _ ht =>
    have hless := hloose rfl ht
    contradiction

/-! ### How statements begin -/

/-- A statement that is no declaration begins with a symbol or word of its own, or with a name in
front of an equals sign or parenthesis. -/
inductive StartsBody : Ahead → Prop where
  | symbol {t : Token} {us : Ahead} {s : Symbol} : t.kind = .symbol s →
      s ∈ [Symbol.semicolon, .openBrace] → StartsBody (t :: us)
  | word {t : Token} {us : Ahead} {k : Keyword} : t.kind = .keyword k →
      k ∈ [Keyword.ifWord, .whileWord, .doWord, .returnWord] → StartsBody (t :: us)
  | name {t u : Token} {us : Ahead} {s : Symbol} : t.kind = .identifier → u.kind = .symbol s →
      s ∈ [Symbol.equals, .openParen] → StartsBody (t :: u :: us)

/-- No modifier stands at the beginning of a statement. -/
theorem localModifiers_eq_zero {allowed : Feature → Prop} {t : Token} {us : Ahead}
    (hplain : Plain allowed (t :: us)) (hword : t.isWordOf localModifierWords = false) :
    Ahead.localModifiers (t :: us) = 0 := by
  have hasync := hplain.ordinary t List.mem_cons_self "async" (by simp [contextualWords])
  have hscoped := hplain.ordinary t List.mem_cons_self "scoped" (by simp [contextualWords])
  simp [Ahead.localModifiers, Ahead.isLocalModifier, Ahead.isWordOf, Ahead.isContextual, hword,
    hasync, hscoped]

/-- A name in front of a symbol that adds nothing to it is a type. -/
theorem typeEnd_name {t u : Token} {us : Ahead} (ht : t.kind = .identifier) {s : Symbol}
    (hu : u.kind = .symbol s) (hs : s ∈ [Symbol.equals, .openParen]) :
    Ahead.typeEnd (t :: u :: us) = some 1 := by
  have hnot {x : Symbol} (hx : x ∉ [Symbol.equals, .openParen]) : Ahead.is (u :: us) x = false := by
    have hne : s ≠ x := by
      rintro rfl
      exact hx hs
    simpa [Ahead.is, Token.is, hu] using hne
  have hquestion : u.is .question = false := hnot (by decide)
  have hstar : u.is .star = false := hnot (by decide)
  have hbracket : u.is .openBracket = false := hnot (by decide)
  have hstem : typeStem (typeWithin maxTypeDepth false) 0 (t :: u :: us) = .done 1 := by
    have hname : qualifiedName (typeWithin maxTypeDepth false) 0 (t :: u :: us) = .done 1 :=
      Site.qualifiedName_of_not_less ht (hnot (by decide)) (hnot (by decide)) (hnot (by decide)) 0
    simp [typeStem, Ahead.is, Token.is, Token.namesType, Ahead.isWord, Token.isWord,
      Ahead.isIdentifier, Token.isIdentifier, ht, hname]
  have hsuffixes : typeSuffixes false 1 (u :: us) = .done 1 := by
    rw [typeSuffixes]
    simp [hquestion, hstar, hbracket]
  simp [Ahead.typeEnd, Ahead.typeScan, typeWithin, hstem, TypeScan.andThen, TypeScan.done,
    TypeScan.after, hsuffixes]

/-- A token with which no type begins. -/
theorem typeEnd_none {t : Token} (hparen : t.is .openParen = false) (htype : t.namesType = false)
    (hdelegate : t.isWord .delegateWord = false) (hname : t.isIdentifier = false) (us : Ahead) :
    Ahead.typeEnd (t :: us) = none := by
  simp [Ahead.typeEnd, Ahead.typeScan, typeWithin, typeStem, Ahead.is, Ahead.isWord,
    Ahead.isIdentifier, hparen, htype, hdelegate, hname, TypeScan.andThen, TypeScan.fail]

/-- The name of a type in front of another name is a type. -/
theorem typeScan_word {t x : Token} {k : Keyword} (ht : t.kind = .keyword k)
    (hk : k.namesType = true) (hx : x.kind = .identifier) (us : Ahead) :
    Ahead.typeScan (t :: x :: us) false = .done 1 := by
  have hstem : typeStem (typeWithin maxTypeDepth false) 0 (t :: x :: us) = .done 1 := by
    simp [typeStem, Ahead.is, Token.is, Token.namesType, ht, hk]
  have hsuffixes : typeSuffixes false 1 (x :: us) = .done 1 := by
    rw [typeSuffixes]
    simp [Token.is, hx]
  simp [Ahead.typeScan, typeWithin, hstem, TypeScan.andThen, TypeScan.done, TypeScan.after,
    hsuffixes]

/-- No local declaration comes where another statement begins. -/
theorem StartsBody.localKind {allowed : Feature → Prop} {ts : Ahead} (h : StartsBody ts)
    (hplain : Plain allowed ts) : ts.localKind = none := by
  have hnone {t : Token} {us : Ahead} (hts : ts = t :: us)
      (hword : t.isWordOf localModifierWords = false)
      (htype : Ahead.typeEnd (t :: us) = none) : ts.localKind = none := by
    subst hts
    simp [Ahead.localKind, localModifiers_eq_zero hplain hword, htype]
  cases h with
  | @symbol t us s ht hs =>
    have hne : s ≠ .openParen := by
      rintro rfl
      simp at hs
    refine hnone rfl (by simp [Token.isWordOf, ht]) (typeEnd_none ?_ ?_ ?_ ?_ us)
    · simpa [Token.is, ht] using hne
    · simp [Token.namesType, ht]
    · simp [Token.isWord, ht]
    · simp [Token.isIdentifier, ht]
  | @word t us k ht hk =>
    have hwords : ∀ k ∈ [Keyword.ifWord, .whileWord, .doWord, .returnWord],
        localModifierWords.contains k = false ∧ k.namesType = false ∧ k ≠ .delegateWord := by
      decide
    obtain ⟨hmodifier, htype, hdelegate⟩ := hwords k hk
    refine hnone rfl (by simpa [Token.isWordOf, ht] using hmodifier) (typeEnd_none ?_ ?_ ?_ ?_ us)
    · simp [Token.is, ht]
    · simpa [Token.namesType, ht] using htype
    · simpa [Token.isWord, ht] using hdelegate
    · simp [Token.isIdentifier, ht]
  | @name t u us s ht hu hs =>
    have hword : t.isWordOf localModifierWords = false := by simp [Token.isWordOf, ht]
    simp [Ahead.localKind, localModifiers_eq_zero hplain hword, typeEnd_name ht hu hs,
      Ahead.isIdentifier, Token.isIdentifier, hu]

/-- No label comes where another statement begins. -/
theorem StartsBody.isLabel {ts : Ahead} (h : StartsBody ts) : ts.isLabel = false := by
  cases h with
  | symbol ht => simp [Ahead.isLabel, Ahead.isIdentifier, Token.isIdentifier, ht]
  | word ht => simp [Ahead.isLabel, Ahead.isIdentifier, Token.isIdentifier, ht]
  | @name t u us s ht hu hs =>
    have hne : s ≠ .colon := by
      rintro rfl
      simp at hs
    simp [Ahead.isLabel, Ahead.tail, Ahead.is, Token.is, hu, hne]

theorem Statement.words_ne_nil (s : Statement) : s.words ≠ [] := by
  cases s with
  | declaration n value => simp [Statement.words]
  | body b => cases b <;> simp [Statement.words, Body.words]

/-- Neither `else` nor a closing brace comes where a statement begins. -/
theorem StartsBody.exists_head {ts : Ahead} (h : StartsBody ts) :
    ∃ t us, ts = t :: us ∧ t.isWord .elseWord = false ∧ t.is .closeBrace = false := by
  cases h with
  | @symbol t us s ht hs =>
    have hne : s ≠ .closeBrace := by
      rintro rfl
      simp at hs
    exact ⟨t, us, rfl, by simp [Token.isWord, ht], by simpa [Token.is, ht] using hne⟩
  | @name t u us s ht => exact ⟨t, u :: us, rfl, by simp [Token.isWord, ht], by simp [Token.is, ht]⟩
  | @word t us k ht hk =>
    have hne : k ≠ .elseWord := by
      rintro rfl
      simp at hk
    exact ⟨t, us, rfl, by simpa [Token.isWord, ht] using hne, by simp [Token.is, ht]⟩

namespace Setting

variable {C : Setting} {room : Nat} {around : List TypeKind} {ts us rest : Ahead}

/-! ### Expressions in statements -/

/-- What is in front of an expression in front of a closing parenthesis or a semicolon is in front
of an operand. -/
theorem Stretch.exists_site {e : Expression} (h : C.Stretch e.words e.parenthesized ts rest)
    (hcloses : ∀ t ∈ rest.head?, t.isOneOf closers = true) :
    ∃ S : Site, S.allowed = C.allowed ∧ S.rest = rest ∧ S.depth = e.depthAsRead ∧
      S.Fits ⟨.operand, []⟩ ⟨.operand, ⟨0, 0⟩, []⟩ ts := by
  let S : Site := ⟨C.allowed, C.products, C.deconstruction, rest, hcloses, e.depthAsRead⟩
  obtain ⟨us, rfl, hus⟩ := h.covers
  have hkinds : S.kinds (us ++ rest) = kinds e.words := by
    rw [Site.kinds_append (List.suffix_refl rest), Site.kinds_rest S, List.append_nil, hus]
  obtain ⟨c, hc⟩ := e.after_words h.suits []
  refine ⟨S, rfl, rfl, rfl, ⟨h.plain, h.suffix, c, ?_⟩, ?_⟩
  · rw [hkinds, ← List.append_nil (kinds e.words), hc, Outline.after_nil]
  · rw [hkinds]
    exact Nat.le_refl _

/-- An expression is read. -/
theorem Stretch.expression {e : Expression} (h : C.Stretch e.words e.parenthesized ts rest)
    (hcloses : ∀ t ∈ rest.head?, t.isOneOf closers = true)
    (hroom : 2 * e.depthAsRead + 2 ≤ room) {Q : Post Unit} (hQ : Q () rest) :
    Rule.expression.Reads (C.terms room around) Q ts := by
  obtain ⟨S, hallowed, rfl, hdepth, hfits⟩ := h.exists_site hcloses
  refine (S.ready (A := C.toAllowance) hallowed.symm C.size room around).expression hfits
    (by omega) fun _ _ vs _ hends ↦ ?_
  rw [hends.eq_rest]
  exact hQ

/-- In front of an expression stands no symbol that begins no operand. -/
theorem Stretch.is_expression {e : Expression} (h : C.Stretch e.words e.parenthesized ts rest)
    (hcloses : ∀ t ∈ rest.head?, t.isOneOf closers = true) {s : Symbol}
    (hs : s ∉ Site.operandSymbols) : ts.is s = false := by
  obtain ⟨S, -, -, -, hfits⟩ := h.exists_site hcloses
  exact hfits.toRuns.is_before hs

theorem Stretch.isWord_expression {e : Expression} (h : C.Stretch e.words e.parenthesized ts rest)
    (hcloses : ∀ t ∈ rest.head?, t.isOneOf closers = true) {k : Keyword}
    (hk : k ∉ [.trueWord, .falseWord, .nullWord, .thisWord]) : ts.isWord k = false := by
  obtain ⟨S, -, -, -, hfits⟩ := h.exists_site hcloses
  exact hfits.toRuns.isWord_before hk

/-- A condition in parentheses is read. -/
theorem Stretch.condition {e : Expression}
    (h : C.Stretch e.conditionWords e.parenthesized ts rest)
    (hroom : 2 * e.depthAsRead + 2 ≤ room) {Q : Post Unit} (hQ : Q () rest) :
    Rule.condition.Reads (C.terms room around) Q ts := by
  obtain ⟨t, us, rfl, ht, h⟩ := h.cons
  obtain ⟨vs, he, hclose⟩ := h.append_nil
  obtain ⟨u, ws, rfl, hu, hclose⟩ := hclose.cons
  obtain rfl := hclose.nil
  have hclose : u.is .closeParen = true := by simp [Token.is, hu, Word.kind]
  rw [Rule.condition, Rule.reads_bind]
  refine Rule.reads_need (by simp [Token.is, ht, Word.kind]) ?_
  rw [Rule.reads_bind]
  refine he.expression (by simp [Token.isOneOf, hu, Word.kind, closers]) hroom ?_
  exact Rule.reads_need hclose hQ

/-! ### Statements -/

theorem Stretch.startsBody {b : Body} (h : C.Stretch b.words b.parenthesized ts rest) :
    StartsBody ts := by
  have hname {n : Name} {s : Symbol} {words : List Word} {inner : List Expression}
      (hs : s ∈ [Symbol.equals, .openParen])
      (h : C.Stretch (.name n :: .symbol s :: words) inner ts rest) : StartsBody ts := by
    obtain ⟨t, us, rfl, ht, h⟩ := h.cons
    obtain ⟨u, vs, rfl, hu, -⟩ := h.cons
    exact .name ht hu hs
  have hword {k : Keyword} {words : List Word} {inner : List Expression}
      (hk : k ∈ [Keyword.ifWord, .whileWord, .doWord, .returnWord])
      (h : C.Stretch (.reserved k :: words) inner ts rest) : StartsBody ts := by
    obtain ⟨t, us, rfl, ht, -⟩ := h.cons
    exact .word ht hk
  have hsymbol {s : Symbol} {words : List Word} {inner : List Expression}
      (hs : s ∈ [Symbol.semicolon, .openBrace])
      (h : C.Stretch (.symbol s :: words) inner ts rest) : StartsBody ts := by
    obtain ⟨t, us, rfl, ht, -⟩ := h.cons
    exact .symbol ht hs
  cases b with
  | empty | block ss => exact hsymbol (by decide) h
  | assignment n value | emptyCall f | call f args => exact hname (by decide) h
  | ifThen test yes | ifElse test yes no | whileDo test b | doWhile b test | «return» value =>
    exact hword (by decide) h

theorem Stretch.exists_head {s : Statement} (h : C.Stretch s.words s.parenthesized ts rest) :
    ∃ t us, ts = t :: us ∧ t.isWord .elseWord = false ∧ t.is .closeBrace = false := by
  cases s with
  | body b => exact (startsBody (b := b) h).exists_head
  | declaration n value =>
    obtain ⟨t, us, rfl, ht, -⟩ := h.cons
    exact ⟨t, us, rfl, by simp [Token.isWord, ht, Word.kind], by simp [Token.is, ht, Word.kind]⟩

/-- Statements in front of something else than an `else` begin with something else, too. -/
theorem Stretch.not_else {ss : Statements} (h : C.Stretch ss.words ss.parenthesized ts rest)
    (hrest : rest.isWord .elseWord = false) : ts.isWord .elseWord = false := by
  cases ss with
  | nil => rwa [h.nil]
  | cons s ss =>
    rw [Statements.words, Statements.parenthesized] at h
    obtain ⟨us, hs, -⟩ := h.append
    obtain ⟨t, vs, rfl, helse, -⟩ := hs.exists_head
    simpa [Ahead.isWord] using helse

/-- The word `if` comes first in a statement if it is one of these. -/
theorem Stretch.exists_if {b : Body} (h : C.Stretch b.words b.parenthesized ts rest) :
    ∃ t us, ts = t :: us ∧ t.isWord .ifWord = b.startsIf := by
  cases b with
  | empty | block ss | assignment n value | emptyCall f | call f args | ifThen test yes
  | ifElse test yes no | whileDo test b | doWhile b test | «return» value =>
    obtain ⟨t, us, rfl, ht, -⟩ := h.cons
    exact ⟨t, us, rfl, by simp [Token.isWord, ht, Word.kind, Body.startsIf]⟩

/-- When `room` levels of nesting are left, statements are read, each to its end. -/
def ReadsStatements (C : Setting) (room : Nat) (around : List TypeKind) : Prop :=
  ∀ {s : Statement} {ts rest : Ahead} {Q : Post Unit},
    C.Stretch s.words s.parenthesized ts rest → s.IsSettled →
    (s.isOpen = true → rest.isWord .elseWord = false) →
    2 * s.depth Expression.depthAsRead + 3 ≤ room → Q () rest →
    Rule.statement.Reads (C.terms room around) Q ts

namespace ReadsStatements

/-- A statement that another one governs is read. -/
theorem embedded (h : C.ReadsStatements room around) {b : Body}
    (hts : C.Stretch b.words b.parenthesized ts rest) (hsettled : b.IsSettled)
    (hopen : b.isOpen = true → rest.isWord .elseWord = false)
    (hroom : 2 * b.depth Expression.depthAsRead + 3 ≤ room) {Q : Post Unit} (hQ : Q () rest) :
    Rule.embeddedStatement.Reads (C.terms room around) Q ts := by
  have hstarts := hts.startsBody
  simp only [Rule.embeddedStatement, Rule.reads_bind, Rule.reads_ask, hstarts.isLabel,
    hstarts.localKind hts.plain, Option.isSome_none, Bool.or_false, Bool.false_eq_true, if_false]
  exact h (s := .body b) hts hsettled hopen (by rwa [Statement.depth]) hQ

/-- Statements up to a closing brace are read. -/
theorem statements (h : C.ReadsStatements room around) {ss : Statements}
    (hts : C.Stretch ss.words ss.parenthesized ts rest) (hsettled : ss.IsSettled)
    (hroom : 2 * ss.depth Expression.depthAsRead + 3 ≤ room)
    (hclose : rest.is .closeBrace = true) {Q : Post Unit} (hQ : Q () rest) :
    (Rule.statements false).Reads (C.terms room around) Q ts := by
  refine Rule.reads_whileAhead (fun us ↦ ∃ ss : Statements,
    C.Stretch ss.words ss.parenthesized us rest ∧ ss.IsSettled ∧
      2 * ss.depth Expression.depthAsRead + 3 ≤ room) ⟨ss, hts, hsettled, hroom⟩ ?_ ?_
  · rintro us ⟨ss, hus, hsettled, hroom⟩ hmore
    cases ss with
    | nil =>
      rw [hus.nil] at hmore
      simp [Rule.isBefore, hclose] at hmore
    | cons s ss =>
      rw [Statements.words, Statements.parenthesized] at hus
      obtain ⟨vs, hs, hss⟩ := hus.append
      have hlength := hs.length_lt s.words_ne_nil
      have hsize := hus.length
      have hmoves : (C.terms room around).size - us.length ≠ (C.terms room around).size - vs.length := by
        rw [terms, Rules.size_terms]
        omega
      have helse : rest.isWord .elseWord = false := by
        obtain ⟨t, ws, rfl, ht⟩ := is_eq_true_iff.1 hclose
        simp [Ahead.isWord, Token.isWord, ht]
      rw [Statements.depth] at hroom
      simp only [Rule.statementOrRecover, Rule.moves, Rule.reads_bind, Rule.reads_here]
      refine h hs hsettled.1 (fun _ ↦ hss.not_else helse) (by omega) ?_
      simp [hmoves, hlength]
      exact ⟨ss, hss, hsettled.2, by omega⟩
  · rintro us ⟨ss, hus, hsettled, hroom⟩ hend
    cases ss with
    | nil =>
      rw [hus.nil]
      exact hQ
    | cons s ss =>
      rw [Statements.words, Statements.parenthesized] at hus
      obtain ⟨vs, hs, -⟩ := hus.append
      obtain ⟨t, ws, rfl, -, hbrace⟩ := hs.exists_head
      simp [Rule.isBefore, Ahead.is, hbrace] at hend

/-- A block is read. -/
theorem block (h : C.ReadsStatements room around) {ss : Statements}
    (hts : C.Stretch (Body.block ss).words (Body.block ss).parenthesized ts rest)
    (hsettled : ss.IsSettled) (hroom : 2 * ss.depth Expression.depthAsRead + 3 ≤ room)
    {Q : Post Unit} (hQ : Q () rest) : Rule.block.Reads (C.terms room around) Q ts := by
  obtain ⟨t, us, rfl, ht, hts⟩ := hts.cons
  obtain ⟨vs, hss, hclose⟩ := hts.append_nil
  obtain ⟨u, ws, rfl, hu, hclose⟩ := hclose.cons
  obtain rfl := hclose.nil
  rw [Rule.block, Rule.reads_bind]
  refine Rule.reads_expect (by simp [Token.is, ht, Word.kind]) ?_
  simp only [if_true, Rule.reads_bind]
  refine h.statements hss hsettled hroom (by simp [Ahead.is, Token.is, hu, Word.kind]) ?_
  exact Rule.reads_need (by simp [Token.is, hu, Word.kind]) hQ

/-- A loop with its condition in front is read. -/
theorem guardedStatement (h : C.ReadsStatements room around) {test : Expression} {b : Body}
    (hts : C.Stretch (Body.whileDo test b).words (Body.whileDo test b).parenthesized ts rest)
    (hsettled : b.IsSettled) (hopen : b.isOpen = true → rest.isWord .elseWord = false)
    (hroom : 2 * (Body.whileDo test b).depth Expression.depthAsRead + 2 ≤ room) {Q : Post Unit}
    (hQ : Q () rest) : Rule.guardedStatement.Reads (C.terms room around) Q ts := by
  obtain ⟨t, us, rfl, ht, hts⟩ := hts.cons
  obtain ⟨vs, htest, hb⟩ := hts.append
  rw [Body.depth] at hroom
  simp only [Rule.guardedStatement, Rule.reads_bind, Rule.reads_skipToken]
  refine htest.condition (by omega) ?_
  exact h.embedded hb hsettled hopen (by omega) hQ

/-- A loop with its condition behind is read. -/
theorem doStatement (h : C.ReadsStatements room around) {b : Body} {test : Expression}
    (hts : C.Stretch (Body.doWhile b test).words (Body.doWhile b test).parenthesized ts rest)
    (hsettled : b.IsSettled)
    (hroom : 2 * (Body.doWhile b test).depth Expression.depthAsRead + 2 ≤ room) {Q : Post Unit}
    (hQ : Q () rest) : Rule.doStatement.Reads (C.terms room around) Q ts := by
  obtain ⟨t, us, rfl, ht, hts⟩ := hts.cons
  replace hts : C.Stretch _ (b.parenthesized ++ test.parenthesized) us rest :=
    hts.mono (by simp [Body.parenthesized])
  obtain ⟨vs, hb, hts⟩ := hts.append
  obtain ⟨u, ws, rfl, hu, hts⟩ := hts.cons
  obtain ⟨xs, htest, hend⟩ := hts.append_nil
  obtain ⟨v, ys, rfl, hv, hend⟩ := hend.cons
  obtain rfl := hend.nil
  rw [Body.depth] at hroom
  simp only [Rule.doStatement, Rule.reads_bind, Rule.reads_skipToken]
  refine h.embedded hb hsettled (fun _ ↦ ?_) (by omega) ?_
  · simp [Ahead.isWord, Token.isWord, hu, Word.kind]
  · refine Rule.reads_needWord (by simp [Token.isWord, hu, Word.kind]) ?_
    refine htest.condition (by omega) ?_
    exact Rule.reads_need (by simp [Token.is, hv, Word.kind]) hQ

/-- A value is returned. -/
theorem returnStatement {value : Expression}
    (hts : C.Stretch (Body.return value).words (Body.return value).parenthesized ts rest)
    (hroom : 2 * (Body.return value).depth Expression.depthAsRead + 2 ≤ room) {Q : Post Unit}
    (hQ : Q () rest) : Rule.returnStatement.Reads (C.terms room around) Q ts := by
  obtain ⟨t, us, rfl, ht, hts⟩ := hts.cons
  obtain ⟨vs, hvalue, hend⟩ := hts.append_nil
  obtain ⟨u, ws, rfl, hu, hend⟩ := hend.cons
  obtain rfl := hend.nil
  have hcloses : ∀ t ∈ (u :: ws).head?, t.isOneOf closers = true := by
    simp [Token.isOneOf, hu, Word.kind, closers]
  rw [Body.depth] at hroom
  simp only [Rule.returnStatement, Rule.reads_bind, Rule.reads_skipToken, Rule.reads_next,
    hvalue.is_expression hcloses (s := .semicolon) (by decide), Bool.false_eq_true, if_false]
  refine hvalue.expression hcloses hroom ?_
  exact Rule.reads_need (by simp [Token.is, hu, Word.kind]) hQ

/-- A variable is declared with its value. -/
theorem localDeclaration {n : Name} {value : Expression}
    (hts : C.Stretch (Statement.declaration n value).words
      (Statement.declaration n value).parenthesized ts rest)
    (hroom : 2 * value.depthAsRead + 2 ≤ room) {Q : Post Unit}
    (hQ : Q () rest) : Rule.localDeclaration.Reads (C.terms room around) Q ts := by
  obtain ⟨t, us, rfl, ht, hname⟩ := hts.cons
  obtain ⟨x, vs, rfl, hx, hequals⟩ := hname.cons
  obtain ⟨u, ws, rfl, hu, hrest⟩ := hequals.cons
  obtain ⟨xs, hvalue, hend⟩ := hrest.append_nil
  obtain ⟨v, ys, rfl, hv, hnil⟩ := hend.cons
  obtain rfl := hnil.nil
  have hcloses : ∀ t ∈ (v :: ys).head?, t.isOneOf closers = true := by
    simp [Token.isOneOf, hv, Word.kind, closers]
  have hmodifier : Ahead.isLocalModifier (t :: x :: u :: ws) = false := by
    simp [Ahead.isLocalModifier, Ahead.isWordOf, Token.isWordOf, Ahead.isContextual,
      Token.isContextual, Token.isIdentifier, ht, Word.kind, localModifierWords]
  have hequals : u.is .equals = true := by simp [Token.is, hu, Word.kind]
  have hcomma : v.is .comma = false := by simp [Token.is, hv, Word.kind]
  have href : Ahead.isWord ws .refWord = false := hvalue.isWord_expression hcloses (by decide)
  have hbrace : Ahead.is ws .openBrace = false := hvalue.is_expression hcloses (by decide)
  have htype : Ahead.typeScan (t :: x :: u :: ws) false = .done 1 := typeScan_word ht rfl hx _
  rw [Rule.localDeclaration, Rule.localVariables]
  simp only [Rule.reads_bind, Rule.localModifierList]
  refine ⟨fun modifiers us ↦ modifiers = [] ∧ t :: x :: u :: ws = us, ⟨rfl, rfl⟩, ?_⟩
  rintro _ _ ⟨rfl, rfl⟩ previous
  simp only [hmodifier, Bool.false_eq_true, if_false]
  refine Rule.reads_needType (congrArg TypeScan.stop htype) ?_ (by simp) ?_
  · rw [htype]
    simp [TypeScan.done]
  · refine Rule.reads_commaSeparated (fun us ↦ x :: u :: ws = us) rfl ?_
    rintro _ rfl
    rw [Rule.reads_bind]
    refine Rule.reads_needIdentifier (by simp [Token.isIdentifier, hx, Word.kind]) ?_
    simp only [Rule.reads_bind, Rule.reads_accept, hequals, if_true, Rule.reads_nextWord, href,
      Bool.false_eq_true, if_false, Rule.variableInitializer, Rule.reads_next, hbrace]
    refine hvalue.expression hcloses hroom ?_
    simp only [Rule.reads_accept, hcomma, Bool.false_eq_true, if_false]
    exact Rule.reads_need (by simp [Token.is, hv, Word.kind]) hQ

/-- An expression in front of a semicolon is read as a statement. -/
theorem expressionStatement {e : Expression} (topLevel : Bool)
    (hts : C.Stretch (e.words ++ [.symbol .semicolon]) e.parenthesized ts rest)
    (hroom : 2 * e.depthAsRead + 2 ≤ room) {Q : Post Unit} (hQ : Q () rest) :
    (Rule.expressionStatement topLevel).Reads (C.terms room around) Q ts := by
  obtain ⟨us, he, hend⟩ := hts.append_nil
  obtain ⟨u, vs, rfl, hu, hnil⟩ := hend.cons
  obtain rfl := hnil.nil
  have hsemicolon : u.is .semicolon = true := by simp [Token.is, hu, Word.kind]
  rw [Rule.expressionStatement, Rule.reads_bind]
  refine he.expression (by simp [Token.isOneOf, hu, Word.kind, closers]) hroom ?_
  simpa only [Rule.reads_bind, Rule.reads_accept, hsemicolon, if_true, Rule.reads_pure] using hQ

/-- A chain of ifs is read. -/
theorem ifStatement (h : C.ReadsStatements room around) {b : Body} (hif : b.startsIf = true)
    (hts : C.Stretch b.words b.parenthesized ts rest) (hsettled : b.IsSettled)
    (hopen : b.isOpen = true → rest.isWord .elseWord = false)
    (hroom : 2 * b.depth Expression.depthAsRead + 2 ≤ room) {Q : Post Unit} (hQ : Q () rest) :
    Rule.ifStatement.Reads (C.terms room around) Q ts := by
  obtain ⟨t, us, rfl, -⟩ := hts.exists_if
  simp only [Rule.ifStatement, Rule.reads_bind, Rule.reads_skipToken]
  refine Rule.reads_repeating (fun us ↦ ∃ (b : Body) (t : Token), b.startsIf = true ∧
    C.Stretch b.words b.parenthesized (t :: us) rest ∧ b.IsSettled ∧
      (b.isOpen = true → rest.isWord .elseWord = false) ∧
      2 * b.depth Expression.depthAsRead + 2 ≤ room) ⟨b, t, hif, hts, hsettled, hopen, hroom⟩ ?_
  rintro us ⟨b, t, hif, hts, hsettled, hopen, hroom⟩
  cases b with
  | ifThen test yes =>
    obtain ⟨_, _, heq, -, hts⟩ := hts.cons
    cases heq
    obtain ⟨vs, htest, hyes⟩ := hts.append
    rw [Body.depth] at hroom
    rw [Rule.reads_bind]
    refine htest.condition (by omega) ?_
    rw [Rule.reads_bind]
    refine h.embedded hyes hsettled (fun _ ↦ hopen rfl) (by omega) ?_
    simpa only [Rule.reads_bind, Rule.acceptWord, Rule.reads_acceptIf, hopen rfl,
      Bool.false_eq_true, if_false, Rule.reads_pure] using hQ
  | ifElse test yes no =>
    obtain ⟨_, _, heq, -, hts⟩ := hts.cons
    cases heq
    obtain ⟨vs, htest, hts⟩ := hts.append
    obtain ⟨ws, hyes, hts⟩ := hts.append
    obtain ⟨u, xs, rfl, hu, hno⟩ := hts.cons
    have helse : u.isWord .elseWord = true := by simp [Token.isWord, hu, Word.kind]
    rw [Body.depth] at hroom
    rw [Rule.reads_bind]
    refine htest.condition (by omega) ?_
    rw [Rule.reads_bind]
    refine h.embedded hyes hsettled.2.1 (fun hyes ↦ by simp [hsettled.1] at hyes) (by omega) ?_
    have hlength := htest.suffix.length_le
    have hlength' := hyes.suffix.length_le
    obtain ⟨v, ys, rfl, hv⟩ := hno.exists_if
    simp only [List.length_cons] at hlength hlength'
    simp only [Rule.reads_bind, Rule.reads_acceptWord, helse, if_true, hv]
    rw [Body.elseDepth_eq] at hroom
    cases hif : no.startsIf with
    | true =>
      rw [hif] at hroom
      simp only [if_true, Rule.reads_pure]
      exact ⟨by omega, no, v, hif, hno, hsettled.2.2, hopen, by simp at hroom; omega⟩
    | false =>
      rw [hif] at hroom
      simp only [Bool.false_eq_true, if_false, Rule.reads_bind, Rule.reads_pure] at hroom ⊢
      exact h.embedded hno hsettled.2.2 hopen (by omega) hQ
  | _ => simp [Body.startsIf] at hif

/-- The rule for statements reads a statement with a word of its own by the rule for that word. -/
theorem statementRule_word {t : Token} {k : Keyword} (ht : t.kind = .keyword k) {rule : Rule Unit}
    (hk : Rule.wordStatement k = some rule) (topLevel : Bool) {T : Terms} {Q : Post Unit}
    (h : rule.Reads T Q (t :: us)) : (Rule.statementRule topLevel).Reads T Q (t :: us) := by
  intro previous
  have hbrace : Ahead.is (t :: us) .openBrace = false := by simp [Ahead.is, Token.is, ht]
  have hsemicolon : Ahead.is (t :: us) .semicolon = false := by simp [Ahead.is, Token.is, ht]
  have hrule : Rule.wordStatementAhead (t :: us) = some rule := by
    simp [Rule.wordStatementAhead, ht, hk]
  simpa only [hbrace, hsemicolon, Bool.false_eq_true, if_false, hrule] using h

/-- The rule for statements reads a statement that begins with a name as an expression. -/
theorem statementRule_name {t u : Token} {s : Symbol} (ht : t.kind = .identifier)
    (hu : u.kind = .symbol s) (hs : s ∈ [Symbol.equals, .openParen])
    (hplain : Plain C.allowed (t :: u :: us)) (topLevel : Bool) {T : Terms} {Q : Post Unit}
    (h : (Rule.expressionStatement topLevel).Reads T Q (t :: u :: us)) :
    (Rule.statementRule topLevel).Reads T Q (t :: u :: us) := by
  intro previous
  have hstarts : StartsBody (t :: u :: us) := .name ht hu hs
  have hyield := hplain.ordinary t List.mem_cons_self "yield" (by simp [contextualWords])
  have hawait := hplain.ordinary t List.mem_cons_self "await" (by simp [contextualWords])
  simpa [Ahead.is, Token.is, ht, Rule.wordStatementAhead, Ahead.isWordOf, Token.isWordOf,
    Ahead.isAttributedFunction, Ahead.isContextual, hyield, hawait, hstarts.isLabel,
    hstarts.localKind hplain] using h

/-- The rule for statements reads a declaration with a value as such. -/
theorem statementRule_declaration {t x u : Token} {k : Keyword} (ht : t.kind = .keyword k)
    (hk : k.namesType = true) (hx : x.kind = .identifier) (hu : u.kind = .symbol .equals)
    (hplain : Plain C.allowed (t :: x :: u :: us)) (topLevel : Bool) {T : Terms} {Q : Post Unit}
    (h : Rule.localDeclaration.Reads T Q (t :: x :: u :: us)) :
    (Rule.statementRule topLevel).Reads T Q (t :: x :: u :: us) := by
  have hwords : ∀ k, k.namesType = true → localModifierWords.contains k = false ∧
      Rule.wordStatement k = none ∧
        [Keyword.checkedWord, .uncheckedWord, .unsafeWord].contains k = false := by
    intro k hk
    cases k <;> first | (simp [Keyword.namesType] at hk; done) | exact ⟨rfl, rfl, rfl⟩
  obtain ⟨hmodifier, hstatement, hblock⟩ := hwords k hk
  have htype : Ahead.typeEnd (t :: x :: u :: us) = some 1 :=
    congrArg TypeScan.stop (typeScan_word ht hk hx (u :: us))
  have hlocal : Ahead.localKind (t :: x :: u :: us) = some .variable := by
    have hmodifiers := localModifiers_eq_zero hplain
      (by simpa [Token.isWordOf, ht] using hmodifier)
    simp [Ahead.localKind, hmodifiers, htype, Ahead.isContextual, Token.isContextual,
      Token.isIdentifier, ht, Ahead.isIdentifier, hx, Ahead.is, Token.is, hu, Ahead.isGenericCall,
      Ahead.isOneOf, Token.isOneOf]
  intro previous
  have hblock' : Ahead.isWordOf (t :: x :: u :: us) [.checkedWord, .uncheckedWord, .unsafeWord] =
      false := by
    simpa [Ahead.isWordOf, Token.isWordOf, ht] using hblock
  simpa [Ahead.is, Token.is, ht, Rule.wordStatementAhead, hstatement, hblock',
    Ahead.isAttributedFunction, Ahead.isContextual, Token.isContextual, Token.isIdentifier,
    Ahead.isLabel, Ahead.isIdentifier, hlocal] using h

/-- The rule for statements reads a statement to its end. -/
theorem statementRule (h : C.ReadsStatements room around) {s : Statement}
    (hts : C.Stretch s.words s.parenthesized ts rest) (hsettled : s.IsSettled)
    (hopen : s.isOpen = true → rest.isWord .elseWord = false)
    (hroom : 2 * s.depth Expression.depthAsRead + 2 ≤ room) {Q : Post Unit} (hQ : Q () rest) :
    (Rule.statementRule false).Reads (C.terms room around) Q ts := by
  cases s with
  | declaration n value =>
    rw [Statement.depth] at hroom
    have hread : Rule.localDeclaration.Reads (C.terms room around) Q ts :=
      localDeclaration hts hroom hQ
    obtain ⟨t, us, rfl, ht, hname⟩ := hts.cons
    obtain ⟨x, vs, rfl, hx, hequals⟩ := hname.cons
    obtain ⟨u, ws, rfl, hu, -⟩ := hequals.cons
    exact statementRule_declaration ht rfl hx hu hts.plain false hread
  | body b =>
    rw [Statement.depth] at hroom
    rw [Statement.words, Statement.parenthesized] at hts
    have hexpression {n : Name} {s : Symbol} {e : Expression} {words : List Word}
        (hs : s ∈ [Symbol.equals, .openParen]) (he : e.words = .name n :: .symbol s :: words)
        (hts : C.Stretch (e.words ++ [.symbol .semicolon]) e.parenthesized ts rest)
        (hroom : 2 * e.depthAsRead + 2 ≤ room) :
        (Rule.statementRule false).Reads (C.terms room around) Q ts := by
      have hread : (Rule.expressionStatement false).Reads (C.terms room around) Q ts :=
        expressionStatement false hts hroom hQ
      rw [he] at hts
      obtain ⟨t, us, rfl, ht, hsymbol⟩ := hts.cons
      obtain ⟨u, vs, rfl, hu, -⟩ := hsymbol.cons
      exact statementRule_name ht hu hs hts.plain false hread
    cases b with
    | empty =>
      obtain ⟨t, us, rfl, ht, hnil⟩ := hts.cons
      obtain rfl := hnil.nil
      intro previous
      have hbrace : Ahead.is (t :: us) .openBrace = false := by
        simp [Ahead.is, Token.is, ht, Word.kind]
      have hsemicolon : Ahead.is (t :: us) .semicolon = true := by
        simp [Ahead.is, Token.is, ht, Word.kind]
      simpa only [hbrace, hsemicolon, Bool.false_eq_true, if_false, if_true, Rule.reads_skipToken]
        using hQ
    | block ss =>
      rw [Body.depth] at hroom
      have hread := h.block hts hsettled (by omega) hQ
      obtain ⟨t, us, rfl, ht, -⟩ := hts.cons
      intro previous
      have hbrace : Ahead.is (t :: us) .openBrace = true := by
        simp [Ahead.is, Token.is, ht, Word.kind]
      simpa only [hbrace, if_true] using hread
    | assignment n value =>
      rw [Body.depth] at hroom
      exact hexpression (e := .assignment (.primary (.callable (.name n))) value) (by decide) rfl
        hts hroom
    | emptyCall f =>
      rw [Body.depth] at hroom
      exact hexpression
        (e := .operations (.operand (.primary (.callable (.emptyCall (.name f)))))) (by decide) rfl
        hts hroom
    | call f args =>
      rw [Body.depth] at hroom
      refine hexpression
        (e := .operations (.operand (.primary (.callable (.call (.name f) args))))) (by decide) rfl
        ?_ hroom
      simpa [Expression.words, Operations.words, Unary.words, Primary.words, Callable.words,
        Expression.parenthesized, Operations.parenthesized, Unary.parenthesized,
        Primary.parenthesized, Callable.parenthesized, Body.words, Body.parenthesized] using hts
    | ifThen test yes | ifElse test yes no =>
      have hread := h.ifStatement rfl hts hsettled hopen hroom hQ
      obtain ⟨t, us, rfl, ht, -⟩ := hts.cons
      exact statementRule_word ht rfl false hread
    | whileDo test b =>
      have hread := h.guardedStatement hts hsettled hopen hroom hQ
      obtain ⟨t, us, rfl, ht, -⟩ := hts.cons
      exact statementRule_word ht rfl false hread
    | doWhile b test =>
      have hread := h.doStatement hts hsettled hroom hQ
      obtain ⟨t, us, rfl, ht, -⟩ := hts.cons
      exact statementRule_word ht rfl false hread
    | «return» value =>
      have hread : Rule.returnStatement.Reads (C.terms room around) Q ts :=
        returnStatement hts hroom hQ
      obtain ⟨t, us, rfl, ht, -⟩ := hts.cons
      exact statementRule_word ht rfl false hread

end ReadsStatements

/-- Statements are read on the terms of the grammar. -/
theorem readsStatements (C : Setting) (room : Nat) (around : List TypeKind) :
    C.ReadsStatements room around := by
  induction room with
  | zero => exact fun _ _ _ hroom _ ↦ absurd hroom (by omega)
  | succ room ih =>
    exact fun hts hsettled hopen hroom hQ ↦ ih.statementRule hts hsettled hopen (by omega) hQ

end Setting

end CSharpCheck.Core
