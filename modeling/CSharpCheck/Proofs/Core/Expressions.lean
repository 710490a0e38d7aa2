import CSharpCheck.Grammar.CompilationUnit
import CSharpCheck.Proofs.Core.Decisions
import CSharpCheck.Proofs.Reading.Faultless

/-!
# Expressions are read

The rules for expressions read every expression of a core program to its end, if the nesting that
is left suffices for what is deepest in it. What comes behind an expression, or behind a part of
one, is told by how tightly the next symbol binds.
-/

namespace CSharpCheck.Core

/-- How tightly a symbol behind an operand binds it, where the symbols behind a whole expression do
not bind it at all. -/
def tightness : Symbol → Nat
  | .dot | .openParen | .openBracket => Operator.tightest
  | .question => 2
  | .equals => 1
  | s => ((Operator.symbol s).precedence).getD 0

/-- The operators between operands bind as their precedence says. -/
theorem precedence_infixSymbol : ∀ s ∈ infixSymbols,
    (Operator.symbol s).precedence = some (tightness s) ∧ Operator.coalescing ≤ tightness s := by
  decide

theorem precedence_not_infixSymbol : ∀ s ∈ Site.behindSymbols, s ∉ infixSymbols →
    tightness s < Operator.tightest →
    (Operator.symbol s).precedence = none ∧ tightness s < Operator.coalescing := by
  decide

theorem rightOperand_infixSymbol {s : Symbol} (hs : s ∈ infixSymbols) (start : Nat)
    (operand : Rule Bool) :
    Rule.rightOperand (.symbol s) start operand = operand >>= fun _ ↦ pure () := by
  cases s <;> first | rfl | simp [infixSymbols] at hs

/-- The symbol that closes what is open. -/
def Enclosure.closing : Enclosure → Symbol
  | .parentheses | .call => .closeParen
  | .index => .closeBracket
  | .conditional => .colon

namespace Site

variable {S : Site} {ts us : Ahead} {open_ : List Enclosure} {b : Nat} {l : Level}
  {outer : List Level}

/-! ### What comes next -/

/-- Before an operand there is no reserved word but those of constants. -/
theorem Runs.isWord_before (h : S.Runs ⟨.operand, open_⟩ ts) {k : Keyword}
    (hk : k ∉ [.trueWord, .falseWord, .nullWord, .thisWord]) : ts.isWord k = false := by
  obtain ⟨d, hbefore⟩ := h.before
  obtain ⟨t, us, rfl, ht | ht | ⟨s, -, ht⟩⟩ := hbefore.exists_head
  · simp [Ahead.isWord, Token.isWord, ht]
  · have hne : t.kind ≠ .keyword k := by
      intro heq
      rw [heq] at ht
      unfold isAtom at ht
      split at ht <;> simp_all
    simpa [Ahead.isWord, Token.isWord] using hne
  · simp [Ahead.isWord, Token.isWord, ht]

theorem Runs.isWordOf_before (h : S.Runs ⟨.operand, open_⟩ ts) {words : List Keyword}
    (hwords : ∀ k ∈ words, k ∉ [Keyword.trueWord, .falseWord, .nullWord, .thisWord]) :
    ts.isWordOf words = false := by
  rw [Bool.eq_false_iff]
  intro hword
  cases ts with
  | nil => contradiction
  | cons t us =>
    simp only [Ahead.isWordOf, List.head?_cons, Option.any_some] at hword
    unfold Token.isWordOf at hword
    split at hword
    · next k hk =>
      have hnot := h.isWord_before (hwords k (by simpa using hword))
      simp [Ahead.isWord, Token.isWord, hk] at hnot
    · contradiction

/-- A colon comes behind an operand only in a conditional. -/
theorem Runs.not_colon {c : Bool} {e : Enclosure} (he : e ≠ .conditional)
    (h : S.Runs ⟨.behind c, e :: open_⟩ ts) : ts.is .colon = false := by
  rw [Bool.eq_false_iff]
  intro hcolon
  obtain ⟨t, us, rfl, ht⟩ := is_eq_true_iff.1 hcolon
  obtain ⟨next, hnext, -⟩ := h.next_behind ht (.inr (by simp))
  cases e <;> contradiction

/-- Between brackets, no operand is named. -/
theorem Runs.not_named {e : Enclosure} (he : e ≠ .conditional)
    (h : S.Runs ⟨.operand, e :: open_⟩ ts) : (ts.isIdentifier && ts.tail.is .colon) = false := by
  obtain ⟨d, hbefore⟩ := h.before
  cases hbefore with
  | name ht hus =>
    have hcolon := hus.of_deep.not_colon he
    simp [Ahead.tail, hcolon]
  | @atom t us ht | @sign t us ht =>
    have hne : t.kind ≠ .identifier := by
      intro heq
      simp [heq, isAtom, isSign] at ht
    simp [Ahead.isIdentifier, Token.isIdentifier, hne]
  | parentheses ht => simp [Ahead.isIdentifier, Token.isIdentifier, ht]

/-- No token is a word of the language. -/
theorem Runs.isContextual {o : Outline} (h : S.Runs o ts) {word : String}
    (hword : word ∈ contextualWords) : ts.isContextual word = false := by
  cases ts with
  | nil => rfl
  | cons t us => simpa [Ahead.isContextual] using h.plain.ordinary t List.mem_cons_self word hword

/-- A symbol that is no shift to the right is an operator of its own, since no two tokens touch. -/
theorem operator_cons {allowed : Feature → Prop} {t : Token} (hplain : Plain allowed (t :: us))
    {s : Symbol} (ht : t.kind = .symbol s) :
    Ahead.operator (t :: us) = some (.symbol s, 1) := by
  have hgreater : Ahead.greaterOperator t us = (.symbol .greater, 1) := by
    cases us with
    | nil => rfl
    | cons u us =>
      have hapart := hplain.apart t u us (List.suffix_refl _)
      simp [Ahead.greaterOperator, hapart]
  unfold Ahead.operator
  by_cases hs : s = .greater
  · subst hs
    simp [ht, hgreater]
  · simp [ht]

/-! ### Ends of expressions -/

/-- A part of an expression ends where something comes that binds less tightly than `k`. -/
structure Ends (S : Site) (k : Nat) (open_ : List Enclosure) (b : Nat) (outer : List Level)
    (us : Ahead) : Prop where
  fits : ∃ c l, l.branches = b ∧ S.Fits ⟨.behind c, open_⟩ ⟨.value, l, outer⟩ us
  looser : ∀ s, us.is s = true → tightness s < k

theorem Ends.mono {k n : Nat} (h : S.Ends k open_ b outer us) (hk : k ≤ n) :
    S.Ends n open_ b outer us :=
  ⟨h.fits, fun s hs ↦ Nat.lt_of_lt_of_le (h.looser s hs) hk⟩

/-- The end of the text binds nothing. -/
theorem Ends.of_nil {k : Nat} (h : S.Ends k open_ b outer []) (n : Nat) :
    S.Ends n open_ b outer [] :=
  ⟨h.fits, fun s hs ↦ by simp [Ahead.is] at hs⟩

/-- Where a part of an expression ends, the text ends or a symbol comes next. -/
theorem Ends.nil_or_symbol {k : Nat} (h : S.Ends k open_ b outer us) :
    us = [] ∨ ∃ s t vs, us = t :: vs ∧ t.kind = .symbol s ∧ s ∈ behindSymbols ∧
      tightness s < k := by
  cases us with
  | nil => exact .inl rfl
  | cons t vs =>
    obtain ⟨c, l, -, hfits⟩ := h.fits
    obtain ⟨s, hs, ht⟩ := (hfits.behindOperand (.inr rfl)).head t rfl
    exact .inr ⟨s, t, vs, rfl, ht, hs, h.looser s (is_eq_true_iff.2 ⟨t, vs, rfl, ht⟩)⟩

/-- Arguments end with a comma or with what closes them. -/
theorem Ends.argument {e : Enclosure} (he : e ≠ .conditional)
    (h : S.Ends 1 (e :: open_) b (l :: outer) us) :
    ∃ t vs, us = t :: vs ∧
      ((t.kind = .symbol .comma ∧ (e = .call ∨ e = .index) ∧
          S.Fits ⟨.operand, e :: open_⟩ ⟨.operand, ⟨0, 0⟩, l :: outer⟩ vs) ∨
        t.kind = .symbol e.closing ∧ ∃ c, S.Fits ⟨.behind c, open_⟩ ⟨.value, l, outer⟩ vs) := by
  obtain ⟨c, m, -, hfits⟩ := h.fits
  have hloose {s : Symbol} {t : Token} {vs : Ahead} (hus : us = t :: vs) (ht : t.kind = .symbol s) :
      tightness s < 1 := h.looser s (is_eq_true_iff.2 ⟨t, vs, hus, ht⟩)
  cases hfits.behindOperand (.inr rfl) with
  | comma ht henclosure hvs => exact ⟨_, _, rfl, .inl ⟨ht, henclosure, hvs⟩⟩
  | closeParen ht henclosure hvs =>
    rcases henclosure with ⟨rfl, -⟩ | ⟨rfl, -⟩ <;> exact ⟨_, _, rfl, .inr ⟨ht, _, hvs⟩⟩
  | closeBracket ht hvs => exact ⟨_, _, rfl, .inr ⟨ht, _, hvs⟩⟩
  | colon => contradiction
  | operation ht hs =>
    have hless := hloose rfl ht
    have hinfix := (precedence_infixSymbol _ hs).2
    simp only [Operator.coalescing] at hinfix
    omega
  | member ht | call ht | index ht | assignment ht | question ht | typeArguments _ ht =>
    have hless := hloose rfl ht
    contradiction

/-- A parenthesised expression ends with the closing parenthesis. -/
theorem Ends.closeParen (h : S.Ends 1 (.parentheses :: open_) b (l :: outer) us) :
    ∃ t vs c, us = t :: vs ∧ t.kind = .symbol .closeParen ∧
      S.Fits ⟨.behind c, open_⟩ ⟨.value, l, outer⟩ vs := by
  obtain ⟨t, vs, rfl, ⟨-, he, -⟩ | ⟨ht, c, hvs⟩⟩ := h.argument (by decide)
  · simp at he
  · exact ⟨t, vs, c, rfl, ht, hvs⟩

/-- The first branch of a conditional ends with the colon. -/
theorem Ends.colon (h : S.Ends 1 (.conditional :: open_) b (l :: outer) us) :
    ∃ t vs, us = t :: vs ∧ t.kind = .symbol .colon ∧
      S.Fits ⟨.operand, open_⟩ ⟨.operand, ⟨l.branches + 1, 0⟩, outer⟩ vs := by
  obtain ⟨c, m, -, hfits⟩ := h.fits
  have hloose {s : Symbol} {t : Token} {vs : Ahead} (hus : us = t :: vs) (ht : t.kind = .symbol s) :
      tightness s < 1 := h.looser s (is_eq_true_iff.2 ⟨t, vs, hus, ht⟩)
  cases hfits.behindOperand (.inr rfl) with
  | colon ht hvs => exact ⟨_, _, rfl, ht, hvs⟩
  | comma _ henclosure => simp at henclosure
  | closeParen _ henclosure => simp at henclosure
  | operation ht hs =>
    have hless := hloose rfl ht
    have hinfix := (precedence_infixSymbol _ hs).2
    simp only [Operator.coalescing] at hinfix
    omega
  | member ht | call ht | index ht | assignment ht | question ht | typeArguments _ ht =>
    have hless := hloose rfl ht
    contradiction

/-- Behind a part of an operand comes what may come behind an operand, or the arguments of a call
whose type arguments have been read. -/
inductive Resumes (S : Site) (open_ : List Enclosure) (l : Level) (outer : List Level) :
    Ahead → Prop where
  | behind {c : Bool} {us : Ahead} : S.Fits ⟨.behind c, open_⟩ ⟨.value, l, outer⟩ us →
      Resumes S open_ l outer us
  | arguments {t : Token} {us : Ahead} : t.kind = .symbol .openParen →
      S.Fits ⟨.operand, .parentheses :: open_⟩ ⟨.operand, ⟨0, 0⟩, l :: outer⟩ us →
      Resumes S open_ l outer (t :: us)

/-- On the terms, when `room` levels of nesting are left, the nonterminals of expressions are read
at the site: expressions and operands, each to its end. An operand takes one level, and what is
nested in it two for each level of depth. -/
structure Ready (S : Site) (T : Terms) (room : Nat) : Prop where
  allowed : T.allowed = S.allowed
  expression {open_ : List Enclosure} {b : Nat} {outer : List Level} {ts : Ahead} {Q : Post Bool} :
    S.Fits ⟨.operand, open_⟩ ⟨.operand, ⟨b, 0⟩, outer⟩ ts →
    2 * S.depth + 2 ≤ room + 2 * (Nesting.mk .operand ⟨b, 0⟩ outer).depth →
    (∀ a d us, us.length < ts.length → S.Ends 1 open_ d outer us → Q a us) →
    T.calls T.around .expression Q ts
  operand {open_ : List Enclosure} {l : Level} {outer : List Level} {ts : Ahead} {Q : Post Bool} :
    S.Fits ⟨.operand, open_⟩ ⟨.operand, l, outer⟩ ts →
    2 * S.depth + 1 ≤ room + 2 * (Nesting.mk .operand l outer).depth →
    (∀ us, us.length < ts.length → S.Ends Operator.tightest open_ l.branches outer us →
      Q false us) →
    T.calls T.around .unary Q ts

namespace Ready

variable {T : Terms} {room : Nat}

/-! ### Operands -/

theorem genericSuffix (h : S.Ready T room) {Q : Post Unit}
    (hts : S.Fits ⟨.behind true, open_⟩ ⟨.name, l, outer⟩ ts)
    (hQ : ∀ us, us.length ≤ ts.length → S.Resumes open_ l outer us → Q () us) :
    Rule.genericSuffix.Reads T Q ts := by
  intro previous
  cases hless : ts.is .less with
  | false =>
    simp only [hless, Bool.false_eq_true, if_false]
    exact hQ ts (Nat.le_refl _) (.behind (hts.value fun h ↦ by simp [hless] at h))
  | true =>
    simp only [hless, if_true]
    obtain ⟨t, us, rfl, ht⟩ := is_eq_true_iff.1 hless
    have hus := hts.less ht
    split at hus
    · next hcloses =>
      obtain ⟨args, g, p, vs, rfl, hargs, hg, hp, hvs⟩ := hus.exists_typeArguments hcloses
      have hscan : Ahead.argumentScan (t :: (args ++ g :: p :: vs)) =
          ⟨some (args.length + 2), [(.generics, 0)]⟩ := by
        rw [Ahead.argumentScan, typeArguments_eq hus.toRuns, nestedType, maxTypeDepth,
          typeList_dottedList hargs hg]
        simp [TypeScan.after, TypeScan.done]
        omega
      have hdrop : (t :: (args ++ g :: p :: vs)).drop (args.length + 2) = p :: vs := by
        rw [show args.length + 2 = (t :: (args ++ [g])).length by simp]
        simp
      have hend : Ahead.expressionArgumentsEnd (t :: (args ++ g :: p :: vs)) =
          some (args.length + 2) := by
        simp [Ahead.expressionArgumentsEnd, Ahead.argumentsEnd, hscan, hdrop, Ahead.isOneOf,
          Token.isOneOf, hp, Ahead.genericFollow]
      have hgenerics : T.allowed .generics := by
        rw [h.allowed]
        exact (hts.plain.less t List.mem_cons_self ht).1
      simp only [hend, hscan, Rule.reads_bind, Rule.reads_skip]
      refine Rule.reads_requireUses (by simpa using hgenerics) _ ⟨?_, ?_⟩
      · simp
      · rw [hdrop]
        exact hQ _ (by simp; omega) (.arguments hp hvs)
    · next hcloses =>
      replace hcloses : Nesting.closesTypeArguments true (S.kinds us) = false := by
        simpa using hcloses
      rw [hus.toRuns.expressionArgumentsEnd hcloses]
      exact hQ _ (Nat.le_refl _) (.behind (hts.value fun _ ↦ hcloses))

theorem namePart (h : S.Ready T room) {Q : Post Unit} {x : Token} (hx : x.kind = .identifier)
    (hts : S.Fits ⟨.behind true, open_⟩ ⟨.name, l, outer⟩ ts)
    (hQ : ∀ us, us.length ≤ ts.length → S.Resumes open_ l outer us → Q () us) :
    Rule.namePart.Reads T Q (x :: ts) := by
  rw [Rule.namePart, Rule.reads_bind]
  refine Rule.reads_expectIdentifier (by simp [Token.isIdentifier, hx]) ?_
  simpa using h.genericSuffix hts hQ

/-- An argument is an expression. -/
theorem argument (h : S.Ready T room) {Q : Post Unit} {e : Enclosure} (he : e ≠ .conditional)
    (closing : Symbol)
    (hts : S.Fits ⟨.operand, e :: open_⟩ ⟨.operand, ⟨0, 0⟩, l :: outer⟩ ts)
    (hroom : 2 * S.depth ≤ room + 2 * (Nesting.mk .operand l outer).depth)
    (hQ : ∀ d us, us.length < ts.length → S.Ends 1 (e :: open_) d (l :: outer) us → Q () us) :
    (Rule.argument closing).Reads T Q ts := by
  have hwords : ts.isWordOf [.refWord, .outWord, .inWord] = false :=
    hts.toRuns.isWordOf_before (by decide)
  have hdepth := depth_inside .operand l outer
  simp only [Rule.argument, Rule.reads_bind, Rule.reads_ask, hts.toRuns.not_named he,
    Bool.false_eq_true, if_false, Rule.reads_nextWordOf, hwords]
  exact h.expression hts (by omega) fun _ d us hlength hends ↦ hQ d us hlength hends

/-- Arguments are read up to what closes them. -/
theorem arguments (h : S.Ready T room) {Q : Post Unit} {e : Enclosure} (he : e ≠ .conditional)
    (hts : S.Fits ⟨.operand, e :: open_⟩ ⟨.operand, ⟨0, 0⟩, l :: outer⟩ ts)
    (hroom : 2 * S.depth ≤ room + 2 * (Nesting.mk .operand l outer).depth)
    (hQ : ∀ us, us.length < ts.length → S.Resumes open_ l outer us → Q () us) :
    (Rule.arguments e.closing).Reads T Q ts := by
  have hclosing : ts.is e.closing = false := hts.toRuns.is_before (by cases e <;> decide)
  have hcomma : Symbol.comma ≠ e.closing := by cases e <;> decide
  simp only [Rule.arguments, Rule.accept, Rule.reads_bind, Rule.reads_acceptIf, hclosing,
    Bool.false_eq_true, if_false]
  refine Rule.reads_commaSeparated (fun us ↦ us.length ≤ ts.length ∧
    S.Fits ⟨.operand, e :: open_⟩ ⟨.operand, ⟨0, 0⟩, l :: outer⟩ us) ⟨Nat.le_refl _, hts⟩ ?_
  rintro us ⟨hlength, hus⟩
  refine h.argument he _ hus hroom fun d vs hvs hends ↦ ?_
  obtain ⟨t, ws, rfl, ⟨ht, -, hws⟩ | ⟨ht, c, hws⟩⟩ := hends.argument he
  · rw [List.length_cons] at hvs
    simp only [Rule.reads_accept, Token.is, ht, beq_self_eq_true, if_true]
    exact ⟨by omega, by omega, hws⟩
  · rw [List.length_cons] at hvs
    have hne : t.is .comma = false := by simpa [Token.is, ht] using hcomma.symm
    simp only [Rule.reads_accept, hne, Bool.false_eq_true, if_false]
    refine Rule.reads_need (by simp [Token.is, ht]) ?_
    exact hQ ws (by omega) (.behind hws)

/-- A parenthesised expression is read up to its closing parenthesis. -/
theorem parenthesized (h : S.Ready T room) {Q : Post Unit} {t : Token}
    (hts : S.Fits ⟨.operand, .parentheses :: open_⟩ ⟨.operand, ⟨0, 0⟩, l :: outer⟩ ts)
    (hproduct : startsProduct true (S.kinds ts) = true → S.products = true)
    (hroom : 2 * S.depth ≤ room + 2 * (Nesting.mk .operand l outer).depth)
    (hQ : ∀ us, us.length < ts.length → S.Resumes open_ l outer us → Q () us) :
    Rule.parenthesized.Reads T Q (t :: ts) := by
  have hdepth := depth_inside .operand l outer
  simp only [Rule.parenthesized, Rule.reads_bind, Rule.reads_here, Rule.reads_skipToken,
    Rule.commaSeparatedWith]
  refine ⟨fun count us ↦ count = ⟨0, 0, false⟩ ∧ ts = us, ⟨rfl, rfl⟩, ?_⟩
  rintro _ _ ⟨rfl, rfl⟩
  simp only [Rule.reads_bind, Rule.tupleElement, Rule.reads_ask, hts.toRuns.not_named (by decide),
    Bool.false_eq_true, if_false, Rule.reads_pure]
  cases hdeclares : ts.isDeclarationBefore [.comma, .closeParen] with
  | false =>
    simp only [Bool.false_eq_true, if_false, Rule.reads_bind]
    refine h.expression hts (by omega) fun _ d vs hlength hends ↦ ?_
    obtain ⟨u, ws, c, rfl, hu, hws⟩ := hends.closeParen
    rw [List.length_cons] at hlength
    have hcomma : u.is .comma = false := by simp [Token.is, hu]
    simp only [Rule.reads_result, Rule.reads_pure, Rule.reads_accept, hcomma, Bool.false_eq_true,
      if_false]
    refine Rule.reads_need (by simp [Token.is, hu]) ?_
    simpa [Rule.requireTuple] using hQ ws (by omega) (.behind hws)
  | true =>
    obtain ⟨hallowed, taken, n, u, vs, rfl, hend, huses, hu, hvs⟩ :=
      hts.declaration hproduct hdeclares
    have hends : S.Ends 1 (.parentheses :: open_) 0 (l :: outer) (u :: vs) := by
      have hless : Ahead.is (u :: vs) .less = false := by simp [Ahead.is, Token.is, hu]
      refine ⟨⟨true, ⟨0, 0⟩, rfl, hvs.value fun h ↦ by simp [hless] at h⟩, fun s hs ↦ ?_⟩
      obtain rfl : .closeParen = s := by simpa [Ahead.is, Token.is, hu] using hs
      decide
    obtain ⟨_, _, c, heq, -, hws⟩ := hends.closeParen
    cases heq
    have hcomma : u.is .comma = false := by simp [Token.is, hu]
    simp only [if_true, Rule.reads_bind]
    refine Rule.reads_needType hend (by rwa [h.allowed]) (by simp) ?_
    rw [List.drop_left]
    simp only [Rule.reads_skipToken, Rule.reads_result, Rule.reads_pure, Rule.reads_accept, hcomma,
      Bool.false_eq_true, if_false]
    refine Rule.reads_need (by simp [Token.is, hu]) ?_
    have hvs := hQ vs (by simp; omega) (.behind hws)
    simpa [Rule.requireTuple, h.allowed] using ⟨hallowed, hvs⟩

/-- The features of a token may be used. -/
theorem requireTokenFeatures (h : S.Ready T room) {Q : Post Unit} {fs : List Feature}
    (hfs : ∀ f ∈ fs, S.allowed f) (index : Nat) (hQ : Q () ts) :
    (Rule.requireTokenFeatures index fs).Reads T Q ts := by
  induction fs with
  | nil => exact hQ
  | cons f fs ih =>
    rw [List.forall_mem_cons] at hfs
    exact ⟨h.allowed ▸ hfs.1, ih hfs.2⟩

theorem nameExpression (h : S.Ready T room) {Q : Post Unit} {t : Token} {o : Outline}
    (hts : S.Runs o (t :: ts))
    (hus : S.Fits ⟨.behind true, open_⟩ ⟨.name, l, outer⟩ ts)
    (hQ : ∀ us, us.length ≤ ts.length → S.Resumes open_ l outer us → Q () us) :
    Rule.nameExpression.Reads T Q (t :: ts) := by
  have hfrom : Ahead.isContextual (t :: ts) "from" = false :=
    hts.isContextual (by simp [contextualWords])
  have hvar : Ahead.isContextual (t :: ts) "var" = false :=
    hts.isContextual (by simp [contextualWords])
  have hcolon : ts.is .colonColon = false := hus.toRuns.is_behind (by decide)
  simp only [Rule.nameExpression, Rule.reads_bind, Rule.reads_ask, hfrom, hvar, Bool.false_and,
    Bool.false_eq_true, if_false, Rule.reads_skipToken, Rule.reads_next, hcolon]
  exact h.genericSuffix hus hQ

theorem tokenWithFeatures (h : S.Ready T room) {Q : Post Unit} {t : Token}
    (hfs : ∀ f ∈ t.features, S.allowed f) (hQ : Q () ts) :
    Rule.tokenWithFeatures.Reads T Q (t :: ts) := by
  intro previous
  rw [Rule.reads_bind]
  exact h.requireTokenFeatures hfs _ ((Rule.reads_skipToken t Q).2 hQ)

/-- An operand without signs is read up to what may come behind its first part. -/
theorem primary (h : S.Ready T room) {Q : Post Unit}
    (hts : S.Fits ⟨.operand, open_⟩ ⟨.operand, l, outer⟩ ts)
    (hsign : ts.isOneOf Operator.unarySymbols = false)
    (hroom : 2 * S.depth ≤ room + 2 * (Nesting.mk .operand l outer).depth)
    (hQ : ∀ us, us.length < ts.length → S.Resumes open_ l outer us → Q () us) :
    Rule.primary.Reads T Q ts := by
  intro previous
  cases hts.beforeOperand with
  | @name t us ht hus =>
    simp only [List.head?_cons, Option.map_some, ht]
    exact h.nameExpression hts.toRuns hus fun vs hlength hvs ↦
      hQ vs (by rw [List.length_cons]; omega) hvs
  | @parentheses t us ht hproduct hus =>
    simp only [List.head?_cons, Option.map_some, ht]
    exact h.parenthesized hus hproduct hroom fun vs hlength hvs ↦
      hQ vs (by rw [List.length_cons]; omega) hvs
  | @sign t us ht hus =>
    unfold isSign at ht
    split at ht <;> simp_all [Ahead.isOneOf, Token.isOneOf, Operator.unarySymbols]
  | @atom t us ht hus =>
    have hend := hQ us (by simp) (.behind hus)
    have hfeatures := hts.plain.features t List.mem_cons_self
    unfold isAtom at ht
    split at ht
    case h_8 => contradiction
    all_goals
      next hk =>
        simp only [List.head?_cons, Option.map_some, hk]
        first
          | exact h.tokenWithFeatures hfeatures hend
          | exact (Rule.reads_skipToken t Q).2 hend

/-! ### What comes behind a part of an operand -/

/-- The arguments of a call, of which there may be none, are read up to the closing parenthesis. -/
theorem callArguments (h : S.Ready T room) {Q : Post Unit}
    (hts : S.Fits ⟨.arguments, .call :: open_⟩ ⟨.operand, ⟨0, 0⟩, l :: outer⟩ ts)
    (hroom : 2 * S.depth ≤ room + 2 * (Nesting.mk .operand l outer).depth)
    (hQ : ∀ us, us.length < ts.length → S.Resumes open_ l outer us → Q () us) :
    (Rule.arguments .closeParen).Reads T Q ts := by
  obtain ⟨t, us, next, rfl, hnext, hus⟩ := hts.step (by simp)
  by_cases ht : t.kind = .symbol .closeParen
  · rw [ht] at hnext hus
    cases hnext
    have hclose : t.is .closeParen = true := by simp [Token.is, ht]
    simp only [Rule.arguments, Rule.reads_bind, Rule.reads_accept, hclose, if_true,
      Rule.reads_pure]
    exact hQ us (by simp) (.behind hus)
  · rw [Outline.step_arguments ht] at hnext
    have hfits : S.Fits ⟨.operand, .call :: open_⟩ ⟨.operand, ⟨0, 0⟩, l :: outer⟩ (t :: us) := by
      refine ⟨⟨hts.plain, hts.suffix, ?_⟩, hts.deepest_le⟩
      obtain ⟨c, hc⟩ := hus.after
      rw [kinds_cons hus.suffix, Outline.after_cons_of_step hnext]
      exact ⟨c, hc⟩
    exact h.arguments (by decide) hfits hroom hQ

/-- An operand has come to its end where something comes that binds less tightly. -/
theorem postfixPart_of_looser {Q : Post (Option Bool)} {t : Token} {s : Symbol}
    (ht : t.kind = .symbol s) (hs : s ∈ behindSymbols) (hlooser : tightness s < Operator.tightest)
    (hquestion : s = .question → us.is .openBracket = false) (hQ : Q none (t :: us)) :
    Rule.postfixPart.Reads T Q (t :: us) := by
  intro previous
  have hne {x : Symbol} (hx : x ∉ behindSymbols ∨ Operator.tightest ≤ tightness x) : s ≠ x := by
    rintro rfl
    rcases hx with hx | hx
    · exact hx hs
    · omega
  have hpart {symbols : List Symbol} (hsymbols : s ∉ symbols) :
      Ahead.isOneOf (t :: us) symbols = false := by
    simpa [Ahead.isOneOf, Token.isOneOf, ht] using hsymbols
  have his {x : Symbol} (hx : x ∉ behindSymbols ∨ Operator.tightest ≤ tightness x) :
      Ahead.is (t :: us) x = false := by
    simpa [Ahead.is, Token.is, ht] using hne hx
  have haccess : s ∉ [Symbol.dot, .arrow] := by
    simp [hne (x := .dot) (.inr (by decide)), hne (x := .arrow) (.inl (by decide))]
  have hincrement : s ∉ [Symbol.plusPlus, .minusMinus] := by
    simp [hne (x := .plusPlus) (.inl (by decide)), hne (x := .minusMinus) (.inl (by decide))]
  have hconditional : (Ahead.is (t :: us) .question && (Ahead.tail (t :: us)).is .openBracket) =
      false := by
    by_cases hs : s = .question
    · simp [Ahead.tail, hquestion hs]
    · have hnot : Ahead.is (t :: us) .question = false := by
        simpa [Ahead.is, Token.is, ht] using hs
      simp [hnot]
  simp only [hpart haccess, hpart hincrement, his (x := .questionDot) (.inl (by decide)),
    his (x := .openParen) (.inr (by decide)), his (x := .openBracket) (.inr (by decide)),
    his (x := .bang) (.inl (by decide)), hconditional, Bool.false_eq_true, if_false,
    Bool.false_and, Rule.reads_pure]
  exact hQ

/-- At the end of the text an operand has come to its end, too. -/
theorem postfixPart_nil {Q : Post (Option Bool)} (hQ : Q none []) :
    Rule.postfixPart.Reads T Q [] := by
  intro previous
  exact hQ

/-- A member access, a call or an indexing is read, or an operand has come to its end. -/
theorem postfixPart (h : S.Ready T room) {Q : Post (Option Bool)}
    (hts : S.Resumes open_ l outer ts)
    (hroom : 2 * S.depth ≤ room + 2 * (Nesting.mk .operand l outer).depth)
    (hmore : ∀ us, us.length < ts.length → S.Resumes open_ l outer us → Q (some false) us)
    (hend : S.Ends Operator.tightest open_ l.branches outer ts → Q none ts) :
    Rule.postfixPart.Reads T Q ts := by
  intro previous
  cases hts with
  | @arguments t us ht hus =>
    simp only [Ahead.isOneOf, Token.isOneOf, Ahead.is, Token.is, ht, List.head?_cons,
      Option.any_some]
    rw [if_neg (by decide), if_neg (by decide), if_neg (by simp), if_pos (by decide)]
    simp only [Rule.reads_bind, Rule.reads_skipToken, Rule.reads_pure]
    exact h.arguments (e := .parentheses) (by decide) hus hroom fun vs hlength hvs ↦
      hmore vs (by rw [List.length_cons]; omega) hvs
  | @behind c _ hfits =>
    have hstop {t : Token} {us : Ahead} {s : Symbol} (hts : ts = t :: us)
        (ht : t.kind = .symbol s) (hs : s ∈ behindSymbols)
        (hlooser : tightness s < Operator.tightest)
        (hquestion : s = .question → us.is .openBracket = false) :
        Rule.postfixPart.Reads T Q ts := by
      subst hts
      refine postfixPart_of_looser ht hs hlooser hquestion (hend ⟨⟨c, l, rfl, hfits⟩, ?_⟩)
      intro x hx
      obtain rfl : s = x := by simpa [Ahead.is, Token.is, ht] using hx
      exact hlooser
    cases hfits.behindOperand (.inr rfl) with
    | @member _ t x us ht hx hus =>
      simp only [Ahead.isOneOf, Token.isOneOf, ht, List.head?_cons, Option.any_some]
      rw [if_pos (by decide)]
      simp only [Rule.reads_bind, Rule.reads_skipToken, Rule.reads_pure]
      exact h.namePart hx hus fun vs hlength hvs ↦
        hmore vs (by simp only [List.length_cons]; omega) hvs
    | @call _ t us ht _ hus =>
      simp only [Ahead.isOneOf, Token.isOneOf, Ahead.is, Token.is, ht, List.head?_cons,
        Option.any_some]
      rw [if_neg (by decide), if_neg (by decide), if_neg (by simp), if_pos (by decide)]
      simp only [Rule.reads_bind, Rule.reads_skipToken, Rule.reads_pure]
      exact h.callArguments hus hroom fun vs hlength hvs ↦
        hmore vs (by rw [List.length_cons]; omega) hvs
    | @index _ t us ht hus =>
      simp only [Ahead.isOneOf, Token.isOneOf, Ahead.is, Token.is, ht, List.head?_cons,
        Option.any_some]
      rw [if_neg (by decide), if_neg (by decide), if_neg (by simp), if_neg (by decide),
        if_pos (by decide)]
      simp only [Rule.reads_bind, Rule.reads_skipToken, Rule.reads_pure]
      exact h.arguments (e := .index) (by decide) hus hroom fun vs hlength hvs ↦
        hmore vs (by rw [List.length_cons]; omega) hvs
    | @question _ t us ht hus =>
      have hquestion : us.is .openBracket = false := hus.toRuns.is_before (by decide)
      exact hstop rfl ht (by decide) (by decide) (fun _ ↦ hquestion) previous
    | @operation _ s t us ht hs =>
      have hprecedence := Operator.precedence_lt (precedence_infixSymbol s hs).1
      have hquestion : s ≠ .question := by
        rintro rfl
        simp [infixSymbols] at hs
      exact hstop rfl ht (List.mem_append_right _ hs) hprecedence
        (fun h ↦ absurd h hquestion) previous
    | end_ hrest =>
      cases ts with
      | nil =>
        exact postfixPart_nil (hend ⟨⟨c, l, rfl, hfits⟩, fun s hs ↦ by simp [Ahead.is] at hs⟩)
          previous
      | cons t us =>
        have hcloses := S.closes t (by rw [show S.rest = t :: us from hrest]; rfl)
        unfold Token.isOneOf at hcloses
        split at hcloses
        · next s hk =>
          have hclosers : ∀ s ∈ closers, s ∈ behindSymbols ∧ tightness s < Operator.tightest ∧
              s ≠ .question := by decide
          obtain ⟨hs, hlooser, hquestion⟩ := hclosers s (by simpa using hcloses)
          exact hstop rfl hk hs hlooser (fun h ↦ absurd h hquestion) previous
        · contradiction
    | assignment ht | colon ht | comma ht | closeParen ht | closeBracket ht
    | typeArguments _ ht =>
      exact hstop rfl ht (by decide) (by decide) (fun h ↦ by cases h) previous

/-- An operand without signs is read to its end. -/
theorem postfixExpression (h : S.Ready T room) {Q : Post Bool}
    (hts : S.Fits ⟨.operand, open_⟩ ⟨.operand, l, outer⟩ ts)
    (hsign : ts.isOneOf Operator.unarySymbols = false)
    (hroom : 2 * S.depth ≤ room + 2 * (Nesting.mk .operand l outer).depth)
    (hQ : ∀ us, us.length < ts.length → S.Ends Operator.tightest open_ l.branches outer us →
      Q false us) :
    Rule.postfixExpression.Reads T Q ts := by
  rw [Rule.postfixExpression, Rule.reads_bind]
  refine h.primary hts hsign hroom fun us hlength hus ↦ ?_
  refine ⟨fun access us ↦ access = false ∧ us.length < ts.length ∧ S.Resumes open_ l outer us,
    ⟨rfl, hlength, hus⟩, ?_⟩
  rintro _ vs ⟨rfl, hvs, hresumes⟩
  rw [Rule.reads_bind]
  refine h.postfixPart hresumes hroom (fun ws hws hmore ↦ ?_) (fun hends ↦ ?_)
  · exact ⟨hws, rfl, by omega, hmore⟩
  · exact hQ vs hvs hends

/-- The rule for an operand with its signs reads it to its end. -/
theorem unaryRule (h : S.Ready T room) {Q : Post Bool}
    (hts : S.Fits ⟨.operand, open_⟩ ⟨.operand, l, outer⟩ ts)
    (hroom : 2 * S.depth ≤ room + 2 * (Nesting.mk .operand l outer).depth)
    (hQ : ∀ us, us.length < ts.length → S.Ends Operator.tightest open_ l.branches outer us →
      Q false us) :
    Rule.unaryRule.Reads T Q ts := by
  have hpostfix (hsign : ts.isOneOf Operator.unarySymbols = false) :
      Rule.postfixExpression.Reads T Q ts := h.postfixExpression hts hsign hroom hQ
  have hawait : ts.isContextual "await" = false :=
    hts.toRuns.isContextual (by simp [contextualWords])
  have href : ts.isWord .refWord = false := hts.toRuns.isWord_before (by decide)
  have hthrow : ts.isWord .throwWord = false := hts.toRuns.isWord_before (by decide)
  have hcaret : ts.is .caret = false := hts.toRuns.is_before (by decide)
  have hrange : ts.is .dotDot = false := hts.toRuns.is_before (by decide)
  intro previous
  simp only [hawait, href, hthrow, hcaret, hrange, Bool.false_eq_true, if_false, Bool.false_and]
  cases hts.beforeOperand with
  | @name t us ht hus =>
    have hsign : Ahead.isOneOf (t :: us) Operator.unarySymbols = false := by
      simp [Ahead.isOneOf, Token.isOneOf, ht]
    have hparen : Ahead.is (t :: us) .openParen = false := by simp [Ahead.is, Token.is, ht]
    simpa only [hsign, hparen, Bool.false_eq_true, if_false, Bool.false_and] using hpostfix hsign
  | @atom t us ht hus =>
    have hsign : Ahead.isOneOf (t :: us) Operator.unarySymbols = false := by
      unfold isAtom at ht
      split at ht <;> simp_all [Ahead.isOneOf, Token.isOneOf]
    have hparen : Ahead.is (t :: us) .openParen = false := by
      unfold isAtom at ht
      split at ht <;> simp_all [Ahead.is, Token.is]
    simpa only [hsign, hparen, Bool.false_eq_true, if_false, Bool.false_and] using hpostfix hsign
  | @parentheses t us ht hproduct hus =>
    have hsign : Ahead.isOneOf (t :: us) Operator.unarySymbols = false := by
      simp [Ahead.isOneOf, Token.isOneOf, ht, Operator.unarySymbols]
    have hcast : Ahead.isCast (t :: us) = false := isCast_eq_false hus.toRuns
    simpa only [hsign, hcast, Bool.false_eq_true, if_false, Bool.and_false] using hpostfix hsign
  | @sign t us ht hus =>
    have hsign : Ahead.isOneOf (t :: us) Operator.unarySymbols = true := by
      unfold isSign at ht
      split at ht <;> simp_all [Ahead.isOneOf, Token.isOneOf, Operator.unarySymbols]
    have hdepth : (Nesting.mk .operand ⟨l.branches, l.signs + 1⟩ outer).depth =
        (Nesting.mk .operand l outer).depth + 1 := by
      simp only [Nesting.depth]
      omega
    simp only [hsign, if_true, Rule.reads_bind, Rule.reads_skipToken]
    refine h.operand hus (by omega) fun vs hlength hends ↦ hQ vs ?_ hends
    rw [List.length_cons]
    omega

/-! ### Operators -/

/-- The operators that bind at least as tightly as the precedence says are read with their
operands. -/
theorem binary (h : S.Ready T room) {precedence : Nat} (hloose : Operator.coalescing ≤ precedence)
    (htight : precedence ≤ Operator.tightest) {Q : Post Bool}
    (hts : S.Fits ⟨.operand, open_⟩ ⟨.operand, ⟨b, 0⟩, outer⟩ ts)
    (hroom : 2 * S.depth + 1 ≤ room + 2 * (Nesting.mk .operand ⟨b, 0⟩ outer).depth)
    (hQ : ∀ us, us.length < ts.length → S.Ends precedence open_ b outer us → Q false us) :
    (Rule.binary precedence).Reads T Q ts := by
  induction hn : Operator.tightest - precedence using Nat.strongRecOn
    generalizing precedence Q ts with
  | ind n ih =>
    have hpos : 0 < precedence := by
      simp only [Operator.coalescing] at hloose
      omega
    rw [Rule.binary_eq hpos htight, Rule.reads_bind]
    refine h.operand hts hroom fun us hlength hends ↦ ?_
    refine ⟨fun access us ↦ access = false ∧ us.length < ts.length ∧
      S.Ends Operator.tightest open_ b outer us, ⟨rfl, hlength, hends⟩, ?_⟩
    rintro _ vs ⟨rfl, hvs, hends⟩
    intro previous
    obtain rfl | ⟨s, t, ws, rfl, ht, hs, htightness⟩ := hends.nil_or_symbol
    · exact hQ [] hvs (hends.of_nil precedence)
    obtain ⟨c, m, hbranches, hfits⟩ := hends.fits
    have hstop (hlooser : tightness s < precedence) : Q false (t :: ws) := by
      refine hQ _ hvs ⟨⟨c, m, hbranches, hfits⟩, fun x hx ↦ ?_⟩
      obtain rfl : s = x := by simpa [Ahead.is, Token.is, ht] using hx
      exact hlooser
    simp only [operator_cons hfits.plain ht]
    by_cases hinfix : s ∈ infixSymbols
    · have hoperand := hfits.operator (.inr rfl) ht hinfix (fun h ↦ by cases h)
      rw [hbranches] at hoperand
      simp only [(precedence_infixSymbol s hinfix).1]
      split
      · next hlooser => exact hstop hlooser
      · next htighter =>
        rw [List.length_cons] at hvs
        simp only [rightOperand_infixSymbol hinfix, Rule.reads_bind, Rule.reads_skip, Rule.reads_pure]
        have hless := Operator.precedence_lt (precedence_infixSymbol s hinfix).1
        refine ⟨by simp, ih (Operator.tightest - (tightness s + 1)) (by omega) (by omega) hless
          hoperand (fun xs hxs hends ↦ ?_) rfl⟩
        rw [List.drop_succ_cons, List.drop_zero] at hxs
        rw [List.length_cons]
        exact ⟨by omega, trivial, by omega, hends.mono hless⟩
    · obtain ⟨hprecedence, hlooser⟩ := precedence_not_infixSymbol s hs hinfix htightness
      simp only [hprecedence]
      exact hstop (by omega)

/-- A conditional is read up to an assignment or to the end of the expression. -/
theorem conditional (h : S.Ready T room) {Q : Post Bool}
    (hts : S.Fits ⟨.operand, open_⟩ ⟨.operand, ⟨b, 0⟩, outer⟩ ts)
    (hroom : 2 * S.depth + 1 ≤ room + 2 * (Nesting.mk .operand ⟨b, 0⟩ outer).depth)
    (hend : ∀ d us, us.length < ts.length → S.Ends 1 open_ d outer us → Q false us)
    (hassignment : ∀ t us, t.kind = .symbol .equals → Plain S.allowed (t :: us) →
      us.length + 1 < ts.length →
      S.Fits ⟨.operand, open_⟩ ⟨.operand, ⟨b, 0⟩, outer⟩ us → Q false (t :: us)) :
    Rule.conditional.Reads T Q ts := by
  rw [Rule.conditional, Rule.reads_bind]
  refine h.binary (by decide) (by decide) hts hroom fun us hlength hends ↦ ?_
  obtain rfl | ⟨s, t, vs, rfl, ht, hs, htightness⟩ := hends.nil_or_symbol
  · simpa [Rule.accept, Rule.reads_acceptIf, Ahead.is] using hend b [] hlength (hends.of_nil 1)
  obtain ⟨c, m, rfl, hfits⟩ := hends.fits
  rw [List.length_cons] at hlength
  by_cases hquestion : s = .question
  · subst hquestion
    have htrue : t.is .question = true := by simp [Token.is, ht]
    obtain ⟨next, hnext, hvs⟩ := hfits.next_behind ht (.inl (by decide))
    cases hnext
    replace hvs : S.Fits ⟨.operand, .conditional :: open_⟩
        ⟨.operand, ⟨0, 0⟩, ⟨m.branches, 0⟩ :: outer⟩ vs := hvs
    have href : Ahead.isWord vs .refWord = false := hvs.toRuns.isWord_before (by decide)
    have hyes := depth_inside .operand ⟨m.branches, 0⟩ outer
    have hno : (Nesting.mk .operand ⟨m.branches + 1, 0⟩ outer).depth =
        (Nesting.mk .operand ⟨m.branches, 0⟩ outer).depth + 1 := by
      simp only [Nesting.depth]
      omega
    simp only [Rule.reads_bind, Rule.reads_accept, htrue, if_true, Rule.reads_nextWord, href,
      Bool.false_eq_true, if_false, Rule.reads_pure]
    refine h.expression hvs (by omega) fun _ _ ws hws hends ↦ ?_
    obtain ⟨u, xs, rfl, hu, hxs⟩ := hends.colon
    replace hxs : S.Fits ⟨.operand, open_⟩ ⟨.operand, ⟨m.branches + 1, 0⟩, outer⟩ xs := hxs
    rw [List.length_cons] at hws
    refine Rule.reads_need (by simp [Token.is, hu]) ?_
    refine h.expression hxs (by omega) fun _ d ys hys hends ↦ ?_
    exact hend d ys (by omega) hends
  · have hfalse : t.is .question = false := by simpa [Token.is, ht] using hquestion
    simp only [Rule.reads_bind, Rule.reads_accept, hfalse, Bool.false_eq_true, if_false,
      Rule.reads_pure]
    have hcases : ∀ s ∈ behindSymbols, tightness s < Operator.coalescing →
        s = .question ∨ s = .equals ∨ tightness s < 1 := by decide
    obtain rfl | rfl | hloose := hcases s hs htightness
    · contradiction
    · obtain ⟨next, hnext, hvs⟩ := hfits.next_behind ht (.inl (by decide))
      cases hnext
      exact hassignment t vs ht hfits.plain hlength hvs
    · refine hend m.branches _ hlength ⟨⟨c, m, rfl, hfits⟩, fun x hx ↦ ?_⟩
      obtain rfl : s = x := by simpa [Ahead.is, Token.is, ht] using hx
      exact hloose

/-- The rule for expressions reads an expression to its end. -/
theorem expressionRule (h : S.Ready T room) {Q : Post Bool}
    (hts : S.Fits ⟨.operand, open_⟩ ⟨.operand, ⟨b, 0⟩, outer⟩ ts)
    (hroom : 2 * S.depth + 1 ≤ room + 2 * (Nesting.mk .operand ⟨b, 0⟩ outer).depth)
    (hQ : ∀ a d us, us.length < ts.length → S.Ends 1 open_ d outer us → Q a us) :
    Rule.expressionRule.Reads T Q ts := by
  refine ⟨fun access us ↦ us.length ≤ ts.length ∧
    S.Fits ⟨.operand, open_⟩ ⟨.operand, ⟨b, 0⟩, outer⟩ us, ⟨Nat.le_refl _, hts⟩, ?_⟩
  rintro _ us ⟨hlength, hus⟩
  have hlambda : us.isLambda = false :=
    isLambda_eq_false hus.plain (hus.toRuns.is_before (by decide))
  simp only [Rule.reads_bind, Rule.reads_ask, hlambda, Bool.false_eq_true, if_false]
  refine h.conditional hus hroom (fun d vs hvs hends ↦ ?_) (fun t vs ht hplain hvs hoperand ↦ ?_)
  · intro previous
    obtain rfl | ⟨s, t, ws, rfl, ht, hs, htightness⟩ := hends.nil_or_symbol
    · exact hQ false d [] (by omega) hends
    obtain ⟨c, m, -, hfits⟩ := hends.fits
    have hassignment : ∀ s ∈ behindSymbols, tightness s < 1 →
        (Operator.symbol s).isAssignment = false := by decide
    simp only [operator_cons hfits.plain ht, hassignment s hs htightness]
    exact hQ false d _ (by omega) hends
  · intro previous
    have href : Ahead.isWord vs .refWord = false := hoperand.toRuns.isWord_before (by decide)
    have hfeatures : Rule.assignmentFeatures (.symbol .equals) false = [] := by decide
    simp only [operator_cons hplain ht, hfeatures]
    rw [if_neg (by decide)]
    have hdrop : List.drop 1 (t :: vs) = vs := rfl
    simp only [Rule.requireTokenFeatures, Rule.reads_bind, Rule.reads_result, Rule.reads_skip,
      hdrop, Rule.reads_ask, href, Bool.and_false, Bool.false_eq_true, if_false]
    exact ⟨by simp, by omega, by omega, hoperand⟩

end Ready

/-- The nonterminals of expressions are read on the terms of the grammar. -/
theorem ready (S : Site) {A : Allowance} (hallowed : A.allowed = S.allowed) (size room : Nat)
    (around : List TypeKind) : S.Ready (grammarRules.terms A size room around) room := by
  induction room with
  | zero =>
    refine ⟨hallowed, fun hts hroom _ ↦ ?_, fun hts hroom _ ↦ ?_⟩
    · have hdepth := hts.depth_le
      omega
    · have hdepth := hts.depth_le
      omega
  | succ room ih =>
    refine ⟨hallowed, fun hts hroom hQ ↦ ?_, fun hts hroom hQ ↦ ?_⟩
    · exact ih.expressionRule hts (by omega) hQ
    · exact ih.unaryRule hts (by omega) hQ

end Site

end CSharpCheck.Core
