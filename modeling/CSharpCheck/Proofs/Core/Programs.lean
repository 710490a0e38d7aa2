import CSharpCheck.Proofs.Core.Statements

/-!
# Programs are read

The rules for compilation units, types and members read a core program from its first token to its
last one.
-/

namespace CSharpCheck.Core.Setting

variable {C : Setting} {room : Nat} {around : List TypeKind} {ts us rest : Ahead}

/-! ### The method -/

/-- A parameter list without parameters is read. -/
theorem reads_parameters {T : Terms} {t u : Token} (ht : t.kind = .symbol .openParen)
    (hu : u.kind = .symbol .closeParen) {Q : Post Unit} (hQ : Q () us) :
    Rule.parameters.Reads T Q (t :: u :: us) := by
  have hclose : u.is .closeParen = true := by simp [Token.is, hu]
  rw [Rule.parameters, Rule.parameterList, Rule.reads_bind]
  refine Rule.reads_expect (by simp [Token.is, ht]) ?_
  simpa only [if_true, Rule.reads_bind, Rule.reads_accept, hclose, Rule.reads_pure] using hQ

/-- A method without parameters and constraints is read if its block is. -/
theorem reads_method {t u v : Token} (ht : t.kind = .symbol .openParen)
    (hu : u.kind = .symbol .closeParen) (hv : v.kind = .symbol .openBrace) {T : Terms}
    (haround : T.around = [.classType]) {Q : Post Unit} (h : Rule.block.Reads T Q (v :: us)) :
    (Rule.method []).Reads T Q (t :: u :: v :: us) := by
  have hless : t.is .less = false := by simp [Token.is, ht]
  have hwhere : v.isContextual "where" = false := by
    simp [Token.isContextual, Token.isIdentifier, hv]
  have hbrace : v.is .openBrace = true := by simp [Token.is, hv]
  simp only [Rule.method, Rule.reads_bind, Rule.requireAtText, Rule.requireReadonlyMember,
    Rule.requireAtWord, Rule.reads_result, Rule.optionalTypeParameters, Rule.reads_next, Ahead.is,
    List.head?_cons, Option.any_some, hless, Bool.false_eq_true, if_false, Rule.reads_pure]
  refine reads_parameters ht hu ?_
  rw [Rule.constraintClauses]
  refine Rule.reads_whileAhead (fun us' ↦ v :: us = us') rfl ?_ ?_
  · rintro _ rfl hwhere'
    simp [Ahead.isContextual, hwhere] at hwhere'
  · rintro _ rfl -
    simpa [Rule.body, Ahead.is, hbrace, Rule.inInterface, Rule.reads_enclosing, haround] using h

/-- A member that begins with the name of a type and a name in front of parentheses is read as a
method. -/
theorem reads_typedMember {t x u : Token} {k : Keyword} (ht : t.kind = .keyword k)
    (hk : k.namesType = true) (hx : x.kind = .identifier) (hu : u.kind = .symbol .openParen)
    {T : Terms} {Q : Post Unit} (h : (Rule.method []).Reads T Q (u :: us)) :
    (Rule.typedMember [] []).Reads T Q (t :: x :: u :: us) := by
  have hscan : Ahead.typeScan (t :: x :: u :: us) false = .done 1 := typeScan_word ht hk hx _
  have hoperator : x.isWord .operatorWord = false := by simp [Token.isWord, hx]
  have hthis : x.isWord .thisWord = false := by simp [Token.isWord, hx]
  have hname : x.isIdentifier = true := by simp [Token.isIdentifier, hx]
  have harguments : Ahead.qualifierArguments (u :: us) = some 0 := by
    simp [Ahead.qualifierArguments, Ahead.is, Token.is, hu]
  have hdot : Ahead.is (u :: us) .dot = false := by simp [Ahead.is, Token.is, hu]
  have hmethod : Ahead.isOneOf (u :: us) [.openParen, .less] = true := by
    simp [Ahead.isOneOf, Token.isOneOf, hu]
  simp only [Rule.typedMember, Rule.requireReferences, Rule.reads_bind, Rule.reads_result]
  refine Rule.reads_type (congrArg TypeScan.stop hscan) ?_ (by simp) ?_
  · rw [hscan]
    simp [TypeScan.done]
  · rw [List.drop_succ_cons, List.drop_zero]
    simp only [if_true, Rule.reads_bind, Rule.reads_nextWord, Ahead.isWord, List.head?_cons,
      Option.any_some, hoperator, hthis, Bool.false_eq_true, if_false, Rule.reads_nextIdentifier,
      Ahead.isIdentifier, hname, Rule.memberName, Rule.reads_skipToken]
    refine ⟨fun _ us' ↦ u :: us = us', rfl, ?_⟩
    rintro _ _ rfl previous
    simp only [harguments, Nat.lt_irrefl, if_false, Rule.requireUses, Rule.reads_bind,
      Rule.reads_result, Rule.reads_skip, List.drop_zero]
    refine ⟨Nat.zero_le _, fun previous ↦ ?_⟩
    simpa only [hdot, Bool.not_false, if_true, Rule.reads_pure, Rule.reads_bind,
      Rule.reads_result, Bool.false_eq_true, if_false, Rule.namedMember, Rule.reads_nextOneOf,
      hmethod] using h

theorem reads_memberAttributes {T : Terms} (hbracket : ts.is .openBracket = false)
    {Q : Post (List Placed)} (hQ : Q [] ts) : Rule.memberAttributes.Reads T Q ts := by
  refine ⟨fun targets us ↦ targets = [] ∧ ts = us, ⟨rfl, rfl⟩, ?_⟩
  rintro _ _ ⟨rfl, rfl⟩
  simpa only [Rule.reads_bind, Rule.reads_next, hbracket, Bool.false_eq_true, if_false,
    Rule.reads_pure, Rule.reads_result] using hQ

theorem reads_modifierList {T : Terms} (hmodifiers : ts.modifiers = 0)
    {Q : Post (List Placed)} (hQ : Q [] ts) : Rule.modifierList.Reads T Q ts := by
  intro previous
  simpa [hmodifiers, Rule.placeOf?, Rule.requireModifiers] using hQ

/-- A reserved word that is no modifier. -/
theorem modifiers_eq_zero {t : Token} {k : Keyword} (ht : t.kind = .keyword k)
    (hk : modifierWords.contains k = false) : Ahead.modifiers (t :: us) = 0 := by
  simp only [Ahead.modifiers, Ahead.isModifier, Ahead.isWordOf, List.head?_cons, Option.any_some,
    Token.isWordOf, ht, hk, Token.isIdentifier]
  rfl

/-- A member that begins with the name of a type is read as such. -/
theorem reads_member_typed {t : Token} {k : Keyword} (ht : t.kind = .keyword k)
    (hk : k.namesType = true) {T : Terms} {Q : Post Unit}
    (h : (Rule.typedMember [] []).Reads T Q (t :: us)) :
    Rule.memberRule.Reads T Q (t :: us) := by
  have hwords : ∀ k : Keyword, k.namesType = true → modifierWords.contains k = false ∧
      k ∉ [.classWord, .structWord, .interfaceWord, .enumWord, .delegateWord, .eventWord,
        .constWord, .implicitWord, .explicitWord] := by
    intro k hk
    cases k <;> first | (simp [Keyword.namesType] at hk; done) | decide
  obtain ⟨hmodifier, hother⟩ := hwords k hk
  have hbracket : Ahead.is (t :: us) .openBracket = false := by simp [Ahead.is, Token.is, ht]
  simp only [Rule.memberRule, Rule.reads_bind, Rule.reads_here]
  refine reads_memberAttributes hbracket (reads_modifierList (modifiers_eq_zero ht hmodifier) ?_)
  rw [Rule.reads_enclosing]
  intro previous
  simp only [List.mem_cons, List.not_mem_nil, or_false, not_or] at hother
  have hstarts : t.startsType = true := by simp [Token.startsType, Token.namesType, ht, hk]
  simpa [Ahead.isTypeKeyword, Ahead.isWordOf, Token.isWordOf, Ahead.isWord, Token.isWord,
    Ahead.isContextual, Token.isContextual, Token.isIdentifier, Ahead.isIdentifier, Ahead.is,
    Token.is, ht, hother, hstarts] using h

/-- A member that is a type is read as such. -/
theorem reads_member_class {t : Token} (ht : t.kind = .keyword .classWord) {T : Terms}
    {Q : Post Unit} (h : T.calls T.around (.typeDeclaration []) Q (t :: us)) :
    Rule.memberRule.Reads T Q (t :: us) := by
  have hbracket : Ahead.is (t :: us) .openBracket = false := by simp [Ahead.is, Token.is, ht]
  simp only [Rule.memberRule, Rule.reads_bind, Rule.reads_here]
  refine reads_memberAttributes hbracket (reads_modifierList (modifiers_eq_zero ht (by decide)) ?_)
  rw [Rule.reads_enclosing]
  intro previous
  have hclass : Ahead.isTypeKeyword (t :: us) = true := by
    simp [Ahead.isTypeKeyword, Ahead.isWordOf, Token.isWordOf, ht]
  simp only [hclass, if_true]
  exact h

/-! ### The class -/

/-- A class without base types is read if its body is read up to the closing brace. -/
theorem reads_class {t x u : Token} (ht : t.kind = .keyword .classWord)
    (hx : x.kind = .identifier) (hu : u.kind = .symbol .openBrace) {T : Terms} {Q : Post Unit}
    (h : Rule.typeBody.Reads { T with around := .classType :: T.around }
      (fun _ vs ↦ (Rule.need .closeBrace >>= fun _ ↦ Rule.allow .semicolon).Reads T Q vs) us) :
    (Rule.typeDeclarationRule []).Reads T Q (t :: x :: u :: us) := by
  have hword {k : Keyword} (hk : k ≠ .classWord) : t.isWord k = false := by
    simpa [Token.isWord, ht] using hk.symm
  have hrecord : t.isContextual "record" = false := by
    simp [Token.isContextual, Token.isIdentifier, ht]
  have hsymbol {s : Symbol} (hs : s ≠ .openBrace) : u.is s = false := by
    simpa [Token.is, hu] using hs.symm
  have hbrace : u.is .openBrace = true := by simp [Token.is, hu]
  have hwhere : u.isContextual "where" = false := by
    simp [Token.isContextual, Token.isIdentifier, hu]
  simp only [Rule.typeDeclarationRule, Rule.requireAtPlace, Rule.lastPlaceOf?, List.reverse_nil,
    List.find?_nil, Option.map_none, Rule.reads_bind, Rule.reads_result, Rule.reads_nextWord,
    Ahead.isWord, List.head?_cons, Option.any_some, hword (k := .enumWord) (by decide),
    hword (k := .delegateWord) (by decide), Bool.false_eq_true, if_false, Rule.structuredType,
    Rule.reads_nextContextual, Ahead.isContextual, hrecord, Rule.typeKeyword,
    Rule.reads_acceptWord, hword (k := .structWord) (by decide),
    hword (k := .interfaceWord) (by decide), Rule.reads_skipToken, Rule.requireTypeModifiers,
    Rule.reads_pure]
  refine Rule.reads_needIdentifier (by simp [Token.isIdentifier, hx]) ?_
  simp only [Rule.optionalTypeParameters, Rule.reads_bind, Rule.reads_next, Ahead.is,
    List.head?_cons, Option.any_some, hsymbol (s := .less) (by decide),
    hsymbol (s := .openParen) (by decide), Bool.false_eq_true, if_false, Rule.reads_pure,
    Rule.reads_accept, hsymbol (s := .colon) (by decide), Rule.constraintClauses]
  refine Rule.reads_whileAhead (fun vs ↦ u :: us = vs) rfl ?_ ?_
  · rintro _ rfl hwhere'
    simp [Ahead.isContextual, hwhere] at hwhere'
  · rintro _ rfl -
    simp only [Rule.reads_bind, Rule.reads_accept, hsymbol (s := .semicolon) (by decide),
      Bool.false_eq_true, if_false]
    refine Rule.reads_expect hbrace ?_
    simp only [if_true]
    exact h

/-- A class body with one member is read if the member is. What holds behind the member holds behind
the body. -/
theorem reads_typeBody {T : Terms} {t c : Token} {Q : Post Unit} {condition : Prop}
    (ht : t.is .closeBrace = false) (hc : c.is .closeBrace = true)
    (hsize : (t :: us).length ≤ T.size) (hlength : (c :: rest).length < (t :: us).length)
    (hmember : ∀ Q : Post Unit, (condition → Q () (c :: rest)) → Rule.member.Reads T Q (t :: us))
    (hQ : condition → Q () (c :: rest)) : Rule.typeBody.Reads T Q (t :: us) := by
  refine Rule.reads_whileAhead_once (c :: rest) condition ?_ ?_ hlength (fun Q hQ ↦ ?_) hQ
  · simp [Rule.isBefore, Ahead.is, ht]
  · simp [Rule.isBefore, Ahead.is, hc]
  · rw [Rule.reads_bind]
    exact Rule.reads_moves hsize hlength hmember hQ

/-! ### The text -/

/-- A text that consists of one element is read if the element is. What holds behind the element
holds at the end. -/
theorem reads_unitElements {T : Terms} {t : Token} {condition : Prop}
    (hsize : (t :: us).length ≤ T.size)
    (helement : ∀ (state : Rule.UnitState) (Q : Post Rule.UnitState),
      (condition → ∀ state, Q state []) → (Rule.unitElement false state).Reads T Q (t :: us)) :
    (Rule.unitElements false).Reads T (fun _ vs ↦ vs = [] ∧ condition) (t :: us) := by
  refine ⟨fun _ vs ↦ t :: us = vs ∨ (vs = [] ∧ condition), .inl rfl, ?_⟩
  rintro state _ (rfl | ⟨rfl, hcondition⟩)
  · have hmoved : (T.size - (t :: us).length == T.size - ([] : Ahead).length) = false := by
      rw [beq_eq_false_iff_ne]
      simp only [List.length_cons, List.length_nil] at hsize ⊢
      omega
    simp only [Rule.reads_bind, Rule.reads_ask, List.isEmpty_cons, Bool.false_and, Bool.or_false,
      Bool.false_eq_true, if_false, Rule.elementOrRecover, Rule.reads_here]
    refine helement state _ fun hcondition state ↦ ?_
    simp only [hmoved, Bool.false_eq_true, if_false]
    exact ⟨by simp, .inr ⟨rfl, hcondition⟩⟩
  · simpa using hcondition

/-- A class is read as an element of a unit. -/
theorem reads_unitElement_class {T : Terms} {t : Token} (ht : t.kind = .keyword .classWord)
    {state : Rule.UnitState} {Q : Post Rule.UnitState} (h : Rule.member.Reads T
      (fun _ vs ↦ Q { state with elementSeen := true, declarationSeen := true } vs) (t :: us)) :
    (Rule.unitElement false state).Reads T Q (t :: us) := by
  have hword {k : Keyword} (hk : k ≠ .classWord) : Ahead.isWord (t :: us) k = false := by
    simpa [Ahead.isWord, Token.isWord, ht] using hk.symm
  have hsymbol (s : Symbol) : Ahead.is (t :: us) s = false := by
    simp [Ahead.is, Token.is, ht]
  have hglobal : Ahead.isContextual (t :: us) "global" = false := by
    simp [Ahead.isContextual, Token.isContextual, Token.isIdentifier, ht]
  have hmodifiers : Ahead.modifiers (t :: us) = 0 := modifiers_eq_zero ht (by decide)
  have hsections : Ahead.attributeSections (t :: us) = some 0 := by
    rw [Ahead.attributeSections, hsymbol]
    rfl
  have hclass : Ahead.isTypeDeclaration (t :: us) = true := by
    simp [Ahead.isTypeDeclaration, hsections, hmodifiers, Ahead.isTypeKeyword, Ahead.isWordOf,
      Token.isWordOf, ht]
  intro previous
  simpa only [hword (k := .externWord) (by decide), hword (k := .namespaceWord) (by decide),
    Ahead.isUsingDirective, Ahead.isGlobalAttribute, hglobal,
    hword (k := .usingWord) (by decide), hsymbol, hclass, Bool.false_and, Bool.or_false,
    Bool.false_eq_true, if_false, if_true, Rule.reads_bind, Rule.reads_pure] using h

/-- A class with one method is read if the block of the method is. What holds behind the block holds
at the end. -/
theorem reads_methodProgram {t₁ t₂ t₃ t₄ t₅ t₆ t₇ v c : Token} {k : Keyword} {condition : Prop}
    (h₁ : t₁.kind = .keyword .classWord) (h₂ : t₂.kind = .identifier)
    (h₃ : t₃.kind = .symbol .openBrace) (h₄ : t₄.kind = .keyword k) (hk : k.namesType = true)
    (h₅ : t₅.kind = .identifier) (h₆ : t₆.kind = .symbol .openParen)
    (h₇ : t₇.kind = .symbol .closeParen) (hv : v.kind = .symbol .openBrace)
    (hc : c.kind = .symbol .closeBrace) {ts : Ahead}
    (hts : ts = t₁ :: t₂ :: t₃ :: t₄ :: t₅ :: t₆ :: t₇ :: v :: us) (hsize : ts.length ≤ C.size)
    (hblock : ∀ Q : Post Unit, (condition → Q () [c]) →
      Rule.block.Reads (C.terms room [.classType]) Q (v :: us)) :
    (Rule.unitElements false).Reads (C.terms (room + 3) []) (fun _ vs ↦ vs = [] ∧ condition) ts := by
  subst hts
  have hmethod (Q : Post Unit) (hQ : condition → Q () [c]) :
      Rule.member.Reads (C.terms (room + 1) [.classType]) Q (t₄ :: t₅ :: t₆ :: t₇ :: v :: us) :=
    reads_member_typed h₄ hk (reads_typedMember h₄ hk h₅ h₆
      (reads_method h₆ h₇ hv (Rules.around_terms ..) (hblock Q hQ)))
  refine reads_unitElements hsize fun state Q hQ ↦ reads_unitElement_class h₁ ?_
  refine reads_member_class h₁ ?_
  refine reads_class (T := C.terms (room + 1) []) h₁ h₂ h₃ ?_
  refine reads_typeBody ?_ ?_ ?_ ?_ hmethod fun hcondition ↦ ?_
  · simp [Token.is, h₄]
  · simp [Token.is, hc]
  · refine Nat.le_trans ?_ hsize
    simp only [List.length_cons]
    omega
  · simp only [List.length_cons, List.length_nil]
    omega
  · rw [Rule.reads_bind]
    refine Rule.reads_need (by simp [Token.is, hc]) ?_
    simpa [Rule.allow, Rule.accept, Rule.reads_acceptIf, Ahead.is] using hQ hcondition _

/-- A program is read to its end if the nesting suffices for its statements. -/
theorem reads_program {ss : Statements}
    (h : C.Stretch (programWords ss) ss.parenthesized ts []) (hsettled : ss.IsSettled)
    (hroom : 2 * ss.depth Expression.depthAsRead + 3 ≤ room) :
    (Rule.unitElements false).Reads (C.terms (room + 3) []) (fun _ us ↦ us = [] ∧ True) ts := by
  have hsize := h.length
  have hwords : programWords ss = .reserved .classWord :: .name className ::
      .symbol .openBrace :: .reserved .objectWord :: .name methodName :: .symbol .openParen ::
        .symbol .closeParen :: ((Body.block ss).words ++ [.symbol .closeBrace]) := by
    simp [programWords, programHead, Body.words]
  rw [hwords] at h
  obtain ⟨t₁, ts, rfl, h₁, h⟩ := h.cons
  obtain ⟨t₂, ts, rfl, h₂, h⟩ := h.cons
  obtain ⟨t₃, ts, rfl, h₃, h⟩ := h.cons
  obtain ⟨t₄, ts, rfl, h₄, h⟩ := h.cons
  obtain ⟨t₅, ts, rfl, h₅, h⟩ := h.cons
  obtain ⟨t₆, ts, rfl, h₆, h⟩ := h.cons
  obtain ⟨t₇, ts, rfl, h₇, h⟩ := h.cons
  obtain ⟨us, hblock, hend⟩ := h.append_nil
  obtain ⟨c, vs, rfl, hc, hnil⟩ := hend.cons
  obtain rfl := hnil.nil
  have hreads (Q : Post Unit) (hQ : True → Q () [c]) :
      Rule.block.Reads (C.terms room [.classType]) Q ts :=
    ReadsStatements.block (C.readsStatements room [.classType]) hblock hsettled hroom (hQ trivial)
  obtain ⟨v, vs, rfl, hv, -⟩ := hblock.cons
  exact reads_methodProgram h₁ h₂ h₃ h₄ rfl h₅ h₆ h₇ hv hc rfl hsize hreads

end CSharpCheck.Core.Setting
