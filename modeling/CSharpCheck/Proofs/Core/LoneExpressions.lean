import CSharpCheck.Proofs.Core.Programs
import CSharpCheck.Proofs.Reading.Unfinished

/-!
# Expressions that begin like declarations

An expression that stands alone is taken for a declaration if it begins with a tilde, or with a
dotted name, a star or a question mark, and what may be the name of a variable or the word `this`.
Such a declaration does not end, so that a rule of the grammar is found broken. Any other expression
is read as a statement.
-/

namespace CSharpCheck.Core

/-! ### Beginnings -/

/-- Whether tokens of the kinds behind a name make the name a type, and declare something of that
type. -/
def declaresBehindName : List Kind → Bool
  | .symbol .dot :: .identifier :: ks => declaresBehindName ks
  | .symbol .star :: .identifier :: _ => true
  | .symbol .question :: .identifier :: ks => ks.head? != some (.symbol .colon)
  | .symbol .star :: .keyword .thisWord :: _ | .symbol .question :: .keyword .thisWord :: _ => true
  | _ => false

/-- Whether tokens of the kinds begin like a declaration. -/
def startsDeclaration : List Kind → Bool
  | .symbol .tilde :: _ => true
  | .identifier :: ks => declaresBehindName ks
  | _ => false

theorem declaresBehindName_append {ds : List Token} (hds : MoreNames [.dot] ds) (ks : List Kind) :
    declaresBehindName (ds.map (·.kind) ++ ks) = declaresBehindName ks := by
  induction hds with
  | nil => rfl
  | @cons d x ds hd hx _ ih =>
    obtain ⟨s, hs, hd⟩ := hd
    obtain rfl : s = .dot := by simpa using hs
    rw [List.map_cons, List.map_cons, hd, hx, List.cons_append, List.cons_append, ← ih]
    rfl

theorem declaresBehindName_of_not {ts : Ahead}
    (h : ts.isOneOf [.dot, .star, .question] = false) :
    declaresBehindName (ts.map (·.kind)) = false := by
  have hnot {s : Symbol} (hs : s ∈ [Symbol.dot, .star, .question]) : ts.is s = false :=
    is_eq_false_of_isOneOf h hs
  cases ts with
  | nil => rfl
  | cons t ts =>
    have hne {s : Symbol} (hs : s ∈ [Symbol.dot, .star, .question]) : t.kind ≠ .symbol s := by
      simpa [Ahead.is, Token.is] using hnot hs
    have hdot := hne (s := .dot) (by decide)
    have hstar := hne (s := .star) (by decide)
    have hquestion := hne (s := .question) (by decide)
    rw [List.map_cons]
    unfold declaresBehindName
    split <;> simp_all

/-- Behind a star or a question mark the next two tokens tell. -/
theorem declaresBehindName_suffix {s : Symbol} (hs : s = .star ∨ s = .question) (us : Ahead) :
    declaresBehindName (.symbol s :: us.map (·.kind)) =
      (us.isWord .thisWord || us.isIdentifier && !(s == .question && us.tail.is .colon)) := by
  cases us with
  | nil => rcases hs with rfl | rfl <;> rfl
  | cons u us =>
    have hcolon : ((us.map (·.kind)).head? != some (.symbol .colon)) = !Ahead.is us .colon := by
      cases us with
      | nil => rfl
      | cons v us => rfl
    rw [List.map_cons]
    cases hu : u.kind with
    | identifier =>
      have hword : Ahead.isWord (u :: us) .thisWord = false := by
        simp [Ahead.isWord, Token.isWord, hu]
      have hname : Ahead.isIdentifier (u :: us) = true := by
        simp [Ahead.isIdentifier, Token.isIdentifier, hu]
      rw [hword, hname]
      rcases hs with rfl | rfl
      · rfl
      · exact hcolon
    | keyword k =>
      by_cases hk : k = .thisWord
      · subst hk
        rcases hs with rfl | rfl <;>
          simp [declaresBehindName, Ahead.isWord, Token.isWord, hu]
      · rcases hs with rfl | rfl <;>
          simp [declaresBehindName, Ahead.isWord, Token.isWord, Ahead.isIdentifier,
            Token.isIdentifier, hu, hk]
    | _ =>
      rcases hs with rfl | rfl <;>
        simp [declaresBehindName, Ahead.isWord, Token.isWord, Ahead.isIdentifier,
          Token.isIdentifier, hu]

/-- Unless a name comes first, only a tilde begins a declaration. -/
theorem startsDeclaration_of_not_name {t : Token} (ht : t.kind ≠ .identifier) (us : Ahead) :
    startsDeclaration ((t :: us).map (·.kind)) = Ahead.is (t :: us) .tilde := by
  rw [List.map_cons]
  unfold startsDeclaration
  split
  · next heq => simp [Ahead.is, Token.is, (List.cons.inj heq).1]
  · next heq => exact absurd (List.cons.inj heq).1 ht
  · next hnot _ =>
    have hne : t.kind ≠ .symbol .tilde := fun hk ↦ hnot _ (by rw [hk])
    have his : Ahead.is (t :: us) .tilde = false := by simpa [Ahead.is, Token.is] using hne
    exact his.symm

namespace Site

variable {S : Site} {ts us : Ahead} {open_ : List Enclosure}

/-! ### What is ahead of an operand -/

/-- No modifier comes before an operand. -/
theorem Runs.isModifier (h : S.Runs ⟨.operand, open_⟩ ts) : ts.isModifier = false := by
  have hword : ts.isWordOf modifierWords = false := h.isWordOf_before (by decide)
  have hcontextual : ts.head?.any (fun t ↦ t.isIdentifier && contextualModifiers.contains t.text) =
      false := by
    rw [Bool.eq_false_iff]
    intro hany
    obtain ⟨t, ht, hmodifier⟩ := (Option.any_eq_true _ _).1 hany
    rw [Bool.and_eq_true, List.contains_iff_mem] at hmodifier
    have hall : ∀ word ∈ contextualModifiers, word ∈ contextualWords := by decide
    have hnot := h.plain.ordinary t (List.mem_of_mem_head? ht) t.text (hall _ hmodifier.2)
    simp [Token.isContextual, hmodifier.1] at hnot
  rw [Ahead.isModifier, hword, hcontextual]
  rfl

theorem Runs.modifiers (h : S.Runs ⟨.operand, open_⟩ ts) : ts.modifiers = 0 := by
  have hmodifier := h.isModifier
  cases ts with
  | nil => rfl
  | cons t ts => simp [Ahead.modifiers, hmodifier]

theorem Runs.localModifiers (h : S.Runs ⟨.operand, open_⟩ ts) : ts.localModifiers = 0 := by
  have hword : ts.isWordOf localModifierWords = false := h.isWordOf_before (by decide)
  cases ts with
  | nil => rfl
  | cons t ts => exact localModifiers_eq_zero h.plain hword

theorem Runs.attributeSections (h : S.Runs ⟨.operand, open_⟩ ts) :
    ts.attributeSections = some 0 := by
  have hbracket := h.is_before (s := .openBracket) (by decide)
  rw [Ahead.attributeSections, hbracket]
  rfl

/-- A type in front of an operand begins with a name. -/
theorem Runs.typeEnd_eq_none (h : S.Runs ⟨.operand, open_⟩ ts) (hname : ts.isIdentifier = false) :
    ts.typeEnd = none := by
  cases hstop : ts.typeEnd with
  | none => rfl
  | some stop =>
    obtain ⟨taken, rest, rfl, -, htype⟩ := exists_of_typeEnd h hstop
    have hdotted {ds us : List Token} (hds : Dotted ds) : Ahead.isIdentifier (ds ++ us) = true := by
      cases hds with
      | mk hx => simp [Ahead.isIdentifier, Token.isIdentifier, hx]
    cases htype with
    | name hds => simp [hdotted hds] at hname
    | nullable hds | pointer hds => simp [hdotted hds] at hname
    | generic hds => simp [hdotted hds] at hname

/-! ### Declarations ahead of an operand -/

/-- Where no declaration can end, a member begins with a tilde, or with a type and a word. -/
theorem Runs.isMemberOnly (h : S.Runs ⟨.operand, open_⟩ ts)
    (hends : ∀ s ∈ endSymbols, ∀ t ∈ ts, t.is s = false) :
    ts.isMemberOnly = (ts.is .tilde ||
      ts.typeEnd.any fun stop ↦ Ahead.isWordOf (ts.drop stop) [.thisWord, .operatorWord]) := by
  have hbracket := h.is_before (s := .openBracket) (by decide)
  have hword : ts.isWordOf [.eventWord, .operatorWord, .implicitWord, .explicitWord] = false :=
    h.isWordOf_before (by decide)
  have hmodifier := h.isModifier
  have hmembers : ts.hasMemberModifier = false := by
    cases ts with
    | nil => rfl
    | cons t ts => simp [Ahead.hasMemberModifier, hmodifier]
  have hbody (stop count : Nat) :
      Ahead.isOneOf ((ts.drop stop).drop count) [.openBrace, .fatArrow] = false := by
    rw [Bool.eq_false_iff, ne_eq, isOneOf_eq_true_iff]
    rintro ⟨s, hs, his⟩
    obtain ⟨t, us, heq, ht⟩ := is_eq_true_iff.1 his
    have hmem : t ∈ ts := by
      refine List.mem_of_mem_drop (i := stop) (List.mem_of_mem_drop (i := count) ?_)
      rw [heq]
      exact List.mem_cons_self
    have hall : ∀ s ∈ [Symbol.openBrace, .fatArrow], s ∈ endSymbols := by decide
    simpa [Token.is, ht] using hends s (hall s hs) t hmem
  unfold Ahead.isMemberOnly
  simp only [h.modifiers, List.drop_zero, hbracket, hword, hmembers, Bool.false_or, Bool.or_false,
    hbody, Bool.and_false]
  cases ts.typeEnd <;> rfl

/-- Behind a pointer type or a nullable type, a name is declared unless the question mark is that
of a conditional. -/
theorem Runs.isSome_localKind {ds : List Token} {t : Token} {s : Symbol}
    (h : S.Runs ⟨.operand, open_⟩ (ds ++ t :: us)) (hds : Dotted ds) (ht : t.kind = .symbol s)
    (hs : s = .star ∨ s = .question) (hstop : Ahead.typeEnd (ds ++ t :: us) = some (ds.length + 1))
    (hless : us.tail.is .less = false) :
    (Ahead.localKind (ds ++ t :: us)).isSome =
      (us.isIdentifier && !(s == .question && us.tail.is .colon)) := by
  have hawait : Ahead.isContextual (ds ++ t :: us) "await" = false :=
    h.isContextual (by simp [contextualWords])
  have hafter : (ds ++ t :: us).drop (ds.length + 1) = us := by simp
  have hname : (ds ++ t :: us).drop (ds.length + 1 + 1) = us.tail := by
    rw [← List.drop_drop, hafter, Ahead.tail]
  have hbefore : (ds ++ t :: us).drop (ds.length + 1 - 1) = t :: us := by
    rw [Nat.add_sub_cancel, List.drop_left]
  have htype : (ds ++ t :: us).take (ds.length + 1) = ds ++ [t] := by
    rw [List.take_length_add_append]
    rfl
  have honly : Ahead.isTypeOnly (ds ++ [t]) = true := by
    rw [isTypeOnly_dotted_append hds]
    rcases hs with rfl | rfl <;>
      simp [Ahead.isTypeOnly, Ahead.hasTypeSigns, Token.is, Token.isOneOf, ht]
  have hquestion : Ahead.is (t :: us) .question = (s == .question) := by
    rw [Bool.eq_iff_iff]
    simp [Ahead.is, Token.is, ht]
  have hcall : us.tail.isGenericCall = false := by rw [Ahead.isGenericCall, hless, Bool.false_and]
  unfold Ahead.localKind
  simp only [h.localModifiers, List.drop_zero, hawait, hstop, hafter, hname, hbefore, htype, honly,
    hquestion, hcall]
  cases hcolon : us.tail.is .colon with
  | true =>
    obtain ⟨u, vs, heq, hu⟩ := is_eq_true_iff.1 hcolon
    have hparen : us.tail.is .openParen = false := by simp [heq, Ahead.is, Token.is, hu]
    have hvariable : us.tail.isOneOf [.equals, .semicolon, .comma, .openBracket] = false := by
      simp [heq, Ahead.isOneOf, Token.isOneOf, hu]
    rw [hparen, hvariable]
    rcases hs with rfl | rfl <;> cases us.isIdentifier <;> rfl
  | false =>
    cases us.isIdentifier <;> cases us.tail.is .openParen <;>
      cases us.tail.isOneOf [.equals, .semicolon, .comma, .openBracket] <;> simp

theorem isWordOf_pair (ts : Ahead) (k l : Keyword) :
    ts.isWordOf [k, l] = (ts.isWord k || ts.isWord l) := by
  cases ts with
  | nil => rfl
  | cons t ts =>
    simp only [Ahead.isWordOf, Ahead.isWord, List.head?_cons, Option.any_some, Token.isWordOf,
      Token.isWord]
    cases t.kind with
    | keyword x =>
      rw [Bool.eq_iff_iff]
      simp
    | _ => rfl

/-- Behind a dotted name, a type goes on as its suffixes do. -/
theorem Runs.typeEnd_append {ds : List Token} (hds : Dotted ds)
    (h : S.Runs ⟨.behind true, open_⟩ us) (hdot : us.is .dot = false)
    (hless : us.is .less = false) :
    Ahead.typeEnd (ds ++ us) = (typeSuffixes false ds.length us).stop := by
  have hcolon := h.is_behind (s := .colonColon) (by decide)
  have hend : us.isOneOf [.colonColon, .dot, .less] = false := by
    rw [Bool.eq_false_iff, ne_eq, isOneOf_eq_true_iff]
    simp [hcolon, hdot, hless]
  have hwithin := typeWithin_dottedName_append hds hend false maxTypeDepth 0
  rw [Nat.zero_add] at hwithin
  exact congrArg TypeScan.stop hwithin

/-- Without a type, only a tilde begins a declaration. -/
theorem Runs.declares_of_typeEnd_eq_none (h : S.Runs ⟨.operand, open_⟩ ts)
    (hends : ∀ s ∈ endSymbols, ∀ t ∈ ts, t.is s = false) (hstop : ts.typeEnd = none) :
    (ts.isMemberOnly || ts.localKind.isSome) = ts.is .tilde := by
  have hlocal : ts.localKind = none := by simp [Ahead.localKind, h.localModifiers, hstop]
  rw [h.isMemberOnly hends, hstop, hlocal]
  simp

/-- A dotted name alone declares nothing. -/
theorem Runs.declares_of_name {ds : List Token} (hds : Dotted ds)
    (h : S.Runs ⟨.operand, open_⟩ (ds ++ us)) (hrest : S.Runs ⟨.behind true, open_⟩ us)
    (hends : ∀ s ∈ endSymbols, ∀ t ∈ ds ++ us, t.is s = false)
    (hstop : Ahead.typeEnd (ds ++ us) = some ds.length) :
    (Ahead.isMemberOnly (ds ++ us) || (Ahead.localKind (ds ++ us)).isSome) = false := by
  have hdrop : (ds ++ us).drop ds.length = us := List.drop_left
  have htilde : Ahead.is (ds ++ us) .tilde = false := by
    cases hds with
    | mk hx => simp [Ahead.is, Token.is, hx]
  have hword : us.isWordOf [.thisWord, .operatorWord] = false := by
    obtain ⟨d, hbehind⟩ := hrest.behind
    cases us with
    | nil => rfl
    | cons u us =>
      obtain ⟨s, -, hu⟩ := hbehind.head u rfl
      simp [Ahead.isWordOf, Token.isWordOf, hu]
  have hlocal : Ahead.localKind (ds ++ us) = none := by
    simp [Ahead.localKind, h.localModifiers, hstop, hdrop, hrest.isIdentifier_behind]
  rw [h.isMemberOnly hends, hlocal, hstop, htilde]
  simp [hdrop, hword]

/-- Behind a dotted name and a star or a question mark, the next two tokens tell. -/
theorem Runs.declares_of_suffix {ds : List Token} {t : Token} {s : Symbol} {inner : List Enclosure}
    (h : S.Runs ⟨.operand, open_⟩ (ds ++ t :: us)) (hds : Dotted ds) (ht : t.kind = .symbol s)
    (hs : s = .star ∨ s = .question) (hrest : S.Runs ⟨.operand, inner⟩ us)
    (hends : ∀ s ∈ endSymbols, ∀ u ∈ ds ++ t :: us, u.is s = false)
    (hless : us.tail.is .less = false)
    (hstop : Ahead.typeEnd (ds ++ t :: us) = some (ds.length + 1)) :
    (Ahead.isMemberOnly (ds ++ t :: us) || (Ahead.localKind (ds ++ t :: us)).isSome) =
      declaresBehindName (.symbol s :: us.map (·.kind)) := by
  have hdrop : (ds ++ t :: us).drop (ds.length + 1) = us := by simp
  have htilde : Ahead.is (ds ++ t :: us) .tilde = false := by
    cases hds with
    | mk hx => simp [Ahead.is, Token.is, hx]
  have hoperator : us.isWord .operatorWord = false := hrest.isWord_before (by decide)
  rw [h.isMemberOnly hends, h.isSome_localKind hds ht hs hstop hless,
    declaresBehindName_suffix hs, hstop, htilde]
  simp [hdrop, isWordOf_pair, hoperator]

/-- A lone expression is taken for a member or a local declaration exactly if it begins like a
declaration. -/
theorem Runs.declares_eq (h : S.Runs ⟨.operand, open_⟩ ts)
    (hends : ∀ s ∈ endSymbols, ∀ t ∈ ts, t.is s = false) (hless : ∀ t ∈ ts, t.is .less = false) :
    (ts.isMemberOnly || ts.localKind.isSome) = startsDeclaration (ts.map (·.kind)) := by
  have hnot {us : Ahead} (hsub : us ⊆ ts) : us.is .less = false := by
    rw [Bool.eq_false_iff]
    intro hus
    obtain ⟨u, vs, rfl, hu⟩ := is_eq_true_iff.1 hus
    simpa [Token.is, hu] using hless u (hsub List.mem_cons_self)
  have hother {t : Token} {us : Ahead} (hts : ts = t :: us) (ht : t.kind ≠ .identifier) :
      (ts.isMemberOnly || ts.localKind.isSome) = startsDeclaration (ts.map (·.kind)) := by
    subst hts
    have hname : Ahead.isIdentifier (t :: us) = false := by
      simpa [Ahead.isIdentifier, Token.isIdentifier] using ht
    rw [h.declares_of_typeEnd_eq_none hends (h.typeEnd_eq_none hname),
      startsDeclaration_of_not_name ht]
  obtain ⟨d, hbefore⟩ := h.before
  cases hbefore with
  | @name x us hx hus =>
    obtain ⟨ds, vs, rfl, hds, hvs, hdot⟩ := hus.of_deep.exists_moreNames
    have hname : Dotted (x :: ds) := .mk hx hds
    have hstarts : startsDeclaration ((x :: (ds ++ vs)).map (·.kind)) =
        declaresBehindName (vs.map (·.kind)) := by
      rw [List.map_cons, List.map_append, hx, ← declaresBehindName_append hds]
      rfl
    have hstop : Ahead.typeEnd (x :: (ds ++ vs)) = _ :=
      Runs.typeEnd_append hname hvs hdot (hnot (by simp))
    have htail {t : Token} {us : Ahead} (heq : vs = t :: us) : us.tail.is .less = false := by
      refine hnot fun u hu ↦ ?_
      simp [heq, List.mem_of_mem_drop hu]
    rw [hstarts]
    rcases typeSuffixes_behind hvs (x :: ds).length with
      ⟨heq, hquestion, hstar⟩ | ⟨t, us, rfl, ht, hrest, heq⟩ | ⟨t, us, rfl, ht, hrest, heq⟩
    · rw [heq] at hstop
      have hend : vs.isOneOf [.dot, .star, .question] = false := by
        rw [Bool.eq_false_iff, ne_eq, isOneOf_eq_true_iff]
        simp [hdot, hstar, hquestion]
      rw [declaresBehindName_of_not hend]
      exact h.declares_of_name hname hvs hends hstop
    · rw [heq] at hstop
      rw [List.map_cons, ht]
      exact h.declares_of_suffix hname ht (.inr rfl) hrest hends (htail rfl) hstop
    · rw [heq] at hstop
      rw [List.map_cons, ht]
      exact h.declares_of_suffix hname ht (.inl rfl) hrest hends (htail rfl) hstop
  | @atom t us ht | @sign t us ht =>
    refine hother rfl fun hk ↦ ?_
    simp [hk, isAtom, isSign] at ht
  | @parentheses t us ht => exact hother rfl (by simp [ht])

/-! ### Lone expressions as elements and as statements -/

/-- Where nothing comes behind the expression, it does not begin with a label. -/
theorem Runs.isLabel (h : S.Runs ⟨.operand, []⟩ ts) (hrest : S.rest = []) :
    ts.isLabel = false := by
  obtain ⟨d, hbefore⟩ := h.before
  cases hbefore with
  | @name x us hx hus =>
    have hcolon : us.is .colon = false := by
      rw [Bool.eq_false_iff]
      intro hcolon
      obtain ⟨t, vs, rfl, ht⟩ := is_eq_true_iff.1 hcolon
      obtain ⟨_, _, next, heq, hnext, -⟩ := hus.next (by rw [deep, hrest]; simp)
      cases heq
      rw [ht] at hnext
      contradiction
    simp [Ahead.isLabel, Ahead.tail, hcolon]
  | @atom t us ht | @sign t us ht =>
    have hne : t.kind ≠ .identifier := by
      intro heq
      simp [heq, isAtom, isSign] at ht
    simp [Ahead.isLabel, Ahead.isIdentifier, Token.isIdentifier, hne]
  | parentheses ht => simp [Ahead.isLabel, Ahead.isIdentifier, Token.isIdentifier, ht]

/-- At the top level an expression is read as a member or as a statement. -/
theorem Runs.unitElement (h : S.Runs ⟨.operand, open_⟩ ts) (state : Rule.UnitState) :
    ∃ next, Rule.unitElement false state = .look next ∧ ∀ v : View, v.ahead = ts →
      next v = if ts.isMemberOnly then
          (do
            Rule.member
            return { state with elementSeen := true })
        else Rule.topLevelStatement state := by
  refine ⟨_, rfl, fun v hv ↦ ?_⟩
  have hword {k : Keyword} (hk : k ∉ [.trueWord, .falseWord, .nullWord, .thisWord]) :
      ts.isWord k = false := h.isWord_before hk
  have hglobal : ts.isContextual "global" = false := h.isContextual (by simp [contextualWords])
  have hbracket := h.is_before (s := .openBracket) (by decide)
  have hbrace := h.is_before (s := .closeBrace) (by decide)
  have htype : ts.isTypeDeclaration = false := by
    have hrecord : ts.isContextual "record" = false := h.isContextual (by simp [contextualWords])
    have hwords : ts.isWordOf [.classWord, .structWord, .interfaceWord, .enumWord] = false :=
      h.isWordOf_before (by decide)
    simp [Ahead.isTypeDeclaration, h.attributeSections, h.modifiers, Ahead.isTypeKeyword, hwords,
      hword (k := .delegateWord) (by decide), hrecord]
  simp only [hv, hword (k := .externWord) (by decide), Ahead.isUsingDirective, hglobal,
    hword (k := .usingWord) (by decide), Ahead.isGlobalAttribute, hbracket, hbrace, htype,
    hword (k := .namespaceWord) (by decide), Bool.false_and, Bool.or_false, Bool.false_or,
    Bool.false_eq_true, if_false]

/-- As a statement, an expression is read as a local declaration or for its value. -/
theorem Runs.statementRule (h : S.Runs ⟨.operand, []⟩ ts) (hrest : S.rest = []) (topLevel : Bool) :
    ∃ next, Rule.statementRule topLevel = .look next ∧ ∀ v : View, v.ahead = ts →
      next v = match ts.localKind with
        | some .function => Rule.localFunction
        | some .variable => Rule.localDeclaration
        | none => Rule.expressionStatement topLevel := by
  refine ⟨_, rfl, fun v hv ↦ ?_⟩
  have hbracket := h.is_before (s := .openBracket) (by decide)
  have hbrace := h.is_before (s := .openBrace) (by decide)
  have hsemicolon := h.is_before (s := .semicolon) (by decide)
  have hyield : ts.isContextual "yield" = false := h.isContextual (by simp [contextualWords])
  have hawait : ts.isContextual "await" = false := h.isContextual (by simp [contextualWords])
  have hblock : ts.isWordOf [.checkedWord, .uncheckedWord, .unsafeWord] = false :=
    h.isWordOf_before (by decide)
  have hstatement : Rule.wordStatementAhead ts = none := by
    unfold Rule.wordStatementAhead
    split
    · next k hk =>
      have hword : ts.isWord k = true := by
        obtain ⟨t, ht, hkind⟩ := Option.map_eq_some_iff.1 hk
        rw [Ahead.isWord, ht]
        simp [Token.isWord, hkind]
      by_cases hconstant : k ∈ [Keyword.trueWord, .falseWord, .nullWord, .thisWord]
      · simp only [List.mem_cons, List.not_mem_nil, or_false] at hconstant
        rcases hconstant with rfl | rfl | rfl | rfl <;> rfl
      · rw [h.isWord_before hconstant] at hword
        contradiction
    · rfl
  cases hlocal : ts.localKind with
  | none =>
    simp only [hv, hbrace, hsemicolon, hstatement, hblock, Ahead.isAttributedFunction, hbracket,
      hyield, hawait, h.isLabel hrest, hlocal, Bool.false_and, Bool.false_eq_true, if_false]
  | some kind =>
    cases kind <;>
      simp only [hv, hbrace, hsemicolon, hstatement, hblock, Ahead.isAttributedFunction, hbracket,
        hyield, hawait, h.isLabel hrest, hlocal, Bool.false_and, Bool.false_eq_true, if_false]

end Site

end CSharpCheck.Core
