import CSharpCheck.Proofs.Core.Tokens

/-!
# Names and type arguments ahead

Where a type may begin in an expression, the scan for types finds a dotted name with a suffix or
type arguments, or nothing, whatever comes behind it.
-/

namespace CSharpCheck.Core

/-- Names after separators, each after one of its own. -/
inductive MoreNames (separators : List Symbol) : List Token → Prop where
  | nil : MoreNames separators []
  | cons {d x : Token} {ts : List Token} : (∃ s ∈ separators, d.kind = .symbol s) →
      x.kind = .identifier → MoreNames separators ts → MoreNames separators (d :: x :: ts)

/-- Names with separators between them. -/
inductive Names (separators : List Symbol) : List Token → Prop where
  | mk {x : Token} {ts : List Token} : x.kind = .identifier → MoreNames separators ts →
      Names separators (x :: ts)

/-- A dotted name. -/
abbrev Dotted : List Token → Prop := Names [.dot]

/-- Dotted names with commas between them. -/
abbrev DottedList : List Token → Prop := Names [.dot, .comma]

theorem MoreNames.append {separators : List Symbol} {ts us : List Token}
    (ht : MoreNames separators ts) (hu : MoreNames separators us) :
    MoreNames separators (ts ++ us) := by
  induction ht with
  | nil => exact hu
  | cons hd hx _ ih => exact .cons hd hx ih

theorem MoreNames.mono {separators more : List Symbol} (hsub : separators ⊆ more)
    {ts : List Token} (h : MoreNames separators ts) : MoreNames more ts := by
  induction h with
  | nil => exact .nil
  | cons hd hx _ ih =>
    obtain ⟨s, hs, hd⟩ := hd
    exact .cons ⟨s, hsub hs, hd⟩ hx ih

namespace Site

variable {S : Site} {ts us : Ahead} {open_ : List Enclosure} {l : Level} {outer : List Level}

/-! ### What may come next -/

/-- The symbols with which an operand may begin. -/
def operandSymbols : List Symbol := [.plus, .minus, .bang, .tilde, .openParen]

/-- The symbols that may come behind an operand or behind the expression. -/
def behindSymbols : List Symbol :=
  [.dot, .openParen, .openBracket, .equals, .question, .colon, .comma, .closeParen,
    .closeBracket, .semicolon, .openBrace] ++ infixSymbols

/-- Before an operand there is a name, a literal or constant, or one of some symbols. -/
theorem BeforeOperand.exists_head (h : S.BeforeOperand open_ l outer ts) :
    ∃ t us, ts = t :: us ∧ (t.kind = .identifier ∨ isAtom t.kind = true ∨
      ∃ s ∈ operandSymbols, t.kind = .symbol s) := by
  cases h with
  | name ht => exact ⟨_, _, rfl, .inl ht⟩
  | atom ht => exact ⟨_, _, rfl, .inr (.inl ht)⟩
  | parentheses ht => exact ⟨_, _, rfl, .inr (.inr ⟨_, by decide, ht⟩)⟩
  | @sign t us ht =>
    refine ⟨_, _, rfl, .inr (.inr ?_)⟩
    unfold isSign at ht
    split at ht
    case h_5 => contradiction
    all_goals next hk => exact ⟨_, by decide, hk⟩

/-- Behind an operand there is one of some symbols, if the text goes on. -/
theorem BehindOperand.head {c : Bool} {p : Place} (h : S.BehindOperand c p l outer open_ ts) :
    ∀ t ∈ ts.head?, ∃ s ∈ behindSymbols, t.kind = .symbol s := by
  cases h with
  | end_ hrest =>
    subst hrest
    intro t ht
    have hcloses := S.closes t ht
    unfold Token.isOneOf at hcloses
    split at hcloses
    · next s hk =>
      have hall : ∀ s ∈ closers, s ∈ behindSymbols := by decide
      exact ⟨s, hall s (by simpa using hcloses), hk⟩
    · contradiction
  | operation ht hs => simpa using ⟨_, List.mem_append_right _ hs, ht⟩
  | member ht | call ht | index ht | assignment ht | question ht | colon ht | comma ht
  | closeParen ht | closeBracket ht =>
    rintro _ ⟨⟩
    exact ⟨_, by decide, ht⟩
  | typeArguments _ ht =>
    rintro _ ⟨⟩
    exact ⟨_, by decide, ht⟩

theorem Runs.before (h : S.Runs ⟨.operand, open_⟩ ts) :
    ∃ d, (S.deep d).BeforeOperand open_ ⟨0, 0⟩ [] ts :=
  ⟨_, (h.fits ⟨.operand, ⟨0, 0⟩, []⟩).beforeOperand⟩

theorem Runs.behind {c : Bool} (h : S.Runs ⟨.behind c, open_⟩ ts) :
    ∃ d, (S.deep d).BehindOperand c .value ⟨0, 0⟩ [] open_ ts :=
  ⟨_, (h.fits ⟨.value, ⟨0, 0⟩, []⟩).behindOperand (.inr rfl)⟩

/-- No other symbol comes before an operand. -/
theorem Runs.is_before (h : S.Runs ⟨.operand, open_⟩ ts) {s : Symbol} (hs : s ∉ operandSymbols) :
    ts.is s = false := by
  obtain ⟨d, hbefore⟩ := h.before
  obtain ⟨t, us, rfl, ht | ht | ⟨s', hs', ht⟩⟩ := hbefore.exists_head
  · simp [Ahead.is, Token.is, ht]
  · have hne : t.kind ≠ .symbol s := by
      intro hk
      simp [hk, isAtom] at ht
    simpa [Ahead.is, Token.is] using hne
  · have hne : s' ≠ s := by
      rintro rfl
      exact hs hs'
    simpa [Ahead.is, Token.is, ht] using hne

/-- No other symbol comes behind an operand. -/
theorem Runs.is_behind {c : Bool} (h : S.Runs ⟨.behind c, open_⟩ ts) {s : Symbol}
    (hs : s ∉ behindSymbols) : ts.is s = false := by
  obtain ⟨d, hbehind⟩ := h.behind
  cases ts with
  | nil => rfl
  | cons t us =>
    obtain ⟨s', hs', ht⟩ := hbehind.head t rfl
    have hne : s' ≠ s := by
      rintro rfl
      exact hs hs'
    simpa [Ahead.is, Token.is, ht] using hne

/-- No name comes behind an operand. -/
theorem Runs.isIdentifier_behind {c : Bool} (h : S.Runs ⟨.behind c, open_⟩ ts) :
    ts.isIdentifier = false := by
  obtain ⟨d, hbehind⟩ := h.behind
  cases ts with
  | nil => rfl
  | cons t us =>
    obtain ⟨s', hs', ht⟩ := hbehind.head t rfl
    simp [Ahead.isIdentifier, Token.isIdentifier, ht]

/-! ### Dotted names -/

/-- The dotted name at hand is read to its end. -/
theorem Fits.moreNames {ds : List Token} (hds : MoreNames [.dot] ds)
    (h : S.Fits ⟨.behind true, open_⟩ ⟨.name, l, outer⟩ (ds ++ us)) :
    S.Fits ⟨.behind true, open_⟩ ⟨.name, l, outer⟩ us := by
  induction hds with
  | nil => exact h
  | @cons d x ts hd _ _ ih =>
    obtain ⟨s, hs, hd⟩ := hd
    obtain rfl : s = .dot := by simpa using hs
    obtain ⟨x, vs, heq, _, hvs⟩ := h.dot (.inl rfl) hd
    cases heq
    exact ih hvs

/-- A dotted name in front of an operand is an operand. -/
theorem Fits.dotted {ds : List Token} (hds : Dotted ds)
    (h : S.Fits ⟨.operand, open_⟩ ⟨.operand, l, outer⟩ (ds ++ us)) :
    S.Fits ⟨.behind true, open_⟩ ⟨.name, l, outer⟩ us := by
  cases hds with
  | @mk x ds hx hds =>
    cases h.beforeOperand with
    | name _ hus => exact hus.moreNames hds
    | atom ht | sign ht => simp [hx, isAtom, isSign] at ht
    | parentheses ht => simp [hx] at ht

/-- Behind a name, the dotted name goes on as far as it can. -/
theorem Runs.exists_moreNames (h : S.Runs ⟨.behind true, open_⟩ us) :
    ∃ ds vs, us = ds ++ vs ∧ MoreNames [.dot] ds ∧ S.Runs ⟨.behind true, open_⟩ vs ∧
      vs.is .dot = false := by
  induction hn : us.length using Nat.strongRecOn generalizing us with
  | ind n ih =>
    cases hdot : us.is .dot with
    | false => exact ⟨[], us, rfl, .nil, h, hdot⟩
    | true =>
      obtain ⟨t, ts, rfl, ht⟩ := is_eq_true_iff.1 hdot
      obtain ⟨x, vs, rfl, hx, hvs⟩ := (h.fits ⟨.value, ⟨0, 0⟩, []⟩).dot (.inr rfl) ht
      obtain ⟨ds, ws, rfl, hds, hws, hhead⟩ :=
        ih vs.length (by rw [← hn]; simp only [List.length_cons]; omega) hvs.of_deep rfl
      exact ⟨t :: x :: ds, ws, rfl, .cons ⟨.dot, by simp, ht⟩ hx hds, hws, hhead⟩

end Site

end CSharpCheck.Core
