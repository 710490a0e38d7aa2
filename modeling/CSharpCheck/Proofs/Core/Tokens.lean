import CSharpCheck.Grammar.TypeScan
import CSharpCheck.Proofs.Core.Depth
import CSharpCheck.Proofs.Core.Outline

/-!
# Tokens of core programs

What the tokens of an expression are like, seen from a place in it: from an outline on they lead to
the end of the expression, and never deeper than a bound.
-/

namespace CSharpCheck.Core

/-- The tokens of a core program: no name is a word of the language, there is no arrow, no two of
them touch, and the features may be used that they need, also when a less-than sign opens type
arguments. -/
structure Plain (allowed : Feature → Prop) (ts : Ahead) : Prop where
  ordinary : ∀ t ∈ ts, ∀ word ∈ contextualWords, t.isContextual word = false
  arrow : ∀ t ∈ ts, t.kind ≠ .symbol .fatArrow
  apart : ∀ t u us, t :: u :: us <:+ ts → t.touches u = false
  features : ∀ t ∈ ts, ∀ f ∈ t.features, allowed f
  less : ∀ t ∈ ts, t.kind = .symbol .less → allowed .generics ∧ allowed .deconstruction

namespace Plain

variable {allowed : Feature → Prop} {ts us : Ahead}

theorem of_suffix (h : Plain allowed ts) (hu : us <:+ ts) : Plain allowed us where
  ordinary t ht := h.ordinary t (hu.subset ht)
  arrow t ht := h.arrow t (hu.subset ht)
  apart t u vs hvs := h.apart t u vs (hvs.trans hu)
  features t ht := h.features t (hu.subset ht)
  less t ht := h.less t (hu.subset ht)

theorem tail {t : Token} (h : Plain allowed (t :: ts)) : Plain allowed ts :=
  h.of_suffix (List.suffix_cons t ts)

theorem of_append (h : Plain allowed (ts ++ us)) : Plain allowed us :=
  h.of_suffix (List.suffix_append ts us)

end Plain

/-- The symbols that may come behind an expression. -/
def closers : List Symbol := [.closeParen, .semicolon, .colon, .openBrace]

/-- Where an expression stands: the features that may be used, whether parenthesised products may
occur, what comes behind the expression, and how deep its places may be. -/
structure Site where
  allowed : Feature → Prop
  products : Bool
  deconstruction : products = true → allowed .deconstruction
  rest : Ahead
  closes : ∀ t ∈ rest.head?, t.isOneOf closers = true
  depth : Nat

/-- A symbol comes next if it is the kind of the next token. -/
theorem is_eq_true_iff {ts : Ahead} {s : Symbol} :
    ts.is s = true ↔ ∃ t us, ts = t :: us ∧ t.kind = .symbol s := by
  cases ts with
  | nil => simp [Ahead.is]
  | cons t us => simp [Ahead.is, Token.is]

theorem isOneOf_eq_true_iff {ts : Ahead} {symbols : List Symbol} :
    ts.isOneOf symbols = true ↔ ∃ s ∈ symbols, ts.is s = true := by
  cases ts with
  | nil => simp [Ahead.isOneOf, Ahead.is]
  | cons t us =>
    unfold Ahead.isOneOf Token.isOneOf
    simp only [List.head?_cons, Option.any_some, Ahead.is, Token.is]
    split
    · next s hs => simp [hs]
    · next hs => simpa using fun s _ ↦ hs s

theorem is_eq_false_of_isOneOf {ts : Ahead} {symbols : List Symbol} {s : Symbol}
    (h : ts.isOneOf symbols = false) (hs : s ∈ symbols) : ts.is s = false := by
  rw [Bool.eq_false_iff] at h ⊢
  exact fun his ↦ h (isOneOf_eq_true_iff.2 ⟨s, hs, his⟩)

theorem is_eq_false_of_not_mem {ts : Ahead} {symbols : List Symbol} {s : Symbol}
    (h : ts.isOneOf symbols = true) (hs : s ∉ symbols) : ts.is s = false := by
  obtain ⟨x, hx, his⟩ := isOneOf_eq_true_iff.1 h
  obtain ⟨t, us, rfl, ht⟩ := is_eq_true_iff.1 his
  have hne : x ≠ s := by
    rintro rfl
    exact hs hx
  simpa [Ahead.is, Token.is, ht] using hne

namespace Site

/-- The kinds of the tokens up to the end of the expression. -/
def kinds (S : Site) (ts : Ahead) : List Kind := (ts.take (ts.length - S.rest.length)).map (·.kind)

variable {S : Site} {ts us : Ahead}

theorem kinds_append (h : S.rest <:+ us) (ts : Ahead) :
    S.kinds (ts ++ us) = ts.map (·.kind) ++ S.kinds us := by
  have hlength := h.length_le
  have hminus : ts.length + us.length - S.rest.length =
      ts.length + (us.length - S.rest.length) := by omega
  rw [kinds, List.length_append, hminus, List.take_length_add_append, List.map_append, kinds]

theorem kinds_cons (h : S.rest <:+ us) (t : Token) :
    S.kinds (t :: us) = t.kind :: S.kinds us := kinds_append h [t]

theorem kinds_rest (S : Site) : S.kinds S.rest = [] := by simp [kinds]

/-- From the outline on, the tokens are those of an expression up to its end and of what comes
behind it. -/
structure Runs (S : Site) (o : Outline) (ts : Ahead) : Prop where
  plain : Plain S.allowed ts
  suffix : S.rest <:+ ts
  after : ∃ c, o.after S.products (S.kinds ts) = some ⟨.behind c, []⟩

/-- From the outline and the nesting on, the tokens are those of an expression and of what comes
behind it, and no place is too deep. -/
structure Fits (S : Site) (o : Outline) (n : Nesting) (ts : Ahead) : Prop extends
    S.Runs o ts where
  deepest_le : n.deepest (S.kinds ts) ≤ S.depth

/-- The same site with another bound for the depth of places. -/
def deep (S : Site) (depth : Nat) : Site := { S with depth := depth }

theorem Runs.of_deep {o : Outline} {d : Nat} (h : (S.deep d).Runs o ts) : S.Runs o ts :=
  ⟨h.plain, h.suffix, h.after⟩

/-- Tokens that run to the end fit if the places may be as deep as they are. -/
theorem Runs.fits {o : Outline} (h : S.Runs o ts) (n : Nesting) :
    (S.deep (n.deepest (S.kinds ts))).Fits o n ts :=
  ⟨⟨h.plain, h.suffix, h.after⟩, Nat.le_refl _⟩

namespace Fits

variable {o : Outline} {n : Nesting}

theorem depth_le (h : S.Fits o n ts) : n.depth ≤ S.depth := by
  refine Nat.le_trans ?_ h.deepest_le
  cases S.kinds ts with
  | nil => exact Nat.le_refl _
  | cons k ks => exact Nat.le_max_left _ _

/-- Before the end of the expression, the next token leads on. -/
theorem next (h : S.Fits o n ts) (hne : S.rest ≠ ts) :
    ∃ t us next, ts = t :: us ∧ o.step S.products t.kind (S.kinds us) = some next ∧
      S.Fits next (n.step t.kind (S.kinds us)) us := by
  cases ts with
  | nil => exact absurd (List.suffix_nil.1 h.suffix) hne
  | cons t us =>
    have hsuffix := (List.suffix_cons_iff.1 h.suffix).resolve_left hne
    obtain ⟨c, hc⟩ := h.after
    have hdeepest := h.deepest_le
    rw [kinds_cons hsuffix, Outline.after_cons] at hc
    rw [kinds_cons hsuffix] at hdeepest
    obtain ⟨next, hnext, hafter⟩ := Option.bind_eq_some_iff.1 hc
    exact ⟨t, us, next, rfl, hnext, ⟨h.plain.tail, hsuffix, c, hafter⟩,
      Nat.le_trans (Nat.le_max_right _ _) hdeepest⟩

/-- The expression does not end where more of it is expected. -/
theorem step (h : S.Fits o n ts) (ho : ∀ c, o ≠ ⟨.behind c, []⟩) :
    ∃ t us next, ts = t :: us ∧ o.step S.products t.kind (S.kinds us) = some next ∧
      S.Fits next (n.step t.kind (S.kinds us)) us := by
  refine h.next ?_
  rintro rfl
  obtain ⟨c, hc⟩ := h.after
  rw [kinds_rest, Outline.after_nil] at hc
  exact ho c (Option.some.inj hc)

end Fits

/-! ### In front of an operand -/

/-- Whether a token of the kind is a literal or a constant. -/
def isAtom : Kind → Bool
  | .numericLiteral | .stringLiteral | .characterLiteral
  | .keyword .trueWord | .keyword .falseWord | .keyword .nullWord | .keyword .thisWord => true
  | _ => false

/-- Whether a token of the kind is a sign. -/
def isSign : Kind → Bool
  | .symbol .plus | .symbol .minus | .symbol .bang | .symbol .tilde => true
  | _ => false

/-- The tokens from before an operand on. -/
inductive BeforeOperand (S : Site) (open_ : List Enclosure) (l : Level) (outer : List Level) :
    Ahead → Prop where
  | name {t : Token} {us : Ahead} : t.kind = .identifier →
      S.Fits ⟨.behind true, open_⟩ ⟨.name, l, outer⟩ us → BeforeOperand S open_ l outer (t :: us)
  | atom {t : Token} {us : Ahead} : isAtom t.kind = true →
      S.Fits ⟨.behind true, open_⟩ ⟨.value, l, outer⟩ us → BeforeOperand S open_ l outer (t :: us)
  | sign {t : Token} {us : Ahead} : isSign t.kind = true →
      S.Fits ⟨.operand, open_⟩ ⟨.operand, ⟨l.branches, l.signs + 1⟩, outer⟩ us →
      BeforeOperand S open_ l outer (t :: us)
  | parentheses {t : Token} {us : Ahead} : t.kind = .symbol .openParen →
      (startsProduct true (S.kinds us) = true → S.products = true) →
      S.Fits ⟨.operand, .parentheses :: open_⟩ ⟨.operand, ⟨0, 0⟩, l :: outer⟩ us →
      BeforeOperand S open_ l outer (t :: us)

variable {open_ : List Enclosure} {l : Level} {outer : List Level}

theorem Fits.beforeOperand (h : S.Fits ⟨.operand, open_⟩ ⟨.operand, l, outer⟩ ts) :
    S.BeforeOperand open_ l outer ts := by
  obtain ⟨t, us, next, rfl, hnext, hus⟩ := h.step (by simp)
  simp only [Outline.step] at hnext
  unfold Outline.operandStep at hnext
  split at hnext
  case h_13 hk =>
    split at hnext
    · contradiction
    · next hproduct =>
      cases hnext
      rw [hk] at hus
      exact .parentheses hk (by simpa using hproduct) hus
  case h_14 => contradiction
  all_goals
    next hk =>
      cases hnext
      rw [hk] at hus
      first
        | exact .name hk hus
        | exact .atom (by rw [hk]; rfl) hus
        | exact .sign (by rw [hk]; rfl) hus

/-! ### Behind an operand -/

/-- The tokens from behind an operand on. -/
inductive BehindOperand (S : Site) (c : Bool) (p : Place) (l : Level) (outer : List Level) :
    List Enclosure → Ahead → Prop where
  | end_ {us : Ahead} : S.rest = us → BehindOperand S c p l outer [] us
  | member {open_ : List Enclosure} {t x : Token} {us : Ahead} : t.kind = .symbol .dot →
      x.kind = .identifier → S.Fits ⟨.behind true, open_⟩ ⟨.name, l, outer⟩ us →
      BehindOperand S c p l outer open_ (t :: x :: us)
  | call {open_ : List Enclosure} {t : Token} {us : Ahead} : t.kind = .symbol .openParen →
      c = true → S.Fits ⟨.arguments, .call :: open_⟩ ⟨.operand, ⟨0, 0⟩, l :: outer⟩ us →
      BehindOperand S c p l outer open_ (t :: us)
  | index {open_ : List Enclosure} {t : Token} {us : Ahead} : t.kind = .symbol .openBracket →
      S.Fits ⟨.operand, .index :: open_⟩ ⟨.operand, ⟨0, 0⟩, l :: outer⟩ us →
      BehindOperand S c p l outer open_ (t :: us)
  | assignment {open_ : List Enclosure} {t : Token} {us : Ahead} : t.kind = .symbol .equals →
      S.Fits ⟨.operand, open_⟩ ⟨.operand, ⟨l.branches, 0⟩, outer⟩ us →
      BehindOperand S c p l outer open_ (t :: us)
  | question {open_ : List Enclosure} {t : Token} {us : Ahead} : t.kind = .symbol .question →
      S.Fits ⟨.operand, .conditional :: open_⟩
        ⟨.operand, ⟨0, 0⟩, ⟨l.branches, 0⟩ :: outer⟩ us →
      BehindOperand S c p l outer open_ (t :: us)
  | colon {open_ : List Enclosure} {t : Token} {us : Ahead} : t.kind = .symbol .colon →
      S.Fits ⟨.operand, open_⟩ (Nesting.mk p l outer).otherwise us →
      BehindOperand S c p l outer (.conditional :: open_) (t :: us)
  | comma {enclosure : Enclosure} {open_ : List Enclosure} {t : Token} {us : Ahead} :
      t.kind = .symbol .comma → enclosure = .call ∨ enclosure = .index →
      S.Fits ⟨.operand, enclosure :: open_⟩ ⟨.operand, ⟨0, 0⟩, outer⟩ us →
      BehindOperand S c p l outer (enclosure :: open_) (t :: us)
  | closeParen {enclosure : Enclosure} {open_ : List Enclosure} {d : Bool} {t : Token}
      {us : Ahead} : t.kind = .symbol .closeParen →
      (enclosure = .parentheses ∧ d = false) ∨ (enclosure = .call ∧ d = true) →
      S.Fits ⟨.behind d, open_⟩ (Nesting.mk p l outer).outside us →
      BehindOperand S c p l outer (enclosure :: open_) (t :: us)
  | closeBracket {open_ : List Enclosure} {t : Token} {us : Ahead} :
      t.kind = .symbol .closeBracket →
      S.Fits ⟨.behind true, open_⟩ (Nesting.mk p l outer).outside us →
      BehindOperand S c p l outer (.index :: open_) (t :: us)
  | typeArguments {open_ : List Enclosure} {t : Token} {us : Ahead} : p = .name →
      t.kind = .symbol .less → Nesting.closesTypeArguments true (S.kinds us) = true →
      S.Fits ⟨.operand, open_⟩ ⟨.typeArguments, l, outer⟩ us →
      BehindOperand S c p l outer open_ (t :: us)
  | operation {open_ : List Enclosure} {s : Symbol} {t : Token} {us : Ahead} :
      t.kind = .symbol s → s ∈ infixSymbols →
      (p = .name → s = .less → Nesting.closesTypeArguments true (S.kinds us) = false) →
      S.Fits ⟨.operand, open_⟩ ⟨.operand, ⟨l.branches, 0⟩, outer⟩ us →
      BehindOperand S c p l outer open_ (t :: us)

theorem Fits.member (h : S.Fits ⟨.member, open_⟩ ⟨.operand, l, outer⟩ ts) :
    ∃ x us, ts = x :: us ∧ x.kind = .identifier ∧
      S.Fits ⟨.behind true, open_⟩ ⟨.name, l, outer⟩ us := by
  obtain ⟨x, us, next, rfl, hnext, hus⟩ := h.step (by simp)
  simp only [Outline.step] at hnext
  split at hnext
  · next hk =>
    cases hnext
    rw [hk] at hus
    exact ⟨x, us, rfl, hk, hus⟩
  · contradiction

/-- A symbol behind an operand that does not end the expression leads on. -/
theorem Fits.next_behind {c : Bool} {n : Nesting} {t : Token} {s : Symbol}
    (ht : t.kind = .symbol s) (hs : s ∉ closers ∨ open_ ≠ [])
    (h : S.Fits ⟨.behind c, open_⟩ n (t :: ts)) :
    ∃ next, Outline.behindStep c open_ (.symbol s) = some next ∧
      S.Fits next (n.step (.symbol s) (S.kinds ts)) ts := by
  have hrest : S.rest ≠ t :: ts := by
    intro hrest
    rcases hs with hs | hopen
    · have hcloses := S.closes t (by rw [hrest]; rfl)
      simp [Token.isOneOf, ht, hs] at hcloses
    · obtain ⟨d, hd⟩ := h.after
      rw [← hrest, kinds_rest, Outline.after_nil] at hd
      cases hd
      exact hopen rfl
  obtain ⟨t, us, next, heq, hnext, hus⟩ := h.next hrest
  cases heq
  rw [ht] at hnext hus
  exact ⟨next, hnext, hus⟩

/-- Behind a dot comes a name. -/
theorem Fits.dot {c : Bool} {p : Place} (hp : p = .name ∨ p = .value) {t : Token}
    (ht : t.kind = .symbol .dot) (h : S.Fits ⟨.behind c, open_⟩ ⟨p, l, outer⟩ (t :: ts)) :
    ∃ x us, ts = x :: us ∧ x.kind = .identifier ∧
      S.Fits ⟨.behind true, open_⟩ ⟨.name, l, outer⟩ us := by
  obtain ⟨next, hnext, hus⟩ := h.next_behind ht (.inl (by decide))
  cases hnext
  have hstep : (Nesting.mk p l outer).step (.symbol .dot) (S.kinds ts) =
      ⟨.operand, l, outer⟩ := by rcases hp with rfl | rfl <;> rfl
  exact (hstep ▸ hus).member

theorem Runs.next_behind {c : Bool} {t : Token} {s : Symbol} (ht : t.kind = .symbol s)
    (hs : s ∉ closers ∨ open_ ≠ []) (h : S.Runs ⟨.behind c, open_⟩ (t :: ts)) :
    ∃ next, Outline.behindStep c open_ (.symbol s) = some next ∧ S.Runs next ts := by
  obtain ⟨next, hnext, hus⟩ := (h.fits ⟨.value, ⟨0, 0⟩, []⟩).next_behind ht hs
  exact ⟨next, hnext, hus.of_deep⟩

/-- Behind an operand it mostly does not matter whether the operand ends with a name. -/
theorem step_behind {p : Place} (hp : p = .name ∨ p = .value) {k : Kind} {ks : List Kind}
    {n : Nesting} (hname : (Nesting.mk .name l outer).step k ks = n)
    (hvalue : (Nesting.mk .value l outer).step k ks = n) :
    (Nesting.mk p l outer).step k ks = n := by
  rcases hp with rfl | rfl
  · exact hname
  · exact hvalue

theorem step_infixSymbol {p : Place} (hp : p = .name ∨ p = .value) {s : Symbol} (hs : s ∈ infixSymbols)
    {ks : List Kind}
    (h : p = .name → s = .less → Nesting.closesTypeArguments true ks = false) :
    (Nesting.mk p l outer).step (.symbol s) ks = ⟨.operand, ⟨l.branches, 0⟩, outer⟩ := by
  rcases hp with rfl | rfl <;> cases s <;>
    first | rfl | contradiction | simp_all [Nesting.step, Nesting.next]

/-- Behind a name that no type arguments follow it does not matter that it is a name. -/
theorem step_value (l : Level) (outer : List Level) {k : Kind} {ks : List Kind}
    (h : k = .symbol .less → Nesting.closesTypeArguments true ks = false) :
    (Nesting.mk .value l outer).step k ks = (Nesting.mk .name l outer).step k ks := by
  cases k with
  | symbol s =>
    by_cases hs : s = .less
    · subst hs
      simp [Nesting.step, Nesting.next, h rfl]
    · cases s <;> first | rfl | contradiction
  | _ => rfl

theorem Fits.value {c : Bool} (h : S.Fits ⟨.behind c, open_⟩ ⟨.name, l, outer⟩ ts)
    (hless : ts.is .less = true →
      Nesting.closesTypeArguments true (S.kinds (ts.drop 1)) = false) :
    S.Fits ⟨.behind c, open_⟩ ⟨.value, l, outer⟩ ts := by
  refine ⟨h.toRuns, ?_⟩
  by_cases hrest : S.rest = ts
  · rw [← hrest, kinds_rest]
    exact h.depth_le
  · obtain ⟨t, us, next, rfl, -, hus⟩ := h.next hrest
    have hdeepest := h.deepest_le
    rw [kinds_cons hus.suffix] at hdeepest ⊢
    have hclosed (ht : t.kind = .symbol .less) :
        Nesting.closesTypeArguments true (S.kinds us) = false :=
      hless (by simp [Ahead.is, Token.is, ht])
    rw [Nesting.deepest, step_value l outer hclosed]
    exact hdeepest

theorem Fits.behindOperand {c : Bool} {p : Place} (hp : p = .name ∨ p = .value)
    (h : S.Fits ⟨.behind c, open_⟩ ⟨p, l, outer⟩ ts) : S.BehindOperand c p l outer open_ ts := by
  by_cases hrest : S.rest = ts
  · obtain ⟨d, hd⟩ := h.after
    rw [← hrest, kinds_rest, Outline.after_nil] at hd
    cases hd
    exact .end_ hrest
  · obtain ⟨t, us, next, rfl, hnext, hus⟩ := h.next hrest
    simp only [Outline.step] at hnext
    unfold Outline.behindStep at hnext
    split at hnext
    case h_1 hk =>
      cases hnext
      rw [hk, step_behind hp rfl rfl] at hus
      obtain ⟨x, vs, rfl, hx, hvs⟩ := hus.member
      exact .member hk hx hvs
    case h_2 hk =>
      split at hnext
      · next hc =>
        cases hnext
        rw [hk, step_behind hp rfl rfl] at hus
        exact .call hk hc hus
      · contradiction
    case h_3 hk =>
      cases hnext
      rw [hk, step_behind hp rfl rfl] at hus
      exact .index hk hus
    case h_4 hk =>
      cases hnext
      rw [hk, step_behind hp rfl rfl] at hus
      exact .assignment hk hus
    case h_5 hk =>
      cases hnext
      rw [hk, step_behind hp rfl rfl] at hus
      exact .question hk hus
    case h_6 hk =>
      split at hnext
      · cases hnext
        rw [hk, step_behind hp rfl rfl] at hus
        exact .colon hk hus
      · contradiction
    case h_7 hk =>
      rw [hk, step_behind hp rfl rfl] at hus
      split at hnext
      · cases hnext
        exact .comma hk (.inl rfl) hus
      · cases hnext
        exact .comma hk (.inr rfl) hus
      · contradiction
    case h_8 hk =>
      rw [hk, step_behind hp rfl rfl] at hus
      split at hnext
      · cases hnext
        exact .closeParen hk (.inl ⟨rfl, rfl⟩) hus
      · cases hnext
        exact .closeParen hk (.inr ⟨rfl, rfl⟩) hus
      · contradiction
    case h_9 hk =>
      rw [hk, step_behind hp rfl rfl] at hus
      split at hnext
      · cases hnext
        exact .closeBracket hk hus
      · contradiction
    case h_10 s _ _ _ _ _ _ _ _ _ hk =>
      split at hnext
      · next hs =>
        cases hnext
        rw [hk] at hus
        by_cases hgeneric : p = .name ∧ s = .less ∧
            Nesting.closesTypeArguments true (S.kinds us) = true
        · obtain ⟨rfl, rfl, hcloses⟩ := hgeneric
          have hstep : (Nesting.mk .name l outer).step (.symbol .less) (S.kinds us) =
              ⟨.typeArguments, l, outer⟩ := by simp [Nesting.step, hcloses]
          exact .typeArguments rfl hk hcloses (hstep ▸ hus)
        · have hnot : p = .name → s = .less →
              Nesting.closesTypeArguments true (S.kinds us) = false := by
            intro hname hless
            simpa [hname, hless] using hgeneric
          exact .operation hk hs hnot (step_infixSymbol hp hs hnot ▸ hus)
      · contradiction
    case h_11 => contradiction

end Site

end CSharpCheck.Core
