import CSharpCheck.Proofs.Core.Labels
import CSharpCheck.Proofs.Core.Statements

/-!
# Labels are read as patterns

The rules for patterns read a label to its end, if it does not go on behind something that is a
pattern by itself. Otherwise they stop in front of a dot or an operator, where no pattern ends.
-/

namespace CSharpCheck

/-- The single token is no word of the language that depends on its surroundings, and if it is a
symbol, it is one of these. -/
structure Single.IsPlain (symbols : List Symbol) (s : Single) : Prop where
  symbol : ∀ x, s.kind = .symbol x → x ∈ symbols
  ordinary : s.kind = .identifier → ∀ word ∈ contextualWords, String.ofList s.chars ≠ word
  ne_bad : s.kind ≠ .bad

namespace Core

/-! ### The words of labels -/

/-- The symbols in labels. -/
def labelSymbols : List Symbol :=
  [.openParen, .closeParen, .dot, .plus, .minus, .bang, .tilde, .lessLess, .star, .slash, .percent]

/-- The operators between operands of labels. -/
def arithmeticSymbols : List Symbol := [.lessLess, .plus, .minus, .star, .slash, .percent]

theorem Operation.symbol_mem {op : Operation} (h : op.isArithmetic = true) :
    op.symbol ∈ arithmeticSymbols := by
  cases op <;> first | decide | contradiction

section

variable {symbols : List Symbol}

theorem Name.isPlain_single (n : Name) : n.single.IsPlain symbols where
  symbol x h := by cases h
  ordinary _ word hword := n.text_ne_contextual hword
  ne_bad h := by cases h

theorem isPlain_wordSingle (k : Keyword) : (wordSingle k).IsPlain symbols where
  symbol x h := by cases h
  ordinary h := by cases h
  ne_bad h := by cases h

theorem isPlain_symbolSingle {s : Symbol} (h : s ∈ symbols) : (symbolSingle s).IsPlain symbols where
  symbol x hx := by
    cases hx
    exact h
  ordinary h := by cases h
  ne_bad h := by cases h

theorem AnyLiteral.isPlain_single (l : AnyLiteral) : l.single.IsPlain symbols := by
  have hkind := l.isLiteral
  simp only [List.mem_cons, List.not_mem_nil, or_false] at hkind
  refine ⟨fun _ h ↦ ?_, fun h ↦ ?_, fun h ↦ ?_⟩ <;> simp [h] at hkind

end

mutual

theorem Label.isPlain_words (e : Label) : ∀ s ∈ e.words, s.IsPlain labelSymbols := by
  match e with
  | .operand u => exact u.isPlain_words
  | .operation left op hop right =>
    have hsymbol : op.symbol ∈ labelSymbols := by
      have hall : ∀ s ∈ arithmeticSymbols, s ∈ labelSymbols := by decide
      exact hall _ (op.symbol_mem hop)
    rw [Label.words, List.forall_mem_append, List.forall_mem_cons]
    exact ⟨left.isPlain_words, isPlain_symbolSingle hsymbol, right.isPlain_words⟩

theorem LabelOperand.isPlain_words (u : LabelOperand) : ∀ s ∈ u.words, s.IsPlain labelSymbols := by
  match u with
  | .primary p => exact p.isPlain_words
  | .sign sign u =>
    rw [LabelOperand.words, List.forall_mem_cons]
    exact ⟨isPlain_symbolSingle (by cases sign <;> decide), u.isPlain_words⟩

theorem LabelPrimary.isPlain_words (p : LabelPrimary) : ∀ s ∈ p.words, s.IsPlain labelSymbols := by
  match p with
  | .name n => exact List.forall_mem_singleton.2 n.isPlain_single
  | .literal l => exact List.forall_mem_singleton.2 l.isPlain_single
  | .constant c _ => exact List.forall_mem_singleton.2 (isPlain_wordSingle c.word)
  | .parentheses e =>
    rw [LabelPrimary.words, List.forall_mem_cons, List.forall_mem_append, List.forall_mem_singleton]
    exact ⟨isPlain_symbolSingle (by decide), e.isPlain_words, isPlain_symbolSingle (by decide)⟩
  | .member p n =>
    rw [LabelPrimary.words, List.forall_mem_append, List.forall_mem_cons, List.forall_mem_singleton]
    exact ⟨p.isPlain_words, isPlain_symbolSingle (by decide), n.isPlain_single⟩

end

/-! ### Labels as expressions -/

/-- A literal of the same kind. -/
def AnyLiteral.shape (l : AnyLiteral) : Literal :=
  match l.single.kind with
  | .stringLiteral => .string [] .nil
  | .characterLiteral => .character ['a'] (.char (by decide) (by decide) (by decide))
  | _ => .decimal ['0'] (by decide) (List.forall_mem_singleton.2 rfl)

mutual

/-- The label as an expression with the same kinds of tokens. -/
def Label.shape : Label → Operations
  | .operand u => .operand u.shape
  | .operation left op _ right => .operation left.shape op right.shape

def LabelOperand.shape : LabelOperand → Unary
  | .primary p => .primary p.shape
  | .sign s u => .sign s u.shape

def LabelPrimary.shape : LabelPrimary → Primary
  | .name n => .callable (.name n)
  | .literal l => .callable (.literal l.shape)
  | .constant c _ => .callable (.constant c)
  | .parentheses e => .parentheses (.operations e.shape)
  | .member p n => .callable (.member p.shape n)

end

theorem AnyLiteral.kind_shape (l : AnyLiteral) : l.single.kind = l.shape.kind := by
  have hkind := l.isLiteral
  simp only [List.mem_cons, List.not_mem_nil, or_false] at hkind
  rcases hkind with hkind | hkind | hkind <;> simp [shape, hkind, Literal.kind]

mutual

theorem Label.kinds_shape (e : Label) : e.words.map (·.kind) = kinds e.shape.words := by
  match e with
  | .operand u => exact u.kinds_shape
  | .operation left op _ right =>
    rw [Label.words, Label.shape, Operations.words, List.map_append, List.map_cons, kinds_append,
      kinds_cons, left.kinds_shape, right.kinds_shape]
    rfl

theorem LabelOperand.kinds_shape (u : LabelOperand) :
    u.words.map (·.kind) = kinds u.shape.words := by
  match u with
  | .primary p => exact p.kinds_shape
  | .sign s u =>
    rw [LabelOperand.words, LabelOperand.shape, Unary.words, List.map_cons, kinds_cons,
      u.kinds_shape]
    rfl

theorem LabelPrimary.kinds_shape (p : LabelPrimary) :
    p.words.map (·.kind) = kinds p.shape.words := by
  match p with
  | .name n => rfl
  | .constant c _ => rfl
  | .literal l => exact congrArg ([·]) l.kind_shape
  | .parentheses e =>
    rw [LabelPrimary.words, LabelPrimary.shape, Primary.words, List.map_cons, List.map_append,
      kinds_cons, kinds_append, Expression.words, e.kinds_shape]
    rfl
  | .member p n =>
    rw [LabelPrimary.words, LabelPrimary.shape, Primary.words, Callable.words, List.map_append,
      kinds_append, p.kinds_shape]
    rfl

end

mutual

theorem Label.depth_shape (e : Label) : e.shape.depth = e.depth := by
  match e with
  | .operand u => exact u.depth_shape
  | .operation left op _ right =>
    rw [Label.shape, Operations.depth, left.depth_shape, right.depth_shape, Label.depth]

theorem LabelOperand.depth_shape (u : LabelOperand) : u.shape.depth = u.depth := by
  match u with
  | .primary p => exact p.depth_shape
  | .sign s u => rw [LabelOperand.shape, Unary.depth, u.depth_shape, LabelOperand.depth]

theorem LabelPrimary.depth_shape (p : LabelPrimary) : p.shape.depth = p.depth := by
  match p with
  | .name n | .literal l | .constant c _ => rfl
  | .parentheses e =>
    rw [LabelPrimary.shape, Primary.depth, Expression.depth, e.depth_shape, LabelPrimary.depth]
  | .member p n =>
    rw [LabelPrimary.shape, Primary.depth, Callable.depth, p.depth_shape, LabelPrimary.depth]

end

/-- As an expression, the label is read no deeper than it has been put together. -/
theorem Label.depthAsRead_le (e : Label) : (Expression.operations e.shape).depthAsRead ≤ e.depth := by
  refine Nat.le_trans (Expression.depthAsRead_le fun hless ↦ ?_) (Nat.le_of_eq e.depth_shape)
  have hmem : Kind.symbol .less ∈ e.words.map (·.kind) := by
    rw [e.kinds_shape]
    exact List.mem_map_of_mem (f := Word.kind) hless
  obtain ⟨s, hs, hkind⟩ := List.mem_map.1 hmem
  have hlabel := (e.isPlain_words s hs).symbol .less hkind
  contradiction

/-! ### Passages -/

/-- What patterns and the expressions in them need may be used. -/
structure Setting.HasPatterns (C : Setting) : Prop where
  products : C.products = true
  matching : C.allowed .patternMatching
  combinators : C.allowed .patternCombinators

/-- The tokens up to `rest` are those of the words. -/
structure Setting.Passage (C : Setting) (words : List Single) (ts rest : Ahead) : Prop where
  covers : ∃ us, ts = us ++ rest ∧ List.Forall₂ Single.IsToken words us
  plain : Plain C.allowed ts
  length : ts.length ≤ C.size

namespace Setting.Passage

variable {C : Setting} {words more : List Single} {ts rest : Ahead}

theorem suffix (h : C.Passage words ts rest) : rest <:+ ts := by
  obtain ⟨us, rfl, -⟩ := h.covers
  exact List.suffix_append us rest

theorem nil (h : C.Passage [] ts rest) : ts = rest := by
  obtain ⟨us, rfl, hus⟩ := h.covers
  cases hus
  rfl

theorem cons {s : Single} (h : C.Passage (s :: words) ts rest) :
    ∃ t us, ts = t :: us ∧ s.IsToken t ∧ C.Passage words us rest := by
  obtain ⟨us, rfl, hus⟩ := h.covers
  cases hus with
  | @cons _ t _ us ht hus =>
    have hlength := h.length
    rw [List.cons_append, List.length_cons] at hlength
    exact ⟨t, us ++ rest, rfl, ht, ⟨us, rfl, hus⟩, h.plain.tail, by omega⟩

theorem append (h : C.Passage (words ++ more) ts rest) :
    ∃ us, C.Passage words ts us ∧ C.Passage more us rest := by
  obtain ⟨us, rfl, hus⟩ := h.covers
  have hvs := (List.forall₂_take_append us words more hus.flip).flip
  have hws := (List.forall₂_drop_append us words more hus.flip).flip
  have hus : us = us.take words.length ++ us.drop words.length := (List.take_append_drop _ us).symm
  have hlength := h.length
  have hplain := h.plain
  generalize us.take words.length = vs at hvs hus
  generalize us.drop words.length = ws at hws hus
  subst hus
  rw [List.append_assoc] at hlength hplain
  rw [List.length_append] at hlength
  exact ⟨ws ++ rest, ⟨⟨vs, List.append_assoc _ _ _, hvs⟩, h.plain, h.length⟩,
    ⟨ws, rfl, hws⟩, hplain.of_append, by omega⟩

/-- A passage is a stretch of words of the same kinds. -/
theorem stretch (h : C.Passage words ts rest) {ws : List Word} {inner : List Expression}
    (hkinds : words.map (·.kind) = kinds ws) (hproducts : C.products = true) :
    C.Stretch ws inner ts rest := by
  obtain ⟨us, rfl, hus⟩ := h.covers
  refine ⟨⟨us, rfl, ?_⟩, h.plain, fun h ↦ by simp [hproducts] at h, h.length⟩
  rw [← hkinds]
  clear h hkinds
  induction hus with
  | nil => rfl
  | cons ht _ ih => rw [List.map_cons, List.map_cons, ht.kind, ih]

/-- A token between two places in a passage is that of a word. -/
theorem exists_word (h : C.Passage words ts rest) {t : Token} {us : Ahead} (hts : t :: us <:+ ts)
    (hrest : rest <:+ us) : ∃ s ∈ words, s.IsToken t := by
  obtain ⟨vs, rfl, hvs⟩ := h.covers
  obtain ⟨ps, hps⟩ := hts
  obtain ⟨ws, rfl⟩ := hrest
  have happend : (ps ++ t :: ws) ++ rest = vs ++ rest := by
    rw [← hps]
    simp
  have hmem : ps ++ t :: ws = vs := List.append_cancel_right happend
  exact exists_of_mem_forall₂ hvs (hmem ▸ by simp)

/-- What is left of a label as an expression, up to operators that bind less tightly than shifts, is
nothing. -/
theorem eq_rest {e : Label} (h : C.Passage e.words ts rest) {S : Site} (hS : S.rest = rest)
    {us : Ahead} (hus : us <:+ ts) (hends : S.Ends Operator.shifting [] 0 [] us) : us = rest := by
  subst hS
  have hlabel {s : Symbol} {t : Token} {vs : Ahead} (hts : us = t :: vs) (ht : t.kind = .symbol s)
      (hvs : S.rest <:+ vs) : s ∈ labelSymbols := by
    obtain ⟨w, hw, hwt⟩ := h.exists_word (hts ▸ hus) hvs
    exact (e.isPlain_words w hw).symbol s (hwt.kind ▸ ht)
  have hloose {s : Symbol} {t : Token} {vs : Ahead} (hts : us = t :: vs) (ht : t.kind = .symbol s) :
      tightness s < Operator.shifting := hends.looser s (is_eq_true_iff.2 ⟨t, vs, hts, ht⟩)
  obtain ⟨c, l, -, hfits⟩ := hends.fits
  cases hfits.behindOperand (.inr rfl) with
  | end_ hrest => exact hrest.symm
  | operation ht hs _ hvs =>
    have hall : ∀ s ∈ labelSymbols, s ∈ infixSymbols → Operator.shifting ≤ tightness s := by decide
    have htight := hall _ (hlabel rfl ht hvs.suffix) hs
    have hless := hloose rfl ht
    omega
  | member ht | call ht | index ht =>
    have hless := hloose rfl ht
    contradiction
  | assignment ht hvs | question ht hvs =>
    have hmem := hlabel rfl ht hvs.suffix
    contradiction
  | typeArguments hp => contradiction

/-- A label is read to its end as an operation. -/
theorem binary {room : Nat} {around : List TypeKind} {e : Label} (h : C.Passage e.words ts rest)
    (hproducts : C.products = true) (hrest : rest.isOneOf [.colon, .closeParen] = true)
    (hroom : 2 * e.depth + 1 ≤ room) {Q : Post Bool} (hQ : Q false rest) :
    (Rule.binary Operator.shifting).Reads (C.terms room around) Q ts := by
  have hcloses : ∀ t ∈ rest.head?, t.isOneOf closers = true := by
    obtain ⟨s, hs, his⟩ := isOneOf_eq_true_iff.1 hrest
    obtain ⟨t, us, rfl, ht⟩ := is_eq_true_iff.1 his
    have hall : ∀ s ∈ [Symbol.colon, .closeParen], s ∈ closers := by decide
    simpa [Token.isOneOf, ht] using hall s hs
  have hdepth := e.depthAsRead_le
  have hkinds : e.words.map (·.kind) = kinds (Expression.operations e.shape).words := e.kinds_shape
  obtain ⟨S, hallowed, hS, hSdepth, hfits⟩ := (h.stretch hkinds hproducts).exists_site hcloses
  have hreads : (Rule.binary Operator.shifting).Reads (C.terms room around)
      (fun a us ↦ a = false ∧ S.Ends Operator.shifting [] 0 [] us) ts :=
    (S.ready (A := C.toAllowance) hallowed.symm C.size room around).binary (by decide) (by decide)
      hfits (by omega) fun us _ hends ↦ ⟨rfl, hends⟩
  refine hreads.later fun a us hus hend ↦ ?_
  obtain ⟨rfl, hends⟩ := hend
  rwa [h.eq_rest hS hus hends]

end Setting.Passage

/-! ### How labels begin -/

theorem Label.depth_first_le (e : Label) : e.first.depth ≤ e.depth := by
  match e with
  | .operand u => exact Nat.le_refl _
  | .operation left _ _ right => exact Nat.le_trans left.depth_first_le (Nat.le_max_left _ _)

/-- The symbols in front of which a pattern stops in a label that is not read as a whole. -/
def asideSymbols : List Symbol := .dot :: arithmeticSymbols

/-- Where the rules for patterns stop in a label that goes up to `rest`. -/
def Label.StopsAt (e : Label) (rest us : Ahead) : Prop :=
  if e.isWhole = true then us = rest else us.isOneOf asideSymbols = true

/-- What an operand of a label that goes up to `rest` begins with. -/
inductive Setting.Opening (C : Setting) (rest : Ahead) : LabelPrimary → (ts : Ahead) → Prop where
  | name {n : Name} {x : Token} : x.kind = .identifier → x.text = String.ofList n.text →
      Opening C rest (.name n) (x :: rest)
  | parentheses {inner : Label} {t c : Token} {us : Ahead} : t.kind = .symbol .openParen →
      C.Passage inner.words us (c :: rest) → c.kind = .symbol .closeParen →
      Opening C rest (.parentheses inner) (t :: us)
  | plain {p : LabelPrimary} {t : Token} {us : Ahead} : Site.isAtom t.kind = true →
      (Label.operand (.primary p)).isWhole = true → p.isAside = false → Opening C rest p (t :: us)
  | dotted {p : LabelPrimary} {x d : Token} {ds : List Token} : x.kind = .identifier →
      MoreNames [.dot] (d :: ds) → (Label.operand (.primary p)).isWhole = true →
      p.isAside = false → Opening C rest p (x :: d :: (ds ++ rest))
  | member {p : LabelPrimary} {n : Name} {inner : Label} {t c : Token} {us vs : Ahead} :
      t.kind = .symbol .openParen → C.Passage inner.words us (c :: vs) →
      c.kind = .symbol .closeParen → vs.is .dot = true → inner.depth + 1 ≤ p.depth →
      (p.member n).isAside = true → Opening C rest (p.member n) (t :: us)

/-- What a label begins with that goes up to `rest`. -/
inductive Setting.Front (C : Setting) (rest : Ahead) (e : Label) : (ts : Ahead) → Prop where
  | plain {t : Token} {us : Ahead} : Site.isAtom t.kind = true ∨ Site.isSign t.kind = true →
      e.isWhole = true → Front C rest e (t :: us)
  | name {x : Token} {ds : List Token} {us : Ahead} : x.kind = .identifier →
      MoreNames [.dot] ds → (ds = [] → x.text ≠ "_") →
      us = rest ∨ us.isOneOf arithmeticSymbols = true → e.isWhole = true →
      Front C rest e (x :: (ds ++ us))
  | discard {x : Token} {us : Ahead} : x.kind = .identifier → x.text = "_" →
      us = rest ∨ us.isOneOf arithmeticSymbols = true → e.StopsAt rest us →
      Front C rest e (x :: us)
  | parentheses {inner : Label} {t c : Token} {us vs : Ahead} : t.kind = .symbol .openParen →
      C.Passage inner.words us (c :: vs) → c.kind = .symbol .closeParen →
      inner.depth + 1 ≤ e.depth →
      (e.isWhole = true → inner.isWhole = true) → (inner.isWhole = true → e.StopsAt rest vs) →
      Front C rest e (t :: us)

namespace Setting.Passage

variable {C : Setting}

theorem opening {p : LabelPrimary} {ts rest : Ahead} (h : C.Passage p.words ts rest) :
    C.Opening rest p ts := by
  match p with
  | .name n =>
    obtain ⟨x, us, rfl, hx, h⟩ := h.cons
    obtain rfl := h.nil
    exact .name hx.kind hx.text
  | .literal l =>
    obtain ⟨t, us, rfl, ht, -⟩ := h.cons
    have hkind := l.isLiteral
    rw [← ht.kind] at hkind
    refine .plain ?_ rfl rfl
    simp only [List.mem_cons, List.not_mem_nil, or_false] at hkind
    rcases hkind with hkind | hkind | hkind <;> rw [hkind] <;> rfl
  | .constant c _ =>
    obtain ⟨t, us, rfl, ht, -⟩ := h.cons
    refine .plain ?_ rfl rfl
    rw [ht.kind]
    cases c <;> rfl
  | .parentheses e =>
    obtain ⟨t, us, rfl, ht, h⟩ := h.cons
    obtain ⟨vs, he, hclose⟩ := h.append
    obtain ⟨c, ws, rfl, hc, hclose⟩ := hclose.cons
    obtain rfl := hclose.nil
    exact .parentheses ht.kind he hc.kind
  | .member p n =>
    obtain ⟨us, hp, hmember⟩ := h.append
    obtain ⟨d, vs, rfl, hd, hname⟩ := hmember.cons
    obtain ⟨x, ws, rfl, hx, hnil⟩ := hname.cons
    obtain rfl := hnil.nil
    have hmore : MoreNames [.dot] [d, x] := .cons ⟨.dot, by simp, hd.kind⟩ hx.kind .nil
    have hdot : Ahead.is (d :: x :: ws) .dot = true := by simp [Ahead.is, Token.is, hd.kind]
    have hplain (haside : p.isAside = false) :
        (Label.operand (.primary (p.member n))).isWhole = true ∧ (p.member n).isAside = false := by
      have hmember : (p.member n).isAside = false := by
        cases p with
        | name m => rfl
        | literal | constant | parentheses | member => exact haside
      exact ⟨by simp [Label.isWhole, Label.isAside, Label.first, hmember], hmember⟩
    cases hp.opening with
    | name hy => exact .dotted hy hmore rfl rfl
    | parentheses ht hinner hc => exact .member ht hinner hc hdot (Nat.le_refl _) rfl
    | plain ht _ haside => exact .plain ht (hplain haside).1 (hplain haside).2
    | @dotted _ y z ds hy hds _ haside =>
      have hall : MoreNames [.dot] (z :: (ds ++ [d, x])) := hds.append hmore
      have hopening : C.Opening ws (p.member n) (y :: z :: (ds ++ [d, x] ++ ws)) :=
        .dotted hy hall (hplain haside).1 (hplain haside).2
      rwa [List.append_assoc] at hopening
    | member ht hinner hc hvs hdepth haside => exact .member ht hinner hc hvs hdepth haside

/-- A label is its first operand, or an operator comes behind the first operand. -/
theorem first {e : Label} {ts rest : Ahead} (h : C.Passage e.words ts rest) :
    ∃ us, C.Passage e.first.words ts us ∧ ((us = rest ∧ e = .operand e.first) ∨
      (us.isOneOf arithmeticSymbols = true ∧ e.isWhole = !e.isAside)) := by
  match e with
  | .operand u => exact ⟨rest, h, .inl ⟨rfl, rfl⟩⟩
  | .operation left op hop right =>
    obtain ⟨us, hleft, hright⟩ := h.append
    obtain ⟨t, vs, rfl, ht, -⟩ := hright.cons
    have hmem := op.symbol_mem hop
    have hoperator : Ahead.isOneOf (t :: vs) arithmeticSymbols = true := by
      simpa [Ahead.isOneOf, Token.isOneOf, ht.kind, symbolSingle, Single.ofWord] using hmem
    obtain ⟨ws, hfirst, hws⟩ := hleft.first
    refine ⟨ws, hfirst, .inr ⟨?_, by simp [Label.isWhole]⟩⟩
    rcases hws with ⟨rfl, -⟩ | ⟨hws, -⟩
    · exact hoperator
    · exact hws

/-- How a label begins. -/
theorem front {e : Label} {ts rest : Ahead} (h : C.Passage e.words ts rest) :
    C.Front rest e ts := by
  obtain ⟨us, hfirst, hus⟩ := h.first
  have hdepth := e.depth_first_le
  have hbehind : us = rest ∨ us.isOneOf arithmeticSymbols = true := hus.imp And.left And.left
  have hwhole (hoperand : (Label.operand e.first).isWhole = true) (haside : e.isAside = false) :
      e.isWhole = true := by
    rcases hus with ⟨-, he⟩ | ⟨-, he⟩
    · rwa [he]
    · rw [he, haside]
      rfl
  have hstops (haside : e.isAside = true) (hus : us.isOneOf arithmeticSymbols = true)
      (he : e.isWhole = !e.isAside) : e.StopsAt rest us := by
    rw [isOneOf_eq_true_iff] at hus
    rw [Label.StopsAt, he, haside]
    exact isOneOf_eq_true_iff.2 (hus.imp fun s hs ↦ ⟨List.mem_cons_of_mem _ hs.1, hs.2⟩)
  cases hu : e.first with
  | sign s u =>
    rw [hu] at hfirst
    obtain ⟨t, vs, rfl, ht, -⟩ := hfirst.cons
    refine .plain (.inr ?_) (hwhole ?_ ?_)
    · rw [ht.kind]
      cases s <;> rfl
    · rw [hu]
      rfl
    · simp [Label.isAside, hu]
  | primary p =>
    have haside : e.isAside = p.isAside := by simp [Label.isAside, hu]
    rw [hu] at hfirst hus hwhole
    cases hfirst.opening with
    | @name n x hx htext =>
      have hdiscard : n.isDiscard = true ↔ x.text = "_" := by
        rw [htext, Name.isDiscard, beq_iff_eq, ← String.toList_inj, String.toList_ofList]
        rfl
      by_cases hunderscore : x.text = "_"
      · refine .discard hx hunderscore hbehind ?_
        rcases hus with ⟨rfl, he⟩ | ⟨hus, he⟩
        · rw [he]
          rfl
        · exact hstops (haside.trans (hdiscard.2 hunderscore)) hus he
      · refine .name hx .nil (fun _ ↦ hunderscore) hbehind (hwhole rfl ?_)
        rw [haside, LabelPrimary.isAside, Bool.eq_false_iff]
        exact fun h ↦ hunderscore (hdiscard.1 h)
    | @parentheses inner t c vs ht hinner hc =>
      rw [hu] at hdepth
      refine .parentheses ht hinner hc hdepth ?_ ?_
      · rcases hus with ⟨-, he⟩ | ⟨-, he⟩
        · rw [he]
          exact id
        · simp [he, haside, LabelPrimary.isAside]
      · rcases hus with ⟨rfl, he⟩ | ⟨hus, he⟩
        · intro hinner
          simp [he, Label.StopsAt, Label.isWhole, hinner]
        · exact fun _ ↦ hstops haside hus he
    | plain ht hoperand hp => exact .plain (.inl ht) (hwhole hoperand (haside.trans hp))
    | @dotted _ x d ds hx hds hoperand hp =>
      have hlone : d :: ds = [] → x.text ≠ "_" := by simp
      exact .name hx hds hlone hbehind (hwhole hoperand (haside.trans hp))
    | @member p n inner t c us' vs ht hinner hc hvs hinnerDepth hp =>
      rw [hu] at hdepth
      have hnot : e.isWhole = false := by
        rcases hus with ⟨-, he⟩ | ⟨-, he⟩
        · simp [he, Label.isWhole, Label.isAside, Label.first, hp]
        · simp [he, haside, hp]
      refine .parentheses ht hinner hc (Nat.le_trans hinnerDepth hdepth) (by simp [hnot]) fun _ ↦ ?_
      rw [Label.StopsAt, hnot]
      exact isOneOf_eq_true_iff.2 ⟨.dot, by decide, hvs⟩

end Setting.Passage

/-! ### Patterns -/

namespace Setting

variable {C : Setting} {room : Nat} {around : List TypeKind} {ts us rest : Ahead}

/-- The words that join patterns are not among plain tokens. -/
theorem reads_patternRule {Q : Post (Option PatternKind)} (hplain : Plain C.allowed ts)
    (h : Rule.primaryPattern.Reads (C.terms room around) Q ts) :
    Rule.patternRule.Reads (C.terms room around) Q ts := by
  have hword (word : String) (hword : word ∈ contextualWords) {us : Ahead} (hus : us <:+ ts) :
      us.isPatternWord word = false := by
    have hnot : us.isContextual word = false := by
      cases us with
      | nil => rfl
      | cons t us => exact hplain.ordinary t (hus.subset List.mem_cons_self) word hword
    rw [Ahead.isPatternWord, hnot, Bool.false_and]
  have hnot : Rule.notPattern.Reads (C.terms room around) (fun kind us ↦ us <:+ ts ∧ Q kind us) ts := by
    simp only [Rule.notPattern, Rule.reads_bind]
    refine ⟨fun negated us ↦ negated = false ∧ ts = us, ⟨rfl, rfl⟩, ?_⟩
    rintro _ _ ⟨rfl, rfl⟩
    simp only [Rule.reads_bind, Rule.reads_ask, hword "not" (by decide) (List.suffix_refl ts),
      Bool.false_eq_true, if_false, Rule.reads_pure]
    exact h.later fun kind us hus hQ ↦ ⟨hus, hQ⟩
  have hjoined {word : String} (hmem : word ∈ contextualWords) {item : Rule (Option PatternKind)}
      (hitem : item.Reads (C.terms room around) (fun kind us ↦ us <:+ ts ∧ Q kind us) ts) :
      (Rule.joinedPatterns word item).Reads (C.terms room around)
        (fun kind us ↦ us <:+ ts ∧ Q kind us) ts := by
    rw [Rule.joinedPatterns, Rule.reads_bind]
    refine hitem.later fun kind us _ hus ↦ ?_
    refine ⟨fun kind us ↦ us <:+ ts ∧ Q kind us, hus, ?_⟩
    rintro kind us ⟨hus, hQ⟩
    simp only [Rule.reads_bind, Rule.reads_ask, hword word hmem hus, Bool.false_eq_true, if_false,
      Rule.reads_pure]
    exact ⟨hus, hQ⟩
  exact (hjoined (by decide) (hjoined (by decide) hnot)).later fun kind us _ h ↦ h.2

/-- With a literal, a constant or a sign begins a constant pattern. -/
theorem reads_primaryPattern_plain {Q : Post (Option PatternKind)} {T : Terms} {t : Token}
    (ht : Site.isAtom t.kind = true ∨ Site.isSign t.kind = true)
    (h : Rule.constantPattern.Reads T Q (t :: us)) : Rule.primaryPattern.Reads T Q (t :: us) := by
  intro previous
  have hscan : (Ahead.typeScan (t :: us) true).stop = none := by
    simp only [Ahead.typeScan, typeWithin, Site.typeStem_plain ht]
    rfl
  unfold Site.isAtom Site.isSign at ht
  rcases ht with ht | ht <;> split at ht
  all_goals first
    | contradiction
    | next hk =>
      simpa [Ahead.isOneOf, Token.isOneOf, Ahead.is, Token.is, Ahead.isContextual,
        Token.isContextual, Token.isIdentifier, hk, hscan] using h

/-- The symbols behind a dotted name at the beginning of a label. -/
def behindNames : List Symbol := .colon :: .closeParen :: arithmeticSymbols

theorem isOneOf_behindNames (hrest : rest.isOneOf [.colon, .closeParen] = true)
    (hus : us = rest ∨ us.isOneOf arithmeticSymbols = true) : us.isOneOf behindNames = true := by
  have hclose : ∀ s ∈ [Symbol.colon, .closeParen], s ∈ behindNames := by decide
  have hoperator : ∀ s ∈ arithmeticSymbols, s ∈ behindNames := by decide
  rw [isOneOf_eq_true_iff] at hrest ⊢
  rcases hus with rfl | hus
  · exact hrest.imp fun s hs ↦ ⟨hclose s hs.1, hs.2⟩
  · exact (isOneOf_eq_true_iff.1 hus).imp fun s hs ↦ ⟨hoperator s hs.1, hs.2⟩

/-- A dotted name that is no lone underscore begins a constant pattern, too. -/
theorem reads_primaryPattern_name {Q : Post (Option PatternKind)} {T : Terms} {x : Token}
    {ds : List Token} (hplain : Plain C.allowed (x :: (ds ++ us))) (hx : x.kind = .identifier)
    (hds : MoreNames [.dot] ds) (hunderscore : ds = [] → x.text ≠ "_")
    (hus : us.isOneOf behindNames = true)
    (h : Rule.constantPattern.Reads T Q (x :: (ds ++ us))) :
    Rule.primaryPattern.Reads T Q (x :: (ds ++ us)) := by
  obtain ⟨s, hs, his⟩ := isOneOf_eq_true_iff.1 hus
  obtain ⟨t, vs, rfl, ht⟩ := is_eq_true_iff.1 his
  have hother {symbols : List Symbol} (hsymbols : s ∉ symbols) :
      Ahead.isOneOf (t :: vs) symbols = false := by
    simpa [Ahead.isOneOf, Token.isOneOf, ht] using hsymbols
  have hnot : ∀ s ∈ behindNames, s ∉ [Symbol.colonColon, .dot, .less, .question, .openBracket] ∧
      s ∉ [Symbol.openBrace, .openParen] := by decide
  have hdotted : Dotted (x :: ds) := .mk hx hds
  have hscan : (Ahead.typeScan (x :: (ds ++ t :: vs)) true).stop = some (x :: ds).length := by
    have htype : typeWithin (maxTypeDepth + 1) true 0 (x :: ds ++ t :: vs) =
        .done (0 + (x :: ds).length) :=
      Site.typeWithin_dottedName hdotted (hother (hnot s hs).1) (fun _ ↦ rfl) maxTypeDepth 0
    rw [List.cons_append] at htype
    rw [Ahead.typeScan, htype, TypeScan.done, Nat.zero_add]
  have hvar : Ahead.isContextual (x :: (ds ++ t :: vs)) "var" = false :=
    hplain.ordinary x List.mem_cons_self "var" (by decide)
  have hdiscard : (Ahead.isContextual (x :: (ds ++ t :: vs)) "_" &&
      !(Ahead.tail (x :: (ds ++ t :: vs))).isOneOf
        [.dot, .openParen, .openBracket, .less, .colonColon]) = false := by
    cases hds with
    | nil => simp [Ahead.isContextual, Token.isContextual, hunderscore rfl]
    | @cons d y ds hd =>
      obtain ⟨s, hs, hd⟩ := hd
      obtain rfl : s = .dot := by simpa using hs
      simp [Ahead.tail, Ahead.isOneOf, Token.isOneOf, hd]
  intro previous
  have hdrop : List.drop (x :: ds).length (x :: (ds ++ t :: vs)) = t :: vs := List.drop_left
  have htake : List.take (x :: ds).length (x :: (ds ++ t :: vs)) = x :: ds := List.take_left
  have htyped {Q' : Post (Option PatternKind)} (hQ' : Q' none (x :: (ds ++ t :: vs))) :
      (Rule.typedPattern (x :: ds).length).Reads T Q' (x :: (ds ++ t :: vs)) := by
    intro previous
    simp only [hdrop, htake, isTypeOnly_of_dotted hdotted, hother (hnot s hs).2,
      Ahead.isDesignation, Ahead.isIdentifier, Token.isIdentifier, ht, List.head?_cons,
      Option.any_some]
    exact hQ'
  have hsymbol (s : Symbol) : Ahead.is (x :: (ds ++ t :: vs)) s = false := by
    simp [Ahead.is, Token.is, hx]
  have hsymbols (symbols : List Symbol) : Ahead.isOneOf (x :: (ds ++ t :: vs)) symbols = false := by
    simp [Ahead.isOneOf, Token.isOneOf, hx]
  simp only [hsymbols, hsymbol, hvar, hdiscard, hscan, Bool.false_and, Bool.false_eq_true, if_false,
    Rule.reads_bind]
  exact htyped h

/-- A lone underscore is a pattern. -/
theorem reads_primaryPattern_discard {Q : Post (Option PatternKind)} {T : Terms} {x : Token}
    (hx : x.kind = .identifier) (htext : x.text = "_") (hus : us.isOneOf behindNames = true)
    (hQ : Q (some .other) us) : Rule.primaryPattern.Reads T Q (x :: us) := by
  obtain ⟨s, hs, his⟩ := isOneOf_eq_true_iff.1 hus
  obtain ⟨t, vs, rfl, ht⟩ := is_eq_true_iff.1 his
  have hnot : ∀ s ∈ behindNames, s ≠ .dot ∧ s ≠ .openParen ∧ s ≠ .openBracket ∧ s ≠ .less ∧
      s ≠ .colonColon := by decide
  intro previous
  have hsymbol (s : Symbol) : Ahead.is (x :: t :: vs) s = false := by simp [Ahead.is, Token.is, hx]
  have hsymbols (symbols : List Symbol) : Ahead.isOneOf (x :: t :: vs) symbols = false := by
    simp [Ahead.isOneOf, Token.isOneOf, hx]
  have hvar : Ahead.isContextual (x :: t :: vs) "var" = false := by
    simp [Ahead.isContextual, Token.isContextual, htext]
  have hdiscard : (Ahead.isContextual (x :: t :: vs) "_" &&
      !(Ahead.tail (x :: t :: vs)).isOneOf
        [.dot, .openParen, .openBracket, .less, .colonColon]) = true := by
    simp [Ahead.isContextual, Token.isContextual, Token.isIdentifier, Ahead.isOneOf, Token.isOneOf,
      Ahead.tail, hx, htext, ht, hnot s hs]
  simp only [hsymbols, hsymbol, hvar, hdiscard, Bool.false_and, Bool.false_eq_true, if_false,
    if_true, Rule.reads_bind, Rule.reads_skipToken]
  exact hQ

theorem Passage.reads_constantPattern {e : Label} (h : C.Passage e.words ts rest)
    (hC : C.HasPatterns) (hrest : rest.isOneOf [.colon, .closeParen] = true)
    (hroom : 2 * e.depth + 1 ≤ room) {Q : Post (Option PatternKind)} (hQ : ∀ kind, Q kind rest) :
    Rule.constantPattern.Reads (C.terms room around) Q ts := by
  intro previous
  rw [Rule.reads_bind]
  refine h.binary hC.products hrest hroom ?_
  simp only [Rule.reads_bind, Rule.reads_here, Rule.reads_pure]
  exact hQ _

/-- When `room` levels of nesting are left, a label is read as a pattern up to where it stops. -/
def ReadsLabels (C : Setting) (room : Nat) (around : List TypeKind) : Prop :=
  ∀ {e : Label} {ts rest : Ahead} {Q : Post (Option PatternKind)}, C.Passage e.words ts rest →
    rest.isOneOf [.colon, .closeParen] = true → 2 * e.depth + 2 ≤ room →
    (e.isWhole = false → C.faulty) → (∀ kind us, e.StopsAt rest us → Q kind us) →
    Rule.pattern.Reads (C.terms room around) Q ts

/-- A label in parentheses is a pattern if it is one as a whole. -/
theorem ReadsLabels.parenthesized (h : C.ReadsLabels room around) (hC : C.HasPatterns) {e : Label} {t c : Token} {vs : Ahead}
    (he : C.Passage e.words us (c :: vs)) (hc : c.kind = .symbol .closeParen)
    (hroom : 2 * e.depth + 2 ≤ room) (hfaulty : e.isWhole = false → C.faulty)
    {Q : Post (Option PatternKind)} (hQ : e.isWhole = true → ∀ kind, Q kind vs) :
    Rule.parenthesizedPattern.Reads (C.terms room around) Q (t :: us) := by
  have hrest : Ahead.isOneOf (c :: vs) [.colon, .closeParen] = true := by
    simp [Ahead.isOneOf, Token.isOneOf, hc]
  have hstart : us.is .closeParen = false ∧ (us.isIdentifier && us.tail.is .colon) = false := by
    have hcolon {ws : Ahead} (hws : ws = c :: vs ∨ ws.isOneOf arithmeticSymbols = true) :
        ws.is .colon = false := by
      rcases hws with rfl | hws
      · simp [Ahead.is, Token.is, hc]
      · exact is_eq_false_of_not_mem hws (by decide)
    cases he.front with
    | plain ht =>
      unfold Site.isAtom Site.isSign at ht
      rcases ht with ht | ht <;> split at ht
      all_goals first
        | contradiction
        | next hk => simp [Ahead.is, Token.is, hk, Ahead.isIdentifier, Token.isIdentifier]
    | @name x ds ws hx hds _ hws =>
      refine ⟨by simp [Ahead.is, Token.is, hx], ?_⟩
      cases hds with
      | nil => simp [Ahead.tail, hcolon hws]
      | @cons d y ds hd =>
        obtain ⟨s, hs, hd⟩ := hd
        obtain rfl : s = .dot := by simpa using hs
        simp [Ahead.tail, Ahead.is, Token.is, hd]
    | discard hx _ hws => exact ⟨by simp [Ahead.is, Token.is, hx], by simp [Ahead.tail, hcolon hws]⟩
    | parentheses ht => simp [Ahead.is, Token.is, ht, Ahead.isIdentifier, Token.isIdentifier]
  simp only [Rule.parenthesizedPattern, Rule.subpatterns, Rule.reads_bind, Rule.reads_here,
    Rule.reads_skipToken, Rule.reads_next, hstart.1, Bool.false_eq_true, if_false,
    Rule.commaSeparatedWith]
  refine ⟨fun count vs ↦ count = ⟨0, false, none⟩ ∧ us = vs, ⟨rfl, rfl⟩, ?_⟩
  rintro _ _ ⟨rfl, rfl⟩
  simp only [Rule.reads_bind, Rule.subpattern, Rule.reads_ask, hstart.2, Bool.false_eq_true,
    if_false, Rule.reads_pure]
  refine h he hrest hroom hfaulty fun kind ws hstops ↦ ?_
  rw [Label.StopsAt] at hstops
  cases hwhole : e.isWhole with
  | false =>
    rw [hwhole] at hstops
    have hnot (s : Symbol) (hs : s ∉ asideSymbols) : ws.is s = false :=
      is_eq_false_of_not_mem hstops hs
    simp only [Rule.accept, Rule.reads_acceptIf, hnot .comma (by decide), Bool.false_eq_true,
      if_false]
    refine Rule.reads_need_missing (hnot .closeParen (by decide)) ?_
    rw [terms, Rules.toAllowance_terms]
    exact hfaulty hwhole
  | true =>
    rw [hwhole] at hstops
    obtain rfl : ws = c :: vs := hstops
    have hcomma : c.is .comma = false := by simp [Token.is, hc]
    simp only [Rule.reads_accept, hcomma, Bool.false_eq_true, if_false]
    refine Rule.reads_need (by simp [Token.is, hc]) ?_
    rw [if_pos (by simp)]
    have hallowed : (C.terms room around).allowed .patternCombinators := by
      rw [terms, Rules.toAllowance_terms]
      exact hC.combinators
    split
    · exact hQ hwhole kind
    · simp only [Rule.reads_bind, Rule.reads_requireAt, Rule.reads_pure]
      exact ⟨hallowed, hQ hwhole _⟩

/-- Labels are read as patterns on the terms of the grammar. -/
theorem readsLabels {C : Setting} (hC : C.HasPatterns) (room : Nat) (around : List TypeKind) :
    C.ReadsLabels room around := by
  induction room with
  | zero => exact fun _ _ hroom _ _ ↦ absurd hroom (by omega)
  | succ room ih =>
    intro e ts rest Q h hrest hroom hfaulty hQ
    change Rule.patternRule.Reads (C.terms room around) Q ts
    refine reads_patternRule h.plain ?_
    have hconstant (hwhole : e.isWhole = true) :
        Rule.constantPattern.Reads (C.terms room around) Q ts :=
      h.reads_constantPattern hC hrest (by omega) fun kind ↦
        hQ kind rest (by rw [Label.StopsAt, if_pos hwhole])
    cases h.front with
    | plain ht hwhole => exact reads_primaryPattern_plain ht (hconstant hwhole)
    | name hx hds hunderscore hus hwhole =>
      exact reads_primaryPattern_name h.plain hx hds hunderscore (isOneOf_behindNames hrest hus)
        (hconstant hwhole)
    | discard hx htext hus hstops =>
      exact reads_primaryPattern_discard hx htext (isOneOf_behindNames hrest hus) (hQ _ _ hstops)
    | @parentheses inner t c us vs ht hinner hc hdepth hwhole hstops =>
      have hparenthesized : Rule.parenthesizedPattern.Reads (C.terms room around) Q (t :: us) := by
        refine ih.parenthesized hC hinner hc (by omega) (fun hinner ↦ hfaulty ?_)
          fun hinner kind ↦ hQ kind vs (hstops hinner)
        rw [Bool.eq_false_iff] at hinner ⊢
        exact fun h ↦ hinner (hwhole h)
      intro previous
      simpa [Ahead.isOneOf, Token.isOneOf, Ahead.is, Token.is, ht] using hparenthesized

end Setting

end Core

end CSharpCheck
