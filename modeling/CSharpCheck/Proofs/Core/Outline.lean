import CSharpCheck.Proofs.Core.Syntax

/-!
# Outlines

The outline of a place in an expression says what may come next: whether an operand is expected,
and which parentheses, brackets and conditionals are open. The words of every expression lead from
the place before an operand to the place behind one, whatever is open around it.
-/

namespace CSharpCheck.Core

/-- What is open at a place in an expression. -/
inductive Enclosure where
  /-- Parentheses around an expression. -/
  | parentheses
  /-- Parentheses around arguments. -/
  | call
  /-- Brackets around arguments. -/
  | index
  /-- A conditional whose colon is to come. -/
  | conditional
  deriving DecidableEq, Repr

/-- What may come next in an expression. -/
inductive Expected where
  | operand
  /-- An argument or the end of the arguments. -/
  | arguments
  /-- A name after a dot. -/
  | member
  /-- Something behind an operand, which may perhaps be called. -/
  | behind (callable : Bool)
  deriving DecidableEq, Repr

/-- The symbols between two operands. -/
def infixSymbols : List Symbol :=
  [.questionQuestion, .barBar, .ampersandAmpersand, .bar, .caret, .ampersand, .equalsEquals,
   .bangEquals, .less, .greater, .lessEquals, .greaterEquals, .lessLess, .plus, .minus, .star,
   .slash, .percent]

/-- Whether a dotted name, a star, a name and a closing parenthesis come next, where a name comes
next or what may follow a name. -/
def startsProduct : (nameNext : Bool) → List Kind → Bool
  | true, .identifier :: ks => startsProduct false ks
  | false, .symbol .dot :: ks => startsProduct true ks
  | false, .symbol .star :: .identifier :: .symbol .closeParen :: _ => true
  | _, _ => false

/-- The outline of a place in an expression. -/
structure Outline where
  expected : Expected
  open_ : List Enclosure
  deriving DecidableEq, Repr

namespace Outline

/-- The outline behind a token of the kind with which an operand begins, when the kinds `ks`
follow. Unless `products`, parentheses around the product of a dotted name and a name do not
fit. -/
def operandStep (products : Bool) (open_ : List Enclosure) (ks : List Kind) : Kind → Option Outline
  | .identifier | .numericLiteral | .stringLiteral | .characterLiteral
  | .keyword .trueWord | .keyword .falseWord | .keyword .nullWord | .keyword .thisWord =>
    some ⟨.behind true, open_⟩
  | .symbol .plus | .symbol .minus | .symbol .bang | .symbol .tilde => some ⟨.operand, open_⟩
  | .symbol .openParen =>
    if startsProduct true ks && !products then none else some ⟨.operand, .parentheses :: open_⟩
  | _ => none

/-- The outline after a token of the kind that comes behind an operand. -/
def behindStep (callable : Bool) (open_ : List Enclosure) : Kind → Option Outline
  | .symbol .dot => some ⟨.member, open_⟩
  | .symbol .openParen => if callable then some ⟨.arguments, .call :: open_⟩ else none
  | .symbol .openBracket => some ⟨.operand, .index :: open_⟩
  | .symbol .equals => some ⟨.operand, open_⟩
  | .symbol .question => some ⟨.operand, .conditional :: open_⟩
  | .symbol .colon =>
    match open_ with
    | .conditional :: outer => some ⟨.operand, outer⟩
    | _ => none
  | .symbol .comma =>
    match open_ with
    | .call :: _ | .index :: _ => some ⟨.operand, open_⟩
    | _ => none
  | .symbol .closeParen =>
    match open_ with
    | .parentheses :: outer => some ⟨.behind false, outer⟩
    | .call :: outer => some ⟨.behind true, outer⟩
    | _ => none
  | .symbol .closeBracket =>
    match open_ with
    | .index :: outer => some ⟨.behind true, outer⟩
    | _ => none
  | .symbol s => if s ∈ infixSymbols then some ⟨.operand, open_⟩ else none
  | _ => none

/-- The outline after a token of the kind, if it may come next, when the kinds `ks` follow. -/
def step (products : Bool) (o : Outline) (k : Kind) (ks : List Kind) : Option Outline :=
  match o.expected with
  | .operand => operandStep products o.open_ ks k
  | .arguments =>
    match k, o.open_ with
    | .symbol .closeParen, .call :: outer => some ⟨.behind true, outer⟩
    | k, open_ => operandStep products open_ ks k
  | .member =>
    match k with
    | .identifier => some ⟨.behind true, o.open_⟩
    | _ => none
  | .behind callable => behindStep callable o.open_ k

/-- The outline after tokens of the kinds. -/
def after (products : Bool) : Outline → List Kind → Option Outline
  | o, [] => some o
  | o, k :: ks => (o.step products k ks).bind (after products · ks)

variable {products : Bool}

@[simp] theorem after_nil (o : Outline) : o.after products [] = some o := rfl

theorem after_cons (o : Outline) (k : Kind) (ks : List Kind) :
    o.after products (k :: ks) = (o.step products k ks).bind (after products · ks) := rfl

theorem after_cons_of_step {o next : Outline} {k : Kind} {ks : List Kind}
    (h : o.step products k ks = some next) :
    o.after products (k :: ks) = next.after products ks := by
  rw [after_cons, h, Option.bind_some]

/-- The first argument begins like any operand. -/
theorem step_arguments {open_ : List Enclosure} {k : Kind} (hk : k ≠ .symbol .closeParen)
    (ks : List Kind) :
    (mk .arguments open_).step products k ks = (mk .operand open_).step products k ks := by
  unfold step
  simp only
  split
  · contradiction
  · rfl

/-- Arguments that lead from before an operand to behind one do so as the first ones, too. -/
theorem after_arguments {open_ : List Enclosure} {ks : List Kind} {c : Bool}
    (h : ∀ rest, (mk .operand open_).after products (ks ++ rest) =
      (mk (.behind c) open_).after products rest) (rest : List Kind) :
    (mk .arguments open_).after products (ks ++ rest) =
      (mk (.behind c) open_).after products rest := by
  have hend := h []
  rw [List.append_nil, after_nil] at hend
  cases ks with
  | nil => simp at hend
  | cons k ks =>
    have hk : k ≠ .symbol .closeParen := by
      rintro rfl
      simp [after_cons, step, operandStep] at hend
    rw [← h rest, List.cons_append, after_cons, after_cons, step_arguments hk]

end Outline

/-! ### Products in parentheses -/

/-- Whether the expression is written as a dotted name, a star and a name. -/
def Expression.isProduct (e : Expression) : Bool :=
  startsProduct true (kinds e.words ++ [.symbol .closeParen])

/-- If parenthesised products do not fit, none of the expressions is one. -/
def Suits (products : Bool) (es : List Expression) : Prop :=
  products = false → ∀ e ∈ es, e.isProduct = false

theorem suits_append {products : Bool} {es fs : List Expression} :
    Suits products (es ++ fs) ↔ Suits products es ∧ Suits products fs := by
  simp only [Suits, List.forall_mem_append]
  exact ⟨fun h ↦ ⟨fun hp ↦ (h hp).1, fun hp ↦ (h hp).2⟩, fun h hp ↦ ⟨h.1 hp, h.2 hp⟩⟩

theorem suits_cons {products : Bool} {e : Expression} {es : List Expression} :
    Suits products (e :: es) ↔ (products = false → e.isProduct = false) ∧ Suits products es := by
  simp only [Suits, List.forall_mem_cons]
  exact ⟨fun h ↦ ⟨fun hp ↦ (h hp).1, fun hp ↦ (h hp).2⟩, fun h hp ↦ ⟨h.1 hp, h.2 hp⟩⟩

/-- What comes behind the closing parenthesis does not matter. -/
theorem startsProduct_append (nameNext : Bool) (ks rest : List Kind) :
    startsProduct nameNext (ks ++ .symbol .closeParen :: rest) =
      startsProduct nameNext (ks ++ [.symbol .closeParen]) := by
  induction nameNext, ks using startsProduct.induct with
  | case1 ks ih => simpa [startsProduct] using ih
  | case2 ks ih => simpa [startsProduct] using ih
  | case3 ks => simp [startsProduct]
  | case4 ks nameNext hname hdot hstar =>
    match ks with
    | [] => cases nameNext <;> rfl
    | [k] => cases nameNext <;> simp_all [startsProduct]
    | [k, l] =>
      by_cases hk : k = .symbol .star ∧ l = .identifier
      · cases nameNext <;> simp_all [startsProduct]
      · cases nameNext <;> simp_all [startsProduct]
    | k :: l :: m :: ks =>
      by_cases hk : k = .symbol .star ∧ l = .identifier
      · cases nameNext <;> simp_all [startsProduct]
      · cases nameNext <;> simp_all [startsProduct]

namespace Outline

variable {products : Bool}

theorem step_sign (s : Sign) (open_ : List Enclosure) (ks : List Kind) :
    (mk .operand open_).step products (.symbol s.symbol) ks = some ⟨.operand, open_⟩ := by
  cases s <;> rfl

theorem step_operation (op : Operation) (c : Bool) (open_ : List Enclosure) (ks : List Kind) :
    (mk (.behind c) open_).step products (.symbol op.symbol) ks = some ⟨.operand, open_⟩ := by
  cases op <;> rfl

theorem step_openParen {e : Expression} (h : products = false → e.isProduct = false)
    (open_ : List Enclosure) (rest : List Kind) :
    (mk .operand open_).step products (.symbol .openParen)
      (kinds e.words ++ .symbol .closeParen :: rest) = some ⟨.operand, .parentheses :: open_⟩ := by
  rw [Expression.isProduct, ← startsProduct_append true _ rest] at h
  cases products <;> simp_all [step, operandStep]

end Outline

/-! ### Expressions have outlines -/

mutual

/-- The words of an expression lead from before an operand to behind one. -/
theorem Expression.after_words {products : Bool} (e : Expression)
    (h : Suits products e.parenthesized) (open_ : List Enclosure) :
    ∃ c, ∀ rest, (Outline.mk .operand open_).after products (kinds e.words ++ rest) =
      (Outline.mk (.behind c) open_).after products rest := by
  match e with
  | .assignment target value =>
    rw [Expression.parenthesized, suits_append] at h
    obtain ⟨c, hc⟩ := target.after_words h.1 open_
    obtain ⟨d, hd⟩ := value.after_words h.2 open_
    refine ⟨d, fun rest ↦ ?_⟩
    rw [Expression.words, kinds_append, List.append_assoc, hc]
    exact hd rest
  | .operations chain =>
    rw [Expression.parenthesized] at h
    exact chain.after_words h open_
  | .conditional test yes no =>
    rw [Expression.parenthesized, suits_append, suits_append] at h
    obtain ⟨c, hc⟩ := test.after_words h.1 open_
    obtain ⟨d, hd⟩ := yes.after_words h.2.1 (.conditional :: open_)
    obtain ⟨d', hd'⟩ := no.after_words h.2.2 open_
    refine ⟨d', fun rest ↦ ?_⟩
    rw [Expression.words, kinds_append, List.append_assoc, hc, kinds_cons, kinds_append,
      kinds_cons, List.cons_append, List.append_assoc]
    calc (Outline.mk (.behind c) open_).after products
          (.symbol .question :: (kinds yes.words ++ (.symbol .colon :: kinds no.words ++ rest)))
        = (Outline.mk .operand (.conditional :: open_)).after products
          (kinds yes.words ++ (.symbol .colon :: kinds no.words ++ rest)) := rfl
      _ = (Outline.mk (.behind d) (.conditional :: open_)).after products
          (.symbol .colon :: kinds no.words ++ rest) := hd _
      _ = (Outline.mk .operand open_).after products (kinds no.words ++ rest) := rfl
      _ = (Outline.mk (.behind d') open_).after products rest := hd' rest

theorem Operations.after_words {products : Bool} (o : Operations)
    (h : Suits products o.parenthesized) (open_ : List Enclosure) :
    ∃ c, ∀ rest, (Outline.mk .operand open_).after products (kinds o.words ++ rest) =
      (Outline.mk (.behind c) open_).after products rest := by
  match o with
  | .operand u =>
    rw [Operations.parenthesized] at h
    exact u.after_words h open_
  | .operation left op right =>
    rw [Operations.parenthesized, suits_append] at h
    obtain ⟨c, hc⟩ := left.after_words h.1 open_
    obtain ⟨d, hd⟩ := right.after_words h.2 open_
    refine ⟨d, fun rest ↦ ?_⟩
    rw [Operations.words, kinds_append, List.append_assoc, hc, kinds_cons, List.cons_append]
    exact (Outline.after_cons_of_step (Outline.step_operation op c open_ _)).trans (hd rest)

theorem Unary.after_words {products : Bool} (u : Unary) (h : Suits products u.parenthesized)
    (open_ : List Enclosure) :
    ∃ c, ∀ rest, (Outline.mk .operand open_).after products (kinds u.words ++ rest) =
      (Outline.mk (.behind c) open_).after products rest := by
  match u with
  | .primary p =>
    rw [Unary.parenthesized] at h
    exact p.after_words h open_
  | .sign s u =>
    rw [Unary.parenthesized] at h
    obtain ⟨c, hc⟩ := u.after_words h open_
    refine ⟨c, fun rest ↦ ?_⟩
    rw [Unary.words, kinds_cons, List.cons_append]
    exact (Outline.after_cons_of_step (Outline.step_sign s open_ _)).trans (hc rest)

theorem Primary.after_words {products : Bool} (p : Primary) (h : Suits products p.parenthesized)
    (open_ : List Enclosure) :
    ∃ c, ∀ rest, (Outline.mk .operand open_).after products (kinds p.words ++ rest) =
      (Outline.mk (.behind c) open_).after products rest := by
  match p with
  | .parentheses e =>
    rw [Primary.parenthesized, suits_cons] at h
    obtain ⟨c, hc⟩ := e.after_words h.2 (.parentheses :: open_)
    refine ⟨false, fun rest ↦ ?_⟩
    rw [Primary.words, kinds_cons, kinds_append, List.cons_append, List.append_assoc]
    refine (Outline.after_cons_of_step (Outline.step_openParen h.1 open_ rest)).trans ?_
    exact (hc _).trans rfl
  | .callable c =>
    rw [Primary.parenthesized] at h
    exact ⟨true, c.after_words h open_⟩

theorem Callable.after_words {products : Bool} (c : Callable)
    (h : Suits products c.parenthesized) (open_ : List Enclosure) (rest : List Kind) :
    (Outline.mk .operand open_).after products (kinds c.words ++ rest) =
      (Outline.mk (.behind true) open_).after products rest := by
  match c with
  | .name n => rfl
  | .literal l => cases l <;> rfl
  | .constant c => cases c <;> rfl
  | .member p n =>
    rw [Callable.parenthesized] at h
    obtain ⟨d, hd⟩ := p.after_words h open_
    rw [Callable.words, kinds_append, List.append_assoc, hd]
    rfl
  | .emptyCall c =>
    rw [Callable.parenthesized] at h
    rw [Callable.words, kinds_append, List.append_assoc, c.after_words h open_]
    rfl
  | .call c args =>
    rw [Callable.parenthesized, suits_append] at h
    obtain ⟨d, hd⟩ := args.after_words h.2 (.inl rfl) open_
    rw [Callable.words, kinds_append, List.append_assoc, c.after_words h.1 open_, kinds_cons,
      kinds_append, List.cons_append, List.append_assoc]
    exact (Outline.after_arguments hd _).trans rfl
  | .index p args =>
    rw [Callable.parenthesized, suits_append] at h
    obtain ⟨c, hc⟩ := p.after_words h.1 open_
    obtain ⟨d, hd⟩ := args.after_words h.2 (.inr rfl) open_
    rw [Callable.words, kinds_append, List.append_assoc, hc, kinds_cons, kinds_append,
      List.cons_append, List.append_assoc]
    exact (hd _).trans rfl

theorem Expressions.after_words {products : Bool} (es : Expressions)
    (h : Suits products es.parenthesized) {enclosure : Enclosure}
    (henclosure : enclosure = .call ∨ enclosure = .index) (open_ : List Enclosure) :
    ∃ c, ∀ rest,
      (Outline.mk .operand (enclosure :: open_)).after products (kinds es.words ++ rest) =
        (Outline.mk (.behind c) (enclosure :: open_)).after products rest := by
  match es with
  | .one e =>
    rw [Expressions.parenthesized] at h
    exact e.after_words h _
  | .more e es =>
    rw [Expressions.parenthesized, suits_append] at h
    obtain ⟨c, hc⟩ := e.after_words h.1 (enclosure :: open_)
    obtain ⟨d, hd⟩ := es.after_words h.2 henclosure open_
    refine ⟨d, fun rest ↦ ?_⟩
    have hcomma (ks : List Kind) :
        (Outline.mk (.behind c) (enclosure :: open_)).step products (.symbol .comma) ks =
          some ⟨.operand, enclosure :: open_⟩ := by
      rcases henclosure with rfl | rfl <;> rfl
    rw [Expressions.words, kinds_append, List.append_assoc, hc, kinds_cons, List.cons_append]
    exact (Outline.after_cons_of_step (hcomma _)).trans (hd rest)

end

end CSharpCheck.Core
