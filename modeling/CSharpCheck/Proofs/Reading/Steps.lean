import Mathlib.Logic.Relation
import CSharpCheck.Grammar.Machine

/-!
# Reading step by step

The reading of a text as a sequence of small steps, with a stack of what is still to be done. Here
nothing bounds the loops: a loop goes on as long as it asks for another round, whether or not it
has moved. Nothing bounds the jumps over several tokens, either: they do not look for the end of
the text. The nesting of nonterminals is counted on the way in and on the way out.
-/

namespace CSharpCheck

/-- The progress after a jump over tokens. A single token is looked at and not passed over if it is
the end of the text. -/
def Progress.jump (p : Progress) (count : Nat) : Progress :=
  if count = 1 then p.advance 1
  else
    { p with
      index := p.index + count
      ahead := p.ahead.drop count
      charged := p.charged && count == 0 }

/-- What is still to be done when a rule has come to its end; `β` is the result at the very end. -/
inductive Continuation (β : Type) : Type → Type 1 where
  /-- Nothing. -/
  | done : Continuation β β
  /-- Going on with what a nonterminal tells. -/
  | resume {α γ : Type} (next : α → Rule γ) (rest : Continuation β γ) : Continuation β α
  /-- Leaving a level of nesting. -/
  | leave {α : Type} (rest : Continuation β α) : Continuation β α
  /-- Another round of a loop, or what comes after the loop. -/
  | repeating {α σ : Type} (round : σ → Rule (Round σ)) (next : σ → Rule α)
      (rest : Continuation β α) : Continuation β (Round σ)
  /-- Going on outside of a type declaration. -/
  | outside {α : Type} (next : Rule α) (rest : Continuation β α) : Continuation β Unit

/-- The number of levels of nesting that are still to be left. -/
def Continuation.levels {β α : Type} : Continuation β α → Nat
  | done => 0
  | resume _ rest => rest.levels
  | leave rest => rest.levels + 1
  | repeating _ _ rest => rest.levels
  | outside _ rest => rest.levels

/-- A moment of a reading. -/
structure Moment (β : Type) where
  {α : Type}
  rule : Rule α
  rest : Continuation β α
  around : Surroundings
  progress : Progress
  /-- The number of nonterminals that are being read. -/
  depth : Nat

namespace Moment

variable {β : Type}

/-- The moment after a rule has come to its end with a result, unless nothing is left to do. -/
def resume {α : Type} (result : α) (rest : Continuation β α) (around : Surroundings)
    (p : Progress) (depth : Nat) : Option (Moment β) :=
  match rest with
  | .done => none
  | .resume next rest => some ⟨next result, rest, around, p, depth⟩
  | .leave rest => some ⟨.pure result, rest, around, p, depth - 1⟩
  | .repeating round next rest =>
    match result with
    | .again state => some ⟨round state, .repeating round next rest, around, p, depth⟩
    | .stop state => some ⟨next state, rest, around, p, depth⟩
  | .outside next rest =>
    some ⟨next, rest, { around with enclosing := around.enclosing.tail }, p, depth⟩

/-- The next moment, unless the reading has come to its end. A nonterminal is entered by counting
it first; if that is one too many the reading is abandoned. -/
def step (rules : Rules) : Moment β → Option (Moment β)
  | ⟨.pure result, rest, around, p, depth⟩ => resume result rest around p depth
  | ⟨.look next, rest, around, p, depth⟩ =>
    some ⟨next ⟨p.index, p.previous around.stream, p.ahead⟩, rest, around, p, depth⟩
  | ⟨.script next, rest, around, p, depth⟩ =>
    some ⟨next around.script, rest, around, p, depth⟩
  | ⟨.enclosing next, rest, around, p, depth⟩ =>
    some ⟨next around.enclosing, rest, around, p, depth⟩
  | ⟨.advance count next, rest, around, p, depth⟩ =>
    some ⟨next, rest, around, p.jump count, depth⟩
  | ⟨.require feature index next, rest, around, p, depth⟩ =>
    some ⟨next, rest, around, p.note ⟨.use feature, (around.stream.token index).span⟩, depth⟩
  | ⟨.report place error next, rest, around, p, depth⟩ =>
    some ⟨next, rest, around, p.report around.stream place error, depth⟩
  | ⟨.call q next, rest, around, p, depth⟩ =>
    if p.abandonedAt.isSome then
      some ⟨next (Nonterminal.Result.unread q), rest, around, p, depth⟩
    else if maxNesting < depth + 1 then
      some ⟨.pure (Nonterminal.Result.unread q), .leave (.resume next rest), around,
        p.abandon around.stream, depth + 1⟩
    else some ⟨rules q, .leave (.resume next rest), around, p, depth + 1⟩
  | ⟨.loop init round next, rest, around, p, depth⟩ =>
    some ⟨round init, .repeating round next rest, around, p, depth⟩
  | ⟨.within kind body next, rest, around, p, depth⟩ =>
    some ⟨body, .outside next rest, { around with enclosing := kind :: around.enclosing }, p,
      depth⟩

/-- One moment comes directly after the other. -/
def Next (rules : Rules) (m n : Moment β) : Prop := m.step rules = some n

/-- The second moment is reached from the first one in any number of steps. -/
def Reaches (rules : Rules) : Moment β → Moment β → Prop := Relation.ReflTransGen (Next rules)

/-- The error that is reported at a moment, with the index of the token that is charged with it. A
token is charged once, and none after the reading has been abandoned. -/
def charge? (m : Moment β) : Option (Nat × Finding) :=
  match m.rule with
  | .report place error _ =>
    if m.progress.charged || m.progress.abandonedAt.isSome then none
    else some (m.progress.index, ⟨.grammar error, m.progress.errorSpan m.around.stream place⟩)
  | _ => none

/-- One moment comes directly after the other, not before it in the text, nor beyond the end of the
text. An error that is reported does not say that the text is too complex. -/
structure Forward (rules : Rules) (m n : Moment β) : Prop where
  next : Next rules m n
  index_le : m.progress.index ≤ n.progress.index
  within : n.progress.index ≤ n.around.stream.tokens.size
  charge : ∀ c, m.charge? = some c → c.2.cause ≠ .grammar .tooComplex

/-- The second moment is reached from the first one by steps that go forward. -/
def Proceeds (rules : Rules) : Moment β → Moment β → Prop :=
  Relation.ReflTransGen (Forward rules)

namespace Proceeds

variable {rules : Rules} {m n o : Moment β}

theorem refl (m : Moment β) : Proceeds rules m m := Relation.ReflTransGen.refl

theorem trans (h : Proceeds rules m n) (h' : Proceeds rules n o) : Proceeds rules m o :=
  Relation.ReflTransGen.trans h h'

theorem head (h : Forward rules m n) (h' : Proceeds rules n o) : Proceeds rules m o :=
  Relation.ReflTransGen.head h h'

end Proceeds

end Moment

end CSharpCheck
