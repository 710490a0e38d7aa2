import CSharpCheck.Grammar.TypeScan

/-!
# Brackets

Which tokens open and close brackets, and what it means that a list of tokens is well bracketed.
Interpolated strings and their holes count as brackets, too.
-/

namespace CSharpCheck

/-- The kinds of brackets. -/
inductive Bracket where
  | paren | bracket | brace
  /-- An interpolated string, from its start to its end. -/
  | string
  /-- A hole of an interpolated string. -/
  | hole
  deriving DecidableEq, Repr

/-- What a token is with respect to brackets. -/
inductive Side where
  | opening (b : Bracket)
  | closing (b : Bracket)
  | neither
  deriving DecidableEq, Repr

/-- The side of a symbol. -/
def Symbol.side : Symbol → Side
  | .openParen => .opening .paren
  | .closeParen => .closing .paren
  | .openBracket => .opening .bracket
  | .closeBracket => .closing .bracket
  | .openBrace => .opening .brace
  | .closeBrace => .closing .brace
  | _ => .neither

/-- The side of a class of tokens. -/
def Kind.side : Kind → Side
  | .symbol s => s.side
  | .interpolatedStart => .opening .string
  | .interpolatedEnd => .closing .string
  | .holeStart => .opening .hole
  | .holeEnd => .closing .hole
  | _ => .neither

/-- The side of a token. -/
def Token.side (t : Token) : Side := t.kind.side

/-- Whether tokens of the class may carry features. -/
def Kind.bearsFeatures : Kind → Bool
  | .numericLiteral | .stringLiteral | .characterLiteral | .interpolatedStart => true
  | _ => false

/-- The token is no bracket, and it carries no features. -/
def Token.IsPlain (t : Token) : Prop := t.side = .neither ∧ t.kind.bearsFeatures = false

instance (t : Token) : Decidable t.IsPlain :=
  inferInstanceAs (Decidable (t.side = .neither ∧ t.kind.bearsFeatures = false))

/-- The brackets that are open, innermost first. -/
abbrev Brackets := List Bracket

namespace Brackets

/-- The open brackets after a token that stands on the side, unless it closes a bracket that is not
the innermost one. -/
def step (open_ : Brackets) (side : Side) : Option Brackets :=
  match side with
  | .opening b => some (b :: open_)
  | .closing b => if open_.head? = some b then some open_.tail else none
  | .neither => some open_

@[simp] theorem step_opening (open_ : Brackets) (b : Bracket) :
    open_.step (.opening b) = some (b :: open_) := rfl

@[simp] theorem step_neither (open_ : Brackets) : open_.step .neither = some open_ := rfl

@[simp] theorem step_closing {open_ next : Brackets} {b : Bracket} :
    open_.step (.closing b) = some next ↔ open_ = b :: next := by
  cases open_ with
  | nil => simp [step]
  | cons c rest => by_cases hc : c = b <;> simp [step, hc]

/-- The open brackets after tokens. -/
def after : Brackets → List Token → Option Brackets
  | open_, [] => some open_
  | open_, t :: ts => (open_.step t.side).bind (after · ts)

@[simp] theorem after_nil (open_ : Brackets) : open_.after [] = some open_ := rfl

theorem after_cons (open_ : Brackets) (t : Token) (ts : List Token) :
    open_.after (t :: ts) = (open_.step t.side).bind (after · ts) := rfl

theorem after_append (open_ : Brackets) (ts us : List Token) :
    open_.after (ts ++ us) = (open_.after ts).bind (after · us) := by
  induction ts generalizing open_ with
  | nil => rfl
  | cons t ts ih =>
    rw [List.cons_append, after_cons, after_cons]
    cases open_.step t.side with
    | none => rfl
    | some next => simp only [Option.bind_some, ih]

@[simp] theorem after_plain {t : Token} (h : t.IsPlain) (open_ : Brackets) (ts : List Token) :
    open_.after (t :: ts) = open_.after ts := by
  rw [after_cons, h.1]
  rfl

/-- Brackets around do no harm. -/
theorem step_append {open_ next : Brackets} {side : Side} (h : open_.step side = some next)
    (outer : Brackets) : step (open_ ++ outer) side = some (next ++ outer) := by
  cases side with
  | opening b => cases h; rfl
  | neither => cases h; rfl
  | closing b =>
    rw [step_closing] at h ⊢
    rw [h, List.cons_append]

theorem after_outer {open_ next : Brackets} {ts : List Token} (h : open_.after ts = some next)
    (outer : Brackets) : after (open_ ++ outer) ts = some (next ++ outer) := by
  induction ts generalizing open_ with
  | nil => cases h; rfl
  | cons t ts ih =>
    rw [after_cons] at h ⊢
    obtain ⟨mid, hmid, h⟩ := Option.bind_eq_some_iff.1 h
    rw [step_append hmid, Option.bind_some]
    exact ih h

end Brackets

/-- The tokens form a properly nested sequence, in which every bracket that opens is closed by one
of its own kind. -/
def WellBracketed (ts : List Token) : Prop := Brackets.after [] ts = some []

instance (ts : List Token) : Decidable (WellBracketed ts) :=
  inferInstanceAs (Decidable (Brackets.after [] ts = some []))

namespace WellBracketed

open Brackets

theorem after_eq {ts : List Token} (h : WellBracketed ts) (open_ : Brackets) :
    open_.after ts = some open_ := after_outer h open_

theorem nil : WellBracketed [] := rfl

theorem append {ts us : List Token} (ht : WellBracketed ts) (hu : WellBracketed us) :
    WellBracketed (ts ++ us) := by
  rw [WellBracketed, after_append, ht, Option.bind_some, hu]

theorem cons_plain {t : Token} {ts : List Token} (ht : t.IsPlain) (h : WellBracketed ts) :
    WellBracketed (t :: ts) := by
  rw [WellBracketed, after_plain ht, h]

theorem of_plain {ts : List Token} (h : ∀ t ∈ ts, t.IsPlain) : WellBracketed ts := by
  induction ts with
  | nil => exact nil
  | cons t ts ih =>
    exact cons_plain (h t List.mem_cons_self) (ih fun u hu ↦ h u (List.mem_cons_of_mem t hu))

/-- Well-bracketed tokens between a bracket and its partner are well bracketed with them. -/
theorem enclose {o c : Token} {b : Bracket} {ts : List Token} (ho : o.side = .opening b)
    (hc : c.side = .closing b) (h : WellBracketed ts) : WellBracketed (o :: (ts ++ [c])) := by
  rw [WellBracketed, after_cons, ho, step_opening, Option.bind_some, after_append, h.after_eq,
    Option.bind_some, after_cons, hc, step_closing.2 rfl]
  rfl

/-- Tokens that are well bracketed together with a well-bracketed beginning are so alone. -/
theorem of_append {ts us : List Token} (ht : WellBracketed ts) (h : WellBracketed (ts ++ us)) :
    WellBracketed us := by
  rw [WellBracketed, after_append, ht, Option.bind_some] at h
  exact h

end WellBracketed

/-! ### Plain tokens -/

namespace Token

theorem kind_of_is {t : Token} {s : Symbol} (h : t.is s = true) : t.kind = .symbol s := by
  simpa [Token.is] using h

theorem side_of_is {t : Token} {s : Symbol} (h : t.is s = true) : t.side = s.side := by
  rw [side, kind_of_is h]
  rfl

theorem isPlain_of_kind {t : Token} {kind : Kind} (h : t.kind = kind)
    (hside : kind.side = .neither) (hfeatures : kind.bearsFeatures = false) : t.IsPlain := by
  rw [IsPlain, side, h]
  exact ⟨hside, hfeatures⟩

theorem isPlain_of_isIdentifier {t : Token} (h : t.isIdentifier = true) : t.IsPlain :=
  isPlain_of_kind (by simpa [isIdentifier] using h) rfl rfl

theorem isPlain_of_isContextual {t : Token} {word : String} (h : t.isContextual word = true) :
    t.IsPlain := by
  rw [isContextual, Bool.and_eq_true] at h
  exact isPlain_of_isIdentifier h.1

theorem isPlain_of_isKeyword {t : Token} (h : t.isKeyword = true) : t.IsPlain := by
  unfold isKeyword at h
  split at h
  · next hkind => exact isPlain_of_kind hkind rfl rfl
  · contradiction

theorem isPlain_of_isWord {t : Token} {k : Keyword} (h : t.isWord k = true) : t.IsPlain := by
  have hkind : t.kind = .keyword k := by simpa [isWord] using h
  exact isPlain_of_kind hkind rfl rfl

theorem isPlain_of_isWordOf {t : Token} {words : List Keyword} (h : t.isWordOf words = true) :
    t.IsPlain := by
  unfold isWordOf at h
  split at h
  · next hkind => exact isPlain_of_kind hkind rfl rfl
  · contradiction

theorem isPlain_of_namesType {t : Token} (h : t.namesType = true) : t.IsPlain := by
  unfold namesType at h
  split at h
  · next hkind => exact isPlain_of_kind hkind rfl rfl
  · contradiction

theorem isPlain_of_is {t : Token} {s : Symbol} (h : t.is s = true) (hs : s.side = .neither) :
    t.IsPlain :=
  isPlain_of_kind (kind_of_is h) hs rfl

theorem isPlain_of_isOneOf {t : Token} {symbols : List Symbol} (h : t.isOneOf symbols = true)
    (hs : ∀ s ∈ symbols, s.side = .neither) : t.IsPlain := by
  unfold isOneOf at h
  split at h
  · next s hkind => exact isPlain_of_kind hkind (hs s (by simpa using h)) rfl
  · contradiction

end Token

end CSharpCheck
