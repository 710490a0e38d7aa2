import CSharpCheck.Proofs.Scanning.Tilings

/-!
# Cursors and tokens in a text

A cursor that goes through a text stands at the position that its offset has in the text, and with
it every token and every finding of a scan.
-/

namespace CSharpCheck

/-! ### Positions in a text -/

/-- The position is the one that its offset has in the text. -/
def Position.In (p : Position) (text : List Char) : Prop :=
  p = Position.first.after text p.offset ∧ p.offset ≤ text.length

/-- The span lies in the text, with its ends in order. -/
structure Span.In (s : Span) (text : List Char) : Prop where
  start : s.start.In text
  stop : s.stop.In text
  le : s.start.offset ≤ s.stop.offset

theorem Position.offset_first_after (text : List Char) (n : Nat) :
    (Position.first.after text n).offset = min n text.length := by
  rw [Position.offset_after]
  exact Nat.zero_add _

theorem Position.first_after_in (text : List Char) (n : Nat) :
    (Position.first.after text n).In text := by
  rw [Position.In, Position.offset_first_after]
  refine ⟨?_, Nat.min_le_right _ _⟩
  rcases Nat.le_total n text.length with h | h
  · rw [Nat.min_eq_left h]
  · rw [Nat.min_eq_right h]
    obtain ⟨k, rfl⟩ := Nat.exists_eq_add_of_le h
    rw [← Position.after_after, List.drop_length, Position.after_nil]

theorem Span.point_in {p : Position} {text : List Char} (h : p.In text) : (Span.point p).In text :=
  ⟨h, h, Nat.le_refl _⟩

namespace Cursor

/-- The cursor stands in the text: its position is the one of its offset, and what is left is the
text from there on. -/
structure In (c : Cursor) (text : List Char) : Prop where
  position : c.position.In text
  rest : c.rest = text.drop c.position.offset

/-- The cursor `n` characters further on stands where the text puts it. -/
theorem positionAt_add (c : Cursor) (m n : Nat) :
    (c.advance m).positionAt n = c.positionAt (m + n) :=
  Position.after_after c.position c.rest m n

theorem positionAt_zero (c : Cursor) : c.positionAt 0 = c.position := Position.after_zero _ _

theorem in_ofText (text : List Char) : (ofText text).In text where
  position := ⟨(Position.after_zero _ _).symm, Nat.zero_le _⟩
  rest := rfl

variable {c : Cursor} {text : List Char}

theorem In.positionAt_eq (h : c.In text) (n : Nat) :
    c.positionAt n = Position.first.after text (c.position.offset + n) := by
  rw [positionAt, h.rest, ← Position.after_after, ← h.position.1]

theorem In.positionAt (h : c.In text) (n : Nat) : (c.positionAt n).In text := by
  rw [h.positionAt_eq]
  exact Position.first_after_in _ _

theorem In.offset_positionAt (h : c.In text) (n : Nat) :
    (c.positionAt n).offset = min (c.position.offset + n) text.length := by
  rw [h.positionAt_eq, Position.offset_first_after]

/-- What is left behind a position is what is left of the text there. -/
theorem In.drop_rest (h : c.In text) (n : Nat) :
    c.rest.drop n = text.drop (c.positionAt n).offset := by
  rw [h.rest, List.drop_drop, h.offset_positionAt]
  rcases Nat.le_total (c.position.offset + n) text.length with hle | hle
  · rw [Nat.min_eq_left hle]
  · rw [Nat.min_eq_right hle, List.drop_length, List.drop_eq_nil_of_le hle]

theorem In.advance (h : c.In text) (n : Nat) : (c.advance n).In text where
  position := h.positionAt n
  rest := h.drop_rest n

theorem In.span (h : c.In text) {m n : Nat} (hmn : m ≤ n) :
    Span.In ⟨c.positionAt m, c.positionAt n⟩ text where
  start := h.positionAt m
  stop := h.positionAt n
  le := by
    simp only [h.offset_positionAt]
    omega

/-- Passing a gap moves the cursor on over its characters. -/
theorem passGap_eq (c : Cursor) (items : List GapItem) :
    (c.passGap items).rest = c.rest.drop (gapLength items) ∧
      (c.passGap items).position = c.positionAt (gapLength items) := by
  have hitem (c : Cursor) (item : GapItem) :
      (c.passItem item).rest = c.rest.drop item.length ∧
        (c.passItem item).position = c.positionAt item.length := by
    unfold passItem
    split <;> exact ⟨rfl, rfl⟩
  induction items generalizing c with
  | nil => exact ⟨rfl, (Position.after_zero _ _).symm⟩
  | cons item items ih =>
    obtain ⟨hrest, hposition⟩ := ih (c.passItem item)
    obtain ⟨hrest', hposition'⟩ := hitem c item
    refine ⟨?_, ?_⟩
    · rw [passGap, List.foldl_cons, ← passGap, hrest, hrest', List.drop_drop]
      rfl
    · rw [passGap, List.foldl_cons, ← passGap, hposition, positionAt, hrest', hposition']
      exact positionAt_add c item.length _

theorem In.passGap (h : c.In text) (items : List GapItem) : (c.passGap items).In text := by
  obtain ⟨hrest, hposition⟩ := c.passGap_eq items
  refine ⟨?_, ?_⟩
  · rw [hposition]
    exact h.positionAt _
  · rw [hrest, hposition]
    exact h.drop_rest _

end Cursor

end CSharpCheck
