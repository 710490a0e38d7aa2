import CSharpCheck.Proofs.Relocation.Alike
import CSharpCheck.Proofs.Scanning.Words

/-!
# Places behind a stretch of a line

When a stretch of a line is replaced by one of another length, the places in front of it stay where
they are, and those behind it move by the difference. To compare the two texts, the places behind
the stretch are moved in each of them by the length of the stretch that stands in the other.
-/

namespace CSharpCheck

/-- The place of a position after the stretch of `old` characters behind `base` has been replaced by
a stretch of `new` characters. Only the line of the stretch gets longer or shorter. -/
def Position.reflow (p base : Position) (old new : Nat) : Position :=
  if p.offset < base.offset + old then p
  else ⟨p.line, if p.line = base.line then p.column + new - old else p.column, p.offset + new - old⟩

/-- The relocation that moves what stands `old` characters behind `base` or further on by `new`
characters. -/
def Relocation.past (base : Position) (old new : Nat) : Relocation where
  place p :=
    if p.offset < base.offset + old then p
    else ⟨p.line, if p.line = base.line then p.column + new else p.column, p.offset + new⟩
  text := id
  offset n := if n < base.offset + old then n else n + new
  offset_place p := by
    split <;> rfl
  line_place p := by
    split <;> rfl
  strictMono a b hab := by
    dsimp only
    split <;> split <;> omega
  text_eq_iff _ := Iff.rfl

variable {base : Position} {old new : Nat}

namespace Relocation

theorem place_past_of_lt {p : Position} (h : p.offset < base.offset + old) :
    (past base old new).place p = p := if_pos h

theorem place_past_of_le {p : Position} (h : base.offset + old ≤ p.offset) :
    (past base old new).place p =
      ⟨p.line, if p.line = base.line then p.column + new else p.column, p.offset + new⟩ :=
  if_neg (Nat.not_lt.2 h)

/-- Places that are moved to the same place stand in the same place around the stretches. -/
theorem eq_reflow_of_place_past {p q : Position}
    (h : (past base old new).place p = (past base new old).place q) :
    q = p.reflow base old new := by
  rcases Nat.lt_or_ge p.offset (base.offset + old) with hp | hp
  · rw [place_past_of_lt hp] at h
    rw [Position.reflow, if_pos hp, h]
    refine (place_past_of_lt (Nat.not_le.1 fun hq ↦ ?_)).symm
    rw [place_past_of_le hq] at h
    have hoffset := congrArg Position.offset h
    simp only at hoffset
    omega
  · rw [place_past_of_le hp] at h
    rw [Position.reflow, if_neg (Nat.not_lt.2 hp)]
    rcases Nat.lt_or_ge q.offset (base.offset + new) with hq | hq
    · rw [place_past_of_lt hq] at h
      rw [← h] at hq
      simp only at hq
      omega
    · rw [place_past_of_le hq] at h
      obtain ⟨line, column, offset⟩ := q
      simp only [Position.mk.injEq] at h ⊢
      obtain ⟨hline, hcolumn, hoffset⟩ := h
      refine ⟨hline.symm, ?_, by omega⟩
      rw [hline] at hcolumn ⊢
      split at hcolumn
      · next hbase =>
        rw [if_pos hbase]
        omega
      · next hbase => rw [if_neg hbase, hcolumn]

end Relocation

/-- The positions stand in the same place behind the stretches that follow `base`. -/
structure Position.Abreast (base : Position) (old new : Nat) (p q : Position) : Prop where
  behind : base.offset + old ≤ p.offset
  below : base.line ≤ p.line
  offset : q.offset + old = p.offset + new
  line : q.line = p.line
  column : if p.line = base.line then q.column + old = p.column + new else q.column = p.column

namespace Position.Abreast

theorem right (base : Position) (old new : Nat) :
    Abreast base old new (base.right old) (base.right new) where
  behind := Nat.le_refl _
  below := Nat.le_refl _
  offset := by
    simp only [Position.right]
    omega
  line := rfl
  column := by
    simp only [Position.right, if_true]
    omega

variable {p q : Position}

theorem step (h : Abreast base old new p q) (c : Char) (following : Option Char) :
    Abreast base old new (p.step c following) (q.step c following) := by
  obtain ⟨hbehind, hbelow, hoffset, hline, hcolumn⟩ := h
  unfold Position.step
  split
  · refine ⟨?_, ?_, ?_, ?_, ?_⟩ <;> simp only
    · omega
    · omega
    · omega
    · omega
    · rw [if_neg (by omega)]
      trivial
  · refine ⟨?_, hbelow, ?_, hline, ?_⟩ <;> simp only
    · omega
    · omega
    · split at hcolumn
      · next hbase =>
        rw [if_pos hbase]
        omega
      · next hbase => rw [if_neg hbase, hcolumn]

theorem after (h : Abreast base old new p q) (text : List Char) (n : Nat) :
    Abreast base old new (p.after text n) (q.after text n) := by
  induction n generalizing p q text with
  | zero =>
    rw [Position.after_zero, Position.after_zero]
    exact h
  | succ n ih =>
    cases text with
    | nil =>
      rw [Position.after_nil, Position.after_nil]
      exact h
    | cons c cs =>
      rw [Position.after, Position.after]
      exact ih (h.step c cs.head?) cs

theorem place_eq (h : Abreast base old new p q) :
    (Relocation.past base old new).place p = (Relocation.past base new old).place q := by
  obtain ⟨hbehind, hbelow, hoffset, hline, hcolumn⟩ := h
  rw [Relocation.place_past_of_le hbehind, Relocation.place_past_of_le (by omega)]
  simp only [Position.mk.injEq]
  refine ⟨hline.symm, ?_, hoffset.symm⟩
  rw [hline]
  split at hcolumn
  · next hbase => rw [if_pos hbase, if_pos hbase, hcolumn]
  · next hbase => rw [if_neg hbase, if_neg hbase, hcolumn]

end Position.Abreast

/-- Behind the stretches, cursors in front of the same text are alike. -/
theorem Cursor.alike_past (base : Position) (old new : Nat) (rest : List Char) (used : Bool) :
    Cursor.Alike (.past base old new) (.past base new old) ⟨rest, base.right old, used⟩
      ⟨rest, base.right new, used⟩ where
  rest := rfl
  lineUsed := rfl
  place n := ((Position.Abreast.right base old new).after rest n).place_eq

/-! ### In front of the stretches -/

namespace Relocation

variable (hold : 0 < old) (hnew : 0 < new)

include hold hnew

/-- In front of the stretches both relocations leave places where they are. -/
theorem place_past_eq {p : Position} (h : p.offset ≤ base.offset) :
    (past base old new).place p = (past base new old).place p := by
  rw [place_past_of_lt (by omega), place_past_of_lt (by omega)]

theorem relocate_token_past {t : Token} (hstart : t.span.start.offset ≤ base.offset)
    (hstop : t.span.stop.offset ≤ base.offset) :
    t.relocate (past base old new) = t.relocate (past base new old) := by
  rw [Token.relocate, Token.relocate, Span.relocate, Span.relocate, place_past_eq hold hnew hstart,
    place_past_eq hold hnew hstop]
  rfl

theorem relocate_finding_past {f : Finding} (hstart : f.span.start.offset ≤ base.offset)
    (hstop : f.span.stop.offset ≤ base.offset) :
    f.relocate (past base old new) = f.relocate (past base new old) := by
  rw [Finding.relocate, Finding.relocate, Span.relocate, Span.relocate,
    place_past_eq hold hnew hstart, place_past_eq hold hnew hstop]
  rfl

end Relocation

end CSharpCheck
