import CSharpCheck.Proofs.Scanning.Locality
import CSharpCheck.Proofs.Scanning.Steps

/-!
# Skipped text

Excluded text is skipped line by line, up to a line that opens with a hash or to the end of the
text. It is skipped only behind the end of a directive line.
-/

namespace CSharpCheck

/-- Whether the first line of the text opens with a hash. -/
def hashFirst (text : List Char) : Bool := (text.dropWhile isBlank).head? == some '#'

/-- What the first line opens with is up to the line. -/
theorem hashFirst_restOfLine (text : List Char) : hashFirst (restOfLine text) = hashFirst text := by
  induction text with
  | nil => rfl
  | cons c cs ih =>
    simp only [hashFirst, restOfLine, List.takeWhile_cons] at ih ⊢
    cases hc : isLineEnd c with
    | true =>
      have hhash : c ≠ '#' := by
        rintro rfl
        contradiction
      simp [isBlank_of_isLineEnd hc, hhash]
    | false =>
      simp only [Bool.not_false, if_true, List.dropWhile_cons]
      split
      · exact ih
      · rfl

theorem linesToHash_cons (c : Char) (cs : List Char) : linesToHash (c :: cs) =
    let lead := lineEndLength (c :: cs)
    let line := (c :: cs).drop lead
    if hashFirst line = true then lead
    else lead + (restOfLine line).length + linesToHash (line.drop (restOfLine line).length) := by
  rw [linesToHash, drop_sub_one (length_lineEnd_pos c cs) c]
  rfl

theorem length_lineEnd_le (c : Char) (cs : List Char) :
    lineEndLength (c :: cs) ≤ (c :: cs).length := by
  rw [lineEndLength_cons]
  split
  · next hpair =>
    obtain ⟨ds, rfl⟩ := List.head?_eq_some_iff.1 hpair.2
    simp
  · simp

/-- Behind a line end and the line after it, less is left of the text. -/
theorem length_drop_line_lt {lead : Nat} (hpos : 0 < lead) (c : Char) (cs : List Char)
    (length : Nat) : (((c :: cs).drop lead).drop length).length < (c :: cs).length := by
  rw [List.length_drop, List.length_drop, List.length_cons]
  omega

theorem linesToHash_le (text : List Char) : linesToHash text ≤ text.length := by
  induction hlength : text.length using Nat.strongRecOn generalizing text with
  | ind length ih =>
    cases text with
    | nil =>
      rw [linesToHash]
      exact Nat.zero_le _
    | cons c cs =>
      have hpos := length_lineEnd_pos c cs
      have hle := length_lineEnd_le c cs
      rw [linesToHash_cons]
      generalize lineEndLength (c :: cs) = lead at hpos hle ⊢
      rw [hlength] at hle
      simp only
      split
      · exact hle
      · have hline : (restOfLine ((c :: cs).drop lead)).length ≤ length - lead := by
          rw [← hlength, ← List.length_drop]
          exact (List.takeWhile_prefix _).length_le
        have hrest := ih _ (hlength ▸ length_drop_line_lt hpos c cs
          (restOfLine ((c :: cs).drop lead)).length) _ rfl
        rw [List.length_drop, List.length_drop, hlength] at hrest
        omega

/-- Where the skipping stops, a line opens with a hash, or the text ends. -/
theorem hashFirst_drop_linesToHash (text : List Char) :
    text.drop (linesToHash text) = [] ∨ hashFirst (text.drop (linesToHash text)) = true := by
  induction hlength : text.length using Nat.strongRecOn generalizing text with
  | ind length ih =>
    cases text with
    | nil => exact .inl List.drop_nil
    | cons c cs =>
      have hpos := length_lineEnd_pos c cs
      rw [linesToHash_cons]
      generalize lineEndLength (c :: cs) = lead at hpos ⊢
      simp only
      split
      · next hhash => exact .inr hhash
      · have hshorter : (((c :: cs).drop lead).drop
            (restOfLine ((c :: cs).drop lead)).length).length < length := by
          rw [List.length_drop, List.length_drop, ← hlength, List.length_cons]
          omega
        have hrest := ih _ hshorter _ rfl
        rwa [List.drop_drop, List.drop_drop, ← Nat.add_assoc] at hrest

/-- Texts that are the same up to a place behind the line at which the skipping stops have the same
lines skipped. -/
theorem SameUpTo.linesToHash_eq {b : Boundary} {n : Nat} {text other : List Char}
    (h : SameUpTo b n text other)
    (hstop : linesToHash text + (restOfLine (text.drop (linesToHash text))).length < n) :
    linesToHash other = linesToHash text := by
  induction hlength : text.length using Nat.strongRecOn generalizing n text other with
  | ind length ih =>
    cases text with
    | nil => exact absurd rfl h.ne_nil
    | cons c cs =>
      obtain ⟨ds, k, rfl, rfl, -⟩ := h.of_pos (Nat.zero_lt_of_lt hstop)
      have hpos := length_lineEnd_pos c cs
      have hlead := h.lineEndLength_eq
      rw [linesToHash_cons] at hstop ⊢
      rw [linesToHash_cons, hlead]
      generalize lineEndLength (c :: cs) = lead at hpos hstop ⊢
      simp only at hstop ⊢
      have hline : lead + (restOfLine ((c :: cs).drop lead)).length < k + 1 := by
        split at hstop <;> omega
      have hnext := h.drop (m := lead) (by omega)
      have hsame : restOfLine ((c :: ds).drop lead) = restOfLine ((c :: cs).drop lead) :=
        hnext.restOfLine_eq (by omega)
      have hhash : hashFirst ((c :: ds).drop lead) = hashFirst ((c :: cs).drop lead) := by
        rw [← hashFirst_restOfLine, hsame, hashFirst_restOfLine]
      rw [hhash, hsame]
      split at hstop
      · next hfirst => rw [if_pos hfirst, if_pos hfirst]
      · next hfirst =>
        rw [if_neg hfirst, if_neg hfirst]
        rw [ih _ (hlength ▸ length_drop_line_lt hpos c cs _) (hnext.drop (by omega)) ?_ rfl]
        rw [Nat.add_assoc, ← List.drop_drop, ← List.drop_drop] at hstop
        omega

theorem restOfLine_eq_take (text : List Char) :
    restOfLine text = text.take (restOfLine text).length :=
  List.prefix_iff_eq_take.1 (List.takeWhile_prefix _)

theorem excludedLength_of_lineEnd {text : List Char} (h : text.head?.all isLineEnd = true) :
    excludedLength text = linesToHash text := by
  rw [excludedLength, restOfLine_of_lineEnd h, List.length_nil, Nat.zero_add, List.drop_zero]

namespace TokenSource

variable {s : TokenSource} {text : List Char}

theorem offset_skipExcluded (hs : s.cursor.In text) :
    s.skipExcluded.cursor.position.offset =
      min (s.cursor.position.offset + excludedLength s.cursor.rest) text.length :=
  hs.offset_positionAt _

end TokenSource

end CSharpCheck
