import CSharpCheck.Proofs.Scanning.Locality
import CSharpCheck.Proofs.Scanning.Words

/-!
# White space and comments within a line

A stretch of white space and closed comments in which no line ends is a gap. The gap that it is part
of goes on behind it, and nothing is found in it.
-/

namespace CSharpCheck

/-- Blanks and closed comments, in which no line ends. A comment ends at the first sign that closes
one. -/
inductive IsLayout : List Char → Prop where
  | nil : IsLayout []
  | blank {c : Char} {cs : List Char} : isBlank c = true → IsLayout cs → IsLayout (c :: cs)
  | comment {body cs : List Char} : (∀ c ∈ body, isLineEnd c = false) →
      ¬['*', '/'] <:+: body ++ ['*'] → IsLayout cs →
      IsLayout (['/', '*'] ++ body ++ ['*', '/'] ++ cs)

/-- A comment ends at the first sign that closes one. -/
theorem blockCommentLength?_append {body : List Char} (h : ¬['*', '/'] <:+: body ++ ['*'])
    (rest : List Char) :
    blockCommentLength? (body ++ '*' :: '/' :: rest) = some (body.length + 2) := by
  induction body with
  | nil => rfl
  | cons c body ih =>
    have htail : ¬['*', '/'] <:+: body ++ ['*'] := fun hfound ↦
      h (hfound.trans (List.suffix_cons c _).isInfix)
    have hsign : ∀ cs, c = '*' → body ++ '*' :: '/' :: rest = '/' :: cs → False := by
      rintro cs rfl hbody
      cases body with
      | nil => simp at hbody
      | cons d body =>
        rw [List.cons_append, List.cons.injEq] at hbody
        rw [hbody.1] at h
        exact h ⟨[], body ++ ['*'], by simp⟩
    rw [List.cons_append, blockCommentLength?, ih htail, Option.map_some, List.length_cons,
      Nat.add_right_comm]
    exact hsign

theorem gap_comment {body : List Char} (h : ¬['*', '/'] <:+: body ++ ['*']) (rest : List Char) :
    gap false ('/' :: '*' :: (body ++ '*' :: '/' :: rest)) =
      .blockComment (body.length + 2) :: gap false rest := by
  have hitem : gapItem? false ('/' :: '*' :: (body ++ '*' :: '/' :: rest)) =
      some (.blockComment (body.length + 2)) := by
    simp only [gapItem?, blockCommentLength?_append h]
  rw [gap, hitem]
  have hdrop : (body ++ '*' :: '/' :: rest).drop (body.length + 2) = rest := by
    rw [← List.drop_drop, List.drop_left]
    rfl
  have hrest : ('/' :: '*' :: (body ++ '*' :: '/' :: rest)).drop
      (GapItem.blockComment (body.length + 2)).length = rest := hdrop
  simp only [hrest]
  rfl

/-- A gap that takes no characters is empty. -/
theorem gap_eq_nil {inDirective : Bool} {text : List Char}
    (h : min (gapLength (gap inDirective text)) text.length = 0) : gap inDirective text = [] := by
  cases text with
  | nil => exact gap_nil inDirective
  | cons c cs =>
    cases hitems : gap inDirective (c :: cs) with
    | nil => rfl
    | cons item items =>
      have hpos := item.length_pos
      rw [hitems, gapLength, List.foldr_cons, List.length_cons] at h
      omega

namespace IsLayout

variable {layout rest : List Char}

theorem oneLine (h : IsLayout layout) : ∀ c ∈ layout, isLineEnd c = false := by
  induction h with
  | nil => exact List.forall_mem_nil _
  | blank hc _ ih => exact List.forall_mem_cons.2 ⟨not_isLineEnd_of_isBlank hc, ih⟩
  | comment hbody _ _ ih =>
    simp only [List.forall_mem_append]
    exact ⟨⟨⟨by simp [isLineEnd], hbody⟩, by simp [isLineEnd]⟩, ih⟩

/-- Behind a layout the text goes on as a gap. -/
theorem opensGap (h : IsLayout layout) (hne : layout ≠ []) (rest : List Char) :
    opensGap (layout ++ rest) = true := by
  cases h with
  | nil => contradiction
  | @blank c cs hc =>
    have hslash : c ≠ '/' := by
      rintro rfl
      contradiction
    simp [CSharpCheck.opensGap, hslash, hc]
  | comment => rfl

/-- No comment is left open in a layout. -/
theorem gapFaults_append (h : IsLayout layout) (rest : List Char) (start : Nat) :
    gapFaults start (gap false (layout ++ rest)) =
      gapFaults (start + layout.length) (gap false rest) := by
  induction h generalizing start with
  | nil => rfl
  | blank hc _ ih =>
    rw [List.cons_append, gap_blank false hc, List.length_cons, Nat.add_comm _ 1, ← Nat.add_assoc]
    exact ih (start + 1)
  | @comment body cs _ hclosed _ ih =>
    have hlength : start + (['/', '*'] ++ body ++ ['*', '/'] ++ cs).length =
        start + (GapItem.blockComment (body.length + 2)).length + cs.length := by
      simp [GapItem.length]
      omega
    have hgap := gap_comment hclosed (cs ++ rest)
    rw [hlength, ← ih]
    simp only [List.append_assoc, List.cons_append, List.nil_append, hgap]
    rfl

/-- On a line that is used, a gap that begins with a layout goes on behind it. -/
theorem passGap_append (h : IsLayout layout) (rest : List Char) (p : Position) :
    (⟨layout ++ rest, p, true⟩ : Cursor).passGap (gap false (layout ++ rest)) =
      (⟨rest, p.right layout.length, true⟩ : Cursor).passGap (gap false rest) := by
  induction h generalizing p with
  | nil => rfl
  | @blank c cs hc _ ih =>
    have hstep : (⟨c :: (cs ++ rest), p, true⟩ : Cursor).passItem .blank =
        ⟨cs ++ rest, p.right 1, true⟩ :=
      Cursor.advance_one (not_isLineEnd_of_isBlank hc) p (cs ++ rest) true
    rw [List.cons_append, gap_blank false hc, Cursor.passGap, List.foldl_cons, ← Cursor.passGap,
      hstep, ih, Position.right_right, List.length_cons, Nat.add_comm 1]
  | @comment body cs hbody hclosed _ ih =>
    have hline : ∀ c ∈ ['/', '*'] ++ body ++ ['*', '/'], isLineEnd c = false := by
      simp only [List.forall_mem_append]
      exact ⟨⟨by simp [isLineEnd], hbody⟩, by simp [isLineEnd]⟩
    have hlength : (['/', '*'] ++ body ++ ['*', '/']).length = body.length + 4 := by
      simp
    have hposition := Position.after_append_of_oneLine hline p (cs ++ rest)
      (Nat.le_of_eq hlength.symm)
    have hdrop : (['/', '*'] ++ body ++ ['*', '/'] ++ (cs ++ rest)).drop (body.length + 4) =
        cs ++ rest := by
      rw [← hlength, List.drop_left]
    have hstep : (⟨['/', '*'] ++ body ++ ['*', '/'] ++ (cs ++ rest), p, true⟩ : Cursor).passItem
        (.blockComment (body.length + 2)) = ⟨cs ++ rest, p.right (body.length + 4), true⟩ := by
      simp only [Cursor.passItem, Cursor.advance, Cursor.positionAt, GapItem.length, hposition,
        hdrop]
    have hgap := gap_comment hclosed (cs ++ rest)
    have htext : ['/', '*'] ++ body ++ ['*', '/'] ++ (cs ++ rest) =
        '/' :: '*' :: (body ++ '*' :: '/' :: (cs ++ rest)) := by simp
    rw [← htext] at hgap
    rw [List.append_assoc (['/', '*'] ++ body ++ ['*', '/']), hgap, Cursor.passGap,
      List.foldl_cons, ← Cursor.passGap, hstep, ih, Position.right_right, List.length_append,
      hlength]

end IsLayout

end CSharpCheck
