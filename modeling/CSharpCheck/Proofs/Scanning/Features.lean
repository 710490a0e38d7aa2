import CSharpCheck.Proofs.Scanning.ActiveTexts

/-!
# Where features stand

Of all tokens only literals and the starts of interpolated strings carry features, inside of holes
as well as outside.
-/

namespace CSharpCheck

/-- The piece carries features only if tokens of its class may. -/
def Piece.Fitting (p : Piece) : Prop := p.kind.bearsFeatures = false → p.features = []

/-- The token carries features only if tokens of its class may. -/
def Token.Fitting (t : Token) : Prop := t.kind.bearsFeatures = false → t.features = []

theorem Piece.fitting_bare (kind : Kind) (start length : Nat) : (bare kind start length).Fitting :=
  fun _ ↦ rfl

theorem Piece.forall_fitting_shift {ps : List Piece} (h : ∀ p ∈ ps, p.Fitting) (n : Nat) :
    ∀ p ∈ ps.map (·.shift n), p.Fitting :=
  List.forall_mem_map.2 h

/-! ### Single tokens -/

private theorem fitting_of_bearsFeatures {l : Lexeme} (h : l.kind.bearsFeatures = true) :
    l.piece.Fitting := fun hkind ↦ by
  rw [Lexeme.piece, h] at hkind
  contradiction

private theorem fitting_number (text : List Char) : (number text).piece.Fitting := by
  refine fitting_of_bearsFeatures ?_
  unfold number
  repeat' split
  all_goals rfl

private theorem fitting_verbatimString (text : List Char) : (verbatimString text).piece.Fitting := by
  refine fitting_of_bearsFeatures ?_
  unfold verbatimString
  dsimp only
  split <;> rfl

private theorem fitting_regularString (text : List Char) : (regularString text).piece.Fitting := by
  refine fitting_of_bearsFeatures ?_
  unfold regularString
  dsimp only
  split <;> rfl

private theorem fitting_rawString (text : List Char) : (rawString text).piece.Fitting := by
  refine fitting_of_bearsFeatures ?_
  unfold rawString
  dsimp only
  split <;> split <;> rfl

private theorem fitting_characterLiteral (text : List Char) :
    (characterLiteral text).piece.Fitting := by
  refine fitting_of_bearsFeatures ?_
  unfold characterLiteral
  dsimp only
  repeat' split
  all_goals rfl

theorem fitting_plainLexeme (text : List Char) : (plainLexeme text).piece.Fitting := by
  have without {l : Lexeme} (h : l.features = []) : l.piece.Fitting := fun _ ↦ h
  unfold plainLexeme
  split
  · exact without rfl
  · split
    · exact fitting_verbatimString _
    · split
      · exact without rfl
      · split
        · exact without rfl
        · split
          · exact fitting_number _
          · split
            · split
              · exact fitting_rawString _
              · exact fitting_regularString _
            · split
              · exact fitting_characterLiteral _
              · split
                · exact without rfl
                · split
                  · exact without rfl
                  · exact without rfl

/-- The features of a single token are listed. -/
theorem exists_listed_plainLexeme (text : List Char) :
    ∃ seen, (plainLexeme text).features = Feature.listed seen := by
  have hnumber (text : List Char) : ∃ seen, (number text).features = Feature.listed seen := by
    unfold number
    repeat' split
    all_goals
      dsimp only [prefixedNumber, decimalNumber, numberLexeme]
      exact ⟨_, rfl⟩
  have hverbatim (text : List Char) :
      ∃ seen, (verbatimString text).features = Feature.listed seen := by
    unfold verbatimString
    dsimp only
    split
    all_goals
      dsimp only [stringLexeme, openStringLexeme]
      exact ⟨_, rfl⟩
  have hregular (text : List Char) :
      ∃ seen, (regularString text).features = Feature.listed seen := by
    unfold regularString
    dsimp only
    split
    all_goals
      dsimp only [stringLexeme, openStringLexeme]
      exact ⟨_, rfl⟩
  have hraw (text : List Char) : ∃ seen, (rawString text).features = Feature.listed seen := by
    unfold rawString
    dsimp only
    split <;> split
    all_goals
      dsimp only [stringLexeme, openStringLexeme]
      exact ⟨_, rfl⟩
  have hcharacter (text : List Char) :
      ∃ seen, (characterLiteral text).features = Feature.listed seen := by
    unfold characterLiteral
    dsimp only
    repeat' split
    all_goals
      dsimp only
      exact ⟨_, rfl⟩
  have hnone : ∃ seen, [] = Feature.listed seen := ⟨[], rfl⟩
  unfold plainLexeme
  split
  · exact hnone
  · split
    · exact hverbatim _
    · split
      · exact hnone
      · split
        · exact hnone
        · split
          · exact hnumber _
          · split
            · split
              · exact hraw _
              · exact hregular _
            · split
              · exact hcharacter _
              · split
                · exact hnone
                · split
                  · exact hnone
                  · exact hnone

/-! ### Groups -/

theorem fitting_textPieces (start stop : Nat) : ∀ p ∈ textPieces start stop, p.Fitting := by
  unfold textPieces
  split
  · exact List.forall_mem_singleton.2 (Piece.fitting_bare _ _ _)
  · exact List.forall_mem_nil _

private theorem fitting_end (start stop length : Nat) :
    ∀ p ∈ textPieces start stop ++ [Piece.bare .interpolatedEnd stop length], p.Fitting :=
  List.forall_mem_append.2 ⟨fitting_textPieces _ _,
    List.forall_mem_singleton.2 (Piece.fitting_bare _ _ _)⟩

section Content

variable {scan : List Char → Group}

theorem fitting_holeTokens (hscan : ∀ text, ∀ p ∈ (scan text).pieces, p.Fitting)
    (inDirective : Bool) (depth start : Nat) (text : List Char) :
    ∀ p ∈ (holeTokens scan inDirective depth start text).pieces, p.Fitting := by
  induction hn : text.length using Nat.strongRecOn generalizing depth start text with
  | ind n ih =>
    rw [holeTokens]
    split
    · exact List.forall_mem_nil _
    · next c cs hdrop =>
      split
      · exact List.forall_mem_nil _
      · have hlength := congrArg List.length hdrop
        simp only [List.length_drop, List.length_cons] at hlength
        refine List.forall_mem_append.2 ⟨Piece.forall_fitting_shift (hscan _) _, ih _ ?_ _ _ _ rfl⟩
        simp only [List.length_drop]
        omega

theorem fitting_hole (hscan : ∀ text, ∀ p ∈ (scan text).pieces, p.Fitting) (o : Opening)
    (multiLine inDirective : Bool) (start : Nat) (text : List Char) :
    ∀ p ∈ (hole o multiLine scan inDirective start text).pieces, p.Fitting := by
  refine List.forall_mem_append.2 ⟨List.forall_mem_append.2 ⟨List.forall_mem_cons.2
    ⟨Piece.fitting_bare _ _ _, fitting_holeTokens hscan _ _ _ _⟩, ?_⟩,
    List.forall_mem_singleton.2 (Piece.fitting_bare _ _ _)⟩
  split
  · exact List.forall_mem_nil _
  · exact List.forall_mem_singleton.2 (Piece.fitting_bare _ _ _)

theorem fitting_interpolatedBody (hscan : ∀ text, ∀ p ∈ (scan text).pieces, p.Fitting)
    (o : Opening) (multiLine inDirective : Bool) (textStart start : Nat) (text : List Char) :
    ∀ p ∈ (interpolatedBody o multiLine scan inDirective textStart start text).pieces,
      p.Fitting := by
  fun_induction interpolatedBody o multiLine scan inDirective textStart start text with
  | case1 | case2 | case4 => exact fitting_end _ _ _
  | case9 _ _ _ _ _ _ _ _ _ _ _ _ ih =>
    exact List.forall_mem_append.2 ⟨List.forall_mem_append.2
      ⟨fitting_textPieces _ _, fitting_hole hscan _ _ _ _ _⟩, ih⟩
  | _ => assumption

end Content

/-- In a scan features stand on literals and on the starts of interpolated strings. -/
theorem fitting_scanGroup (inDirective : Bool) (room : Nat) (text : List Char) :
    ∀ p ∈ (scanGroup inDirective room text).pieces, p.Fitting := by
  induction room generalizing text with
  | zero =>
    unfold scanGroup
    split
    · exact List.forall_mem_singleton.2 (fitting_plainLexeme text)
    · exact List.forall_mem_singleton.2 (Piece.fitting_bare _ _ _)
  | succ room ih =>
    unfold scanGroup
    split
    · exact List.forall_mem_singleton.2 (fitting_plainLexeme text)
    · exact List.forall_mem_cons.2
        ⟨fun h ↦ by contradiction, fitting_interpolatedBody ih _ _ _ _ _ _⟩

theorem fitting_directiveOpening (text : List Char) :
    ∀ p ∈ (directiveOpening text).pieces, p.Fitting := by
  have hname (start : Nat) (rest : List Char) :
      ((nameLexeme false rest).piece.shift start).Fitting := fun _ ↦ rfl
  have hmessage (start : Nat) (rest : List Char) : (messagePiece start rest).Fitting := fun _ ↦ rfl
  unfold directiveOpening
  dsimp only
  split
  · exact List.forall_mem_cons.2 ⟨Piece.fitting_bare _ _ _,
      List.forall_mem_singleton.2 (hmessage _ _)⟩
  split
  · split
    · refine List.forall_mem_append.2 ⟨List.forall_mem_cons.2 ⟨Piece.fitting_bare _ _ _,
        List.forall_mem_singleton.2 (hname _ _)⟩, ?_⟩
      split
      · exact List.forall_mem_nil _
      · exact List.forall_mem_singleton.2 (hmessage _ _)
    · exact List.forall_mem_cons.2 ⟨Piece.fitting_bare _ _ _,
        List.forall_mem_singleton.2 (hname _ _)⟩
  · exact List.forall_mem_singleton.2 (Piece.fitting_bare _ _ _)

/-! ### Active tokens -/

theorem Cursor.fitting_tokens (c : Cursor) {pieces : List Piece} (h : ∀ p ∈ pieces, p.Fitting) :
    ∀ t ∈ c.tokens pieces, t.Fitting := by
  cases pieces with
  | nil => exact List.forall_mem_nil _
  | cons p ps =>
    rw [List.forall_mem_cons] at h
    exact List.forall_mem_cons.2 ⟨h.1, List.forall_mem_map.2 h.2⟩

/-- In a reading step features stand on literals and on the starts of interpolated strings. -/
theorem TokenSource.fitting_of_read {s : TokenSource} {r : Reading} (h : s.read = some r) :
    ∀ t ∈ r.tokens, t.Fitting := by
  obtain ⟨-, c, fs, -, ⟨-, rfl⟩ | ⟨-, rfl⟩ | ⟨hc, rfl⟩⟩ := read_cases h
  · exact List.forall_mem_singleton.2 fun _ ↦ rfl
  · exact List.forall_mem_singleton.2 fun _ ↦ rfl
  · unfold readGroup
    refine c.fitting_tokens ?_
    split
    · exact fitting_directiveOpening _
    · exact fitting_scanGroup _ _ _

theorem ActiveReader.fitting_chunksUpTo (script : Bool) (limit : Nat) (r : ActiveReader) :
    ∀ c ∈ r.chunksUpTo script limit, ∀ t ∈ c.tokens, t.Fitting := by
  induction limit generalizing r with
  | zero => exact List.forall_mem_nil _
  | succ limit ih =>
    unfold chunksUpTo
    split
    · exact List.forall_mem_nil _
    · next reading hread =>
      have hfirst : ∀ t ∈ (r.take script reading).1.tokens, t.Fitting := fun t ht ↦
        TokenSource.fitting_of_read hread t (r.tokens_take_subset script reading ht)
      dsimp only
      split
      · exact List.forall_mem_singleton.2 hfirst
      · exact List.forall_mem_cons.2 ⟨hfirst, ih _⟩

/-- Among the active tokens features stand on literals and on the starts of interpolated
strings. -/
theorem fitting_activeTokens (script : Bool) (symbols : List String) (text : List Char) :
    ∀ t ∈ activeTokens script symbols text, t.Fitting := by
  intro t ht
  obtain ⟨c, hc, ht⟩ := List.mem_flatMap.1 ht
  exact ActiveReader.fitting_chunksUpTo script _ _ c hc t ht

end CSharpCheck
