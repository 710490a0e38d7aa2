import CSharpCheck.Lexeme.DirectiveLine
import CSharpCheck.Lexeme.Interpolated
import CSharpCheck.Proofs.Nesting.Groups
import CSharpCheck.Proofs.Scanning.Lexemes

/-!
# Scans find whole groups

The tokens of one scan leave the open interpolated strings and holes as they are: whatever opens
among them closes again, even where the text gives out.
-/

namespace CSharpCheck

/-- The classes of the pieces. -/
def Piece.kinds (pieces : List Piece) : List Kind := pieces.map (·.kind)

@[simp] theorem Piece.kinds_append (ps qs : List Piece) :
    kinds (ps ++ qs) = kinds ps ++ kinds qs :=
  List.map_append

@[simp] theorem Piece.kinds_cons (p : Piece) (ps : List Piece) :
    kinds (p :: ps) = p.kind :: kinds ps := rfl

@[simp] theorem Piece.kinds_nil : kinds [] = [] := rfl

@[simp] theorem Piece.kinds_shift (n : Nat) (ps : List Piece) :
    kinds (ps.map (·.shift n)) = kinds ps := by
  rw [kinds, List.map_map]
  rfl

namespace Context

/-- Whether ordinary tokens may come next in the contexts. -/
def Ordinary : List Context → Prop
  | [] | hole false :: _ => True
  | _ => False

/-- Tokens of the classes may come wherever ordinary tokens may, and what opens among them closes
again. -/
def Closed (ks : List Kind) : Prop :=
  ∀ contexts, Ordinary contexts → after contexts ks = some contexts

theorem step_of_not_isGroup {contexts : List Context} {k : Kind} (h : Ordinary contexts)
    (hk : k.isGroup = false) : step contexts k = some contexts := by
  unfold Ordinary at h
  split at h
  · cases k <;> first | rfl | contradiction
  · cases k <;> first | rfl | contradiction
  · contradiction

theorem step_interpolatedStart {contexts : List Context} (h : Ordinary contexts) :
    step contexts .interpolatedStart = some (string false :: contexts) := by
  unfold Ordinary at h
  split at h <;> first | rfl | contradiction

namespace Closed

theorem nil : Closed [] := fun _ _ ↦ rfl

theorem append {ks ls : List Kind} (hk : Closed ks) (hl : Closed ls) : Closed (ks ++ ls) := by
  intro contexts h
  rw [after_append, hk contexts h, Option.bind_some, hl contexts h]

theorem singleton {k : Kind} (hk : k.isGroup = false) : Closed [k] := by
  intro contexts h
  rw [after_cons, step_of_not_isGroup h hk]
  rfl

theorem flatten {kss : List (List Kind)} (h : ∀ ks ∈ kss, Closed ks) : Closed kss.flatten := by
  induction kss with
  | nil => exact nil
  | cons ks kss ih =>
    rw [List.flatten_cons]
    exact (h ks List.mem_cons_self).append (ih fun ls hl ↦ h ls (List.mem_cons_of_mem ks hl))

end Closed

end Context

theorem Kind.not_isGroup_of_isSingle {k : Kind} (h : k.isSingle = true) : k.isGroup = false := by
  cases k <;> first | rfl | contradiction

/-- At the end of a text token there is at most one more text in the string. -/
theorem exists_after_textPieces (outer : List Context) (start stop : Nat) :
    ∃ b, Context.after (.string false :: outer) (Piece.kinds (textPieces start stop)) =
      some (.string b :: outer) := by
  unfold textPieces
  split
  · exact ⟨true, rfl⟩
  · exact ⟨false, rfl⟩

/-- A string is left with its last text and its end. -/
theorem after_textPieces_end (outer : List Context) (start stop : Nat) (last : Piece)
    (hlast : last.kind = .interpolatedEnd) :
    Context.after (.string false :: outer) (Piece.kinds (textPieces start stop ++ [last])) =
      some outer := by
  obtain ⟨b, hb⟩ := exists_after_textPieces outer start stop
  rw [Piece.kinds_append, Context.after_append, hb, Option.bind_some, Piece.kinds_cons, hlast]
  cases b <;> rfl

section Content

variable {scan : List Char → Group}

theorem closed_holeTokens (hscan : ∀ text, Context.Closed (Piece.kinds (scan text).pieces))
    (inDirective : Bool) (depth start : Nat) (text : List Char) :
    Context.Closed (Piece.kinds (holeTokens scan inDirective depth start text).pieces) := by
  induction hn : text.length using Nat.strongRecOn generalizing depth start text with
  | ind n ih =>
    rw [holeTokens]
    split
    · exact .nil
    · next c cs hdrop =>
      split
      · exact .nil
      · simp only [Part.after, Piece.kinds_append, Piece.kinds_shift]
        refine (hscan _).append (ih _ ?_ _ _ _ rfl)
        have hlength := congrArg List.length hdrop
        simp only [List.length_drop, List.length_cons] at hlength ⊢
        omega

/-- A hole may come wherever its string is. -/
theorem after_hole (hscan : ∀ text, Context.Closed (Piece.kinds (scan text).pieces)) (o : Opening)
    (multiLine inDirective : Bool) (start : Nat) (text : List Char) (b : Bool)
    (outer : List Context) :
    Context.after (.string b :: outer)
        (Piece.kinds (hole o multiLine scan inDirective start text).pieces) =
      some (.string false :: outer) := by
  have hopen (ks : List Kind) : Context.after (.string b :: outer) (.holeStart :: ks) =
      Context.after (.hole false :: .string false :: outer) ks := by
    cases b <;> rfl
  have htokens := closed_holeTokens hscan inDirective 0 (start + o.braces) (text.drop o.braces)
    (.hole false :: .string false :: outer) trivial
  simp only [hole, Piece.kinds_cons, Piece.kinds_append, List.cons_append, Piece.bare]
  rw [hopen, List.append_assoc, Context.after_append, htokens, Option.bind_some]
  split <;> rfl

theorem after_interpolatedBody (hscan : ∀ text, Context.Closed (Piece.kinds (scan text).pieces))
    (o : Opening) (multiLine inDirective : Bool) (textStart start : Nat) (text : List Char)
    (outer : List Context) :
    Context.after (.string false :: outer)
      (Piece.kinds (interpolatedBody o multiLine scan inDirective textStart start text).pieces) =
        some outer := by
  fun_induction interpolatedBody o multiLine scan inDirective textStart start text with
  | case1 | case2 | case4 => exact after_textPieces_end outer _ _ _ rfl
  | case9 textStart start c cs _ _ _ _ length _ holeStart part ih =>
    obtain ⟨b, hb⟩ := exists_after_textPieces outer textStart holeStart
    have hpart := after_hole hscan o multiLine inDirective holeStart ((c :: cs).drop length) b outer
    simp only [Part.after, Piece.kinds_append, Context.after_append]
    rw [hb, Option.bind_some, hpart]
    exact ih
  | _ => assumption

theorem closed_interpolatedGroup (hscan : ∀ text, Context.Closed (Piece.kinds (scan text).pieces))
    (o : Opening) (inDirective : Bool) (text : List Char) :
    Context.Closed (Piece.kinds (interpolatedGroup o scan inDirective text).pieces) := by
  intro contexts h
  simp only [interpolatedGroup, Piece.kinds_cons]
  rw [Context.after_cons, Context.step_interpolatedStart h, Option.bind_some]
  exact after_interpolatedBody hscan o _ inDirective _ _ _ contexts

end Content

theorem closed_plainLexeme (text : List Char) :
    Context.Closed (Piece.kinds (plainLexeme text).toGroup.pieces) := by
  cases text with
  | nil => exact .singleton rfl
  | cons c cs =>
    exact .singleton (Kind.not_isGroup_of_isSingle (single_plainLexeme (by simp)).isSingle)

/-- A scan finds whole groups. -/
theorem closed_scanGroup (inDirective : Bool) (room : Nat) (text : List Char) :
    Context.Closed (Piece.kinds (scanGroup inDirective room text).pieces) := by
  induction room generalizing text with
  | zero =>
    unfold scanGroup
    split
    · exact closed_plainLexeme text
    · exact .singleton rfl
  | succ room ih =>
    unfold scanGroup
    split
    · exact closed_plainLexeme text
    · exact closed_interpolatedGroup ih _ inDirective text

theorem closed_directiveOpening (text : List Char) :
    Context.Closed (Piece.kinds (directiveOpening text).pieces) := by
  have hhash : Context.Closed [.directiveStart] := .singleton rfl
  have hmessage : Context.Closed [.directiveMessage] := .singleton rfl
  have hname (rest : List Char) : Context.Closed [(nameLexeme false rest).kind] :=
    .singleton (Kind.not_isGroup_of_isSingle (isSingle_nameLexeme false rest))
  unfold directiveOpening
  simp only
  split
  · exact hhash.append hmessage
  · split
    · split
      · refine (hhash.append (hname _)).append ?_
        split
        · exact .nil
        · exact hmessage
      · exact hhash.append (hname _)
    · exact hhash

/-- A scan finds something, which starts with a single token or an interpolated string. -/
theorem exists_piece_scanGroup (inDirective : Bool) (room : Nat) {text : List Char}
    (h : text ≠ []) : ∃ p ps, (scanGroup inDirective room text).pieces = p :: ps ∧
      (p.kind.isSingle = true ∨ p.kind = .interpolatedStart) := by
  unfold scanGroup
  split
  · exact ⟨_, _, rfl, .inl (single_plainLexeme h).isSingle⟩
  · cases room with
    | zero => exact ⟨_, _, rfl, .inl rfl⟩
    | succ room => exact ⟨_, _, rfl, .inr rfl⟩

/-! ### Lengths -/

theorem le_stop_holeTokens (scan : List Char → Group) (inDirective : Bool) (depth start : Nat)
    (text : List Char) : start ≤ (holeTokens scan inDirective depth start text).stop := by
  induction hn : text.length using Nat.strongRecOn generalizing depth start text with
  | ind n ih =>
    rw [holeTokens]
    split
    · exact Nat.le_add_right _ _
    · next c cs hdrop =>
      split
      · exact Nat.le_add_right _ _
      · have hlength := congrArg List.length hdrop
        simp only [List.length_drop, List.length_cons] at hlength
        simp only [Part.after]
        refine Nat.le_trans ?_ (ih _ ?_ _ _ _ rfl)
        · omega
        · simp only [List.length_drop]
          omega

theorem le_stop_interpolatedBody (scan : List Char → Group) (o : Opening)
    (multiLine inDirective : Bool) (textStart start : Nat) (text : List Char) :
    start ≤ (interpolatedBody o multiLine scan inDirective textStart start text).stop := by
  fun_induction interpolatedBody o multiLine scan inDirective textStart start text with
  | case1 | case2 => exact Nat.le_refl _
  | case4 =>
    simp only [closedEnd]
    omega
  | case9 textStart start c cs _ _ _ _ length _ holeStart part ih =>
    refine Nat.le_trans ?_ ih
    have htokens := le_stop_holeTokens scan inDirective 0 (start + length + o.braces)
      (((c :: cs).drop length).drop o.braces)
    simp only [part, hole, holeStart]
    omega
  | _ =>
    refine Nat.le_trans ?_ ‹_›
    omega

theorem length_opening?_pos {text : List Char} {o : Opening} (h : opening? text = some o) :
    0 < o.length := by
  simp only [opening?, Option.ite_none_left_eq_some, Option.some.injEq] at h
  obtain ⟨hdollars, rfl⟩ := h
  simp only
  omega

theorem length_scanGroup_pos (inDirective : Bool) (room : Nat) {text : List Char}
    (h : text ≠ []) : 0 < (scanGroup inDirective room text).length := by
  have hlength : 0 < text.length := List.length_pos_iff.2 h
  unfold scanGroup
  split
  · exact (single_plainLexeme h).length_pos
  · next o ho =>
    cases room with
    | zero => exact hlength
    | succ room =>
      exact Nat.lt_of_lt_of_le (length_opening?_pos ho) (le_stop_interpolatedBody _ o _ _ _ _ _)

theorem length_directiveOpening_pos (text : List Char) : 0 < (directiveOpening text).length := by
  unfold directiveOpening
  simp only
  split
  · exact Nat.add_pos_left Nat.zero_lt_one _
  · split
    · split
      · simp only
        omega
      · simp only
        omega
    · simp only
      omega

end CSharpCheck
