import CSharpCheck.Proofs.Scanning.Phrases

/-!
# Open holes

The holes that are open in a text can be counted along its tokens. A scan leaves the count as it is,
and in between the count does not go beyond the room that there is for holes.
-/

namespace CSharpCheck

/-- Whether a token of the class opens or closes a hole. -/
def Kind.isHoleBorder : Kind → Bool
  | .holeStart | .holeEnd => true
  | _ => false

/-- The number of open holes after a token of the class where `n` are open before. There is none if
a hole is closed that is not open, or if more than `limit` are open then. -/
def countHole (limit n : Nat) : Kind → Option Nat
  | .holeStart => if n < limit then some (n + 1) else none
  | .holeEnd => if n = 0 then none else some (n - 1)
  | _ => some n

theorem Kind.not_isHoleBorder_of_isSingle {k : Kind} (h : k.isSingle = true) :
    k.isHoleBorder = false := by
  cases k <;> first | rfl | contradiction

/-- The number of open holes after tokens of the classes where `n` are open before. -/
def openHoles (limit n : Nat) (ks : List Kind) : Option Nat := ks.foldlM (countHole limit) n

section

variable {limit n m : Nat} {ks ls : List Kind}

theorem openHoles_cons (limit n : Nat) (k : Kind) (ks : List Kind) :
    openHoles limit n (k :: ks) = (countHole limit n k).bind (openHoles limit · ks) :=
  List.foldlM_cons

theorem openHoles_append (h : openHoles limit n ks = some m) (ls : List Kind) :
    openHoles limit n (ks ++ ls) = openHoles limit m ls := by
  rw [openHoles, List.foldlM_append]
  exact congrArg (Option.bind · (openHoles limit · ls)) h

/-- With one more hole open before, and room for one more, one more is open afterwards. -/
theorem openHoles_succ (h : openHoles limit n ks = some m) :
    openHoles (limit + 1) (n + 1) ks = some (m + 1) := by
  induction ks generalizing n with
  | nil => exact congrArg (Option.map (· + 1)) h
  | cons k ks ih =>
    rw [openHoles_cons] at h ⊢
    obtain ⟨next, hnext, hrest⟩ := Option.bind_eq_some_iff.1 h
    have hstep : countHole (limit + 1) (n + 1) k = some (next + 1) := by
      revert hnext
      unfold countHole
      split
      · split
        · next hlt =>
          rw [if_pos (Nat.succ_lt_succ hlt)]
          exact congrArg (Option.map (· + 1))
        · exact nofun
      · split
        · exact nofun
        · rw [if_neg (Nat.succ_ne_zero n)]
          intro hnext
          have := Option.some.inj hnext
          exact congrArg some (by omega)
      · exact congrArg (Option.map (· + 1))
    rw [hstep]
    exact ih hrest

end

/-- Tokens of the classes open and close holes in turn, at most `limit` at once. -/
def HolesWithin (limit : Nat) (ks : List Kind) : Prop := openHoles limit 0 ks = some 0

namespace HolesWithin

variable {limit : Nat} {ks ls : List Kind}

theorem nil (limit : Nat) : HolesWithin limit [] := rfl

theorem append (hks : HolesWithin limit ks) (hls : HolesWithin limit ls) :
    HolesWithin limit (ks ++ ls) :=
  (openHoles_append hks ls).trans hls

theorem cons {k : Kind} (hk : k.isHoleBorder = false) (hks : HolesWithin limit ks) :
    HolesWithin limit (k :: ks) := by
  have hstep : countHole limit 0 k = some 0 := by
    unfold countHole
    split
    · contradiction
    · contradiction
    · rfl
  rw [HolesWithin, openHoles_cons, hstep]
  exact hks

theorem singleton {k : Kind} (hk : k.isHoleBorder = false) : HolesWithin limit [k] :=
  cons hk (nil limit)

/-- A hole is one more that is open. -/
theorem enclose (h : HolesWithin limit ks) :
    HolesWithin (limit + 1) (.holeStart :: (ks ++ [.holeEnd])) := by
  rw [HolesWithin, openHoles_cons, countHole, if_pos (Nat.succ_pos limit)]
  exact openHoles_append (openHoles_succ h) [.holeEnd]

theorem textPieces (start stop : Nat) : HolesWithin limit (Piece.kinds (textPieces start stop)) := by
  unfold CSharpCheck.textPieces
  split
  · exact singleton rfl
  · exact nil limit

end HolesWithin

section Content

variable {scan : List Char → Group} {limit : Nat}

theorem holesWithin_holeTokens (hscan : ∀ text, HolesWithin limit (Piece.kinds (scan text).pieces))
    (inDirective : Bool) (depth start : Nat) (text : List Char) :
    HolesWithin limit
      (Piece.kinds (holeTokens scan inDirective depth start text).pieces) := by
  induction hn : text.length using Nat.strongRecOn generalizing depth start text with
  | ind n ih =>
    rw [holeTokens]
    split
    · exact .nil limit
    · next c cs hdrop =>
      split
      · exact .nil limit
      · simp only [Part.after, Piece.kinds_append, Piece.kinds_shift]
        refine (hscan _).append (ih _ ?_ _ _ _ rfl)
        have hlength := congrArg List.length hdrop
        simp only [List.length_drop, List.length_cons] at hlength ⊢
        omega

theorem holesWithin_hole (hscan : ∀ text, HolesWithin limit (Piece.kinds (scan text).pieces))
    (o : Opening) (multiLine inDirective : Bool) (start : Nat) (text : List Char) :
    HolesWithin (limit + 1)
      (Piece.kinds (hole o multiLine scan inDirective start text).pieces) := by
  have htokens := holesWithin_holeTokens hscan inDirective 0 (start + o.braces) (text.drop o.braces)
  simp only [hole, Piece.kinds_cons, Piece.kinds_append, List.cons_append]
  refine (htokens.append ?_).enclose
  split
  · exact .nil limit
  · exact .singleton rfl

theorem holesWithin_interpolatedBody
    (hscan : ∀ text, HolesWithin limit (Piece.kinds (scan text).pieces)) (o : Opening)
    (multiLine inDirective : Bool) (textStart start : Nat) (text : List Char) :
    HolesWithin (limit + 1) (Piece.kinds
      (interpolatedBody o multiLine scan inDirective textStart start text).pieces) := by
  fun_induction interpolatedBody o multiLine scan inDirective textStart start text with
  | case1 | case2 | case4 =>
    simp only [unclosedEnd, closedEnd, Piece.kinds_append]
    exact (HolesWithin.textPieces _ _).append (.singleton rfl)
  | case9 textStart start c cs _ _ _ _ length _ holeStart part ih =>
    simp only [Part.after, Piece.kinds_append]
    exact ((HolesWithin.textPieces _ _).append
      (holesWithin_hole hscan o multiLine inDirective holeStart _)).append ih
  | _ => assumption

end Content

theorem holesWithin_plainLexeme (limit : Nat) (text : List Char) :
    HolesWithin limit (Piece.kinds (plainLexeme text).toGroup.pieces) := by
  refine .singleton ?_
  cases text with
  | nil => rfl
  | cons c cs =>
    exact Kind.not_isHoleBorder_of_isSingle (single_plainLexeme (by simp)).isSingle

/-- In a scan no more holes are open at once than there is room for. -/
theorem holesWithin_scanGroup (inDirective : Bool) (room : Nat) (text : List Char) :
    HolesWithin room (Piece.kinds (scanGroup inDirective room text).pieces) := by
  induction room generalizing text with
  | zero =>
    unfold scanGroup
    split
    · exact holesWithin_plainLexeme 0 text
    · exact .singleton rfl
  | succ room ih =>
    unfold scanGroup
    split
    · exact holesWithin_plainLexeme _ text
    · exact .cons rfl (holesWithin_interpolatedBody ih _ _ _ _ _ _)

theorem holesWithin_directiveOpening (limit : Nat) (text : List Char) :
    HolesWithin limit (Piece.kinds (directiveOpening text).pieces) := by
  have hname (rest : List Char) {ks : List Kind} (hks : HolesWithin limit ks) :
      HolesWithin limit ((nameLexeme false rest).kind :: ks) :=
    .cons (Kind.not_isHoleBorder_of_isSingle (isSingle_nameLexeme false rest)) hks
  unfold directiveOpening
  simp only
  split
  · exact .cons rfl (.singleton rfl)
  · split
    · split
      · split
        · exact .cons rfl (hname _ (.nil limit))
        · exact .cons rfl (hname _ (.singleton rfl))
      · exact .cons rfl (hname _ (.nil limit))
    · exact .singleton rfl

/-- Between the tokens of a reading step at most `maxOpenHoles` holes are open, and none is open
before and after them. -/
theorem TokenSource.holesWithin_of_read {s : TokenSource} {r : Reading} (h : s.read = some r) :
    HolesWithin maxOpenHoles (r.tokens.map (·.kind)) := by
  obtain ⟨-, c, fs, -, ⟨-, rfl⟩ | ⟨-, rfl⟩ | ⟨hc, rfl⟩⟩ := read_cases h
  · exact .singleton rfl
  · exact .singleton rfl
  · simp only [readGroup, Cursor.kinds_tokens]
    split
    · exact holesWithin_directiveOpening _ _
    · exact holesWithin_scanGroup _ _ _

end CSharpCheck
