import CSharpCheck.Proofs.Scanning.OpenHoles
import CSharpCheck.Proofs.Scanning.Steps

/-!
# Tokens that touch

Outside of holes the pieces of a scan touch one another: gaps stand inside of holes and between
scans only.
-/

namespace CSharpCheck

/-- The pieces go from `start` to `stop`, each of them from where the one before it stops. Between
the borders of a hole, which holds at most `limit` more at once, there may be gaps. -/
inductive Snug (limit : Nat) : (start : Nat) → List Piece → (stop : Nat) → Prop where
  | nil (start : Nat) : Snug limit start [] start
  | piece {start stop : Nat} {p : Piece} {ps : List Piece} : p.start = start →
      p.kind.isHoleBorder = false → Snug limit (start + p.length) ps stop →
      Snug limit start (p :: ps) stop
  | hole {start stop : Nat} {p q : Piece} {inside ps : List Piece} : p.start = start →
      p.kind = .holeStart → HolesWithin limit (Piece.kinds inside) → q.kind = .holeEnd →
      Snug limit (q.start + q.length) ps stop → Snug limit start (p :: (inside ++ q :: ps)) stop

theorem exists_openHoles_of_append {limit n m : Nat} {ks ls : List Kind}
    (h : openHoles limit n (ks ++ ls) = some m) :
    ∃ k, openHoles limit n ks = some k ∧ openHoles limit k ls = some m := by
  rw [openHoles, List.foldlM_append] at h
  exact Option.bind_eq_some_iff.1 h

namespace Snug

variable {limit start stop mid : Nat} {ps qs l : List Piece} {p : Piece}

theorem append (hps : Snug limit start ps mid) (hqs : Snug limit mid qs stop) :
    Snug limit start (ps ++ qs) stop := by
  induction hps with
  | nil => exact hqs
  | piece hstart hkind _ ih => exact .piece hstart hkind (ih hqs)
  | hole hstart hopen hinside hclose _ ih =>
    rw [List.cons_append, List.append_assoc, List.cons_append]
    exact .hole hstart hopen hinside hclose (ih hqs)

theorem single (hstart : p.start = start) (hkind : p.kind.isHoleBorder = false) :
    Snug limit start [p] (start + p.length) :=
  .piece hstart hkind (.nil _)

/-- Pieces that follow begin where the ones before them stop. -/
theorem head (h : Snug limit start ps stop) :
    (ps = [] ∧ stop = start) ∨ ∃ q qs, ps = q :: qs ∧ q.start = start := by
  cases h with
  | nil => exact .inl ⟨rfl, rfl⟩
  | piece hstart | hole hstart => exact .inr ⟨_, _, rfl, hstart⟩

/-- Inside of a hole one hole at least is open. -/
theorem openHoles_inside {m : Nat} {ks ls : List Kind} (h : HolesWithin limit (ks ++ ls))
    (hopen : openHoles (limit + 1) 1 ks = some m) : m ≠ 0 := by
  obtain ⟨n, hn, -⟩ := exists_openHoles_of_append h
  rw [openHoles_succ hn, Option.some.injEq] at hopen
  omega

/-- A piece behind which no hole is open is followed by a piece that it touches, or it is the last
one. -/
theorem next (h : Snug limit start ps stop) (hps : ps = l ++ p :: qs)
    (hopen : openHoles (limit + 1) 0 (Piece.kinds (l ++ [p])) = some 0) :
    (qs = [] ∧ stop = p.start + p.length) ∨
      ∃ q rest, qs = q :: rest ∧ q.start = p.start + p.length := by
  induction h generalizing l with
  | nil => simp at hps
  | @piece start stop first ps hstart hkind htail ih =>
    cases l with
    | nil =>
      cases hps
      subst hstart
      exact htail.head
    | cons x l =>
      cases hps
      have hcount : countHole (limit + 1) 0 first.kind = some 0 := by
        unfold countHole
        split
        · next heq =>
          rw [heq] at hkind
          contradiction
        · next heq =>
          rw [heq] at hkind
          contradiction
        · rfl
      rw [List.cons_append, Piece.kinds_cons, openHoles_cons, hcount] at hopen
      exact ih rfl hopen
  | @hole start stop border close inside ps hstart hborder hinside hclose htail ih =>
    cases l with
    | nil =>
      cases hps
      rw [List.nil_append, Piece.kinds_cons, openHoles_cons, hborder, countHole,
        if_pos (Nat.succ_pos limit)] at hopen
      exact absurd (Option.some.inj hopen) (Nat.succ_ne_zero 0)
    | cons x l =>
      rw [List.cons_append, List.cons.injEq] at hps
      obtain ⟨rfl, hps⟩ := hps
      rw [List.cons_append, Piece.kinds_cons, openHoles_cons, hborder, countHole,
        if_pos (Nat.succ_pos limit)] at hopen
      change openHoles (limit + 1) 1 (Piece.kinds (l ++ [p])) = some 0 at hopen
      rcases List.append_eq_append_iff.1 hps with ⟨before, rfl, hafter⟩ | ⟨after, rfl, hafter⟩
      · -- the piece is the border or stands behind it
        rw [List.append_assoc, Piece.kinds_append] at hopen
        obtain ⟨n, hn, hrest⟩ := exists_openHoles_of_append hopen
        rw [openHoles_succ hinside, Option.some.injEq] at hn
        subst hn
        cases before with
        | nil =>
          cases hafter
          exact htail.head
        | cons y before =>
          cases hafter
          rw [List.cons_append, Piece.kinds_cons, openHoles_cons, hclose] at hrest
          exact ih rfl hrest
      · -- the piece stands in the hole, or it is the border
        cases after with
        | nil =>
          cases hafter
          exact htail.head
        | cons y after =>
          cases hafter
          rw [List.append_cons, Piece.kinds_append] at hinside
          exact absurd rfl (openHoles_inside hinside hopen)

theorem textPieces {start stop : Nat} (h : start ≤ stop) :
    Snug limit start (textPieces start stop) stop := by
  unfold CSharpCheck.textPieces
  split
  · have htext : Snug limit start [.bare .interpolatedText start (stop - start)]
        (start + (stop - start)) := .single rfl rfl
    rwa [Nat.add_sub_cancel' h] at htext
  · obtain rfl : start = stop := by omega
    exact .nil start

end Snug

section Content

variable {scan : List Char → Group} {limit : Nat}

theorem snug_hole (hscan : ∀ text, HolesWithin limit (Piece.kinds (scan text).pieces))
    (o : Opening) (multiLine inDirective : Bool) (start : Nat) (text : List Char) :
    Snug limit start (hole o multiLine scan inDirective start text).pieces
      (hole o multiLine scan inDirective start text).stop := by
  have htokens := holesWithin_holeTokens hscan inDirective 0 (start + o.braces) (text.drop o.braces)
  refine .hole rfl rfl ?_ rfl (.nil _)
  change HolesWithin limit (Piece.kinds (_ ++ _))
  rw [Piece.kinds_append]
  refine htokens.append ?_
  split
  · exact .nil limit
  · exact .singleton rfl

theorem snug_interpolatedBody (hscan : ∀ text, HolesWithin limit (Piece.kinds (scan text).pieces))
    (o : Opening) (multiLine inDirective : Bool) {textStart start : Nat} (text : List Char)
    (hstart : textStart ≤ start) :
    Snug limit textStart
      (interpolatedBody o multiLine scan inDirective textStart start text).pieces
      (interpolatedBody o multiLine scan inDirective textStart start text).stop := by
  fun_induction interpolatedBody o multiLine scan inDirective textStart start text with
  | case1 | case2 => exact (Snug.textPieces hstart).append (.single rfl rfl)
  | case4 textStart start c cs _ _ _ run =>
    simp only [closedEnd, Nat.add_assoc]
    exact (Snug.textPieces hstart).append (.single rfl rfl)
  | case9 textStart start c cs _ _ _ _ length _ holeStart part ih =>
    have hle : textStart ≤ holeStart := Nat.le_trans hstart (Nat.le_add_right _ _)
    exact ((Snug.textPieces hle).append (snug_hole hscan o multiLine inDirective holeStart _)).append
      (ih (Nat.le_refl _))
  | _ =>
    rename_i ih
    exact ih (by omega)

end Content

/-- The pieces of a scan touch one another outside of holes. -/
theorem snug_scanGroup (inDirective : Bool) (room : Nat) {text : List Char} (h : text ≠ []) :
    Snug (room - 1) 0 (scanGroup inDirective room text).pieces
      (scanGroup inDirective room text).length := by
  have hplain (limit : Nat) :
      Snug limit 0 (plainLexeme text).toGroup.pieces (plainLexeme text).toGroup.length := by
    have hkind := Kind.not_isHoleBorder_of_isSingle (single_plainLexeme h).isSingle
    have hsingle : Snug limit 0 [(plainLexeme text).piece] (0 + (plainLexeme text).piece.length) :=
      .single rfl hkind
    rwa [Nat.zero_add] at hsingle
  unfold scanGroup
  split
  · exact hplain _
  · next o _ =>
    cases room with
    | zero =>
      have hsingle : Snug (0 - 1) 0 [.bare .bad 0 text.length] (0 + text.length) := .single rfl rfl
      rwa [Nat.zero_add] at hsingle
    | succ room =>
      refine .piece rfl rfl ?_
      rw [Nat.zero_add]
      exact snug_interpolatedBody (fun text ↦ holesWithin_scanGroup inDirective room text) o _ _ _
        (Nat.le_refl _)

/-! ### Tokens -/

/-- A token of a step behind which no hole is open is followed by a token that it touches, or the
step stops with it. -/
theorem TokenSource.next_of_read {s : TokenSource} {r : Reading} (h : s.read = some r)
    (hfirst : ∀ t ∈ r.tokens.head?, t.kind ≠ .directiveStart) {l rest : List Token} {t : Token}
    (htokens : r.tokens = l ++ t :: rest)
    (hopen : openHoles maxOpenHoles 0 ((l ++ [t]).map (·.kind)) = some 0) :
    (rest = [] ∧ r.source.cursor.position = t.span.stop) ∨
      ∃ u us, rest = u :: us ∧ u.span.start = t.span.stop := by
  have hempty {kind : Kind} {atLineStart : Bool} {c : Cursor}
      (hone : [c.emptyToken kind atLineStart] = l ++ t :: rest) :
      rest = [] ∧ c.position = t.span.stop := by
    cases l with
    | nil =>
      cases hone
      exact ⟨rfl, rfl⟩
    | cons x l => simp at hone
  rw [read_eq (finished_of_read h)] at h
  split at h
  · cases h
    exact .inl (hempty htokens)
  · split at h
    · cases h
      exact .inl (hempty htokens)
    · next hrest =>
      cases h
      change s.behindGap.tokens (s.groupAt s.behindGap).pieces = _ at htokens
      have hopens : s.opensDirective s.behindGap = false := Bool.eq_false_iff.2 fun hopens ↦ by
        obtain ⟨ps, hps⟩ := directiveStart_of_opensDirective hopens
        refine hfirst (s.behindGap.token (!s.behindGap.lineUsed) (.bare .directiveStart 0 1)) ?_ rfl
        change _ ∈ (s.behindGap.tokens (s.groupAt s.behindGap).pieces).head?
        rw [hps]
        rfl
      have hgroup : s.groupAt s.behindGap =
          scanGroup s.inDirective maxOpenHoles s.behindGap.rest := if_neg (by simp [hopens])
      have hsnug := snug_scanGroup s.inDirective maxOpenHoles hrest
      have hmap := s.behindGap.map_tokens (s.groupAt s.behindGap).pieces
      rw [htokens, List.map_append, List.map_cons, eq_comm, List.map_eq_append_iff] at hmap
      obtain ⟨before, after, hpieces, hbefore, hafter⟩ := hmap
      obtain ⟨p, ps, rfl, hp, hps⟩ := List.map_eq_cons_iff.1 hafter
      rw [Prod.mk.injEq] at hp
      have hkinds : Piece.kinds (before ++ [p]) = (l ++ [t]).map (·.kind) := by
        have hfst := congrArg (List.map Prod.fst) hbefore
        rw [List.map_map, List.map_map] at hfst
        rw [Piece.kinds_append, List.map_append]
        exact congrArg₂ _ hfst (congrArg (fun k ↦ [k]) hp.1)
      rw [← hgroup] at hsnug
      rcases hsnug.next hpieces (hkinds ▸ hopen) with ⟨rfl, hstop⟩ | ⟨q, qs, rfl, hq⟩
      · refine .inl ⟨List.map_eq_nil_iff.1 hps.symm, ?_⟩
        rw [← hp.2]
        exact congrArg s.behindGap.positionAt hstop
      · obtain ⟨u, us, rfl, hu, -⟩ := List.map_eq_cons_iff.1 hps.symm
        refine .inr ⟨u, us, rfl, ?_⟩
        rw [Prod.mk.injEq] at hu
        rw [hu.2, ← hp.2, hq]

end CSharpCheck
