import CSharpCheck.Proofs.Scanning.LineStarts

/-!
# Line starts decide where directives open

A token knows whether it is the first one on its line. This is right of every token outside of
directives and interpolated strings, whatever lines the tokens and comments before it reach over. A
hash opens a directive exactly there, and anywhere else it is a bad token.
-/

namespace CSharpCheck

variable {text : List Char}

theorem scanGroup_hash (inDirective : Bool) (room : Nat) (cs : List Char) :
    scanGroup inDirective room ('#' :: cs) = (badLexeme .misplacedDirective).toGroup := by
  have hopening : opening? ('#' :: cs) = none := rfl
  have hplain : plainLexeme ('#' :: cs) = badLexeme .misplacedDirective := rfl
  rw [scanGroup, hopening, hplain]

theorem start_eq_zero_of_scanGroup {inDirective : Bool} {room : Nat} {p : Piece} {ps : List Piece}
    (h : (scanGroup inDirective room text).pieces = p :: ps) : p.start = 0 := by
  unfold scanGroup at h
  split at h
  · obtain ⟨rfl, -⟩ := List.cons.inj h
    rfl
  · cases room with
    | zero =>
      obtain ⟨rfl, -⟩ := List.cons.inj h
      rfl
    | succ room =>
      obtain ⟨rfl, -⟩ := List.cons.inj h
      rfl

namespace TokenSource

variable {s : TokenSource} {r : Reading} {t : Token} {last : List Token}

theorem start_eq_zero_of_groupAt {c : Cursor} {p : Piece} {ps : List Piece}
    (h : (s.groupAt c).pieces = p :: ps) : p.start = 0 := by
  cases hopens : s.opensDirective c with
  | true =>
    obtain ⟨qs, hqs⟩ := directiveStart_of_opensDirective hopens
    obtain ⟨rfl, -⟩ := List.cons.inj (hqs.symm.trans h)
    rfl
  | false =>
    rw [groupAt, if_neg (Bool.eq_false_iff.1 hopens)] at h
    exact start_eq_zero_of_scanGroup h

/-- The first token of a step outside of directives, unless it ends the text, stands behind the gap
and knows what is noted there. -/
theorem first_of_read (h : s.read = some r) (hout : s.inDirective = false)
    (htokens : r.tokens = t :: last) (hkind : t.kind ≠ .endOfFile) : s.behindGap.rest ≠ [] ∧
      t.atLineStart = !s.behindGap.lineUsed ∧ t.span.start = s.behindGap.position := by
  rw [read_eq (finished_of_read h), hout, Bool.false_and, if_neg Bool.false_ne_true] at h
  split at h
  · cases h
    obtain ⟨rfl, -⟩ := List.cons.inj htokens
    exact absurd rfl hkind
  · next hrest =>
    cases h
    rw [readGroup_eq] at htokens
    cases hpieces : (s.groupAt s.behindGap).pieces with
    | nil =>
      rw [hpieces] at htokens
      contradiction
    | cons p ps =>
      rw [hpieces] at htokens
      obtain ⟨rfl, -⟩ := List.cons.inj htokens
      refine ⟨hrest, rfl, ?_⟩
      rw [Cursor.token, start_eq_zero_of_groupAt hpieces, Cursor.positionAt_zero]

/-- A hash in front of which nothing on its line has been used opens a directive. Any other is a bad
token, and it is reported. -/
theorem hash_of_read (h : s.read = some r) (hout : s.inDirective = false)
    (htokens : r.tokens = t :: last) (hhash : s.behindGap.rest.head? = some '#') :
    if s.behindGap.lineUsed then t.kind = .bad ∧
      ⟨.lexical .misplacedDirective, .point s.behindGap.position⟩ ∈ r.findings
    else t.kind = .directiveStart := by
  obtain ⟨cs, hrest⟩ := List.head?_eq_some_iff.1 hhash
  have hopens : s.opensDirective s.behindGap = !s.behindGap.lineUsed := by
    simp [opensDirective, hhash, hout]
  rw [read_eq (finished_of_read h), hout, Bool.false_and, if_neg Bool.false_ne_true,
    if_neg (by simp [hrest])] at h
  cases h
  rw [readGroup_eq] at htokens ⊢
  cases hused : s.behindGap.lineUsed with
  | false =>
    obtain ⟨ps, hps⟩ := directiveStart_of_opensDirective (hopens.trans (by rw [hused]; rfl))
    rw [hps] at htokens
    obtain ⟨rfl, -⟩ := List.cons.inj htokens
    rfl
  | true =>
    rw [hused] at hopens
    have hgroup : s.groupAt s.behindGap = (badLexeme .misplacedDirective).toGroup := by
      rw [groupAt, hopens, hrest]
      exact scanGroup_hash _ _ cs
    rw [hgroup] at htokens ⊢
    obtain ⟨rfl, -⟩ := List.cons.inj htokens
    refine ⟨rfl, List.mem_append_right _ ?_⟩
    have hfinding : s.behindGap.finding ⟨.misplacedDirective, 0, 0⟩ =
        ⟨.lexical .misplacedDirective, .point s.behindGap.position⟩ := by
      rw [Cursor.finding, Cursor.positionAt_zero]
      rfl
    rw [hout, audible_false, ← hfinding]
    exact List.mem_singleton_self _

end TokenSource

/-- A token outside of directives and interpolated strings, or the first one of them, is at the start
of its line if and only if only white space stands before it there. A hash opens a directive if and
only if it is, and any other hash is a bad token, which is reported. -/
theorem line_starts_decide_directives {ts before after : List Token} {t : Token}
    {fs : List Finding} {s : TokenSource} (h : TokenSource.Collects text ts fs s)
    (hts : ts = before ++ t :: after) (hdirectives : OutsideDirectives before)
    (hstrings : OutsideStrings before) (hkind : t.kind ≠ .endOfFile) :
    (t.atLineStart = true ↔ FirstOnLine text t.span.start.offset) ∧
      (text[t.span.start.offset]? = some '#' →
        (t.kind = .directiveStart ↔ FirstOnLine text t.span.start.offset) ∧
          (¬FirstOnLine text t.span.start.offset → t.kind = .bad ∧
            ∃ e : LexicalError, e.code = "CS1040" ∧ ⟨.lexical e, .point t.span.start⟩ ∈ fs)) := by
  obtain ⟨ts', fs', s', r, first, last, later, h', hread, rfl, htokens, rfl, -, -⟩ :=
    h.exists_reading hts
  obtain ⟨rfl, hout⟩ := h'.first_of_outside hread htokens hdirectives hstrings
  obtain ⟨hrest, hline, hstart⟩ := TokenSource.first_of_read hread hout htokens hkind
  have hin : s'.behindGap.In text := h'.in_text.passGap _
  have htracks : s'.behindGap.Tracks text := h'.tracks.passGap h'.in_text s'.inDirective
  obtain ⟨d, ds, hcons, hd, -⟩ := s'.exists_visible_of_rest_ne_nil (by simp [hout]) hrest
  have hused := htracks.of_head hcons hd
  rw [hline, hstart, Bool.not_eq_true']
  refine ⟨hused, fun hhash ↦ ?_⟩
  have hhead : s'.behindGap.rest.head? = some '#' := by
    rw [hin.rest, List.head?_drop, hhash]
  have hgiven := TokenSource.hash_of_read hread hout htokens hhead
  rw [← hused]
  split at hgiven
  · next hbefore =>
    obtain ⟨hbad, hfound⟩ := hgiven
    refine ⟨iff_of_false (by simp [hbad]) (by simp [hbefore]), fun _ ↦ ?_⟩
    exact ⟨hbad, .misplacedDirective, rfl,
      List.mem_append_right _ (List.mem_append_left _ hfound)⟩
  · next hbefore =>
    have hnone : s'.behindGap.lineUsed = false := Bool.eq_false_iff.2 hbefore
    exact ⟨iff_of_true hgiven hnone, fun hnot ↦ absurd hnone hnot⟩

theorem line_starts_decide_directives_comment :
    let text := "x /*\n*/ #".toList
    ∃ t ∈ tokensOf text, t.kind = .bad ∧ t.atLineStart = false ∧
      ∃ e : LexicalError, e.code = "CS1040" ∧
        ⟨.lexical e, .point t.span.start⟩ ∈ tokenFindings text := by
  intro text
  have htokens : tokensOf "x /*\n*/ #".toList =
      [⟨.identifier, "x", some "x", ⟨⟨1, 1, 0⟩, ⟨1, 2, 1⟩⟩, true, []⟩]
      ++ ⟨.bad, "#", none, ⟨⟨2, 4, 8⟩, ⟨2, 5, 9⟩⟩, false, []⟩ ::
        [⟨.endOfFile, "", none, .point ⟨2, 5, 9⟩, false, []⟩] := by cbv
  have hnot : ¬FirstOnLine "x /*\n*/ #".toList 8 := by decide
  obtain ⟨s, h⟩ := TokenSource.Collects.exists_ofText text
  obtain ⟨hline, hhash⟩ := line_starts_decide_directives h htokens (by decide) (by decide)
    (by decide)
  obtain ⟨hbad, hfound⟩ := (hhash rfl).2 hnot
  exact ⟨_, htokens ▸ List.mem_append_right _ List.mem_cons_self, hbad,
    Bool.eq_false_iff.2 (mt hline.1 hnot), hfound⟩

end CSharpCheck
