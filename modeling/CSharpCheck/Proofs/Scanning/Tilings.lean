import CSharpCheck.Proofs.Scanning.Groups
import CSharpCheck.TokenSource

/-!
# Scans take every character once

The pieces of a scan stand one after the other. Between two of them there is nothing but white
space and comments, so that a scan neither loses characters nor takes any of them twice.
-/

namespace CSharpCheck

/-! ### Gaps -/

/-- The characters are white space, line ends and comments, in front of `rest`. A line comment goes
on to the end of its line, and a comment that is not closed to the end of the text. -/
inductive IsGap : (characters rest : List Char) → Prop where
  | nil {rest : List Char} : IsGap [] rest
  | white {c : Char} {cs rest : List Char} : isBlank c = true ∨ isLineEnd c = true →
      IsGap cs rest → IsGap (c :: cs) rest
  | lineComment {body cs rest : List Char} : (∀ c ∈ body, isLineEnd c = false) →
      (cs ++ rest).head?.all isLineEnd = true → IsGap cs rest →
      IsGap ('/' :: '/' :: (body ++ cs)) rest
  | blockComment {body cs rest : List Char} : ¬['*', '/'] <:+: body ++ ['*'] → IsGap cs rest →
      IsGap ('/' :: '*' :: (body ++ '*' :: '/' :: cs)) rest
  | openComment {body : List Char} : ¬['*', '/'] <:+: body → IsGap ('/' :: '*' :: body) []

namespace IsGap

theorem append {cs ds rest : List Char} (hcs : IsGap cs (ds ++ rest)) (hds : IsGap ds rest) :
    IsGap (cs ++ ds) rest := by
  generalize hfollowing : ds ++ rest = following at hcs
  induction hcs with
  | nil => exact hds
  | white hc _ ih => exact .white hc (ih hfollowing)
  | lineComment hbody hend _ ih =>
    simp only [List.cons_append, List.append_assoc]
    refine .lineComment hbody ?_ (ih hfollowing)
    rwa [List.append_assoc, hfollowing]
  | blockComment hbody _ ih =>
    simp only [List.cons_append, List.append_assoc]
    exact .blockComment hbody (ih hfollowing)
  | openComment hbody =>
    obtain ⟨rfl, rfl⟩ := List.append_eq_nil_iff.1 hfollowing
    rw [List.append_nil]
    exact .openComment hbody

/-- Blanks alone are a gap. -/
theorem of_blank {cs rest : List Char} (h : ∀ c ∈ cs, isBlank c = true) : IsGap cs rest := by
  induction cs with
  | nil => exact .nil
  | cons c cs ih =>
    exact .white (.inl (h c List.mem_cons_self)) (ih fun d hd ↦ h d (List.mem_cons_of_mem c hd))

end IsGap

theorem blockCommentLength?_eq_some {cs : List Char} {n : Nat}
    (h : blockCommentLength? cs = some n) : ∃ body rest, cs = body ++ '*' :: '/' :: rest ∧
      n = body.length + 2 ∧ ¬['*', '/'] <:+: body ++ ['*'] := by
  fun_induction blockCommentLength? cs generalizing n with
  | case1 => contradiction
  | case2 rest =>
    cases h
    exact ⟨[], rest, rfl, rfl, by decide⟩
  | case3 c cs hc ih =>
    obtain ⟨m, hm, rfl⟩ := Option.map_eq_some_iff.1 h
    obtain ⟨body, rest, rfl, rfl, hbody⟩ := ih hm
    refine ⟨c :: body, rest, rfl, rfl, fun hinfix ↦ ?_⟩
    rw [List.cons_append, List.infix_cons_iff] at hinfix
    rcases hinfix with hprefix | hinfix
    · cases body with
      | nil => simp at hprefix
      | cons d body =>
        rw [List.cons_append, List.cons_prefix_cons, List.cons_prefix_cons] at hprefix
        exact hc (body ++ '*' :: '/' :: rest) hprefix.1.symm (by rw [← hprefix.2.1]; rfl)
    · exact hbody hinfix

theorem blockCommentLength?_eq_none {cs : List Char} (h : blockCommentLength? cs = none) :
    ¬['*', '/'] <:+: cs := by
  fun_induction blockCommentLength? cs with
  | case1 => decide
  | case2 rest => contradiction
  | case3 c cs hc ih =>
    rw [Option.map_eq_none_iff] at h
    intro hinfix
    rcases List.infix_cons_iff.1 hinfix with hprefix | hinfix
    · cases cs with
      | nil => simp at hprefix
      | cons d cs =>
        rw [List.cons_prefix_cons, List.cons_prefix_cons] at hprefix
        exact hc cs hprefix.1.symm (by rw [← hprefix.2.1])
    · exact ih h hinfix

theorem isLineEnd_of_mem_restOfLine {c : Char} {text : List Char} (h : c ∈ restOfLine text) :
    isLineEnd c = false := by
  have hall := List.all_takeWhile (p := (!isLineEnd ·)) (l := text)
  simpa using List.all_eq_true.1 hall c h

theorem restOfLine_cons {c : Char} (h : isLineEnd c = false) (cs : List Char) :
    restOfLine (c :: cs) = c :: restOfLine cs := by
  simp [restOfLine, h]

theorem restOfLine_lineEnd {c : Char} (h : isLineEnd c = true) (cs : List Char) :
    restOfLine (c :: cs) = [] := by
  simp [restOfLine, h]

theorem restOfLine_of_lineEnd {text : List Char} (h : text.head?.all isLineEnd = true) :
    restOfLine text = [] := by
  cases text with
  | nil => rfl
  | cons c cs => exact restOfLine_lineEnd h cs

/-- Behind the rest of a line comes a line end or nothing. -/
theorem isLineEnd_head_drop_restOfLine (text : List Char) :
    (text.drop (restOfLine text).length).head?.all isLineEnd = true := by
  induction text with
  | nil => rfl
  | cons c cs ih =>
    cases hc : isLineEnd c with
    | true => simp [restOfLine, hc]
    | false => simpa [restOfLine, hc] using ih

theorem gapItem?_blank (inDirective : Bool) {c : Char} (hc : isBlank c = true) (cs : List Char) :
    gapItem? inDirective (c :: cs) = some .blank := by
  have hslash : c ≠ '/' := by
    rintro rfl
    contradiction
  simp [gapItem?, hslash, hc, not_isLineEnd_of_isBlank hc]

/-- A gap goes on behind a blank. -/
theorem gap_blank (inDirective : Bool) {c : Char} (hc : isBlank c = true) (cs : List Char) :
    gap inDirective (c :: cs) = .blank :: gap inDirective cs := by
  rw [gap, gapItem?_blank inDirective hc]
  rfl

/-- An element at the beginning of the text and a gap behind it make a gap. -/
theorem isGap_take_gapItem? {inDirective : Bool} {text cs rest : List Char} {item : GapItem}
    (hitem : gapItem? inDirective text = some item) (htext : text.drop item.length = cs ++ rest)
    (hcs : IsGap cs rest) : IsGap (text.take item.length ++ cs) rest := by
  unfold gapItem? at hitem
  split at hitem
  · contradiction
  · next line =>
    cases hitem
    have htake : line.take (restOfLine line).length = restOfLine line :=
      List.prefix_iff_eq_take.1 (List.takeWhile_prefix _) |>.symm
    simp only [GapItem.length, List.take_succ_cons, List.drop_succ_cons, htake,
      List.cons_append] at htext ⊢
    refine .lineComment (fun c ↦ isLineEnd_of_mem_restOfLine) ?_ hcs
    rw [← htext]
    exact isLineEnd_head_drop_restOfLine line
  · next comment =>
    split at hitem
    · next extra hextra =>
      cases hitem
      obtain ⟨body, after, rfl, rfl, hbody⟩ := blockCommentLength?_eq_some hextra
      have hcomment : body ++ '*' :: '/' :: after = body ++ ['*', '/'] ++ after := by simp
      have hlength : (body ++ ['*', '/']).length = body.length + 2 := by simp
      simp only [GapItem.length, List.take_succ_cons, List.drop_succ_cons, hcomment,
        List.take_left' hlength, List.drop_left' hlength] at htext ⊢
      simpa using .blockComment hbody hcs
    · next hopen =>
      cases hitem
      simp only [GapItem.length, List.take_succ_cons, List.drop_succ_cons, List.take_length,
        List.drop_length] at htext ⊢
      obtain ⟨rfl, rfl⟩ := List.append_eq_nil_iff.1 htext.symm
      rw [List.append_nil]
      exact .openComment (blockCommentLength?_eq_none hopen)
  · next c cs _ _ =>
    split at hitem
    · next hend =>
      split at hitem
      · contradiction
      · cases hitem
        have hfirst : isBlank c = true ∨ isLineEnd c = true := .inr hend
        simp only [GapItem.length] at htext ⊢
        split at htext
        · next hpair =>
          obtain ⟨d, ds, rfl⟩ : ∃ d ds, cs = d :: ds := by
            cases cs with
            | nil => simp at hpair
            | cons d ds => exact ⟨d, ds, rfl⟩
          have hfeed : d = '\n' := by simpa using (Bool.and_eq_true_iff.1 hpair).2
          rw [if_pos hpair]
          exact .white hfirst (.white (.inr (by rw [hfeed]; rfl)) hcs)
        · next hpair =>
          rw [if_neg hpair]
          exact .white hfirst hcs
    · split at hitem
      · next hblank =>
        cases hitem
        exact .white (.inl hblank) hcs
      · contradiction

/-- What is passed as a gap is one. -/
theorem isGap_take_gap (inDirective : Bool) (text : List Char) :
    IsGap (text.take (gapLength (gap inDirective text)))
      (text.drop (gapLength (gap inDirective text))) := by
  fun_induction gap inDirective text with
  | case1 => exact .nil
  | case2 => exact .nil
  | case3 text item hitem hne ih =>
    simp only [gapLength, List.foldr_cons] at ih ⊢
    rw [List.take_add, ← List.drop_drop]
    refine isGap_take_gapItem? hitem ?_ ih
    rw [List.take_append_drop]

/-! ### Pieces in a text -/

/-- The pieces stand one after the other, with gaps between them, in the text that starts at
`start`, up to `stop`. None of them is the end of the text. -/
inductive Tiled : (start : Nat) → (text : List Char) → List Piece → (stop : Nat) → Prop where
  | nil (start : Nat) (text : List Char) : Tiled start text [] start
  | gap {start n stop : Nat} {text : List Char} {ps : List Piece} :
      IsGap (text.take n) (text.drop n) → Tiled (start + n) (text.drop n) ps stop →
      Tiled start text ps stop
  | piece {start stop : Nat} {text : List Char} {p : Piece} {ps : List Piece} :
      p.start = start → p.kind ≠ .endOfFile →
      Tiled (start + p.length) (text.drop p.length) ps stop → Tiled start text (p :: ps) stop

namespace Tiled

variable {start mid stop : Nat} {text : List Char} {ps qs : List Piece}

theorem le (h : Tiled start text ps stop) : start ≤ stop := by
  induction h with
  | nil => exact Nat.le_refl _
  | gap _ _ ih => omega
  | piece _ _ _ ih => omega

theorem append (hps : Tiled start text ps mid) (hqs : Tiled mid (text.drop (mid - start)) qs stop) :
    Tiled start text (ps ++ qs) stop := by
  induction hps with
  | nil => simpa using hqs
  | @gap start n mid text ps hgap hps ih =>
    have hle := hps.le
    refine .gap hgap (ih ?_)
    rwa [List.drop_drop, show n + (mid - (start + n)) = mid - start by omega]
  | @piece start mid text p ps hstart hkind hps ih =>
    have hle := hps.le
    refine .piece hstart hkind (ih ?_)
    rwa [List.drop_drop, show p.length + (mid - (start + p.length)) = mid - start by omega]

theorem shift (h : Tiled start text ps stop) (n : Nat) :
    Tiled (n + start) text (ps.map (·.shift n)) (n + stop) := by
  induction h with
  | nil => exact .nil _ _
  | gap hgap _ ih => exact .gap hgap (by rwa [Nat.add_assoc])
  | @piece start stop text p ps hstart hkind _ ih =>
    refine .piece (congrArg (n + ·) hstart) hkind ?_
    rwa [Nat.add_assoc]

theorem single {p : Piece} (hstart : p.start = start) (hkind : p.kind ≠ .endOfFile) :
    Tiled start text [p] (start + p.length) :=
  .piece hstart hkind (.nil _ _)

theorem le_of_mem (h : Tiled start text ps stop) : ∀ p ∈ ps, p.start + p.length ≤ stop := by
  induction h with
  | nil => exact fun p hp ↦ nomatch hp
  | gap _ _ ih => exact ih
  | piece hstart _ hps ih =>
    refine List.forall_mem_cons.2 ⟨?_, ih⟩
    rw [hstart]
    exact hps.le

theorem start_le_of_mem (h : Tiled start text ps stop) : ∀ p ∈ ps, start ≤ p.start := by
  induction h with
  | nil => exact List.forall_mem_nil _
  | gap _ _ ih => exact fun p hp ↦ Nat.le_of_add_right_le (ih p hp)
  | piece hstart _ _ ih =>
    refine List.forall_mem_cons.2 ⟨Nat.le_of_eq hstart.symm, fun p hp ↦ ?_⟩
    exact Nat.le_of_add_right_le (ih p hp)

/-- The pieces of a scan stand one behind the other. -/
theorem pairwise (h : Tiled start text ps stop) :
    ps.Pairwise fun p q ↦ p.start + p.length ≤ q.start := by
  induction h with
  | nil => exact .nil
  | gap _ _ ih => exact ih
  | piece hstart _ hps ih => exact List.pairwise_cons.2 ⟨hstart ▸ hps.start_le_of_mem, ih⟩

end Tiled

/-- A text token that has begun at `start` is followed by the pieces behind it. -/
theorem tiled_textPieces {start mid stop : Nat} {text : List Char} {ps : List Piece}
    (hmid : start ≤ mid) (h : Tiled mid (text.drop (mid - start)) ps stop) :
    Tiled start text (textPieces start mid ++ ps) stop := by
  unfold textPieces
  split
  · rw [List.singleton_append]
    refine .piece rfl (by simp [Piece.bare]) ?_
    simpa only [Piece.bare, Nat.add_sub_cancel' hmid] using h
  · obtain rfl : start = mid := by omega
    rw [Nat.sub_self, List.drop_zero] at h
    exact h

/-- The pieces of the group cover the beginning of the text, which is not empty. -/
structure Group.Covers (g : Group) (text : List Char) : Prop where
  tiled : Tiled 0 text g.pieces g.length
  length_pos : 0 < g.length

theorem drop_sub_one {α : Type} {n : Nat} (hn : 0 < n) (x : α) (xs : List α) :
    xs.drop (n - 1) = (x :: xs).drop n := by
  obtain ⟨n, rfl⟩ := Nat.exists_eq_add_one.2 hn
  rfl

section Content

variable {scan : List Char → Group}

theorem tiled_holeTokens (hscan : ∀ text, text ≠ [] → (scan text).Covers text)
    (inDirective : Bool) (depth start : Nat) (text : List Char) :
    Tiled start text (holeTokens scan inDirective depth start text).pieces
      (holeTokens scan inDirective depth start text).stop := by
  induction hn : text.length using Nat.strongRecOn generalizing depth start text with
  | ind n ih =>
    have hgap := isGap_take_gap inDirective text
    rw [holeTokens]
    generalize gapLength (gap inDirective text) = skipped at hgap ⊢
    split
    · exact .gap hgap (.nil _ _)
    · next c cs hdrop =>
      split
      · exact .gap hgap (.nil _ _)
      · obtain ⟨hgroup, hpos⟩ := hscan (c :: cs) (by simp)
        have hlength := congrArg List.length hdrop
        simp only [List.length_drop, List.length_cons] at hlength
        simp only [Part.after]
        refine .gap hgap ?_
        rw [hdrop]
        refine (hgroup.shift (start + skipped)).append ?_
        rw [Nat.add_zero, Nat.add_sub_cancel_left, ← drop_sub_one hpos]
        exact ih _ (by rw [List.length_drop]; omega) _ _ _ rfl

theorem tiled_hole (hscan : ∀ text, text ≠ [] → (scan text).Covers text) (o : Opening)
    (multiLine inDirective : Bool) (start : Nat) (text : List Char) :
    Tiled start text (hole o multiLine scan inDirective start text).pieces
      (hole o multiLine scan inDirective start text).stop := by
  have htokens := tiled_holeTokens hscan inDirective 0 (start + o.braces) (text.drop o.braces)
  simp only [hole]
  generalize holeTokens scan inDirective 0 (start + o.braces) (text.drop o.braces) = tokens
    at htokens ⊢
  rw [List.cons_append, List.cons_append, List.append_assoc]
  refine .piece rfl (by simp [Piece.bare]) (htokens.append ?_)
  split
  · next hformat =>
    rw [hformat]
    exact .single rfl (by simp [Piece.bare])
  · exact .piece rfl (by simp [Piece.bare]) (.single rfl (by simp [Piece.bare]))

theorem length_escape_pos (text : List Char) : 0 < (escape text).length := by
  unfold escape
  simp only [Escape.numeric]
  repeat' split
  all_goals
    simp only
    omega

/-- At least one brace is text or opens a hole. -/
theorem length_braceRole_pos {o : Opening} {run length : Nat} (hrun : 0 < run)
    (h : o.braceRole run = .text length ∨ o.braceRole run = .tooMany length) : 0 < length := by
  unfold Opening.braceRole at h
  split at h
  · split at h <;> simp at h
    omega
  · split at h
    · simp at h
      omega
    · split at h <;> simp at h
      omega

theorem lt_stop_hole {o : Opening} (ho : 0 < o.braces) (multiLine inDirective : Bool) (start : Nat)
    (text : List Char) : start < (hole o multiLine scan inDirective start text).stop := by
  have htokens := le_stop_holeTokens scan inDirective 0 (start + o.braces) (text.drop o.braces)
  simp only [hole]
  omega

theorem tiled_interpolatedBody (hscan : ∀ text, text ≠ [] → (scan text).Covers text) {o : Opening}
    (ho : 0 < o.braces) (multiLine inDirective : Bool) (textStart start : Nat)
    (text whole : List Char) (hstart : textStart ≤ start)
    (hwhole : whole.drop (start - textStart) = text) :
    Tiled textStart whole
      (interpolatedBody o multiLine scan inDirective textStart start text).pieces
      (interpolatedBody o multiLine scan inDirective textStart start text).stop := by
  have further {n : Nat} {c : Char} {cs whole : List Char} {textStart start : Nat}
      (hstart : textStart ≤ start) (hwhole : whole.drop (start - textStart) = c :: cs)
      (hn : 0 < n) : whole.drop (start + n - textStart) = cs.drop (n - 1) := by
    rw [drop_sub_one hn c, ← hwhole, List.drop_drop]
    congr 1
    omega
  fun_induction interpolatedBody o multiLine scan inDirective textStart start text
    generalizing whole with
  | case1 | case2 => exact tiled_textPieces hstart (.single rfl (by simp [Piece.bare]))
  | case3 textStart start c cs _ _ _ ih | case11 textStart start c cs _ _ _ _ _ _ _ _ ih =>
    exact ih whole (by omega) (further hstart hwhole Nat.zero_lt_two)
  | case4 textStart start c cs _ _ _ run =>
    simp only [closedEnd, Nat.add_assoc]
    exact tiled_textPieces hstart (.single rfl (by simp [Piece.bare]))
  | case5 textStart start c cs _ _ _ run _ ih =>
    have hrun : 0 < run := by
      simp only [run]
      split <;> omega
    exact ih whole (by omega) (further hstart hwhole hrun)
  | case6 textStart start c cs _ _ _ e ih =>
    exact ih whole (by omega) (further hstart hwhole (length_escape_pos cs))
  | case7 textStart start c cs _ _ _ _ length hrole ih =>
    exact ih whole (by omega)
      (further hstart hwhole (length_braceRole_pos (Nat.succ_pos _) (.inl hrole)))
  | case8 textStart start c cs _ _ _ _ length hrole ih =>
    exact ih whole (by omega)
      (further hstart hwhole (length_braceRole_pos (Nat.succ_pos _) (.inr hrole)))
  | case9 textStart start c cs _ _ _ _ length _ holeStart part ih =>
    have hpart := tiled_hole hscan o multiLine inDirective holeStart ((c :: cs).drop length)
    have hstop : holeStart < part.stop := lt_stop_hole ho multiLine inDirective holeStart _
    simp only [Part.after, List.append_assoc]
    refine tiled_textPieces (Nat.le_trans hstart (Nat.le_add_right _ _)) ?_
    have hrest : whole.drop (holeStart - textStart) = (c :: cs).drop length := by
      rw [← hwhole, List.drop_drop]
      congr 1
      omega
    rw [hrest]
    refine hpart.append (ih _ (Nat.le_refl _) ?_)
    show _ = cs.drop (part.stop - start - 1)
    change (((c :: cs).drop length).drop (part.stop - holeStart)).drop (part.stop - part.stop) = _
    have hlt : 0 < part.stop - start := by omega
    rw [Nat.sub_self, List.drop_zero, List.drop_drop, drop_sub_one hlt c]
    congr 1
    omega
  | case10 textStart start c cs _ _ _ _ _ run _ ih =>
    exact ih whole (by omega) (further hstart hwhole (Nat.succ_pos _))
  | case12 textStart start c cs _ _ _ _ _ _ _ _ ih | case13 textStart start c cs _ _ _ _ _ ih =>
    exact ih whole (by omega) (further hstart hwhole Nat.zero_lt_one)

/-- A hole opens with at least one brace. -/
theorem braces_pos {text : List Char} {o : Opening} (ho : opening? text = some o) :
    0 < o.braces := by
  simp only [opening?, Option.ite_none_left_eq_some, Option.some.injEq] at ho
  obtain ⟨hnonempty, rfl⟩ := ho
  rw [not_or] at hnonempty
  simp only
  generalize (decide (3 ≤ _) && !_) = raw
  cases raw
  · exact Nat.zero_lt_one
  · exact Nat.pos_of_ne_zero hnonempty.1

theorem covers_interpolatedGroup (hscan : ∀ text, text ≠ [] → (scan text).Covers text)
    {text : List Char} {o : Opening} (ho : opening? text = some o) (inDirective : Bool) :
    (interpolatedGroup o scan inDirective text).Covers text := by
  have hbraces := braces_pos ho
  have hlength := length_opening?_pos ho
  have hcontent := tiled_interpolatedBody hscan hbraces
    (if o.raw then restOfLineIsBlank (text.drop o.length) else o.verbatim) inDirective o.length
    o.length (text.drop o.length) (text.drop o.length) (Nat.le_refl _)
    (by rw [Nat.sub_self, List.drop_zero])
  refine ⟨.piece rfl (by simp) ?_, Nat.lt_of_lt_of_le hlength hcontent.le⟩
  rwa [Nat.zero_add]

end Content

theorem Kind.ne_endOfFile_of_isSingle {k : Kind} (h : k.isSingle = true) : k ≠ .endOfFile := by
  rintro rfl
  contradiction

theorem covers_plainLexeme {text : List Char} (h : text ≠ []) :
    (plainLexeme text).toGroup.Covers text := by
  obtain ⟨hsingle, hpos⟩ := single_plainLexeme h
  refine ⟨?_, hpos⟩
  have htiled : Tiled 0 text [(plainLexeme text).piece] (0 + (plainLexeme text).piece.length) :=
    .single rfl (Kind.ne_endOfFile_of_isSingle hsingle)
  rwa [Nat.zero_add] at htiled

/-- A scan covers the beginning of the text. -/
theorem covers_scanGroup (inDirective : Bool) (room : Nat) {text : List Char} (h : text ≠ []) :
    (scanGroup inDirective room text).Covers text := by
  induction room generalizing text with
  | zero =>
    unfold scanGroup
    split
    · exact covers_plainLexeme h
    · refine ⟨?_, List.length_pos_iff.2 h⟩
      have htiled : Tiled 0 text [.bare .bad 0 text.length] (0 + text.length) :=
        .single rfl (by simp [Piece.bare])
      rwa [Nat.zero_add] at htiled
  | succ room ih =>
    unfold scanGroup
    split
    · exact covers_plainLexeme h
    · next o ho => exact covers_interpolatedGroup (fun text h ↦ ih h) ho inDirective

theorem isBlank_of_mem_indent {c : Char} {text : List Char}
    (h : c ∈ text.take (indentLength text)) : isBlank c = true := by
  rw [indentLength, ← List.prefix_iff_eq_take.1 (List.takeWhile_prefix _)] at h
  have hall := List.all_eq_true.1 List.all_takeWhile c h
  simp only [Bool.or_eq_true, beq_iff_eq] at hall
  rcases hall with rfl | rfl <;> decide

/-- Spaces and tabs are passed over. -/
theorem Tiled.indent {start stop : Nat} {text : List Char} {ps : List Piece}
    (h : Tiled (start + indentLength (text.drop start))
      (text.drop (start + indentLength (text.drop start))) ps stop) :
    Tiled start (text.drop start) ps stop :=
  .gap (.of_blank fun _ ↦ isBlank_of_mem_indent) (by rwa [List.drop_drop])

/-- The name of a directive is a piece. -/
theorem Tiled.directiveName {start stop : Nat} {text : List Char} {ps : List Piece}
    (h : Tiled (start + (nameLexeme false (text.drop start)).length)
      (text.drop (start + (nameLexeme false (text.drop start)).length)) ps stop) :
    Tiled start (text.drop start)
      ((nameLexeme false (text.drop start)).piece.shift start :: ps) stop :=
  .piece (Nat.add_zero start) (Kind.ne_endOfFile_of_isSingle (isSingle_nameLexeme false _))
    (by rwa [List.drop_drop])

theorem isSpace_of_trimEnd_eq_nil {cs : List Char} (h : trimEnd cs = []) {c : Char}
    (hc : c ∈ cs) : isSpace c = true := by
  rw [trimEnd, List.reverse_eq_nil_iff] at h
  have htake := List.takeWhile_append_dropWhile (p := isSpace) (l := cs.reverse)
  rw [h, List.append_nil] at htake
  refine List.all_eq_true.1 (List.all_takeWhile (l := cs.reverse)) c ?_
  rwa [htake, List.mem_reverse]

/-- A message that is nothing but white space is passed over. -/
theorem tiled_messagePiece (start : Nat) (text : List Char) :
    Tiled start text
      (if (messagePiece start text).name == some "" then [] else [messagePiece start text])
      (start + (messagePiece start text).length) := by
  split
  · next hblank =>
    have hnil : trimEnd (restOfLine text) = [] := by
      simpa [messagePiece, String.ofList_eq_empty_iff] using hblank
    have htake : text.take (messagePiece start text).length = restOfLine text :=
      (List.prefix_iff_eq_take.1 (List.takeWhile_prefix _)).symm
    refine .gap (.of_blank fun c hc ↦ ?_) (.nil _ _)
    rw [htake] at hc
    simp [isBlank, isLineEnd_of_mem_restOfLine hc, isSpace_of_trimEnd_eq_nil hnil hc]
  · exact .single rfl (by simp [messagePiece])

/-- The opening of a directive line covers the beginning of the text. -/
theorem covers_directiveOpening (text : List Char) : (directiveOpening text).Covers text := by
  refine ⟨?_, length_directiveOpening_pos text⟩
  unfold directiveOpening
  simp only
  split
  · exact .piece rfl (by simp [Piece.bare]) (.single rfl (by simp [messagePiece]))
  · split
    · split
      · exact .piece rfl (by simp [Piece.bare])
          (.indent (.directiveName (.indent (tiled_messagePiece _ _))))
      · exact .piece rfl (by simp [Piece.bare]) (.indent (.directiveName (.nil _ _)))
    · exact .piece rfl (by simp [Piece.bare]) (.indent (.nil _ _))

end CSharpCheck
