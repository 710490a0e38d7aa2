import CSharpCheck.Proofs.Scanning.ClosingQuotes
import CSharpCheck.Proofs.Scanning.Collecting
import CSharpCheck.Proofs.TruePositions

/-!
# Where a line has been used

A cursor notes whether something stands before it on its line. Scans do not look at lines: what they
take may reach over several, and the note is made afterwards. It is right all the same, because a scan
stops at a line end or behind a character that is not white space.
-/

namespace CSharpCheck

/-! ### What stands on a line in front of a place -/

/-- The place where the line of `n` begins: behind the last line terminator that ends there or
before. -/
def lineStart (text : List Char) : (n : Nat) → Nat
  | 0 => 0
  | n + 1 => if TerminatorEndsAt text (n + 1) then n + 1 else lineStart text n

/-- Only white space stands in front of the place on its line. -/
def FirstOnLine (text : List Char) (n : Nat) : Prop :=
  ∀ c ∈ (text.take n).drop (lineStart text n), isBlank c = true

instance (text : List Char) : DecidablePred (FirstOnLine text) :=
  fun _ ↦ List.decidableBAll (isBlank · = true) _

/-- Whether the character is neither white space nor a line end. -/
def isVisible (c : Char) : Bool := !isBlank c && !isLineEnd c

section Places

variable {text cs : List Char} {c : Char} {n : Nat}

theorem lineStart_le (text : List Char) (n : Nat) : lineStart text n ≤ n := by
  induction n with
  | zero => exact Nat.le_refl 0
  | succ n ih =>
    unfold lineStart
    split
    · exact Nat.le_refl _
    · exact Nat.le_succ_of_le ih

theorem firstOnLine_zero (text : List Char) : FirstOnLine text 0 := nofun

/-- Behind a character a line starts there, or the character is white space and only white space
stands before. -/
theorem firstOnLine_succ_iff (h : text.drop n = c :: cs) : FirstOnLine text (n + 1) ↔
    Position.endsLine c cs.head? = true ∨ isBlank c = true ∧ FirstOnLine text n := by
  rw [endsLine_iff h]
  simp only [FirstOnLine, lineStart]
  split
  · next hends =>
    rw [List.drop_eq_nil_of_le (List.length_take_le _ _)]
    simp [hends]
  · next hends =>
    have hlength : (text.take n).length = n := by
      rw [List.length_take]
      have hlt := congrArg List.length h
      simp only [List.length_drop, List.length_cons] at hlt
      omega
    have htake : text.take (n + 1) = text.take n ++ [c] := by
      rw [List.take_add, h]
      rfl
    have hstart : lineStart text n ≤ (text.take n).length := by
      rw [hlength]
      exact lineStart_le text n
    rw [htake, List.drop_append_of_le_length hstart]
    simp only [hends, false_or, List.mem_append, List.mem_singleton]
    constructor
    · intro hall
      exact ⟨hall c (.inr rfl), fun d hd ↦ hall d (.inl hd)⟩
    · rintro ⟨hc, hall⟩ d (hd | rfl)
      · exact hall d hd
      · exact hc

theorem endsLine_of_not_isLineEnd (hc : isLineEnd c = false) (following : Option Char) :
    Position.endsLine c following = false := by
  rw [Position.endsLine, hc, Bool.false_and]

theorem firstOnLine_succ_of_isBlank (h : text.drop n = c :: cs) (hc : isBlank c = true) :
    FirstOnLine text (n + 1) ↔ FirstOnLine text n := by
  rw [firstOnLine_succ_iff h, endsLine_of_not_isLineEnd (not_isLineEnd_of_isBlank hc)]
  simp [hc]

theorem not_firstOnLine_succ_of_isVisible (h : text.drop n = c :: cs) (hc : isVisible c = true) :
    ¬FirstOnLine text (n + 1) := by
  simp only [isVisible, Bool.and_eq_true, Bool.not_eq_true'] at hc
  rw [firstOnLine_succ_iff h, endsLine_of_not_isLineEnd hc.2]
  simp [hc.1]

/-- Behind a line end nothing stands on the line. -/
theorem firstOnLine_add_lineEnd (h : text.drop n = c :: cs) (hc : isLineEnd c = true) :
    FirstOnLine text (n + lineEndLength (c :: cs)) := by
  rw [lineEndLength_cons]
  split
  · next hpair =>
    obtain ⟨ds, rfl⟩ := List.head?_eq_some_iff.1 hpair.2
    have hnext : text.drop (n + 1) = '\n' :: ds := by
      rw [← List.drop_drop, h]
      rfl
    exact (firstOnLine_succ_iff hnext).2 (.inl rfl)
  · next hpair =>
    refine (firstOnLine_succ_iff h).2 (.inl ?_)
    rw [Position.endsLine, hc, Bool.true_and, Bool.not_eq_true', Bool.eq_false_iff]
    simpa using hpair

/-- Where the skipping of lines stops a line begins, or nothing is left. -/
theorem firstOnLine_linesToHash {whole : List Char} (hwhole : whole.drop n = text)
    (hend : text.head?.all isLineEnd = true) : text.drop (linesToHash text) = [] ∨
      FirstOnLine whole (n + linesToHash text) := by
  induction hlength : text.length using Nat.strongRecOn generalizing n text with
  | ind length ih =>
    cases text with
    | nil => exact .inl List.drop_nil
    | cons c cs =>
      have hpos := length_lineEnd_pos c cs
      have hfirst := firstOnLine_add_lineEnd hwhole hend
      rw [linesToHash_cons]
      generalize lineEndLength (c :: cs) = lead at hpos hfirst ⊢
      simp only
      split
      · exact .inr hfirst
      · have hnext : whole.drop (n + lead + (restOfLine ((c :: cs).drop lead)).length) =
            ((c :: cs).drop lead).drop (restOfLine ((c :: cs).drop lead)).length := by
          rw [← List.drop_drop, ← List.drop_drop, hwhole]
        have hrest := ih _ (hlength ▸ length_drop_line_lt hpos c cs _) hnext
          (isLineEnd_head_drop_restOfLine _) rfl
        rw [← Nat.add_assoc, ← Nat.add_assoc]
        refine hrest.imp_left fun hnil ↦ ?_
        rw [← hnil, List.drop_drop, List.drop_drop]

/-- What has been used stays so up to the end of the line. -/
theorem not_firstOnLine_add {k : Nat} (h : ¬FirstOnLine text n)
    (hk : k ≤ (restOfLine (text.drop n)).length) : ¬FirstOnLine text (n + k) := by
  induction k generalizing n with
  | zero => exact h
  | succ k ih =>
    cases hdrop : text.drop n with
    | nil =>
      rw [hdrop] at hk
      contradiction
    | cons c cs =>
      cases hc : isLineEnd c with
      | true =>
        rw [hdrop, restOfLine_lineEnd hc] at hk
        contradiction
      | false =>
        rw [hdrop, restOfLine_cons hc] at hk
        have hnext : text.drop (n + 1) = cs := by
          rw [← List.drop_drop, hdrop]
          rfl
        rw [Nat.add_comm k, ← Nat.add_assoc]
        refine ih ?_ (by rw [hnext]; exact Nat.le_of_succ_le_succ hk)
        rw [firstOnLine_succ_iff hdrop, endsLine_of_not_isLineEnd hc]
        simp [h]

end Places

/-! ### Where scans stop -/

/-- At the place a line ends, or a visible character stands in front of it. -/
def StopsUsed (text : List Char) (n : Nat) : Prop :=
  (text.drop n).head?.all isLineEnd = true ∨
    ∃ m c cs, n = m + 1 ∧ text.drop m = c :: cs ∧ isVisible c = true

section Scans

variable {text whole cs : List Char} {start n : Nat}

theorem StopsUsed.behind {c : Char} (h : text.drop n = c :: cs) (hc : isVisible c = true) :
    StopsUsed text (n + 1) := .inr ⟨n, c, cs, rfl, h, hc⟩

theorem StopsUsed.length (text : List Char) : StopsUsed text text.length := by
  left
  rw [List.drop_length]
  rfl

theorem StopsUsed.of_drop_eq_nil (h : text.drop n = []) : StopsUsed text n := by
  left
  rw [h]
  rfl

/-- A suffix ends with a visible character. -/
theorem StopsUsed.suffix (h : StopsUsed text n) :
    StopsUsed text (n + utf8SuffixLength (text.drop n)) := by
  unfold utf8SuffixLength
  split
  · next c cs hdrop =>
    split
    · have hlast : text.drop (n + 1) = '8' :: cs := by
        rw [← List.drop_drop, hdrop]
        rfl
      exact .behind hlast (by decide)
    · exact h
  · exact h

/-- Behind a run of quotes a visible character stands in front. -/
theorem stopsUsed_quotes {k : Nat} (hwhole : whole.drop start = text) (hpos : 0 < k)
    (hk : k ≤ runLength '"' text) : StopsUsed whole (start + k) := by
  obtain ⟨k, rfl⟩ := Nat.exists_eq_add_of_le' hpos
  have htext := eq_append_of_runLength hk
  have hlast : whole.drop (start + k) = '"' :: text.drop (k + 1) := by
    rw [← List.drop_drop, hwhole, htext, List.replicate_succ', List.append_assoc,
      List.drop_left' (List.length_replicate ..)]
    simp [List.drop_append]
  exact .behind hlast (by decide)

/-- A verbatim string stops behind its closing quote or at the end of the text. -/
theorem stopsUsed_verbatimBody (hwhole : whole.drop start = text) :
    StopsUsed whole (verbatimBody start text).stop := by
  fun_induction verbatimBody start text with
  | case1 => exact .of_drop_eq_nil hwhole
  | case2 start cs ih =>
    refine ih ?_
    rw [← List.drop_drop, hwhole]
    rfl
  | case3 start cs _ => exact .behind hwhole (by decide)
  | case4 start c cs _ _ ih =>
    refine ih ?_
    rw [← List.drop_drop, hwhole]
    rfl

theorem runLength_cons_self (c : Char) (cs : List Char) :
    runLength c (c :: cs) = runLength c cs + 1 := by
  simp [runLength]

/-- A raw string on one line stops behind its closing quotes, or with the line. -/
theorem stopsUsed_rawLineBody {quotes : Nat} (hwhole : whole.drop start = text) :
    StopsUsed whole (rawLineBody quotes start text).stop := by
  fun_induction rawLineBody quotes start text with
  | case1 => exact .of_drop_eq_nil hwhole
  | case2 start c cs hline =>
    left
    rw [hwhole]
    exact hline
  | case3 start c cs _ hquote run _ =>
    obtain rfl := beq_iff_eq.1 hquote
    exact stopsUsed_quotes hwhole (Nat.succ_pos _) (Nat.le_of_eq (runLength_cons_self _ _).symm)
  | case4 start c cs _ _ run _ ih => exact ih (drop_add_of_drop hwhole (Nat.succ_pos _))
  | case5 start c cs _ _ ih => exact ih (drop_add_of_drop hwhole Nat.zero_lt_one)

/-- Quotes in the first line of a text are quotes of the text. -/
theorem stopsUsed_quotes_of_line {a k : Nat} (hwhole : whole.drop start = text) (hpos : 0 < k)
    (hk : k ≤ runLength '"' ((restOfLine text).drop a)) : StopsUsed whole (start + a + k) := by
  have ha : a ≤ (restOfLine text).length := by
    refine Nat.le_of_not_lt fun hlt ↦ ?_
    rw [List.drop_eq_nil_of_le (Nat.le_of_lt hlt)] at hk
    exact absurd (Nat.lt_of_lt_of_le hpos hk) (Nat.lt_irrefl 0)
  rw [runLength_drop_restOfLine (by decide) ha] at hk
  exact stopsUsed_quotes (by rw [← hwhole, List.drop_drop]) hpos hk

/-- A raw string over several lines stops behind its closing quotes, or at the end of the text. -/
theorem stopsUsed_rawBlockBody {quotes : Nat} (hquotes : 0 < quotes)
    {lines : List (Nat × List Char)} (hwhole : whole.drop start = text) :
    StopsUsed whole (rawBlockBody quotes start lines text).stop := by
  fun_induction rawBlockBody quotes start lines text with
  | case1 => exact .of_drop_eq_nil hwhole
  | case2 start lines c cs lead rest line indentation run hrun =>
    rw [if_pos hrun]
    have hrest : whole.drop (start + lead) = rest :=
      drop_add_of_drop hwhole (length_lineEnd_pos c cs)
    exact stopsUsed_quotes_of_line hrest (Nat.lt_of_lt_of_le hquotes hrun) (Nat.le_refl _)
  | case3 start lines c cs offset lead rest line indentation run hrun hoffset =>
    rw [if_neg hrun]
    have hrest : whole.drop (start + lead) = rest :=
      drop_add_of_drop hwhole (length_lineEnd_pos c cs)
    simp only
    split
    · next place hplace =>
      obtain ⟨hfound, -⟩ := quoteRun?_spec hquotes hplace
      exact stopsUsed_quotes_of_line hrest (Nat.lt_of_lt_of_le hquotes hfound) (Nat.le_refl _)
    · next hnone =>
      rw [hoffset] at hnone
      contradiction
  | case4 start lines c cs lead lineStart rest line indentation run hrun hnone ih =>
    rw [if_neg hrun]
    have hrest : whole.drop (start + lead) = rest :=
      drop_add_of_drop hwhole (length_lineEnd_pos c cs)
    simp only
    split
    · next hoffset =>
      rw [hnone] at hoffset
      contradiction
    · exact ih (by rw [← hrest, List.drop_drop])

/-- Where a character literal with too much in it ends, there is a quote, or the end of a line. -/
theorem head?_drop_overlongLength (text : List Char) :
    (text.drop (overlongLength text)).head? = some '\'' ∨
      (text.drop (overlongLength text)).head?.all isLineEnd = true := by
  induction text using overlongLength.induct with
  | case1 => exact .inr rfl
  | case2 => exact .inr rfl
  | case3 c cs ih =>
    rw [overlongLength, Nat.add_comm, List.drop_succ_cons, List.drop_succ_cons]
    exact ih
  | case4 c cs hlast hpair hstop =>
    rw [overlongLength, if_pos hstop]
    · exact (Bool.or_eq_true_iff.1 hstop).imp (fun hc ↦ congrArg some (beq_iff_eq.1 hc)) id
    · exact hlast
    · exact hpair
  | case5 c cs hlast hpair hgo ih =>
    rw [overlongLength, if_neg hgo, Nat.add_comm, List.drop_succ_cons]
    · exact ih
    · exact hlast
    · exact hpair

theorem stopsUsed_characterTail {e : Escape} {rest : List Char}
    (hwhole : whole.drop (1 + e.length) = rest) : StopsUsed whole (characterTail e rest).1 := by
  have hquote {n : Nat} {cs : List Char} (h : whole.drop n = cs) (hhead : cs.head? = some '\'') :
      StopsUsed whole (n + 1) := by
    obtain ⟨ds, rfl⟩ := List.head?_eq_some_iff.1 hhead
    exact .behind h (by decide)
  have hstop : whole.drop (1 + e.length + overlongLength rest) = rest.drop (overlongLength rest) := by
    rw [← List.drop_drop, hwhole]
  unfold characterTail
  split
  · next hfirst =>
    rw [show e.length + 2 = 1 + e.length + 1 by omega]
    exact hquote hwhole (beq_iff_eq.1 hfirst)
  · simp only
    split
    · next hclosed => exact hquote hstop (beq_iff_eq.1 hclosed)
    · next hopen =>
      left
      rw [hstop]
      exact (head?_drop_overlongLength rest).resolve_left fun h ↦ hopen (beq_iff_eq.2 h)

/-- A character literal stops behind its closing quote or at the end of a line. -/
theorem stopsUsed_characterLiteral (cs : List Char) :
    StopsUsed ('\'' :: cs) (characterLiteral ('\'' :: cs)).length := by
  by_cases hend : cs.head?.all isLineEnd = true
  · rw [characterLiteral_of_lineEnd hend]
    exact .inl hend
  · cases cs with
    | nil => exact absurd rfl hend
    | cons c cs =>
      have hc : isLineEnd c = false := Bool.eq_false_iff.2 hend
      by_cases hquote : c = '\''
      · subst hquote
        have hlast : ('\'' :: '\'' :: cs).drop 1 = '\'' :: cs := rfl
        exact .behind hlast (by decide)
      · rw [characterLiteral_cons hquote hc cs]
        exact stopsUsed_characterTail (drop_leadEscape c cs)

/-- A string stops behind its closing quotes and its suffix. -/
theorem stopsUsed_string {closed : Bool} {stop : Nat} {features features' : List Feature}
    {faults faults' : List Fault} (h : StopsUsed text stop) :
    StopsUsed text (if closed = true then stringLexeme text stop features faults
      else openStringLexeme stop features' faults').length := by
  split
  · exact h.suffix
  · exact h

/-- A raw string stops behind its closing quotes, at the end of its line or at the end of the text. -/
theorem stopsUsed_rawString (h : 0 < runLength '"' text) :
    StopsUsed text (rawString text).length := by
  unfold rawString
  simp only
  apply stopsUsed_string
  split
  · exact stopsUsed_rawBlockBody h (by rw [List.drop_drop])
  · exact stopsUsed_rawLineBody rfl

/-- A single token ends with its line at the latest, or it is a literal in quotes that stops at a line
end or behind a visible character. -/
theorem length_le_or_stopsUsed_plainLexeme {c : Char} {cs : List Char} (hc : isLineEnd c = false) :
    (plainLexeme (c :: cs)).length ≤ (restOfLine (c :: cs)).length ∨
      StopsUsed (c :: cs) (plainLexeme (c :: cs)).length := by
  rcases @length_plainLexeme_le c cs hc with hquoted | hlength
  · have hsingle := (single_plainLexeme (List.cons_ne_nil c cs)).isSingle
    have hliteral : (plainLexeme (c :: cs)).kind.isLiteral = true := by
      generalize (plainLexeme (c :: cs)).kind = kind at hquoted hsingle ⊢
      cases kind <;> first | rfl | contradiction
    have hl := isLiteral_plainLexeme hliteral
    generalize plainLexeme (c :: cs) = l at hl ⊢
    generalize c :: cs = text at hl ⊢
    cases hl with
    | number hstarts => exact .inl (length_number_le _)
    | verbatimString => exact .inr (stopsUsed_string (stopsUsed_verbatimBody rfl))
    | @rawString cs =>
      right
      refine stopsUsed_rawString ?_
      rw [runLength_cons_self]
      exact Nat.succ_pos _
    | @regularString cs =>
      left
      rw [restOfLine_cons (by decide), List.length_cons, Nat.add_comm]
      exact (regularString_line cs).1
    | @character cs => exact .inr (stopsUsed_characterLiteral cs)
  · exact .inl hlength

/-- An interpolated string stops behind its closing quotes, at the end of its line or at the end of
the text. -/
theorem stopsUsed_interpolatedBody {scan : List Char → Group} {o : Opening} (ho : 0 < o.braces)
    (multiLine inDirective : Bool) (textStart start : Nat) (hwhole : whole.drop start = text) :
    StopsUsed whole (interpolatedBody o multiLine scan inDirective textStart start text).stop := by
  fun_induction interpolatedBody o multiLine scan inDirective textStart start text with
  | case1 => exact .of_drop_eq_nil hwhole
  | case2 textStart start c cs hline =>
    left
    simp only [unclosedEnd]
    rw [hwhole]
    exact (Bool.and_eq_true_iff.1 hline).1
  | case3 textStart start c cs _ _ _ ih => exact ih (drop_add_of_drop hwhole Nat.zero_lt_two)
  | case4 textStart start c cs _ hquote _ run _ =>
    obtain rfl := beq_iff_eq.1 hquote
    have hrun : 0 < run ∧ run ≤ runLength '"' ('"' :: cs) := by
      rw [runLength_cons_self]
      simp only [run]
      split <;> omega
    have hstop : StopsUsed whole (start + run) := stopsUsed_quotes hwhole hrun.1 hrun.2
    have hrest : cs.drop (run - 1) = whole.drop (start + run) :=
      (drop_add_of_drop hwhole hrun.1).symm
    simp only [closedEnd]
    split
    · rw [hrest]
      exact hstop.suffix
    · exact hstop
  | case5 textStart start c cs _ _ _ run _ ih =>
    have hrun : 0 < run := by
      simp only [run]
      split <;> omega
    exact ih (drop_add_of_drop hwhole hrun)
  | case6 textStart start c cs _ _ _ e ih =>
    exact ih (drop_add_of_drop hwhole (length_escape_pos cs))
  | case7 textStart start c cs _ _ _ _ length hrole ih =>
    exact ih (drop_add_of_drop hwhole (length_braceRole_pos (Nat.succ_pos _) (.inl hrole)))
  | case8 textStart start c cs _ _ _ _ length hrole ih =>
    exact ih (drop_add_of_drop hwhole (length_braceRole_pos (Nat.succ_pos _) (.inr hrole)))
  | case9 textStart start c cs _ _ _ _ length _ holeStart part ih =>
    have hlt : holeStart < part.stop := lt_stop_hole ho multiLine inDirective holeStart _
    have hstart : start ≤ holeStart := Nat.le_add_right start length
    have hnext := drop_add_of_drop hwhole (n := part.stop - start) (by omega)
    rw [Nat.add_sub_cancel' (by omega)] at hnext
    exact ih hnext
  | case10 textStart start c cs _ _ _ _ _ run _ ih =>
    exact ih (drop_add_of_drop hwhole (Nat.succ_pos _))
  | case11 textStart start c cs _ _ _ _ _ _ _ _ ih =>
    exact ih (drop_add_of_drop hwhole Nat.zero_lt_two)
  | case12 textStart start c cs _ _ _ _ _ _ _ _ ih =>
    exact ih (drop_add_of_drop hwhole Nat.zero_lt_one)
  | case13 textStart start c cs _ _ _ _ _ ih =>
    exact ih (drop_add_of_drop hwhole Nat.zero_lt_one)

/-- A scan ends with its line at the latest, or it stops at a line end or behind a visible
character. -/
theorem length_le_or_stopsUsed_scanGroup (inDirective : Bool) (room : Nat) {c : Char}
    {cs : List Char} (hc : isLineEnd c = false) :
    (scanGroup inDirective room (c :: cs)).length ≤ (restOfLine (c :: cs)).length ∨
      StopsUsed (c :: cs) (scanGroup inDirective room (c :: cs)).length := by
  unfold scanGroup
  split
  · exact length_le_or_stopsUsed_plainLexeme hc
  · next o ho =>
    split
    · exact .inr (.length _)
    · exact .inr (stopsUsed_interpolatedBody (braces_pos ho) _ _ _ _ rfl)

end Scans

/-! ### Cursors -/

namespace Cursor

variable {c : Cursor} {text : List Char}

/-- The cursor stands at the end of a line, or it tells whether something stands before it on its
line. -/
def Tracks (text : List Char) (c : Cursor) : Prop :=
  c.rest.head?.all isLineEnd = true ∨ (c.lineUsed = false ↔ FirstOnLine text c.position.offset)

theorem Tracks.of_head {d : Char} {ds : List Char} (h : c.Tracks text) (hrest : c.rest = d :: ds)
    (hd : isLineEnd d = false) : c.lineUsed = false ↔ FirstOnLine text c.position.offset := by
  refine h.resolve_left fun hend ↦ ?_
  rw [hrest] at hend
  exact Bool.false_ne_true (hd.symm.trans hend)

theorem tracks_ofText (text : List Char) : (ofText text).Tracks text :=
  .inr (iff_of_true rfl (firstOnLine_zero text))

theorem tracks_of_used (hused : c.lineUsed = true) (h : ¬FirstOnLine text c.position.offset) :
    c.Tracks text :=
  .inr (iff_of_false (by simp [hused]) h)

/-- The offset of a cursor that goes on by characters that are there. -/
theorem offset_advance {n : Nat} (hn : n ≤ c.rest.length) :
    (c.advance n).position.offset = c.position.offset + n := by
  exact (c.offset_positionAt n).trans (by rw [Nat.min_eq_left hn])

/-- Where a scan stops as it should, something has been used, or a line ends. -/
theorem tracks_of_stopsUsed (hc : c.In text) {n : Nat} (hn : n ≤ c.rest.length)
    (h : StopsUsed c.rest n) : Tracks text { c.advance n with lineUsed := true } := by
  rcases h with hend | ⟨m, d, ds, rfl, hdrop, hd⟩
  · exact .inl hend
  · refine tracks_of_used rfl ?_
    rw [hc.rest, List.drop_drop] at hdrop
    show ¬FirstOnLine text (c.advance (m + 1)).position.offset
    rw [offset_advance hn, ← Nat.add_assoc]
    exact not_firstOnLine_succ_of_isVisible hdrop hd

/-- Behind characters of one line, a visible one first, something has been used. -/
theorem tracks_of_length_le (hc : c.In text) {d : Char} {ds : List Char} (hrest : c.rest = d :: ds)
    (hd : isVisible d = true) {n : Nat} (hpos : 0 < n) (hn : n ≤ (restOfLine c.rest).length) :
    Tracks text { c.advance n with lineUsed := true } := by
  refine tracks_of_used rfl ?_
  show ¬FirstOnLine text (c.advance n).position.offset
  obtain ⟨n, rfl⟩ := Nat.exists_eq_add_of_le' hpos
  have hdrop : text.drop c.position.offset = d :: ds := by rw [← hc.rest, hrest]
  have hline : isLineEnd d = false := by
    simp only [isVisible, Bool.and_eq_true, Bool.not_eq_true'] at hd
    exact hd.2
  rw [offset_advance (Nat.le_trans hn (length_restOfLine_le _)), Nat.add_comm n,
    ← Nat.add_assoc]
  refine not_firstOnLine_add (not_firstOnLine_succ_of_isVisible hdrop hd) ?_
  rw [← List.drop_drop, hdrop]
  rw [hrest, restOfLine_cons hline] at hn
  exact Nat.le_of_succ_le_succ hn

theorem lineUsed_advance (c : Cursor) (n : Nat) : (c.advance n).lineUsed =
    (c.lineUsed && (c.positionAt n).line == c.position.line) := rfl

/-- Behind a line end nothing has been used. -/
theorem tracks_advance_of_endsLine (hc : c.In text) {n : Nat} {d : Char} {ds : List Char}
    (hdrop : c.rest.drop n = d :: ds) (hends : Position.endsLine d ds.head? = true)
    (hline : (c.positionAt n).line = c.position.line) : (c.advance (n + 1)).Tracks text := by
  have hstep : c.positionAt (n + 1) = (c.positionAt n).step d ds.head? := by
    rw [← positionAt_add, positionAt, rest_advance, hdrop]
    exact Position.after_zero _ _
  right
  refine iff_of_true ?_ ?_
  · rw [lineUsed_advance, hstep, Position.step, if_pos hends, Bool.and_eq_false_iff]
    right
    simp [hline]
  · have hn : n + 1 ≤ c.rest.length := by
      have hlength := congrArg List.length hdrop
      simp only [List.length_drop, List.length_cons] at hlength
      omega
    rw [hc.rest, List.drop_drop] at hdrop
    rw [offset_advance hn, ← Nat.add_assoc]
    exact (firstOnLine_succ_iff hdrop).2 (.inl hends)

/-- Behind white space that ends no line the cursor tells the same. -/
theorem Tracks.advance_blank (hc : c.In text) (h : c.Tracks text) {d : Char} {ds : List Char}
    (hrest : c.rest = d :: ds) (hd : isBlank d = true) : (c.advance 1).Tracks text := by
  have hline := not_isLineEnd_of_isBlank hd
  have hstep : c.positionAt 1 = c.position.step d ds.head? := by
    rw [positionAt, hrest]
    exact Position.after_zero _ _
  have hdrop : text.drop c.position.offset = d :: ds := by rw [← hc.rest, hrest]
  right
  rw [lineUsed_advance, hstep, Position.step,
    if_neg (Bool.eq_false_iff.1 (endsLine_of_not_isLineEnd hline _)), beq_self_eq_true,
    Bool.and_true, offset_advance (by simp [hrest]), firstOnLine_succ_of_isBlank hdrop hd]
  exact h.of_head hrest hline

/-- A block comment stops behind a visible character. -/
theorem stopsUsed_blockComment {cs : List Char} {extra : Nat}
    (h : blockCommentLength? cs = some extra) : StopsUsed ('/' :: '*' :: cs) (extra + 2) := by
  obtain ⟨body, after, rfl, rfl, -⟩ := blockCommentLength?_eq_some h
  have hlast : ('/' :: '*' :: (body ++ '*' :: '/' :: after)).drop (body.length + 1 + 2) =
      '/' :: after := by
    rw [List.drop_succ_cons, List.drop_succ_cons, List.drop_length_add_append]
    rfl
  exact .behind hlast (by decide)

/-- An element of a gap keeps the note right. -/
theorem Tracks.passItem (hc : c.In text) (h : c.Tracks text) {inDirective : Bool} {item : GapItem}
    (hitem : gapItem? inDirective c.rest = some item) : (c.passItem item).Tracks text := by
  have hlength := length_gapItem?_le_length hitem
  unfold gapItem? at hitem
  split at hitem
  · contradiction
  · next cs hrest =>
    cases hitem
    left
    show ((c.rest.drop ((restOfLine cs).length + 2)).head?.all isLineEnd) = true
    rw [hrest]
    exact isLineEnd_head_drop_restOfLine cs
  · next cs hrest =>
    split at hitem
    · next extra hextra =>
      cases hitem
      exact tracks_of_stopsUsed hc hlength (by rw [hrest]; exact stopsUsed_blockComment hextra)
    · cases hitem
      left
      show ((c.rest.drop (cs.length + 2)).head?.all isLineEnd) = true
      rw [hrest, List.drop_succ_cons, List.drop_succ_cons, List.drop_length]
      rfl
  · next d ds _ _ hrest =>
    split at hitem
    · next hend =>
      split at hitem
      · contradiction
      · cases hitem
        cases hpair : (d == '\r' && ds.head? == some '\n') with
        | true =>
          obtain ⟨hd, hhead⟩ := Bool.and_eq_true_iff.1 hpair
          obtain rfl := beq_iff_eq.1 hd
          obtain ⟨es, rfl⟩ := List.head?_eq_some_iff.1 (beq_iff_eq.1 hhead)
          refine tracks_advance_of_endsLine hc (n := 1) (by rw [hrest]; rfl) rfl ?_
          rw [positionAt, hrest]
          rfl
        | false =>
          have hends : Position.endsLine d ds.head? = true := by
            rw [Position.endsLine, hend, hpair]
            rfl
          exact tracks_advance_of_endsLine hc (n := 0) hrest hends (by rw [positionAt_zero])
    · split at hitem
      · next hblank =>
        cases hitem
        exact h.advance_blank hc hrest hblank
      · contradiction

theorem In.passItem (hc : c.In text) (item : GapItem) : (c.passItem item).In text :=
  hc.passGap [item]

/-- A gap keeps the note right. -/
theorem Tracks.passGap (hc : c.In text) (h : c.Tracks text) (inDirective : Bool) :
    (c.passGap (gap inDirective c.rest)).Tracks text := by
  generalize hrest : c.rest = rest
  fun_induction gap inDirective rest generalizing c with
  | case1 => exact h
  | case2 => exact h
  | case3 rest item hitem _ ih =>
    subst hrest
    refine ih (hc.passItem item) (h.passItem hc hitem) ?_
    cases item <;> rfl

end Cursor

/-! ### Reading steps -/

/-- Where a gap ends, a visible character or the end of a line follows. -/
theorem isVisible_of_gapItem? {inDirective : Bool} {c : Char} {cs : List Char}
    (h : gapItem? inDirective (c :: cs) = none) (hc : isLineEnd c = false) : isVisible c = true := by
  rw [isVisible, hc, Bool.not_false, Bool.and_true, Bool.not_eq_true']
  refine Bool.eq_false_iff.2 fun hblank ↦ ?_
  rw [gapItem?_blank inDirective hblank] at h
  contradiction

namespace TokenSource

variable {s : TokenSource} {r : Reading} {text : List Char} {ts : List Token} {fs : List Finding}

/-- In front of a group stands a visible character. -/
theorem exists_visible_of_rest_ne_nil (s : TokenSource)
    (hdirective : ¬(s.inDirective && s.behindGap.rest.head?.all isLineEnd) = true)
    (hrest : s.behindGap.rest ≠ []) :
    ∃ d ds, s.behindGap.rest = d :: ds ∧ isLineEnd d = false ∧ isVisible d = true := by
  obtain ⟨d, ds, hcons⟩ := List.exists_cons_of_ne_nil hrest
  have hnone : gapItem? s.inDirective (d :: ds) = none := by
    rw [← hcons, behindGap, (s.cursor.passGap_eq _).1]
    exact gapItem?_drop_gap _ _
  have hline : isLineEnd d = false := by
    refine Bool.eq_false_iff.2 fun hend ↦ ?_
    cases hin : s.inDirective with
    | true =>
      rw [hin, hcons] at hdirective
      exact hdirective hend
    | false =>
      have hslash : d ≠ '/' := by
        rintro rfl
        contradiction
      rw [hin] at hnone
      simp [gapItem?, hslash, hend] at hnone
  exact ⟨d, ds, hcons, hline, isVisible_of_gapItem? hnone hline⟩

/-- What a step reads ends with its line at the latest, or it stops at a line end or behind a visible
character. -/
theorem length_le_or_stopsUsed_groupAt (s : TokenSource) {c : Cursor} {d : Char} {ds : List Char}
    (hrest : c.rest = d :: ds) (hd : isLineEnd d = false) :
    (s.groupAt c).length ≤ (restOfLine c.rest).length ∨
      StopsUsed c.rest (s.groupAt c).length := by
  unfold groupAt
  split
  · next hopens =>
    simp only [opensDirective, Bool.and_eq_true, beq_iff_eq] at hopens
    obtain ⟨cs, hhash⟩ := List.head?_eq_some_iff.1 hopens.1.1
    rw [hhash]
    exact .inl (length_directiveOpening_le cs)
  · rw [hrest]
    exact length_le_or_stopsUsed_scanGroup _ _ hd

/-- A step keeps the note right. -/
theorem tracks_of_read (hc : s.cursor.In text) (htracks : s.cursor.Tracks text)
    (h : s.read = some r) : r.source.cursor.Tracks text := by
  have hgap : s.behindGap.Tracks text := htracks.passGap hc s.inDirective
  have hin : s.behindGap.In text := hc.passGap _
  rw [read_eq (finished_of_read h)] at h
  split at h
  · cases h
    exact hgap
  · next hdirective =>
    split at h
    · cases h
      exact hgap
    · next hrest =>
      cases h
      obtain ⟨d, ds, hcons, hline, hvisible⟩ := s.exists_visible_of_rest_ne_nil hdirective hrest
      rw [readGroup_eq]
      rcases s.length_le_or_stopsUsed_groupAt hcons hline with hle | hstops
      · exact Cursor.tracks_of_length_le hin hcons hvisible (s.covers_groupAt hrest).length_pos hle
      · exact Cursor.tracks_of_stopsUsed hin (s.length_groupAt_le _) hstops

/-- Where the skipping stops a line begins, or nothing is left. -/
theorem tracks_skipExcluded (hc : s.cursor.In text) : s.skipExcluded.cursor.Tracks text := by
  have hdrop : text.drop (s.cursor.position.offset + (restOfLine s.cursor.rest).length) =
      s.cursor.rest.drop (restOfLine s.cursor.rest).length := by
    rw [hc.rest, List.drop_drop]
  have hle : excludedLength s.cursor.rest ≤ s.cursor.rest.length := by
    have hline := length_restOfLine_le s.cursor.rest
    have hskipped := linesToHash_le (s.cursor.rest.drop (restOfLine s.cursor.rest).length)
    rw [List.length_drop] at hskipped
    rw [excludedLength]
    omega
  rcases firstOnLine_linesToHash hdrop (isLineEnd_head_drop_restOfLine _) with hnil | hfirst
  · left
    show ((s.cursor.rest.drop (excludedLength s.cursor.rest)).head?.all isLineEnd) = true
    rw [excludedLength, ← List.drop_drop, hnil]
    rfl
  · right
    refine iff_of_true rfl ?_
    show FirstOnLine text (s.cursor.advance (excludedLength s.cursor.rest)).position.offset
    rw [Cursor.offset_advance hle, excludedLength, ← Nat.add_assoc]
    exact hfirst

/-- Whatever has been read and skipped, the cursor tells whether something stands before it on its
line. -/
theorem Collects.tracks (h : Collects text ts fs s) : s.cursor.Tracks text := by
  induction h with
  | start => exact Cursor.tracks_ofText text
  | read h hread ih => exact tracks_of_read h.in_text ih hread
  | skip h _ => exact tracks_skipExcluded h.in_text

end TokenSource

end CSharpCheck
