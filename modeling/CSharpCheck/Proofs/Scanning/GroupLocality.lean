import CSharpCheck.Proofs.Scanning.Locality

/-!
# How far scans for groups look ahead

Interpolated strings and the openings of directive lines, too, are the same in texts that are the
same up to the place at which they stop or that they stop before.
-/

namespace CSharpCheck

theorem gap_le_stop_holeTokens (scan : List Char → Group) (inDirective : Bool) (depth start : Nat)
    (text : List Char) : start + gapLength (gap inDirective text) ≤
      (holeTokens scan inDirective depth start text).stop := by
  rw [holeTokens]
  split
  · exact Nat.le_refl _
  · split
    · exact Nat.le_refl _
    · refine Nat.le_trans (Nat.le_add_right _ _) (le_stop_holeTokens _ _ _ _ _)

/-- What a hole holds when the text ends with the gap. -/
theorem holeTokens_of_drop_eq_nil {scan : List Char → Group} {inDirective : Bool}
    {depth start : Nat} {text : List Char}
    (hdrop : text.drop (gapLength (gap inDirective text)) = []) :
    holeTokens scan inDirective depth start text =
      ⟨start + gapLength (gap inDirective text), [], gapFaults start (gap inDirective text), []⟩ := by
  rw [holeTokens]
  split
  · rfl
  · next hcons =>
    rw [hdrop] at hcons
    contradiction

/-- What a hole holds when the text goes on behind the gap. -/
theorem holeTokens_of_drop {scan : List Char → Group} {inDirective : Bool} {depth start : Nat}
    {text cs : List Char} {c : Char}
    (hdrop : text.drop (gapLength (gap inDirective text)) = c :: cs) :
    holeTokens scan inDirective depth start text =
      let items := gap inDirective text
      let here := start + gapLength items
      if depth = 0 ∧ endsHole (c :: cs) then ⟨here, [], gapFaults start items, []⟩
      else
        let group := scan (c :: cs)
        (holeTokens scan inDirective (bracketDepth depth group.pieces) (here + group.length)
            (cs.drop (group.length - 1))).after
          (group.pieces.map (·.shift here))
          (gapFaults start items ++ group.faults.map (·.shift here)) [] := by
  rw [holeTokens]
  split
  · next hnil =>
    rw [hdrop] at hnil
    contradiction
  · next hcons =>
    rw [hdrop] at hcons
    cases hcons
    rfl

theorem endsHole_of_ne {c : Char} (hbrace : c ≠ '\x7d') (hcolon : c ≠ ':') (cs : List Char) :
    endsHole (c :: cs) = false := by
  unfold endsHole
  split <;> simp_all

theorem endsHole_of_mem_partings {c : Char} (hc : c ∈ partings) (cs : List Char) :
    endsHole (c :: cs) = false := by
  refine endsHole_of_ne ?_ ?_ cs <;>
  · rintro rfl
    exact absurd hc (by decide)

/-- The content of an interpolated string takes in what cannot end it. -/
theorem staysOnLine_le_stop_interpolatedBody (o : Opening) (multiLine : Bool)
    (scan : List Char → Group) (inDirective : Bool) (textStart start : Nat) (text : List Char) :
    start + (text.takeWhile staysOnLine).length ≤
      (interpolatedBody o multiLine scan inDirective textStart start text).stop := by
  induction text generalizing start with
  | nil => exact le_stop_interpolatedBody scan o multiLine inDirective textStart start []
  | cons c cs ih =>
    rw [List.takeWhile_cons]
    split
    · next hc =>
      have hne {d : Char} (hd : staysOnLine d = false) : (c == d) = false := by
        rw [beq_eq_false_iff_ne]
        rintro rfl
        rw [hc] at hd
        contradiction
      have hle := ih (start + 1)
      rw [interpolatedBody, not_isLineEnd_of_staysOnLine hc, hne (d := '"') rfl,
        hne (d := '\\') rfl, hne (d := '\x7b') rfl, hne (d := '\x7d') rfl]
      simp only [Bool.false_and, Bool.false_eq_true, if_false, List.length_cons]
      omega
    · exact le_stop_interpolatedBody scan o multiLine inDirective textStart start (c :: cs)

namespace SameUpTo

variable {b : Boundary} {m n : Nat} {c : Char} {text other cs ds : List Char}

/-! ### Interpolated strings -/

/-- The texts behind a sign that both or neither start with. -/
theorem exists_drop_sign (starts : Bool) (hc : c ∉ partings) (h : SameUpTo b n text other)
    (hstarts : starts = true → text.head? = some c) :
    ∃ m, SameUpTo b m (if starts = true then text.drop 1 else text)
      (if starts = true then other.drop 1 else other) := by
  cases starts with
  | false => exact ⟨n, h⟩
  | true => exact ⟨n - 1, h.drop (h.pos_of_head? (hstarts rfl) hc)⟩

theorem opening?_eq (h : SameUpTo b n text other) : opening? other = opening? text := by
  have hat : '@' ∉ partings := by decide
  obtain ⟨m, hafter⟩ := h.exists_drop_sign (text.head? == some '@') hat beq_iff_eq.1
  have hdollars := hafter.drop (hafter.runLength_le (c := '$') (by decide))
  simp only [opening?, h.beq_head? hat, hafter.runLength_eq (c := '$') (by decide),
    hdollars.beq_head? hat]
  generalize (if (text.head? == some '@') = true then text.drop 1 else text) = afterAt
    at hdollars ⊢
  generalize (if (text.head? == some '@') = true then other.drop 1 else other) = afterAt'
    at hdollars ⊢
  generalize runLength '$' afterAt = dollars at hdollars ⊢
  obtain ⟨k, hquotes⟩ := hdollars.exists_drop_sign
    (!text.head? == some '@' && (afterAt.drop dollars).head? == some '@') hat
    fun hlater ↦ beq_iff_eq.1 (Bool.and_eq_true_iff.1 hlater).2
  simp only [hquotes.runLength_eq (c := '"') (by decide)]

section Content

variable {scan : List Char → Group} {inDirective : Bool}

/-- A scan takes at least one character, and when it stops where texts part, it looks no further. -/
structure Local (scan : List Char → Group) : Prop where
  length_pos (c : Char) (cs : List Char) : 0 < (scan (c :: cs)).length
  eq {b : Boundary} {n : Nat} {text other : List Char} : SameUpTo b n text other →
    (scan text).length ≤ n → scan other = scan text

theorem endsHole_eq (h : SameUpTo b n text other) : endsHole other = endsHole text := by
  rcases h.cases_head with ⟨c, cs, ds, rfl, rfl, hc⟩ | ⟨c, d, cs, ds, rfl, rfl, -, -, hc, hd⟩
  · by_cases hcolon : c = ':'
    · subst hcolon
      obtain ⟨ds, m, heq, -, h'⟩ := h.of_cons (by decide)
      cases heq
      rw [endsHole, endsHole, bne, bne, h'.beq_head? (by decide)]
    · unfold endsHole
      split <;> split <;> simp_all
  · rw [endsHole_of_mem_partings (mem_partings_of_opensGap hc),
      endsHole_of_mem_partings (mem_partings_of_isBlank hd)]

theorem holeTokens_eq (hscan : Local scan) {depth start : Nat} (h : SameUpTo b n text other)
    (hstop : (holeTokens scan inDirective depth start text).stop ≤ start + n) :
    holeTokens scan inDirective depth start other =
      holeTokens scan inDirective depth start text := by
  induction hlength : text.length using Nat.strongRecOn
    generalizing n depth start text other with
  | ind length ih =>
    have hgap : gapLength (gap inDirective text) ≤ n := by
      have hle := gap_le_stop_holeTokens scan inDirective depth start text
      omega
    obtain ⟨c, cs, ds, hdrop, hother, hrest⟩ := h.drop_gap hgap
    rw [← h.gap_eq hgap] at hother
    rw [holeTokens_of_drop hdrop] at hstop
    rw [holeTokens_of_drop hdrop, holeTokens_of_drop hother, h.gap_eq hgap, hrest.endsHole_eq]
    simp only at hstop ⊢
    split
    · rfl
    · next hgoes =>
      rw [if_neg hgoes] at hstop
      have hle := le_stop_holeTokens scan inDirective (bracketDepth depth (scan (c :: cs)).pieces)
        (start + gapLength (gap inDirective text) + (scan (c :: cs)).length)
        (cs.drop ((scan (c :: cs)).length - 1))
      simp only [Part.after] at hstop
      have hpos := hscan.length_pos c cs
      have htail := congrArg List.length hdrop
      rw [List.length_drop, List.length_cons] at htail
      rw [hscan.eq hrest (by omega),
        ih _ (by rw [List.length_drop]; omega) (hrest.drop_tail hpos (by omega)) (by omega) rfl]

theorem formatLength_eq {multiLine : Bool} (h : SameUpTo b n text other)
    (hlength : formatLength multiLine text ≤ n) :
    formatLength multiLine other = formatLength multiLine text := by
  unfold formatLength at hlength ⊢
  simp only [h.head?_iff (c := ':') (by decide)]
  split
  · next hcolon =>
    rw [if_pos hcolon] at hlength
    rw [h.takeWhile_of_le (fun _ ↦ ⟨by simp [isLineEnd], fun c hc ↦ ?_⟩) hlength]
    have hbrace : c ≠ '\x7d' := by
      rintro rfl
      contradiction
    have hquote : c ≠ '"' := by
      rintro rfl
      contradiction
    simp [hbrace, hquote, not_isLineEnd_of_isBlank hc]
  · rfl

theorem hole_eq (hscan : Local scan) {o : Opening} {multiLine : Bool} {start : Nat}
    (h : SameUpTo b n text other)
    (hstop : (hole o multiLine scan inDirective start text).stop ≤ start + n) :
    hole o multiLine scan inDirective start other =
      hole o multiLine scan inDirective start text := by
  have hle := le_stop_holeTokens scan inDirective 0 (start + o.braces) (text.drop o.braces)
  simp only [hole] at hstop ⊢
  have hinside := h.drop (m := o.braces) (by omega)
  have htokens : holeTokens scan inDirective 0 (start + o.braces) (other.drop o.braces) =
      holeTokens scan inDirective 0 (start + o.braces) (text.drop o.braces) :=
    hinside.holeTokens_eq hscan (by omega)
  rw [htokens]
  generalize holeTokens scan inDirective 0 (start + o.braces) (text.drop o.braces) = tokens
    at hle hstop ⊢
  have hafter := h.drop (m := tokens.stop - start) (by omega)
  rw [hinside.take (m := tokens.stop - (start + o.braces)) (by omega),
    hafter.formatLength_eq (by omega)]
  generalize formatLength multiLine (text.drop (tokens.stop - start)) = format at hstop ⊢
  have hformat := hafter.drop (m := format) (by omega)
  rw [hformat.runLength_eq (c := '\x7d') (by decide)]
  simp only [ne_eq, hformat.ne_nil, hformat.ne_nil_other]

theorem interpolatedBody_eq (hscan : Local scan) {o : Opening} (ho : 0 < o.braces)
    {multiLine : Bool} {textStart start : Nat} (h : SameUpTo b n text other)
    (hstop : (interpolatedBody o multiLine scan inDirective textStart start text).stop ≤
      start + n) :
    interpolatedBody o multiLine scan inDirective textStart start other =
      interpolatedBody o multiLine scan inDirective textStart start text := by
  fun_induction interpolatedBody o multiLine scan inDirective textStart start text
    generalizing n other with
  | case1 => exact absurd rfl h.ne_nil
  | case2 textStart start c cs hend =>
    obtain ⟨ds, rfl⟩ := h.exists_cons_of_isLineEnd (Bool.and_eq_true_iff.1 hend).1
    rw [interpolatedBody, if_pos hend]
  | case3 textStart start c cs hend hquote hdoubled =>
    rename_i ih
    obtain rfl := beq_iff_eq.1 hquote
    obtain ⟨ds, n, rfl, rfl, h'⟩ := h.of_cons (by decide)
    have hle := le_stop_interpolatedBody scan o multiLine inDirective textStart (start + 2)
      (cs.drop 1)
    rw [interpolatedBody, if_neg hend, if_pos hquote, h'.beq_head? (c := '"') (by decide), if_pos hdoubled,
      ih (h'.drop (by omega)) (by omega)]
  | case4 textStart start c cs hend hquote hdoubled run =>
    rename_i hrun
    obtain rfl := beq_iff_eq.1 hquote
    obtain ⟨ds, n, rfl, rfl, h'⟩ := h.of_cons (by decide)
    rw [interpolatedBody, if_neg hend, if_pos hquote, h'.beq_head? (c := '"') (by decide), if_neg hdoubled]
    show (if o.quotes ≤ _ then _ else _) = _
    rw [h'.runLength_eq (by decide)]
    change (if o.quotes ≤ run then closedEnd o textStart start run (ds.drop (run - 1)) else _) = _
    have hpos : 0 < run := by
      simp only [run]
      split <;> omega
    have hle : run ≤ n + 1 := by
      simp only [closedEnd] at hstop
      omega
    rw [if_pos hrun, closedEnd, (h.drop_tail hpos hle).utf8SuffixLength_eq, closedEnd]
  | case5 textStart start c cs hend hquote hdoubled run hrun =>
    rename_i ih
    obtain rfl := beq_iff_eq.1 hquote
    obtain ⟨ds, n, rfl, rfl, h'⟩ := h.of_cons (by decide)
    have hle := le_stop_interpolatedBody scan o multiLine inDirective textStart
      (start + run) (cs.drop (run - 1))
    rw [interpolatedBody, if_neg hend, if_pos hquote, h'.beq_head? (c := '"') (by decide), if_neg hdoubled]
    show (if o.quotes ≤ _ then _ else _) = _
    rw [h'.runLength_eq (by decide)]
    change (if o.quotes ≤ run then _ else interpolatedBody o multiLine scan inDirective textStart
      (start + run) (ds.drop (run - 1))) = _
    have hpos : 0 < run := by
      simp only [run]
      split <;> omega
    rw [if_neg hrun, ih (h.drop_tail hpos (by omega)) (by omega)]
  | case6 textStart start c cs hend hquote hescape e =>
    rename_i ih
    have hc : c = '\\' := by
      rw [Bool.and_assoc] at hescape
      exact beq_iff_eq.1 (Bool.and_eq_true_iff.1 hescape).1
    subst hc
    obtain ⟨ds, n, rfl, rfl, h'⟩ := h.of_cons (by decide)
    have hle := le_stop_interpolatedBody scan o multiLine inDirective textStart
      (start + e.length) (cs.drop (e.length - 1))
    simp only [Part.after] at hstop
    rw [interpolatedBody, if_neg hend, if_neg hquote, if_pos hescape, h'.escape_eq]
    simp only
    rw [ih (h.drop_tail (length_escape_pos cs) (by omega)) (by omega)]
  | case7 textStart start c cs hend hquote hescape hbrace length hrole =>
    rename_i ih
    obtain rfl := beq_iff_eq.1 hbrace
    obtain ⟨ds, n, rfl, rfl, h'⟩ := h.of_cons (by decide)
    have hpos := length_braceRole_pos (Nat.succ_pos _) (.inl hrole)
    have hle := le_stop_interpolatedBody scan o multiLine inDirective textStart
      (start + length) (cs.drop (length - 1))
    rw [interpolatedBody, if_neg hend, if_neg hquote, if_neg hescape, if_pos hbrace,
      h'.runLength_eq (by decide), hrole]
    simp only
    rw [ih (h.drop_tail hpos (by omega)) (by omega)]
  | case8 textStart start c cs hend hquote hescape hbrace length hrole =>
    rename_i ih
    obtain rfl := beq_iff_eq.1 hbrace
    obtain ⟨ds, n, rfl, rfl, h'⟩ := h.of_cons (by decide)
    have hpos := length_braceRole_pos (Nat.succ_pos _) (.inr hrole)
    have hle := le_stop_interpolatedBody scan o multiLine inDirective textStart
      (start + length) (cs.drop (length - 1))
    simp only [Part.after] at hstop
    rw [interpolatedBody, if_neg hend, if_neg hquote, if_neg hescape, if_pos hbrace,
      h'.runLength_eq (by decide), hrole]
    simp only
    rw [ih (h.drop_tail hpos (by omega)) (by omega)]
  | case9 textStart start c cs hend hquote hescape hbrace length hrole holeStart =>
    rename_i part ih
    obtain rfl := beq_iff_eq.1 hbrace
    obtain ⟨ds, n, rfl, rfl, h'⟩ := h.of_cons (by decide)
    have hlt : holeStart < part.stop := lt_stop_hole ho multiLine inDirective holeStart _
    have hle := le_stop_interpolatedBody scan o multiLine inDirective part.stop part.stop
      (cs.drop (part.stop - start - 1))
    change (interpolatedBody o multiLine scan inDirective part.stop part.stop
      (cs.drop (part.stop - start - 1))).stop ≤ start + (n + 1) at hstop
    have hlength : start + length = holeStart := rfl
    have hpart : hole o multiLine scan inDirective holeStart (('\x7b' :: ds).drop length) = part :=
      (h.drop (by omega)).hole_eq hscan <| by
        change part.stop ≤ holeStart + (n + 1 - length)
        omega
    rw [interpolatedBody, if_neg hend, if_neg hquote, if_neg hescape, if_pos hbrace,
      h'.runLength_eq (by decide), hrole]
    simp only
    rw [hlength, hpart, ih (h.drop_tail (m := part.stop - start) (by omega) (by omega)) (by omega)]
  | case10 textStart start c cs hend hquote hescape hbrace hclose run hraw =>
    rename_i ih
    obtain rfl := beq_iff_eq.1 hclose
    obtain ⟨ds, n, rfl, rfl, h'⟩ := h.of_cons (by decide)
    have hle := le_stop_interpolatedBody scan o multiLine inDirective textStart
      (start + run) (cs.drop (run - 1))
    rw [interpolatedBody, if_neg hend, if_neg hquote, if_neg hescape, if_neg hbrace, if_pos hclose,
      if_pos hraw, h'.runLength_eq (by decide), ih (h.drop_tail (Nat.succ_pos _) (by omega)) (by omega)]
  | case11 textStart start c cs hend hquote hescape hbrace hclose run hraw hrun =>
    rename_i ih
    obtain rfl := beq_iff_eq.1 hclose
    obtain ⟨ds, n, rfl, rfl, h'⟩ := h.of_cons (by decide)
    have hle := le_stop_interpolatedBody scan o multiLine inDirective textStart
      (start + 2) (cs.drop 1)
    rw [interpolatedBody, if_neg hend, if_neg hquote, if_neg hescape, if_neg hbrace, if_pos hclose,
      if_neg hraw, h'.runLength_eq (by decide)]
    rw [if_pos hrun, ih (h'.drop (by omega)) (by omega)]
  | case12 textStart start c cs hend hquote hescape hbrace hclose run hraw hrun =>
    rename_i ih
    obtain rfl := beq_iff_eq.1 hclose
    obtain ⟨ds, n, rfl, rfl, h'⟩ := h.of_cons (by decide)
    simp only [Part.after] at hstop
    rw [interpolatedBody, if_neg hend, if_neg hquote, if_neg hescape, if_neg hbrace, if_pos hclose,
      if_neg hraw, h'.runLength_eq (by decide)]
    rw [if_neg hrun, ih h' (by omega)]
  | case13 textStart start c cs hend hquote hescape hbrace hclose =>
    rename_i ih
    have hle := le_stop_interpolatedBody scan o multiLine inDirective textStart
      (start + 1) cs
    obtain ⟨ds, n, rfl, rfl, h'⟩ := h.of_pos (by omega)
    rw [interpolatedBody, if_neg hend, if_neg hquote, if_neg hescape, if_neg hbrace,
      if_neg hclose, ih h' (by omega)]

theorem interpolatedGroup_eq (hscan : Local scan) {o : Opening} (hopen : opening? text = some o)
    (h : SameUpTo b n text other)
    (hlength : (interpolatedGroup o scan inDirective text).length ≤ n) :
    interpolatedGroup o scan inDirective other = interpolatedGroup o scan inDirective text := by
  simp only [interpolatedGroup] at hlength ⊢
  have hruns := staysOnLine_le_stop_interpolatedBody o
    (if o.raw = true then restOfLineIsBlank (text.drop o.length) else o.verbatim) scan inDirective
    o.length o.length (text.drop o.length)
  have hcontent := h.drop (m := o.length) (by omega)
  rw [hcontent.restOfLineIsBlank_eq (by omega),
    hcontent.interpolatedBody_eq hscan (braces_pos hopen) (by omega)]

end Content

theorem local_scanGroup (inDirective : Bool) (room : Nat) : Local (scanGroup inDirective room) := by
  induction room with
  | zero =>
    refine ⟨fun c cs ↦ length_scanGroup_pos inDirective 0 (by simp), fun h hlength ↦ ?_⟩
    unfold scanGroup at hlength ⊢
    rw [h.opening?_eq]
    split at hlength
    · rw [h.plainLexeme_eq hlength]
    · exact absurd hlength (Nat.not_le.2 h.lt_length)
  | succ room ih =>
    refine ⟨fun c cs ↦ length_scanGroup_pos inDirective _ (by simp), fun h hlength ↦ ?_⟩
    unfold scanGroup at hlength ⊢
    rw [h.opening?_eq]
    split at hlength
    · rw [h.plainLexeme_eq hlength]
    · next o hopen => exact h.interpolatedGroup_eq ih hopen hlength

/-! ### Directive lines -/

section Line

variable (h : SameUpTo .lineEnd n text other)

include h

theorem indentLength_le : indentLength text ≤ n := by
  refine Nat.le_trans ?_ h.length_restOfLine_le
  rw [indentLength, ← takeWhile_restOfLine]
  · exact (List.takeWhile_prefix _).length_le
  · intro c hc
    simp only [isLineEnd, Bool.or_eq_true, beq_iff_eq] at hc
    rcases hc with (((rfl | rfl) | rfl) | rfl) | rfl <;> rfl

theorem indentLength_eq : indentLength other = indentLength text := by
  rw [indentLength, indentLength, h.takeWhile_of_le (by simp) h.indentLength_le]

theorem messagePiece_eq (start : Nat) : messagePiece start other = messagePiece start text := by
  rw [messagePiece, messagePiece, h.restOfLine_eq h.length_restOfLine_le]

/-- Of the opening of a directive line nothing behind the line is read. -/
theorem directiveOpening_eq (hhash : text.head? = some '#') :
    directiveOpening other = directiveOpening text := by
  have hpos := h.pos_of_head? hhash (by decide)
  have hrest := h.drop (m := 1) hpos
  have hindent := hrest.indentLength_le
  have hstart : 1 + indentLength (text.drop 1) ≤ n := by omega
  have hname := h.drop hstart
  unfold directiveOpening
  simp only [hrest.head?_eq_of_lineEnd, hrest.indentLength_eq, hname.head?_eq_of_lineEnd,
    hname.nameLexeme_eq, hrest.messagePiece_eq]
  generalize 1 + indentLength (text.drop 1) = start at hstart hname ⊢
  have hword := hname.length_nameLexeme_le
  generalize nameLexeme false (text.drop start) = word at hword ⊢
  have hstop : start + word.length ≤ n := by omega
  have hspaces := (h.drop hstop).indentLength_le
  rw [hname.take hword, (h.drop hstop).indentLength_eq]
  have hmessage := h.drop (m := start + word.length + indentLength (text.drop
    (start + word.length))) (by omega)
  rw [hmessage.messagePiece_eq]

end Line

end SameUpTo

end CSharpCheck
