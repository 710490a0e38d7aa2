import CSharpCheck.Proofs.Scanning.OneLine
import CSharpCheck.Proofs.Scanning.Skipping

/-!
# Scans end in their text

No scan takes more characters than there are. So what it finds has its place in the text, and the
place behind the scan is the number of its characters further on.
-/

namespace CSharpCheck

variable {text : List Char}

/-- What is scanned behind the first characters of a text ends in the text. -/
theorem le_of_le_drop {start stop n : Nat} {c : Char} {cs : List Char} (hpos : 0 < n)
    (hle : n ≤ cs.length + 1) (h : stop ≤ start + n + (cs.drop (n - 1)).length) :
    stop ≤ start + (c :: cs).length := by
  rw [List.length_drop] at h
  rw [List.length_cons]
  omega

theorem runLength_le (c : Char) (text : List Char) : runLength c text ≤ text.length :=
  (List.takeWhile_prefix _).length_le

theorem length_restOfLine_le (text : List Char) : (restOfLine text).length ≤ text.length :=
  (List.takeWhile_prefix _).length_le

/-! ### Gaps -/

theorem blockCommentLength?_le {n : Nat} (h : blockCommentLength? text = some n) :
    n ≤ text.length := by
  obtain ⟨body, rest, rfl, rfl, -⟩ := blockCommentLength?_eq_some h
  simp only [List.length_append, List.length_cons]
  omega

theorem length_gapItem?_le_length {inDirective : Bool} {item : GapItem}
    (h : gapItem? inDirective text = some item) : item.length ≤ text.length := by
  unfold gapItem? at h
  split at h
  · contradiction
  · cases h
    exact Nat.add_le_add_right (length_restOfLine_le _) 2
  · split at h
    · next hextra =>
      cases h
      exact Nat.add_le_add_right (blockCommentLength?_le hextra) 2
    · cases h
      exact Nat.le_refl _
  · next c cs _ _ =>
    split at h
    · split at h
      · contradiction
      · cases h
        have hline := length_lineEnd_le c cs
        rw [lineEndLength_cons] at hline
        simpa [GapItem.length] using hline
    · split at h
      · cases h
        exact Nat.succ_le_succ (Nat.zero_le _)
      · contradiction

theorem gapLength_le_length (inDirective : Bool) (text : List Char) :
    gapLength (gap inDirective text) ≤ text.length := by
  fun_induction gap inDirective text with
  | case1 => exact Nat.zero_le _
  | case2 => exact Nat.zero_le _
  | case3 text item hitem _ ih =>
    have hle := length_gapItem?_le_length hitem
    rw [List.length_drop] at ih
    show item.length + gapLength _ ≤ _
    omega

/-! ### Literals in quotes -/

theorem length_escape_le (text : List Char) : (escape text).length ≤ text.length + 1 := by
  cases text with
  | nil => exact Nat.le_refl 1
  | cons c cs =>
    have hdigits (limit : Nat) (short : Bool) :
        (Escape.numeric ((cs.takeWhile isHexDigit).length.min limit) limit short).length ≤
          (c :: cs).length + 1 := by
      have hle := (List.takeWhile_prefix isHexDigit (l := cs)).length_le
      have hmin := Nat.min_le_left (cs.takeWhile isHexDigit).length limit
      show 2 + Nat.min _ _ ≤ _
      rw [List.length_cons]
      exact Nat.le_trans (Nat.add_le_add_left (Nat.le_trans hmin hle) 2) (by omega)
    have htwo : 2 ≤ (c :: cs).length + 1 := Nat.le_add_left _ _
    simp only [escape, List.drop_succ_cons, List.drop_zero]
    repeat' split
    all_goals first
      | exact hdigits _ _
      | exact htwo
      | exact Nat.le_add_left _ _

theorem stop_stringBody_le (start : Nat) (text : List Char) :
    (stringBody start text).stop ≤ start + text.length := by
  fun_induction stringBody start text with
  | case1 | case2 => exact Nat.le_add_right _ _
  | case3 =>
    rw [List.length_cons]
    show _ + 1 ≤ _
    omega
  | case4 start c cs _ _ _ e ih =>
    exact le_of_le_drop (length_escape_pos cs) (length_escape_le cs) ih
  | case5 start c cs _ _ _ ih => exact le_of_le_drop Nat.zero_lt_one (Nat.le_add_left _ _) ih

theorem stop_verbatimBody_le (start : Nat) (text : List Char) :
    (verbatimBody start text).stop ≤ start + text.length := by
  fun_induction verbatimBody start text with
  | case1 => exact Nat.le_add_right _ _
  | case2 start cs ih =>
    simp only [List.length_cons]
    omega
  | case3 =>
    rw [List.length_cons]
    show _ + 1 ≤ _
    omega
  | case4 start c cs _ _ ih =>
    rw [List.length_cons]
    omega

theorem stop_rawLineBody_le (quotes start : Nat) (text : List Char) :
    (rawLineBody quotes start text).stop ≤ start + text.length := by
  fun_induction rawLineBody quotes start text with
  | case1 | case2 => exact Nat.le_add_right _ _
  | case3 start c cs _ _ run =>
    have hle := runLength_le '"' cs
    rw [List.length_cons]
    show start + (runLength '"' cs + 1) ≤ _
    omega
  | case4 start c cs _ _ run _ ih =>
    exact le_of_le_drop (Nat.succ_pos _) (Nat.succ_le_succ (runLength_le '"' cs)) ih
  | case5 start c cs _ _ ih => exact le_of_le_drop Nat.zero_lt_one (Nat.le_add_left _ _) ih

theorem quoteRun?_le {quotes offset : Nat} (h : quoteRun? quotes text = some offset) :
    offset ≤ text.length := by
  fun_induction quoteRun? quotes text generalizing offset with
  | case1 => contradiction
  | case2 =>
    cases h
    exact Nat.zero_le _
  | case3 c cs _ ih =>
    obtain ⟨m, hm, rfl⟩ := Option.map_eq_some_iff.1 h
    exact Nat.succ_le_succ (ih hm)

/-- The closing quotes in a line of a raw string stand in the text. -/
theorem closeRaw_le {start lead offset : Nat} {rest : List Char} (quotes : Nat)
    (hlead : lead + rest.length ≤ text.length) (hoffset : offset ≤ (restOfLine rest).length) :
    (closeRaw (start + lead + offset) (runLength '"' ((restOfLine rest).drop offset)) quotes).stop ≤
      start + text.length := by
  have hrun := runLength_le '"' ((restOfLine rest).drop offset)
  have hline := length_restOfLine_le rest
  rw [List.length_drop] at hrun
  simp only [closeRaw]
  omega

theorem stop_rawBlockBody_le (quotes start : Nat) (lines : List (Nat × List Char))
    (text : List Char) : (rawBlockBody quotes start lines text).stop ≤ start + text.length := by
  have hlead (c : Char) (cs : List Char) :
      lineEndLength (c :: cs) + (cs.drop (lineEndLength (c :: cs) - 1)).length ≤
        (c :: cs).length := by
    have hpos := length_lineEnd_pos c cs
    have hle := length_lineEnd_le c cs
    rw [drop_sub_one hpos c, List.length_drop]
    omega
  fun_induction rawBlockBody quotes start lines text with
  | case1 => exact Nat.le_add_right _ _
  | case2 start lines c cs lead rest line indentation run hrun =>
    rw [if_pos hrun]
    exact closeRaw_le quotes (hlead c cs) (List.takeWhile_prefix _).length_le
  | case3 start lines c cs offset lead rest line indentation run hrun hoffset =>
    rw [if_neg hrun]
    simp only
    split
    · next place hplace =>
      exact closeRaw_le quotes (hlead c cs) (quoteRun?_le hplace)
    · next hnone =>
      rw [hoffset] at hnone
      contradiction
  | case4 start lines c cs lead lineStart rest line indentation run hrun hnone ih =>
    rw [if_neg hrun]
    simp only
    split
    · next hoffset =>
      rw [hnone] at hoffset
      contradiction
    · refine Nat.le_trans ih ?_
      have hle : lead + rest.length ≤ (c :: cs).length := hlead c cs
      have hline : line.length ≤ rest.length := length_restOfLine_le rest
      rw [List.length_drop]
      show start + lead + line.length + (rest.length - line.length) ≤ _
      omega

theorem utf8SuffixLength_le (text : List Char) : utf8SuffixLength text ≤ text.length := by
  unfold utf8SuffixLength
  split
  · split
    · exact Nat.le_add_left 2 _
    · exact Nat.zero_le _
  · exact Nat.zero_le _

/-- A string whose body ends in the text does so. -/
theorem length_string_le {closed : Bool} {stop : Nat} {features features' : List Feature}
    {faults faults' : List Fault} (h : stop ≤ text.length) :
    (if closed = true then stringLexeme text stop features faults
      else openStringLexeme stop features' faults').length ≤ text.length := by
  cases closed with
  | false => exact h
  | true =>
    have hle := utf8SuffixLength_le (text.drop stop)
    rw [List.length_drop] at hle
    show stop + _ ≤ _
    omega

theorem length_regularString_le (h : 1 ≤ text.length) :
    (regularString text).length ≤ text.length := by
  have hbody := stop_stringBody_le 1 (text.drop 1)
  rw [List.length_drop, Nat.add_sub_cancel' h] at hbody
  exact length_string_le hbody

theorem length_verbatimString_le (h : 2 ≤ text.length) :
    (verbatimString text).length ≤ text.length := by
  have hbody := stop_verbatimBody_le 2 (text.drop 2)
  rw [List.length_drop, Nat.add_sub_cancel' h] at hbody
  exact length_string_le hbody

theorem length_rawString_le (text : List Char) : (rawString text).length ≤ text.length := by
  have hquotes := runLength_le '"' text
  have hline := length_restOfLine_le (text.drop (runLength '"' text))
  have hblock (start : Nat) (lines : List (Nat × List Char)) (rest : List Char) :=
    stop_rawBlockBody_le (runLength '"' text) start lines rest
  have hone := stop_rawLineBody_le (runLength '"' text) (runLength '"' text)
    (text.drop (runLength '"' text))
  unfold rawString
  simp only
  apply length_string_le
  rw [List.length_drop] at hline hone
  split
  · refine Nat.le_trans (hblock _ _ _) ?_
    rw [List.length_drop, List.length_drop]
    omega
  · omega

theorem overlongLength_le (text : List Char) : overlongLength text ≤ text.length := by
  fun_induction overlongLength text with
  | case1 => exact Nat.le_refl 0
  | case2 => exact Nat.le_refl 1
  | case3 _ cs ih =>
    simp only [List.length_cons]
    omega
  | case4 => exact Nat.zero_le _
  | case5 c cs _ _ _ ih =>
    rw [List.length_cons]
    omega

theorem length_characterLiteral_le (h : 1 ≤ text.length) :
    (characterLiteral text).length ≤ text.length := by
  have hhead {n : Nat} {cs : List Char} (hquote : (cs.drop n).head? == some '\'') :
      n < cs.length := by
    refine Nat.lt_of_not_le fun hle ↦ ?_
    rw [List.drop_eq_nil_of_le hle] at hquote
    contradiction
  unfold characterLiteral
  simp only
  split
  · exact h
  · next c cs htext =>
    have hlength := congrArg List.length htext
    rw [List.length_drop, List.length_cons] at hlength
    have hescape : 0 < (if c == '\\' then escape cs else (⟨1, true, false⟩ : Escape)).length ∧
        (if c == '\\' then escape cs else (⟨1, true, false⟩ : Escape)).length ≤ cs.length + 1 := by
      split
      · exact ⟨length_escape_pos cs, length_escape_le cs⟩
      · exact ⟨Nat.zero_lt_one, Nat.le_add_left 1 _⟩
    generalize (if c == '\\' then escape cs else (⟨1, true, false⟩ : Escape)) = e at hescape ⊢
    have hrest := overlongLength_le (cs.drop (e.length - 1))
    rw [List.length_drop] at hrest
    split
    · show 2 ≤ _
      omega
    · split
      · exact h
      · split
        · next hquote =>
          have hlt := hhead hquote
          show e.length + 2 ≤ _
          omega
        · split
          · next hquote => exact hhead hquote
          · show 1 + e.length + _ ≤ _
            omega

/-! ### Groups -/

theorem length_plainLexeme_le_length (text : List Char) :
    (plainLexeme text).length ≤ text.length := by
  cases text with
  | nil => exact Nat.le_refl 0
  | cons c cs =>
    have hone : 1 ≤ (c :: cs).length := Nat.le_add_left 1 _
    have hline {n : Nat} (h : n ≤ (restOfLine (c :: cs)).length) : n ≤ (c :: cs).length :=
      Nat.le_trans h (length_restOfLine_le _)
    simp only [plainLexeme]
    split
    · next hverbatim =>
      obtain ⟨ds, rfl⟩ := List.head?_eq_some_iff.1
        (beq_iff_eq.1 (Bool.and_eq_true_iff.1 hverbatim).2)
      exact length_verbatimString_le (Nat.le_add_left 2 _)
    · split
      · next hname =>
        obtain rfl := beq_iff_eq.1 (Bool.and_eq_true_iff.1 hname).1
        exact hline (length_verbatimName_le (by decide) cs)
      · split
        · exact hline (length_nameLexeme_le _)
        · split
          · exact hline (length_number_le _)
          · split
            · split
              · exact length_rawString_le _
              · exact length_regularString_le hone
            · split
              · exact length_characterLiteral_le hone
              · split
                · exact hone
                · split
                  · next s hs => exact hline (length_le_of_symbolAt? hs)
                  · exact hone

section Content

variable {scan : List Char → Group}

theorem stop_holeTokens_le (hscan : ∀ text, (scan text).length ≤ text.length)
    (hpos : ∀ text, text ≠ [] → 0 < (scan text).length) (inDirective : Bool) (depth start : Nat)
    (text : List Char) :
    (holeTokens scan inDirective depth start text).stop ≤ start + text.length := by
  induction hn : text.length using Nat.strongRecOn generalizing depth start text with
  | ind n ih =>
    have hgap := gapLength_le_length inDirective text
    rw [holeTokens]
    split
    · show start + _ ≤ _
      omega
    · next c cs hdrop =>
      have hlength := congrArg List.length hdrop
      rw [List.length_drop, List.length_cons] at hlength
      split
      · show start + _ ≤ _
        omega
      · have hle := hscan (c :: cs)
        have hgroup := hpos (c :: cs) (List.cons_ne_nil c cs)
        rw [List.length_cons] at hle
        refine Nat.le_trans (ih _ ?_ _ _ _ rfl) ?_
        · rw [List.length_drop]
          omega
        · rw [List.length_drop]
          omega

theorem formatLength_le (multiLine : Bool) (text : List Char) :
    formatLength multiLine text ≤ text.length := by
  unfold formatLength
  split
  · exact (List.takeWhile_prefix _).length_le
  · exact Nat.zero_le _

theorem stop_hole_le (hscan : ∀ text, (scan text).length ≤ text.length)
    (hpos : ∀ text, text ≠ [] → 0 < (scan text).length) (o : Opening) (multiLine inDirective : Bool)
    (start : Nat) {text : List Char} (h : o.braces ≤ text.length) :
    (hole o multiLine scan inDirective start text).stop ≤ start + text.length := by
  have htokens := stop_holeTokens_le hscan hpos inDirective 0 (start + o.braces)
    (text.drop o.braces)
  have hstart := le_stop_holeTokens scan inDirective 0 (start + o.braces) (text.drop o.braces)
  simp only [hole]
  generalize holeTokens scan inDirective 0 (start + o.braces) (text.drop o.braces) = tokens
    at htokens hstart ⊢
  rw [List.length_drop] at htokens
  have hformat := formatLength_le multiLine (text.drop (tokens.stop - start))
  generalize formatLength multiLine (text.drop (tokens.stop - start)) = format at hformat ⊢
  have hrun := runLength_le '\x7d' ((text.drop (tokens.stop - start)).drop format)
  have hmin := Nat.min_le_left
    (runLength '\x7d' ((text.drop (tokens.stop - start)).drop format)) o.braces
  rw [List.length_drop] at hformat
  rw [List.length_drop, List.length_drop] at hrun
  show tokens.stop + format + Nat.min _ _ ≤ _
  have hclose := Nat.le_trans hmin hrun
  change Nat.min _ _ ≤ _ at hclose
  omega

/-- A run of opening braces is no shorter than what it begins. -/
theorem le_of_braceRole {o : Opening} {run length : Nat}
    (h : o.braceRole run = .text length ∨ o.braceRole run = .tooMany length) : length ≤ run := by
  unfold Opening.braceRole at h
  split at h
  · split at h
    · simp at h
      omega
    · simp at h
  · split at h
    · simp at h
      omega
    · split at h
      · simp at h
        omega
      · simp at h

/-- The braces of a hole end the run that they stand in. -/
theorem add_braces_of_braceRole {o : Opening} (hplain : o.raw = false → o.braces = 1)
    {run length : Nat} (h : o.braceRole run = .hole length) (hrun : 0 < run) :
    length + o.braces = run := by
  unfold Opening.braceRole at h
  cases hraw : o.raw with
  | false =>
    have hone := hplain hraw
    simp only [hraw, Bool.not_false, if_true] at h
    split at h
    · contradiction
    · cases h
      omega
  | true =>
    simp only [hraw, Bool.not_true, Bool.false_eq_true, if_false] at h
    split at h
    · contradiction
    · split at h
      · contradiction
      · cases h
        omega

theorem stop_interpolatedBody_le (hscan : ∀ text, (scan text).length ≤ text.length)
    (hpos : ∀ text, text ≠ [] → 0 < (scan text).length) {o : Opening} (ho : 0 < o.braces)
    (hplain : o.raw = false → o.braces = 1) (multiLine inDirective : Bool) (textStart start : Nat)
    (text : List Char) :
    (interpolatedBody o multiLine scan inDirective textStart start text).stop ≤
      start + text.length := by
  have hmark (mark : Char) (cs : List Char) : runLength mark cs + 1 ≤ cs.length + 1 :=
    Nat.succ_le_succ (runLength_le mark cs)
  have hquotes (cs : List Char) : (if o.raw then runLength '"' cs + 1 else 1) ≤ cs.length + 1 := by
    split
    · exact hmark '"' cs
    · exact Nat.le_add_left 1 _
  have hquotes_pos (cs : List Char) : 0 < (if o.raw then runLength '"' cs + 1 else 1) := by
    split
    · exact Nat.succ_pos _
    · exact Nat.zero_lt_one
  fun_induction interpolatedBody o multiLine scan inDirective textStart start text with
  | case1 | case2 => exact Nat.le_add_right _ _
  | case3 textStart start c cs _ _ hdoubled ih =>
    obtain ⟨ds, rfl⟩ := List.head?_eq_some_iff.1
      (beq_iff_eq.1 (Bool.and_eq_true_iff.1 hdoubled).2)
    exact le_of_le_drop Nat.zero_lt_two (Nat.le_add_left 2 _) ih
  | case4 textStart start c cs _ _ _ run =>
    have hrun : run ≤ cs.length + 1 := hquotes cs
    have hpos : 0 < run := hquotes_pos cs
    have hsuffix : (if o.raw then utf8SuffixLength (cs.drop (run - 1)) else 0) ≤
        (cs.drop (run - 1)).length := by
      split
      · exact utf8SuffixLength_le _
      · exact Nat.zero_le _
    exact le_of_le_drop hpos hrun (Nat.add_le_add_left hsuffix (start + run))
  | case5 textStart start c cs _ _ _ run _ ih =>
    exact le_of_le_drop (hquotes_pos cs) (hquotes cs) ih
  | case6 textStart start c cs _ _ _ e ih =>
    exact le_of_le_drop (length_escape_pos cs) (length_escape_le cs) ih
  | case7 textStart start c cs _ _ _ _ length hrole ih =>
    exact le_of_le_drop (length_braceRole_pos (Nat.succ_pos _) (.inl hrole))
      (Nat.le_trans (le_of_braceRole (.inl hrole)) (hmark _ cs)) ih
  | case8 textStart start c cs _ _ _ _ length hrole ih =>
    exact le_of_le_drop (length_braceRole_pos (Nat.succ_pos _) (.inr hrole))
      (Nat.le_trans (le_of_braceRole (.inr hrole)) (hmark _ cs)) ih
  | case9 textStart start c cs _ _ _ _ length hrole holeStart part ih =>
    have hadd := add_braces_of_braceRole hplain hrole (Nat.succ_pos _)
    have hrun := hmark '\x7b' cs
    have hbraces : o.braces ≤ ((c :: cs).drop length).length := by
      rw [List.length_drop, List.length_cons]
      omega
    have hlt : holeStart < part.stop := lt_stop_hole ho multiLine inDirective holeStart _
    have hpart : part.stop ≤ holeStart + ((c :: cs).drop length).length :=
      stop_hole_le hscan hpos o multiLine inDirective holeStart hbraces
    have hstart : holeStart = start + length := rfl
    rw [List.length_drop, List.length_cons] at hpart
    refine le_of_le_drop (n := part.stop - start) (by omega) (by omega) ?_
    rwa [Nat.add_sub_cancel' (by omega)]
  | case10 textStart start c cs _ _ _ _ _ run _ ih =>
    exact le_of_le_drop (Nat.succ_pos _) (hmark _ cs) ih
  | case11 textStart start c cs _ _ _ _ _ run _ htwo ih =>
    exact le_of_le_drop Nat.zero_lt_two (Nat.le_trans htwo (hmark _ cs)) ih
  | case12 textStart start c cs _ _ _ _ _ _ _ _ ih | case13 textStart start c cs _ _ _ _ _ ih =>
    exact le_of_le_drop Nat.zero_lt_one (Nat.le_add_left 1 _) ih

end Content

/-! ### Openings -/

/-- The start of an interpolated string, and the number of braces that open its holes. -/
inductive Opens : (text : List Char) → (braces : Nat) → Prop where
  | regular {n : Nat} : 0 < n → Opens (List.replicate n '$' ++ ['"']) 1
  | verbatim {n : Nat} : 0 < n → Opens (List.replicate n '$' ++ ['@', '"']) 1
  | atFirst {n : Nat} : 0 < n → Opens ('@' :: (List.replicate n '$' ++ ['"'])) 1
  | raw {n m : Nat} : 0 < n → 3 ≤ m →
      Opens (List.replicate n '$' ++ List.replicate m '"') n

theorem take_of_runLength {c : Char} {n : Nat} {text : List Char} (h : n ≤ runLength c text) :
    text.take n = List.replicate n c := by
  induction text generalizing n with
  | nil =>
    obtain rfl : n = 0 := Nat.le_zero.1 h
    rfl
  | cons d ds ih =>
    cases n with
    | zero => rfl
    | succ n =>
      by_cases hd : d = c
      · subst hd
        rw [List.take_succ_cons, List.replicate_succ, ih]
        simpa [runLength] using h
      · simp [runLength, hd] at h

theorem eq_append_of_runLength {c : Char} {n : Nat} (h : n ≤ runLength c text) :
    text = List.replicate n c ++ text.drop n := by
  rw [← take_of_runLength h, List.take_append_drop]

theorem exists_runs {c d : Char} {n : Nat}
    (h : n ≤ runLength d (text.drop (runLength c text))) :
    ∃ rest, text = List.replicate (runLength c text) c ++ List.replicate n d ++ rest := by
  refine ⟨(text.drop (runLength c text)).drop n, ?_⟩
  rw [List.append_assoc, ← eq_append_of_runLength h]
  exact eq_append_of_runLength (Nat.le_refl _)

/-- An interpolated string opens in one of the documented ways, but for the number of its
dollars. -/
theorem opens_of_opening? {o : Opening} (h : opening? text = some o) :
    ∃ characters rest, text = characters ++ rest ∧ characters.length = o.length ∧
      Opens characters o.braces ∧ (o.raw = false → o.braces = 1) := by
  simp only [opening?, Option.ite_none_left_eq_some, Option.some.injEq] at h
  obtain ⟨hnonempty, rfl⟩ := h
  rw [not_or] at hnonempty
  have hdollars := Nat.pos_of_ne_zero hnonempty.1
  have hquotes := Nat.pos_of_ne_zero hnonempty.2
  clear hnonempty
  by_cases hfirst : text.head? = some '@'
  · obtain ⟨cs, rfl⟩ := List.head?_eq_some_iff.1 hfirst
    simp only [List.head?_cons, beq_self_eq_true, if_true, List.drop_succ_cons, List.drop_zero,
      Bool.not_true, Bool.false_and, Bool.true_or, Bool.and_false, Bool.false_eq_true, if_false]
      at hdollars hquotes ⊢
    obtain ⟨rest, hcs⟩ := exists_runs (Nat.succ_le_of_lt hquotes)
    refine ⟨'@' :: (List.replicate (runLength '$' cs) '$' ++ ['"']), rest, ?_, ?_,
      .atFirst hdollars, fun _ ↦ trivial⟩
    · exact congrArg ('@' :: ·) hcs
    · simp
      omega
  · replace hfirst := beq_eq_false_iff_ne.2 hfirst
    simp only [hfirst, Bool.false_eq_true, if_false, Bool.not_false, Bool.true_and, Bool.false_or]
      at hdollars hquotes ⊢
    by_cases hlater : (text.drop (runLength '$' text)).head? = some '@'
    · obtain ⟨cs, hcs⟩ := List.head?_eq_some_iff.1 hlater
      simp only [hcs, List.head?_cons, beq_self_eq_true, if_true, List.drop_succ_cons,
        List.drop_zero, Bool.not_true, Bool.and_false, Bool.false_eq_true, if_false] at hquotes ⊢
      refine ⟨List.replicate (runLength '$' text) '$' ++ ['@', '"'], cs.drop 1, ?_, ?_,
        .verbatim hdollars, fun _ ↦ trivial⟩
      · have hrest := eq_append_of_runLength (Nat.succ_le_of_lt hquotes)
        rw [List.append_assoc]
        show text = _ ++ '@' :: (List.replicate 1 '"' ++ cs.drop 1)
        rw [← hrest, ← hcs]
        exact eq_append_of_runLength (Nat.le_refl _)
      · simp
        omega
    · replace hlater := beq_eq_false_iff_ne.2 hlater
      simp only [hlater, Bool.false_eq_true, if_false, Bool.not_false, Bool.and_true, Nat.zero_add,
        decide_eq_true_eq, decide_eq_false_iff_not] at hquotes ⊢
      split
      · next hraw =>
        obtain ⟨rest, htext⟩ := exists_runs (Nat.le_refl (runLength '"' (text.drop _)))
        exact ⟨_, rest, htext, by simp, .raw hdollars hraw, fun h ↦ absurd hraw h⟩
      · obtain ⟨rest, htext⟩ := exists_runs (Nat.succ_le_of_lt hquotes)
        exact ⟨_, rest, htext, by simp, .regular hdollars, fun _ ↦ rfl⟩

/-- A scan ends in its text. -/
theorem length_scanGroup_le (inDirective : Bool) (room : Nat) (text : List Char) :
    (scanGroup inDirective room text).length ≤ text.length := by
  induction room generalizing text with
  | zero =>
    unfold scanGroup
    split
    · exact length_plainLexeme_le_length text
    · exact Nat.le_refl _
  | succ room ih =>
    unfold scanGroup
    split
    · exact length_plainLexeme_le_length text
    · next o ho =>
      obtain ⟨characters, rest, htext, hopening, -, hplain⟩ := opens_of_opening? ho
      have hlength : o.length ≤ text.length := by
        rw [htext, List.length_append, hopening]
        exact Nat.le_add_right _ _
      have hbody := stop_interpolatedBody_le ih (fun _ ↦ length_scanGroup_pos inDirective room)
        (braces_pos ho) hplain
        (if o.raw then restOfLineIsBlank (text.drop o.length) else o.verbatim) inDirective o.length
        o.length (text.drop o.length)
      rwa [List.length_drop, Nat.add_sub_cancel' hlength] at hbody

end CSharpCheck
