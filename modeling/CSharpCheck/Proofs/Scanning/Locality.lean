import CSharpCheck.Proofs.Scanning.SameUpTo
import CSharpCheck.Proofs.Scanning.Spellings
import CSharpCheck.Proofs.Scanning.Tilings

/-!
# How far scans look ahead

A scan that stops before a line end or a gap, or at it, has not looked behind that place: two texts
that are the same up to there get the same answer. Every scanner has its lemma here.
-/

namespace CSharpCheck

theorem lineEndLength_cons (c : Char) (cs : List Char) :
    lineEndLength (c :: cs) = if c = '\r' ∧ cs.head? = some '\n' then 2 else 1 := by
  unfold lineEndLength
  split <;> simp_all
  intro rfl
  cases cs <;> simp_all

theorem lineEndLength_of_not_isLineEnd {c : Char} (hc : isLineEnd c = false) (cs : List Char) :
    lineEndLength (c :: cs) = 1 := by
  rw [lineEndLength_cons, if_neg]
  rintro ⟨rfl, -⟩
  contradiction

theorem length_lineEnd_pos (c : Char) (cs : List Char) : 0 < lineEndLength (c :: cs) := by
  rw [lineEndLength_cons]
  split <;> omega

/-- The body of a raw string over several lines goes on behind the line end that it starts at. -/
theorem lead_le_stop_rawBlockBody (quotes start : Nat) (lines : List (Nat × List Char))
    (text : List Char) :
    start + lineEndLength text ≤ (rawBlockBody quotes start lines text).stop := by
  cases text with
  | nil => exact Nat.le_of_eq (by rw [rawBlockBody, lineEndLength]; rfl)
  | cons c cs =>
    rw [rawBlockBody]
    simp only
    split
    · simp only [closeRaw]
      omega
    · split
      · simp only [closeRaw]
        omega
      · refine Nat.le_trans ?_ (le_stop_rawBlockBody _ _ _ _)
        omega

/-- A string is no shorter than its body. -/
theorem stop_le_of_length_le {closed : Bool} {text : List Char} {stop n : Nat}
    {features features' : List Feature} {faults faults' : List Fault}
    (h : (if closed = true then stringLexeme text stop features faults
      else openStringLexeme stop features' faults').length ≤ n) : stop ≤ n := by
  cases closed with
  | false => exact h
  | true => exact Nat.le_trans (Nat.le_add_right _ _) h

/-! ### Where texts can part -/

/-- Where a gap opens there is an element of it. -/
theorem gapItem?_ne_none_of_opensGap {text : List Char} (inDirective : Bool)
    (h : opensGap text = true) : gapItem? inDirective text ≠ none := by
  cases text with
  | nil => contradiction
  | cons c cs =>
    rcases opensGap_cases h with hc | ⟨rfl, ds, rfl⟩
    · simp [gapItem?_blank inDirective hc]
    · simp only [gapItem?]
      split <;> simp

/-- A gap goes on as long as it can. -/
theorem gapItem?_drop_gap (inDirective : Bool) (text : List Char) :
    gapItem? inDirective (text.drop (gapLength (gap inDirective text))) = none := by
  fun_induction gap inDirective text with
  | case1 text hitem => exact hitem
  | case2 => rfl
  | case3 text item hitem hne ih =>
    rw [gapLength, List.foldr_cons, ← List.drop_drop]
    exact ih

theorem not_continuesName_of_mem_partings {c : Char} (hc : c ∈ partings) :
    continuesName c = false :=
  false_of_mem_partings (by decide +kernel) hc

theorem not_mem_partings_of_continuesName {c : Char} (hc : continuesName c = true) :
    c ∉ partings := fun hmem ↦ by
  rw [not_continuesName_of_mem_partings hmem] at hc
  contradiction

theorem nameChar?_of_mem_partings {c : Char} (hc : c ∈ partings) (cs : List Char) :
    nameChar? (c :: cs) = some (c, 1) := by
  have hescape : (c == '\\') = false := false_of_mem_partings (p := (· == '\\')) (by decide) hc
  simp [nameChar?, hescape]

/-- A backslash in front of a character that texts can part at spells itself. -/
theorem nameChar?_cons_of_mem_partings {c d : Char} (hd : d ∈ partings) (ds : List Char) :
    nameChar? (c :: d :: ds) = some (c, 1) := by
  have hu : d ≠ 'u' := by
    rintro rfl
    exact absurd hd (by decide)
  have hU : d ≠ 'U' := by
    rintro rfl
    exact absurd hd (by decide)
  simp [nameChar?, hu, hU]

theorem nameChars_of_mem_partings {c : Char} (hc : c ∈ partings) (cs : List Char) :
    nameChars (c :: cs) = [] := by
  rw [nameChars, nameChar?_of_mem_partings hc]
  simp [not_continuesName_of_mem_partings hc]

theorem nameStarts_of_mem_partings {c : Char} (hc : c ∈ partings) (cs : List Char) :
    nameStarts (c :: cs) = false := by
  rw [nameStarts, nameChar?_of_mem_partings hc]
  refine Bool.eq_false_iff.2 fun hstarts ↦ ?_
  exact not_mem_partings_of_continuesName (continuesName_of_startsName hstarts) hc

theorem number_zero (cs : List Char) : number ('0' :: cs) =
    if cs.head?.any (fun c ↦ c == 'x' || c == 'X') = true then prefixedNumber false ('0' :: cs)
    else if cs.head?.any (fun c ↦ c == 'b' || c == 'B') = true then prefixedNumber true ('0' :: cs)
    else decimalNumber ('0' :: cs) := by
  cases cs <;> rfl

theorem number_of_ne_zero {c : Char} (hzero : c ≠ '0') (cs : List Char) :
    number (c :: cs) = decimalNumber (c :: cs) := by
  unfold number
  split
  · simp_all
  · rfl

theorem escape_of_mem_partings {c : Char} (hc : c ∈ partings) (hend : isLineEnd c = false)
    (cs : List Char) : escape (c :: cs) = ⟨2, false, false⟩ := by
  have hletters : (['\'', '"', '\\', '0', 'a', 'b', 'f', 'n', 'r', 't', 'v', 'e', 'x', 'u',
      'U'].contains c) = false :=
    false_of_mem_partings (p := List.contains _) (by decide) hc
  simp only [List.contains_cons, List.contains_nil, Bool.or_eq_false_iff] at hletters
  simp only [escape, List.contains_cons, List.contains_nil, hletters, hend, Bool.or_false,
    Bool.false_eq_true, if_false]

theorem utf8SuffixLength_cons (c : Char) (cs : List Char) : utf8SuffixLength (c :: cs) =
    if ((c == 'u' || c == 'U') && cs.head? == some '8') = true then 2 else 0 := by
  unfold utf8SuffixLength
  split
  · next heq =>
    cases heq
    simp
  · next hno =>
    cases cs with
    | nil => simp
    | cons d ds =>
      have hd : d ≠ '8' := by
        rintro rfl
        exact hno c ds rfl
      simp [hd]

theorem overlongLength_of_ne {c : Char} (hc : c ≠ '\\') (cs : List Char) :
    overlongLength (c :: cs) =
      if c == '\'' || isLineEnd c then 0 else 1 + overlongLength cs := by
  rw [overlongLength]
  · exact fun hcs _ ↦ hc hcs
  · exact fun _ _ hcs _ ↦ hc hcs

/-! ### Lines of raw strings -/

/-- A run that no line end stands in ends on its line. -/
theorem takeWhile_restOfLine {p : Char → Bool} (hp : ∀ c, isLineEnd c = true → p c = false)
    (text : List Char) : (restOfLine text).takeWhile p = text.takeWhile p := by
  induction text with
  | nil => rfl
  | cons c cs ih =>
    cases hc : isLineEnd c with
    | true => simp [restOfLine, hc, hp c hc]
    | false =>
      simp only [restOfLine] at ih
      simp [restOfLine, hc, List.takeWhile_cons, ih]

theorem runLength_restOfLine {c : Char} (hc : isLineEnd c = false) (text : List Char) :
    runLength c (restOfLine text) = runLength c text := by
  rw [runLength, runLength, takeWhile_restOfLine]
  rintro d hd
  rw [beq_eq_false_iff_ne]
  rintro rfl
  rw [hc] at hd
  contradiction

theorem restOfLine_drop {k : Nat} {text : List Char} (hk : k ≤ (restOfLine text).length) :
    restOfLine (text.drop k) = (restOfLine text).drop k := by
  induction k generalizing text with
  | zero => rfl
  | succ k ih =>
    cases text with
    | nil => rfl
    | cons c cs =>
      cases hc : isLineEnd c with
      | true => simp [restOfLine, hc] at hk
      | false =>
        simp only [restOfLine, List.takeWhile_cons, hc, Bool.not_false, if_true,
          List.length_cons] at hk ih ⊢
        exact ih (Nat.le_of_succ_le_succ hk)

/-- What follows a run at the beginning of a line, up to the end of the line. -/
theorem runLength_drop_restOfLine {c : Char} (hc : isLineEnd c = false) {k : Nat}
    {text : List Char} (hk : k ≤ (restOfLine text).length) :
    runLength c ((restOfLine text).drop k) = runLength c (text.drop k) := by
  rw [← restOfLine_drop hk, runLength_restOfLine hc]

/-- A run of quotes that is found is long enough, and there is no other quote in front of it. -/
theorem quoteRun?_spec {quotes k : Nat} {line : List Char} (hquotes : 0 < quotes)
    (h : quoteRun? quotes line = some k) :
    quotes ≤ runLength '"' (line.drop k) ∧ k ≤ line.length ∧
      (line.takeWhile fun c ↦ c == ' ' || c == '\t').length ≤ k := by
  induction line generalizing k with
  | nil => contradiction
  | cons c cs ih =>
    rw [quoteRun?] at h
    split at h
    · next hrun =>
      cases h
      refine ⟨hrun, Nat.zero_le _, ?_⟩
      have hc : c = '"' := Decidable.of_not_not fun hne ↦ by
        rw [runLength, List.takeWhile_cons, if_neg (by simpa using hne)] at hrun
        exact absurd hrun (Nat.not_le.2 hquotes)
      simp [hc]
    · obtain ⟨k, hk, rfl⟩ := Option.map_eq_some_iff.1 h
      obtain ⟨hrun, hle, hindentation⟩ := ih hk
      refine ⟨hrun, Nat.succ_le_succ hle, ?_⟩
      rw [List.takeWhile_cons]
      split
      · exact Nat.succ_le_succ hindentation
      · exact Nat.zero_le _

/-! ### Lines that are blank -/

/-- Whether the character neither ends a line nor anything that is scanned: a blank or a slash. -/
def staysOnLine (c : Char) : Bool := isBlank c || c == '/'

theorem staysOnLine_of_opensGap {c : Char} {cs : List Char} (h : opensGap (c :: cs) = true) :
    staysOnLine c = true := by
  rcases opensGap_cases h with hc | ⟨rfl, -⟩
  · rw [staysOnLine, hc, Bool.true_or]
  · rfl

theorem restOfLineIsBlank_cons (c : Char) (cs : List Char) :
    restOfLineIsBlank (c :: cs) = (isLineEnd c || (isBlank c && restOfLineIsBlank cs)) := by
  cases hc : isLineEnd c with
  | true => simp [restOfLineIsBlank, restOfLine, hc]
  | false => simp [restOfLineIsBlank, restOfLine, hc]

theorem not_isLineEnd_of_staysOnLine {c : Char} (h : staysOnLine c = true) :
    isLineEnd c = false := by
  rcases Bool.or_eq_true_iff.1 h with hc | hc
  · exact not_isLineEnd_of_isBlank hc
  · rw [beq_iff_eq.1 hc]
    rfl

theorem length_takeWhile_staysOnLine_le (text : List Char) :
    (text.takeWhile staysOnLine).length ≤ (restOfLine text).length := by
  induction text with
  | nil => exact Nat.le_refl _
  | cons c cs ih =>
    rw [restOfLine, List.takeWhile_cons, List.takeWhile_cons]
    split
    · next hc =>
      rw [if_pos (by simpa using not_isLineEnd_of_staysOnLine hc)]
      exact Nat.succ_le_succ ih
    · exact Nat.zero_le _

/-- The body of a raw string takes in what cannot end it. -/
theorem staysOnLine_le_stop_rawLineBody (quotes start : Nat) (text : List Char) :
    start + (text.takeWhile staysOnLine).length ≤ (rawLineBody quotes start text).stop := by
  induction text generalizing start with
  | nil => exact le_stop_rawLineBody quotes start []
  | cons c cs ih =>
    rw [List.takeWhile_cons]
    split
    · next hc =>
      have hquote : ¬(c == '"') = true := by
        rw [beq_iff_eq]
        rintro rfl
        contradiction
      rw [rawLineBody, if_neg (by simp [not_isLineEnd_of_staysOnLine hc]), if_neg hquote]
      have hle := ih (start + 1)
      rw [List.length_cons]
      omega
    · exact le_stop_rawLineBody quotes start (c :: cs)

namespace SameUpTo

variable {b : Boundary} {m n : Nat} {c : Char} {text other cs ds : List Char}

theorem lineEndLength_eq (h : SameUpTo b (n + 1) text other) :
    lineEndLength other = lineEndLength text := by
  cases h with
  | cons c h =>
    rw [lineEndLength_cons, lineEndLength_cons]
    simp only [h.head?_iff_of_isLineEnd (c := '\n') rfl]

/-! ### Gaps -/

theorem blockCommentLength?_eq (h : SameUpTo b n text other)
    (hlength : blockCommentLength? text = some m) (hm : m ≤ n) :
    blockCommentLength? other = some m := by
  fun_induction blockCommentLength? text generalizing m n other with
  | case1 => contradiction
  | case2 cs =>
    cases hlength
    obtain ⟨ds, n, rfl, rfl, h'⟩ := h.of_pos (by omega)
    obtain ⟨ds, n, rfl, rfl, -⟩ := h'.of_pos (by omega)
    rfl
  | case3 c cs hc ih =>
    obtain ⟨m, hcs, rfl⟩ := Option.map_eq_some_iff.1 hlength
    obtain ⟨ds, n, rfl, rfl, h'⟩ := h.of_pos (by omega)
    have hother : ∀ ds', c = '*' → ds = '/' :: ds' → False := h.not_sign (by decide) hc
    rw [blockCommentLength?, ih h' hcs (Nat.le_of_succ_le_succ hm), Option.map_some]
    exact hother

theorem gapItem?_eq {inDirective : Bool} (h : SameUpTo b n text other)
    (hlength : ∀ item, gapItem? inDirective text = some item → item.length ≤ n) :
    gapItem? inDirective other = gapItem? inDirective text := by
  fun_cases gapItem? inDirective text with
  | case1 => exact absurd rfl h.ne_nil
  | case2 cs =>
    have hle : (restOfLine cs).length + 2 ≤ n := hlength _ rfl
    obtain ⟨ds, n, rfl, rfl, h'⟩ := h.of_pos (by omega)
    obtain ⟨ds, n, rfl, rfl, h''⟩ := h'.of_pos (by omega)
    simp only [gapItem?, h''.restOfLine_eq (by omega)]
  | case3 cs extra hcomment =>
    have hle : extra + 2 ≤ n := hlength (.blockComment extra) (by simp only [gapItem?, hcomment])
    obtain ⟨ds, n, rfl, rfl, h'⟩ := h.of_pos (by omega)
    obtain ⟨ds, n, rfl, rfl, h''⟩ := h'.of_pos (by omega)
    simp only [gapItem?, h''.blockCommentLength?_eq hcomment (by omega)]
  | case4 cs hcomment =>
    have hle : cs.length + 2 ≤ n :=
      hlength (.openComment cs.length) (by simp only [gapItem?, hcomment])
    exact absurd h.lt_length (Nat.not_lt.2 hle)
  | case5 c cs hline hblock hend hin =>
    obtain ⟨ds, rfl⟩ := h.exists_cons_of_isLineEnd hend
    rw [gapItem?, if_pos hend, if_pos hin]
    · exact h.not_sign (by decide) hline
    · exact h.not_sign (by decide) hblock
  | case6 c cs hline hblock hend hin =>
    have hle := hlength _ (by rw [gapItem?, if_pos hend, if_neg hin] <;> assumption)
    obtain ⟨ds, n, rfl, rfl, h'⟩ := h.of_pos (Nat.lt_of_lt_of_le (GapItem.length_pos _) hle)
    rw [gapItem?, if_pos hend, if_neg hin, h'.beq_head?_of_isLineEnd (c := '\n') rfl]
    · exact h.not_sign (by decide) hline
    · exact h.not_sign (by decide) hblock
  | case7 c cs hline hblock hend hblank =>
    have hle := hlength _ (by rw [gapItem?, if_neg hend, if_pos hblank] <;> assumption)
    obtain ⟨ds, n, rfl, rfl, h'⟩ := h.of_pos (Nat.lt_of_lt_of_le (GapItem.length_pos _) hle)
    rw [gapItem?, if_neg hend, if_pos hblank]
    · exact h.not_sign (by decide) hline
    · exact h.not_sign (by decide) hblock
  | case8 c cs hline hblock hend hblank =>
    cases h with
    | atLineEnd hc => exact absurd hc hend
    | atGap hgap =>
      rcases opensGap_cases hgap with hc | ⟨rfl, _, rfl⟩
      · exact absurd hc hblank
      · exact absurd rfl (hblock _ rfl)
    | cons _ h =>
      rw [gapItem?, if_neg hend, if_neg hblank]
      · exact (h.cons c).not_sign (by decide) hline
      · exact (h.cons c).not_sign (by decide) hblock

theorem gap_eq {inDirective : Bool} (h : SameUpTo b n text other)
    (hlength : gapLength (gap inDirective text) ≤ n) :
    gap inDirective other = gap inDirective text := by
  fun_induction gap inDirective text generalizing n other with
  | case1 text hitem =>
    have hother : gapItem? inDirective other = gapItem? inDirective text :=
      h.gapItem?_eq (by simp [hitem])
    rw [gap, hother, hitem]
  | case2 => exact absurd rfl h.ne_nil
  | case3 text item hitem hne ih =>
    simp only [gapLength, List.foldr_cons] at hlength ih
    have hother : gapItem? inDirective other = gapItem? inDirective text := by
      refine h.gapItem?_eq fun item' hitem' ↦ ?_
      rw [hitem] at hitem'
      cases hitem'
      omega
    rw [gap, hother, hitem]
    simp only [h.ne_nil_other, if_false, ih (h.drop (by omega)) (by omega)]

/-- Behind a gap both texts go on with the same character. -/
theorem drop_gap {inDirective : Bool} (h : SameUpTo b n text other)
    (hlength : gapLength (gap inDirective text) ≤ n) :
    ∃ c cs ds, text.drop (gapLength (gap inDirective text)) = c :: cs ∧
      other.drop (gapLength (gap inDirective text)) = c :: ds ∧
      SameUpTo b (n - gapLength (gap inDirective text)) (c :: cs) (c :: ds) := by
  have hnone := gapItem?_drop_gap inDirective text
  have hrest := h.drop hlength
  generalize text.drop (gapLength (gap inDirective text)) = rest at hnone hrest
  generalize other.drop (gapLength (gap inDirective text)) = rest' at hrest
  generalize n - gapLength (gap inDirective text) = k at hrest
  cases hrest with
  | atLineEnd hc => exact ⟨_, _, _, rfl, rfl, .atLineEnd hc⟩
  | atGap hgap => exact absurd hnone (gapItem?_ne_none_of_opensGap inDirective hgap)
  | cons c hrest => exact ⟨_, _, _, rfl, rfl, hrest.cons c⟩

/-! ### Names -/

theorem escapedChar?_eq (count : Nat) (h : SameUpTo b n text other) :
    escapedChar? count other = escapedChar? count text := by
  rcases Nat.lt_or_ge n count with hlt | hle
  · obtain ⟨htext, hother⟩ := h.all_take_eq_false (p := isHexDigit) (by decide) hlt
    simp [escapedChar?, htext, hother]
  · rw [escapedChar?, escapedChar?, h.take hle]

theorem escapedChar?_le {count : Nat} (h : SameUpTo b n text other)
    (hchar : escapedChar? count text = some c) : count ≤ n := by
  refine Nat.le_of_not_lt fun hlt ↦ ?_
  have hhex := (h.all_take_eq_false (p := isHexDigit) (by decide) hlt).1
  simp [escapedChar?, hhex] at hchar

theorem nameChar?_eq (h : SameUpTo b n text other) (hn : 0 < n) :
    nameChar? other = nameChar? text := by
  cases h with
  | atLineEnd | atGap => contradiction
  | cons c h =>
    cases h with
    | atLineEnd hd =>
      have hd := mem_partings_of_isLineEnd hd
      rw [nameChar?_cons_of_mem_partings hd, nameChar?_cons_of_mem_partings hd]
    | atGap hd he =>
      rw [nameChar?_cons_of_mem_partings (mem_partings_of_opensGap hd),
        nameChar?_cons_of_mem_partings (mem_partings_of_isBlank he)]
    | cons d h =>
      by_cases hu : d = 'u'
      · simp [nameChar?, hu, h.escapedChar?_eq]
      · by_cases hU : d = 'U'
        · simp [nameChar?, hU, h.escapedChar?_eq]
        · simp [nameChar?, hu, hU]

/-- A character of a name spells itself or is spelled by an escape. -/
theorem nameChar?_cases {d : Char} (hchar : nameChar? text = some (d, m)) :
    (∃ cs, text = d :: cs ∧ m = 1) ∨ ∃ u digits count, text = '\\' :: u :: digits ∧
      u ∉ partings ∧ escapedChar? count digits = some d ∧ m = count + 2 := by
  unfold nameChar? at hchar
  split at hchar
  · contradiction
  · next c cs =>
    simp only [Option.some.injEq] at hchar
    have hone (heq : (c, 1) = (d, m)) : ∃ ds, c :: cs = d :: ds ∧ m = 1 := by
      cases heq
      exact ⟨cs, rfl, rfl⟩
    have hescape {u : Char} {digits : List Char} {count : Nat} (hc : (c == '\\') = true)
        (hu : u ∉ partings)
        (heq : ((escapedChar? count digits).map (·, count + 2)).getD (c, 1) = (d, m)) :
        (∃ ds, c :: u :: digits = d :: ds ∧ m = 1) ∨ ∃ u' digits' count',
          c :: u :: digits = '\\' :: u' :: digits' ∧ u' ∉ partings ∧
            escapedChar? count' digits' = some d ∧ m = count' + 2 := by
      cases hdigits : escapedChar? count digits with
      | none =>
        rw [hdigits] at heq
        cases heq
        exact .inl ⟨_, rfl, rfl⟩
      | some e =>
        rw [hdigits] at heq
        cases heq
        exact .inr ⟨u, digits, count, by rw [beq_iff_eq.1 hc], hu, hdigits, rfl⟩
    split at hchar
    · next hc =>
      split at hchar
      · exact hescape hc (by decide) hchar
      · exact hescape hc (by decide) hchar
      · exact .inl (hone hchar)
    · exact .inl (hone hchar)

theorem nameChar?_le {d : Char} (h : SameUpTo b n text other)
    (hchar : nameChar? text = some (d, m)) (hd : continuesName d = true) : m ≤ n := by
  rcases nameChar?_cases hchar with ⟨cs, rfl, rfl⟩ | ⟨u, digits, count, rfl, hu, hdigit, rfl⟩
  · obtain ⟨_, k, -, rfl, -⟩ := h.of_cons (not_mem_partings_of_continuesName hd)
    exact Nat.le_add_left 1 k
  · obtain ⟨_, k, -, rfl, hdigits⟩ := h.of_cons_cons (by decide) hu
    exact Nat.add_le_add_right (hdigits.escapedChar?_le hdigit) 2

theorem nameChars_eq (h : SameUpTo b n text other) : nameChars other = nameChars text := by
  induction hlength : text.length using Nat.strongRecOn generalizing n text other with
  | ind length ih =>
    cases n with
    | zero =>
      obtain ⟨c, cs, rfl⟩ := List.exists_cons_of_ne_nil h.ne_nil
      obtain ⟨d, ds, rfl⟩ := List.exists_cons_of_ne_nil h.ne_nil_other
      obtain ⟨hc, hd⟩ := h.mem_partings
      rw [nameChars_of_mem_partings hc, nameChars_of_mem_partings hd]
    | succ n =>
      have hchar := h.nameChar?_eq n.succ_pos
      obtain ⟨c, cs, rfl⟩ := List.exists_cons_of_ne_nil h.ne_nil
      obtain ⟨ds, -, rfl, -⟩ := h.of_pos n.succ_pos
      rw [nameChars, nameChars, hchar]
      cases hfirst : nameChar? (c :: cs) with
      | none => rfl
      | some first =>
        obtain ⟨d, m⟩ := first
        cases hd : continuesName d with
        | false => simp [hd]
        | true =>
          have hrest := h.drop_tail (length_nameChar?_pos hfirst) (h.nameChar?_le hfirst hd)
          rw [List.length_cons] at hlength
          simp only [hd, if_true]
          rw [ih _ (by rw [List.length_drop]; omega) hrest rfl]

theorem length_nameLexeme_le (h : SameUpTo b n text other) :
    (nameLexeme false text).length ≤ n := by
  suffices hchars : ((nameChars text).foldr (fun c rest ↦ c.2 + rest) 0) ≤ n by
    simpa only [nameLexeme, Bool.false_eq_true, if_false] using hchars
  induction hlength : text.length using Nat.strongRecOn generalizing n text other with
  | ind length ih =>
    cases n with
    | zero =>
      obtain ⟨c, cs, rfl⟩ := List.exists_cons_of_ne_nil h.ne_nil
      obtain ⟨d, ds, rfl⟩ := List.exists_cons_of_ne_nil h.ne_nil_other
      rw [nameChars_of_mem_partings h.mem_partings.1]
      exact Nat.le_refl 0
    | succ n =>
      obtain ⟨c, cs, rfl⟩ := List.exists_cons_of_ne_nil h.ne_nil
      obtain ⟨ds, -, rfl, -⟩ := h.of_pos n.succ_pos
      rw [nameChars]
      cases hfirst : nameChar? (c :: cs) with
      | none => exact Nat.zero_le _
      | some first =>
        obtain ⟨d, m⟩ := first
        cases hd : continuesName d with
        | false => simp [hd]
        | true =>
          have hle := h.nameChar?_le hfirst hd
          have hrest := h.drop_tail (length_nameChar?_pos hfirst) hle
          rw [List.length_cons] at hlength
          have hchars := ih _ (by rw [List.length_drop]; omega) hrest rfl
          simp only [hd, if_true, List.foldr_cons]
          omega

theorem nameStarts_eq (h : SameUpTo b n text other) : nameStarts other = nameStarts text := by
  cases n with
  | zero =>
    obtain ⟨c, cs, rfl⟩ := List.exists_cons_of_ne_nil h.ne_nil
    obtain ⟨d, ds, rfl⟩ := List.exists_cons_of_ne_nil h.ne_nil_other
    obtain ⟨hc, hd⟩ := h.mem_partings
    rw [nameStarts_of_mem_partings hc, nameStarts_of_mem_partings hd]
  | succ n => rw [nameStarts, nameStarts, h.nameChar?_eq n.succ_pos]

theorem nameLexeme_eq (h : SameUpTo b n text other) :
    nameLexeme false other = nameLexeme false text := by
  simp only [nameLexeme, Bool.false_eq_true, if_false, h.nameChars_eq]

theorem verbatimName_eq (h : SameUpTo b n text other) (hpos : 0 < n) :
    nameLexeme true other = nameLexeme true text := by
  simp only [nameLexeme, if_true, (h.drop hpos).nameChars_eq]

/-! ### Numbers -/

theorem digitGroup_eq {p : Char → Bool} (hp : partings.any p = false)
    (h : SameUpTo b n text other) : digitGroup p other = digitGroup p text := by
  refine h.takeWhile_eq (List.any_eq_false.2 fun c hc ↦ ?_)
  have hseparator : (c == '_') = false := false_of_mem_partings (p := (· == '_')) (by decide) hc
  simp [false_of_mem_partings hp hc, hseparator]

theorem digitFollows_eq (h : SameUpTo b n text other) : digitFollows other = digitFollows text := by
  have hall (text : List Char) : digitFollows text = text.head?.all Char.isDigit := by
    cases text <;> rfl
  rw [hall, hall, h.all_head? (by decide)]

theorem integerSuffixLength_eq (h : SameUpTo b n text other) :
    integerSuffixLength other = integerSuffixLength text := by
  have hnone {c : Char} (hc : c ∈ partings) (cs : List Char) : integerSuffixLength (c :: cs) = 0 := by
    have hu : c.toLower ≠ 'u' := by
      simpa using false_of_mem_partings (p := (·.toLower == 'u')) (by decide) hc
    have hl : c.toLower ≠ 'l' := by
      simpa using false_of_mem_partings (p := (·.toLower == 'l')) (by decide) hc
    simp only [integerSuffixLength]
  cases h with
  | atLineEnd hc =>
    have hc := mem_partings_of_isLineEnd hc
    rw [hnone hc, hnone hc]
  | atGap hc hd =>
    rw [hnone (mem_partings_of_opensGap hc), hnone (mem_partings_of_isBlank hd)]
  | @cons _ n cs ds c h =>
    have hfollows (letter : Char) (hletter : partings.any (·.toLower == letter) = false) :
        (ds.head?.map Char.toLower == some letter) = (cs.head?.map Char.toLower == some letter) := by
      have hany (o : Option Char) :
          (o.map Char.toLower == some letter) = o.any (·.toLower == letter) := by
        cases o <;> rfl
      rw [hany, hany, h.any_head? hletter]
    simp only [integerSuffixLength, hfollows 'l' (by decide), hfollows 'u' (by decide)]

theorem realSuffixLength_eq (h : SameUpTo b n text other) :
    realSuffixLength other = realSuffixLength text := by
  have hnone {c : Char} (hc : c ∈ partings) (cs : List Char) : realSuffixLength (c :: cs) = 0 := by
    have hletter : ['f', 'd', 'm'].contains c.toLower = false :=
      false_of_mem_partings (p := fun c ↦ ['f', 'd', 'm'].contains c.toLower) (by decide) hc
    rw [realSuffixLength, hletter]
    rfl
  cases h with
  | atLineEnd | cons => rfl
  | atGap hc hd => rw [hnone (mem_partings_of_opensGap hc), hnone (mem_partings_of_isBlank hd)]

theorem prefixedNumber_eq (binary : Bool) (h : SameUpTo b n text other)
    (hlength : (prefixedNumber binary text).length ≤ n) :
    prefixedNumber binary other = prefixedNumber binary text := by
  have hp : partings.any (if binary then Char.isDigit else isHexDigit) = false := by
    cases binary <;> decide
  simp only [prefixedNumber, numberLexeme] at hlength ⊢
  have hdigits := (h.drop (m := 2) (by omega)).digitGroup_eq hp
  rw [hdigits, (h.drop (by omega)).integerSuffixLength_eq]

theorem exponent?_eq (h : SameUpTo b n text other) : exponent? other = exponent? text := by
  have hnone {c : Char} (hc : c ∈ partings) (cs : List Char) : exponent? (c :: cs) = none := by
    have he : (c == 'e' || c == 'E') = false :=
      false_of_mem_partings (p := fun c ↦ c == 'e' || c == 'E') (by decide) hc
    simp [exponent?, he]
  cases h with
  | atLineEnd hc =>
    have hc := mem_partings_of_isLineEnd hc
    rw [hnone hc, hnone hc]
  | atGap hc hd =>
    rw [hnone (mem_partings_of_opensGap hc), hnone (mem_partings_of_isBlank hd)]
  | @cons _ n cs _ c h =>
    simp only [exponent?, h.beq_head? (c := '+') (by decide), h.beq_head? (c := '-') (by decide)]
    split
    · split
      · next hsign =>
        have hpos : 0 < n := by
          simp only [Bool.or_eq_true, beq_iff_eq] at hsign
          rcases hsign with hsign | hsign <;> exact h.pos_of_head? hsign (by decide)
        rw [(h.drop hpos).digitGroup_eq (by decide)]
      · rw [(h.drop (Nat.zero_le _)).digitGroup_eq (by decide)]
    · rfl

theorem fraction?_eq (h : SameUpTo b n text other) : fraction? other = fraction? text := by
  have hnone {c : Char} (hc : c ∈ partings) (cs : List Char) : fraction? (c :: cs) = none := by
    have hdot : c ≠ '.' := by
      rintro rfl
      exact absurd hc (by decide)
    simp [fraction?, hdot]
  cases h with
  | atLineEnd hc =>
    have hc := mem_partings_of_isLineEnd hc
    rw [hnone hc, hnone hc]
  | atGap hc hd =>
    rw [hnone (mem_partings_of_opensGap hc), hnone (mem_partings_of_isBlank hd)]
  | cons c h =>
    by_cases hdot : c = '.'
    · simp only [hdot, fraction?, h.digitFollows_eq, h.digitGroup_eq (p := Char.isDigit) (by decide)]
    · simp [fraction?, hdot]

theorem decimalNumber_eq (h : SameUpTo b n text other)
    (hlength : (decimalNumber text).length ≤ n) : decimalNumber other = decimalNumber text := by
  simp only [decimalNumber, numberLexeme] at hlength ⊢
  rw [h.digitGroup_eq (p := Char.isDigit) (by decide)]
  generalize digitGroup Char.isDigit text = whole at hlength ⊢
  rw [(h.drop (m := whole.length) (by omega)).fraction?_eq]
  generalize fraction? (text.drop whole.length) = fraction at hlength ⊢
  generalize whole.length + (fraction.map (·.length + 1)).getD 0 = wholeEnd at hlength ⊢
  rw [(h.drop (m := wholeEnd) (by omega)).exponent?_eq]
  generalize exponent? (text.drop wholeEnd) = exponent at hlength ⊢
  rw [(h.drop ?_).realSuffixLength_eq, (h.drop ?_).integerSuffixLength_eq] <;> omega

theorem numberStarts_eq (h : SameUpTo b n text other) : numberStarts other = numberStarts text := by
  have hnone {c : Char} (hc : c ∈ partings) (cs : List Char) : numberStarts (c :: cs) = false := by
    have hdigit : c.isDigit = false := false_of_mem_partings (by decide) hc
    rw [numberStarts, hdigit]
    rintro rfl
    exact absurd hc (by decide)
  cases h with
  | atLineEnd hc =>
    have hc := mem_partings_of_isLineEnd hc
    rw [hnone hc, hnone hc]
  | atGap hc hd =>
    rw [hnone (mem_partings_of_opensGap hc), hnone (mem_partings_of_isBlank hd)]
  | cons c h =>
    by_cases hdot : c = '.'
    · simp only [hdot, numberStarts, h.digitFollows_eq]
    · simp [numberStarts]

theorem number_eq (h : SameUpTo b n text other) (hn : 0 < n)
    (hlength : (number text).length ≤ n) : number other = number text := by
  cases h with
  | atLineEnd | atGap => contradiction
  | @cons _ n cs ds c h =>
    by_cases hzero : c = '0'
    · subst hzero
      rw [number_zero] at hlength
      rw [number_zero, number_zero, h.any_head? (by decide), h.any_head? (by decide)]
      split
      · next hx =>
        rw [if_pos hx] at hlength
        exact (h.cons '0').prefixedNumber_eq false hlength
      · next hx =>
        rw [if_neg hx] at hlength
        split
        · next hb =>
          rw [if_pos hb] at hlength
          exact (h.cons '0').prefixedNumber_eq true hlength
        · next hb =>
          rw [if_neg hb] at hlength
          exact (h.cons '0').decimalNumber_eq hlength
    · rw [number_of_ne_zero hzero] at hlength ⊢
      rw [number_of_ne_zero hzero, (h.cons c).decimalNumber_eq hlength]

/-! ### Quoted literals -/

theorem escape_eq (h : SameUpTo b n text other) : escape other = escape text := by
  cases h with
  | atLineEnd hc =>
    simp only [isLineEnd, Bool.or_eq_true, beq_iff_eq] at hc
    rcases hc with (((rfl | rfl) | rfl) | rfl) | rfl <;> rfl
  | atGap hc hd =>
    rw [escape_of_mem_partings (mem_partings_of_opensGap hc) (not_isLineEnd_of_opensGap hc),
      escape_of_mem_partings (mem_partings_of_isBlank hd) (not_isLineEnd_of_isBlank hd)]
  | cons c h =>
    simp only [escape, List.drop_succ_cons, List.drop_zero,
      h.takeWhile_eq (p := isHexDigit) (by decide)]

theorem stringBody_eq {start : Nat} (h : SameUpTo b n text other)
    (hstop : (stringBody start text).stop ≤ start + n) :
    stringBody start other = stringBody start text := by
  fun_induction stringBody start text generalizing n other with
  | case1 => exact absurd rfl h.ne_nil
  | case2 start c cs hend =>
    obtain ⟨ds, rfl⟩ := h.exists_cons_of_isLineEnd hend
    rw [stringBody, if_pos hend]
  | case3 start c cs hend hquote =>
    obtain ⟨ds, n, rfl, rfl, -⟩ := h.of_cons (beq_iff_eq.1 hquote ▸ by decide)
    rw [stringBody, if_neg hend, if_pos hquote]
  | case4 start c cs hend hquote hescape e =>
    rename_i ih
    have hpos : 0 < e.length := length_escape_pos cs
    have hle := le_stop_stringBody (start + e.length) (cs.drop (e.length - 1))
    simp only [Body.afterEscape] at hstop
    obtain ⟨ds, n, rfl, rfl, h'⟩ := h.of_pos (by omega)
    rw [stringBody, if_neg hend, if_neg hquote, if_pos hescape, h'.escape_eq]
    simp only
    rw [ih (h.drop_tail hpos (by omega)) (by omega)]
  | case5 start c cs hend hquote hescape ih =>
    have hle := le_stop_stringBody (start + 1) cs
    obtain ⟨ds, n, rfl, rfl, h'⟩ := h.of_pos (by omega)
    rw [stringBody, if_neg hend, if_neg hquote, if_neg hescape, ih h' (by omega)]

theorem utf8SuffixLength_eq (h : SameUpTo b n text other) :
    utf8SuffixLength other = utf8SuffixLength text := by
  have hnone {c : Char} (hc : c ∈ partings) (cs : List Char) : utf8SuffixLength (c :: cs) = 0 := by
    have hu : (c == 'u' || c == 'U') = false :=
      false_of_mem_partings (p := fun c ↦ c == 'u' || c == 'U') (by decide) hc
    rw [utf8SuffixLength_cons, hu, Bool.false_and]
    rfl
  cases h with
  | atLineEnd hc =>
    have hc := mem_partings_of_isLineEnd hc
    rw [hnone hc, hnone hc]
  | atGap hc hd => rw [hnone (mem_partings_of_opensGap hc), hnone (mem_partings_of_isBlank hd)]
  | cons c h => rw [utf8SuffixLength_cons, utf8SuffixLength_cons, h.beq_head? (by decide)]

/-- A string whose body is the same is the same with its suffix. -/
theorem closedString_eq {closed : Bool} {length : Nat} {features : List Feature}
    {faults : List Fault} {l : Lexeme} (h : SameUpTo b n text other)
    (hlength : (if closed = true then stringLexeme text length features faults else l).length ≤ n) :
    (if closed = true then stringLexeme other length features faults else l) =
      if closed = true then stringLexeme text length features faults else l := by
  cases closed with
  | false => rfl
  | true =>
    simp only [if_true, stringLexeme] at hlength ⊢
    rw [(h.drop (by omega)).utf8SuffixLength_eq]

theorem regularString_eq (h : SameUpTo b n text other) (hlength : (regularString text).length ≤ n) :
    regularString other = regularString text := by
  have hpos := le_stop_stringBody 1 (text.drop 1)
  simp only [regularString] at hlength ⊢
  have hstop := stop_le_of_length_le hlength
  rw [(h.drop (by omega)).stringBody_eq (by omega)]
  exact h.closedString_eq hlength

theorem verbatimBody_eq {start : Nat} (h : SameUpTo b n text other)
    (hstop : (verbatimBody start text).stop ≤ start + n) :
    verbatimBody start other = verbatimBody start text := by
  fun_induction verbatimBody start text generalizing n other with
  | case1 => exact absurd rfl h.ne_nil
  | case2 start cs ih =>
    obtain ⟨ds, n, rfl, rfl, h'⟩ := h.of_cons_cons (by decide) (by decide)
    rw [verbatimBody, ih h' (by omega)]
  | case3 start cs hcs =>
    obtain ⟨ds, n, rfl, rfl, h'⟩ := h.of_cons (by decide)
    rw [verbatimBody]
    rintro rest rfl
    obtain ⟨rest, _, rfl, -⟩ := h'.of_cons_other (by decide)
    exact hcs rest rfl
  | case4 start c cs hpair hquote ih =>
    have hle := le_stop_verbatimBody (start + 1) cs
    obtain ⟨ds, n, rfl, rfl, h'⟩ := h.of_pos (by omega)
    rw [verbatimBody, ih h' (by omega)]
    · exact h.not_sign (by decide) hpair
    · exact hquote

theorem verbatimString_eq (h : SameUpTo b n text other)
    (hlength : (verbatimString text).length ≤ n) : verbatimString other = verbatimString text := by
  have hpos := le_stop_verbatimBody 2 (text.drop 2)
  simp only [verbatimString] at hlength ⊢
  have hstop := stop_le_of_length_le hlength
  rw [(h.drop (by omega)).verbatimBody_eq (by omega)]
  exact h.closedString_eq hlength

theorem overlongLength_eq (h : SameUpTo b n text other) (hlength : overlongLength text ≤ n) :
    overlongLength other = overlongLength text := by
  have ne_backslash {c : Char} {cs : List Char} (hone : c = '\\' → cs = [] → False)
      (htwo : ∀ d ds, c = '\\' → cs = d :: ds → False) : c ≠ '\\' := by
    rintro rfl
    cases cs with
    | nil => exact hone rfl rfl
    | cons d ds => exact htwo d ds rfl rfl
  fun_induction overlongLength text generalizing n other with
  | case1 => exact absurd rfl h.ne_nil
  | case2 =>
    obtain ⟨ds, n, rfl, rfl, h'⟩ := h.of_cons (by decide)
    exact absurd rfl h'.ne_nil
  | case3 d cs ih =>
    obtain ⟨ds, n, rfl, rfl, h'⟩ := h.of_cons (by decide)
    obtain ⟨ds, n, rfl, rfl, h''⟩ := h'.of_pos (by omega)
    rw [overlongLength, ih h'' (by omega)]
  | case4 c cs hone htwo hend =>
    obtain ⟨ds, rfl⟩ : ∃ ds, other = c :: ds := by
      rcases Bool.or_eq_true_iff.1 hend with hquote | hend
      · obtain rfl := beq_iff_eq.1 hquote
        obtain ⟨ds, -, rfl, -⟩ := h.of_cons (by decide)
        exact ⟨ds, rfl⟩
      · exact h.exists_cons_of_isLineEnd hend
    rw [overlongLength_of_ne (ne_backslash hone htwo), if_pos hend]
  | case5 c cs hone htwo hend ih =>
    obtain ⟨ds, n, rfl, rfl, h'⟩ := h.of_pos (by omega)
    rw [overlongLength_of_ne (ne_backslash hone htwo), if_neg hend, ih h' (by omega)]

theorem characterLiteral_eq (h : SameUpTo b n text other)
    (hlength : (characterLiteral text).length ≤ n) :
    characterLiteral other = characterLiteral text := by
  have hpos := (single_characterLiteral text).length_pos
  have hcontent := h.drop (m := 1) (by omega)
  unfold characterLiteral at hlength ⊢
  generalize text.drop 1 = content at hlength hcontent ⊢
  generalize other.drop 1 = content' at hcontent ⊢
  cases content with
  | nil => exact absurd rfl hcontent.ne_nil
  | cons c cs =>
    cases hquote : c == '\'' with
    | true =>
      obtain rfl := beq_iff_eq.1 hquote
      obtain ⟨ds, -, rfl, -⟩ := hcontent.of_cons (by decide)
      rfl
    | false =>
      cases hend : isLineEnd c with
      | true =>
        obtain ⟨ds, rfl⟩ := hcontent.exists_cons_of_isLineEnd hend
        simp only [hquote, hend, if_true, Bool.false_eq_true, if_false]
      | false =>
        simp only [hquote, hend, Bool.false_eq_true, if_false] at hlength
        have hepos : 0 < (if (c == '\\') = true then escape cs else ⟨1, true, false⟩ :
            Escape).length := by
          split
          · exact length_escape_pos cs
          · exact Nat.zero_lt_one
        generalize he : (if (c == '\\') = true then escape cs else ⟨1, true, false⟩ : Escape) = e
          at hlength hepos
        -- the character is followed by the quote or by more characters
        have hle : e.length + 1 ≤ n := by
          split at hlength
          · simp only at hlength
            omega
          · split at hlength <;>
            · simp only at hlength
              omega
        obtain ⟨ds, m, rfl, hm, hcs⟩ := hcontent.of_pos (by omega)
        have hrest := hcontent.drop_tail hepos (by omega)
        simp only [hquote, hend, Bool.false_eq_true, if_false, hcs.escape_eq, he,
          hrest.beq_head? (c := '\'') (by decide)]
        split
        · rfl
        · next hclosed =>
          rw [if_neg hclosed] at hlength
          have hstop : 1 + e.length + overlongLength (cs.drop (e.length - 1)) ≤ n := by
            split at hlength
            · exact Nat.le_of_succ_le hlength
            · exact hlength
          rw [hrest.overlongLength_eq (by omega), (h.drop hstop).beq_head? (by decide)]

/-! ### Raw strings -/

theorem rawLineBody_eq {quotes start : Nat} (h : SameUpTo b n text other)
    (hstop : (rawLineBody quotes start text).stop ≤ start + n) :
    rawLineBody quotes start other = rawLineBody quotes start text := by
  fun_induction rawLineBody quotes start text generalizing n other with
  | case1 => exact absurd rfl h.ne_nil
  | case2 start c cs hend =>
    obtain ⟨ds, rfl⟩ := h.exists_cons_of_isLineEnd hend
    rw [rawLineBody, if_pos hend]
  | case3 start c cs hend hquote run =>
    rename_i hrun
    obtain ⟨ds, n, rfl, rfl, h'⟩ := h.of_cons (beq_iff_eq.1 hquote ▸ by decide)
    rw [rawLineBody, if_neg hend, if_pos hquote, h'.runLength_eq (by decide)]
    simp only
    rw [if_pos hrun]
  | case4 start c cs hend hquote run hrun =>
    rename_i ih
    obtain ⟨ds, n, rfl, rfl, h'⟩ := h.of_cons (beq_iff_eq.1 hquote ▸ by decide)
    have hle := le_stop_rawLineBody quotes (start + run) (cs.drop (run - 1))
    rw [rawLineBody, if_neg hend, if_pos hquote, h'.runLength_eq (by decide)]
    simp only
    rw [if_neg hrun, ih (h.drop_tail (Nat.succ_pos _) (by omega)) (by omega)]
  | case5 start c cs hend hquote ih =>
    have hle := le_stop_rawLineBody quotes (start + 1) cs
    obtain ⟨ds, n, rfl, rfl, h'⟩ := h.of_pos (by omega)
    rw [rawLineBody, if_neg hend, if_neg hquote, ih h' (by omega)]

/-- A run of quotes in front of the place where the texts part is found in both. -/
theorem quoteRun?_eq {quotes k : Nat} (hquotes : 0 < quotes) (h : SameUpTo b n text other)
    (hsome : quoteRun? quotes (restOfLine text) = some k) (hle : k + quotes ≤ n) :
    quoteRun? quotes (restOfLine other) = some k := by
  induction h generalizing k with
  | atLineEnd | atGap => omega
  | @cons b n cs ds c h ih =>
    have hrun : runLength '"' (restOfLine (c :: ds)) = runLength '"' (restOfLine (c :: cs)) := by
      rw [runLength_restOfLine rfl, runLength_restOfLine rfl, (h.cons c).runLength_eq (by decide)]
    cases hc : isLineEnd c with
    | true =>
      simp only [restOfLine, List.takeWhile_cons, hc, Bool.not_true, Bool.false_eq_true,
        if_false] at hsome
      contradiction
    | false =>
      simp only [restOfLine, List.takeWhile_cons, hc, Bool.not_false, if_true] at hsome hrun ih ⊢
      rw [quoteRun?] at hsome ⊢
      rw [hrun]
      split at hsome
      · next hlong => rw [if_pos hlong, hsome]
      · next hshort =>
        obtain ⟨k, hk, rfl⟩ := Option.map_eq_some_iff.1 hsome
        rw [if_neg hshort, ih hk (by omega)]
        rfl

theorem rawBlockBody_eq {quotes start : Nat} {lines : List (Nat × List Char)}
    (hquotes : 0 < quotes) (h : SameUpTo b n text other)
    (hstop : (rawBlockBody quotes start lines text).stop ≤ start + n) :
    rawBlockBody quotes start lines other = rawBlockBody quotes start lines text := by
  induction hlength : text.length using Nat.strongRecOn generalizing n start lines text other with
  | ind length ih =>
    have hlead := lead_le_stop_rawBlockBody quotes start lines text
    obtain ⟨c, cs, rfl⟩ := List.exists_cons_of_ne_nil h.ne_nil
    have hpos := length_lineEnd_pos c cs
    obtain ⟨n, rfl⟩ : ∃ m, n = m + 1 := Nat.exists_eq_add_one.2 (by omega)
    obtain ⟨ds, -, rfl, -⟩ := h.of_pos n.succ_pos
    have hrest := h.drop_tail hpos (by omega)
    rw [rawBlockBody] at hstop
    rw [rawBlockBody, rawBlockBody, h.lineEndLength_eq]
    generalize lineEndLength (c :: cs) = lead at *
    rw [List.length_cons] at hlength
    have hshorter : (cs.drop (lead - 1)).length < length := by
      rw [List.length_drop]
      omega
    generalize cs.drop (lead - 1) = rest at hrest hstop hshorter ⊢
    generalize ds.drop (lead - 1) = rest' at hrest ⊢
    simp only at hstop ⊢
    rcases Nat.lt_or_ge (n + 1 - lead) (restOfLine rest).length with hlong | hle
    · -- the string ends on the line, in front of the place where the texts part
      have hlong' := hrest.le_length_restOfLine (Nat.le_of_lt hlong)
      have hruns {k : Nat} (hk : k ≤ n + 1 - lead) :
          runLength '"' ((restOfLine rest').drop k) = runLength '"' ((restOfLine rest).drop k) := by
        rw [runLength_drop_restOfLine rfl (by omega), runLength_drop_restOfLine rfl (by omega),
          (hrest.drop hk).runLength_eq (by decide)]
      have hspaces (hlt : ((restOfLine rest).takeWhile fun c ↦ c == ' ' || c == '\t').length <
          n + 1 - lead) : ((restOfLine rest').takeWhile fun c ↦ c == ' ' || c == '\t') =
            (restOfLine rest).takeWhile fun c ↦ c == ' ' || c == '\t' := by
        have hp (c : Char) (hc : isLineEnd c = true) : (c == ' ' || c == '\t') = false := by
          simp only [isLineEnd, Bool.or_eq_true, beq_iff_eq] at hc
          rcases hc with (((rfl | rfl) | rfl) | rfl) | rfl <;> rfl
        rw [takeWhile_restOfLine hp] at hlt
        rw [takeWhile_restOfLine hp, takeWhile_restOfLine hp, hrest.takeWhile_of_lt hlt]
      split at hstop
      · next hrun =>
        simp only [closeRaw] at hstop
        rw [hspaces (by omega), hruns (by omega)]
        split
        · rfl
        · next hshort => exact absurd hrun hshort
      · next hrun =>
        split at hstop
        · next k hk =>
          obtain ⟨hlong, hle, hindentation⟩ := quoteRun?_spec hquotes hk
          simp only [closeRaw] at hstop
          rw [hspaces (by omega), hruns (by omega), hrest.quoteRun?_eq hquotes hk (by omega)]
          simp only [if_neg hrun]
          rw [hruns (by omega)]
        · have hgoes := le_stop_rawBlockBody quotes (start + lead + (restOfLine rest).length)
            ((start + lead, restOfLine rest) :: lines) (rest.drop (restOfLine rest).length)
          omega
    · -- the line ends in front of the place where the texts part
      rw [hrest.restOfLine_eq hle]
      split
      · rfl
      · next hrun =>
        rw [if_neg hrun] at hstop
        split
        · rfl
        · next hnone =>
          rw [hnone] at hstop
          have hgoes := le_stop_rawBlockBody quotes (start + lead + (restOfLine rest).length)
            ((start + lead, restOfLine rest) :: lines) (rest.drop (restOfLine rest).length)
          simp only at hstop
          rw [ih _ (by rw [List.length_drop]; omega) (hrest.drop hle) (by omega) rfl]

theorem restOfLineIsBlank_eq (h : SameUpTo b n text other)
    (hlength : (text.takeWhile staysOnLine).length ≤ n) :
    restOfLineIsBlank other = restOfLineIsBlank text := by
  induction h with
  | atLineEnd hc => rw [restOfLineIsBlank_cons, restOfLineIsBlank_cons, hc]; rfl
  | atGap hc =>
    have hstays := staysOnLine_of_opensGap hc
    simp [hstays] at hlength
  | @cons b n cs ds c h ih =>
    rw [restOfLineIsBlank_cons, restOfLineIsBlank_cons]
    cases hblank : isBlank c with
    | false => rw [Bool.false_and, Bool.false_and]
    | true =>
      have hstays : staysOnLine c = true := by rw [staysOnLine, hblank]; rfl
      rw [List.takeWhile_cons, if_pos hstays] at hlength
      rw [ih (Nat.le_of_succ_le_succ hlength)]

theorem rawString_eq (h : SameUpTo b n text other) (hquote : text.head? = some '"')
    (hlength : (rawString text).length ≤ n) : rawString other = rawString text := by
  have hquotes := h.runLength_le (c := '"') (by decide)
  have hpos : 0 < runLength '"' text := by
    obtain ⟨cs, rfl⟩ := List.head?_eq_some_iff.1 hquote
    simp [runLength]
  have hrest := h.drop hquotes
  simp only [rawString, h.runLength_eq (c := '"') (by decide)] at hlength ⊢
  generalize runLength '"' text = quotes at *
  have hstop := stop_le_of_length_le hlength
  have hbody : (if restOfLineIsBlank (other.drop quotes) = true then
      rawBlockBody quotes (quotes + (restOfLine (other.drop quotes)).length) []
        ((other.drop quotes).drop (restOfLine (other.drop quotes)).length)
      else rawLineBody quotes quotes (other.drop quotes)) =
      if restOfLineIsBlank (text.drop quotes) = true then
        rawBlockBody quotes (quotes + (restOfLine (text.drop quotes)).length) []
          ((text.drop quotes).drop (restOfLine (text.drop quotes)).length)
      else rawLineBody quotes quotes (text.drop quotes) := by
    split at hstop
    · next hblank =>
      have hle := le_stop_rawBlockBody quotes (quotes + (restOfLine (text.drop quotes)).length) []
        ((text.drop quotes).drop (restOfLine (text.drop quotes)).length)
      have hruns := length_takeWhile_staysOnLine_le (text.drop quotes)
      rw [hrest.restOfLineIsBlank_eq (by omega), hrest.restOfLine_eq (by omega), if_pos hblank,
        if_pos hblank, (hrest.drop (by omega)).rawBlockBody_eq hpos (by omega)]
    · next hblank =>
      have hruns := staysOnLine_le_stop_rawLineBody quotes quotes (text.drop quotes)
      rw [hrest.restOfLineIsBlank_eq (by omega), if_neg hblank, if_neg hblank,
        hrest.rawLineBody_eq (by omega)]
  rw [hbody]
  exact h.closedString_eq hlength

/-! ### All single tokens -/

theorem symbolAt?_eq (h : SameUpTo b n text other) (hn : 0 < n) :
    symbolAt? other = symbolAt? text := by
  obtain ⟨c, cs, rfl⟩ := List.exists_cons_of_ne_nil h.ne_nil
  obtain ⟨ds, m, rfl, rfl, h'⟩ := h.of_pos hn
  have hsign (s : Symbol) :
      s.text.toList.isPrefixOf (c :: ds) = s.text.toList.isPrefixOf (c :: cs) := by
    have hall : (s.text.toList.drop 1).all (· ∉ partings) = true := by cases s <;> decide
    generalize s.text.toList = sign at hall
    cases sign with
    | nil => simp
    | cons d sign =>
      rw [List.isPrefixOf, List.isPrefixOf, h'.isPrefixOf sign hall]
  have hpair (s : Symbol) : (s.text.toList.isPrefixOf (c :: cs) &&
        !(s == .questionDot && digitFollows ((c :: ds).drop 2))) =
      (s.text.toList.isPrefixOf (c :: cs) &&
        !(s == .questionDot && digitFollows ((c :: cs).drop 2))) := by
    by_cases hs : s = .questionDot
    · by_cases hprefix : s.text.toList.isPrefixOf (c :: cs) = true
      · subst hs
        obtain ⟨rest, htext⟩ := List.isPrefixOf_iff_prefix.1 hprefix
        have hcons : '?' :: '.' :: rest = c :: cs := htext
        cases hcons
        obtain ⟨ds, m, rfl, -, h''⟩ := h'.of_cons (by decide)
        rw [List.drop_succ_cons, List.drop_succ_cons, List.drop_zero, List.drop_succ_cons,
          List.drop_succ_cons, List.drop_zero, h''.digitFollows_eq]
      · rw [Bool.eq_false_iff.2 hprefix, Bool.false_and, Bool.false_and]
    · rw [beq_eq_false_iff_ne.2 hs, Bool.false_and, Bool.false_and]
  simp only [symbolAt?, hsign, hpair]

theorem plainLexeme_eq (h : SameUpTo b n text other) (hlength : (plainLexeme text).length ≤ n) :
    plainLexeme other = plainLexeme text := by
  have hpos : 0 < n := Nat.lt_of_lt_of_le (single_plainLexeme h.ne_nil).length_pos hlength
  cases h with
  | atLineEnd | atGap => contradiction
  | @cons _ n cs ds c h =>
    simp only [plainLexeme, h.beq_head? (c := '"') (by decide), h.nameStarts_eq,
      (h.cons c).nameStarts_eq, (h.cons c).numberStarts_eq,
      (h.cons c).isPrefixOf ['"', '"', '"'] (by decide),
      (h.cons c).symbolAt?_eq hpos] at hlength ⊢
    split
    · next hverbatim =>
      rw [if_pos hverbatim] at hlength
      exact (h.cons c).verbatimString_eq hlength
    · next hverbatim =>
      rw [if_neg hverbatim] at hlength
      split
      · exact (h.cons c).verbatimName_eq hpos
      · next hat =>
        rw [if_neg hat] at hlength
        split
        · exact (h.cons c).nameLexeme_eq
        · next hname =>
          rw [if_neg hname] at hlength
          split
          · next hnumber =>
            rw [if_pos hnumber] at hlength
            exact (h.cons c).number_eq hpos hlength
          · next hnumber =>
            rw [if_neg hnumber] at hlength
            split
            · next hquote =>
              rw [if_pos hquote] at hlength
              split
              · next hraw =>
                rw [if_pos hraw] at hlength
                exact (h.cons c).rawString_eq (congrArg some (beq_iff_eq.1 hquote)) hlength
              · next hraw =>
                rw [if_neg hraw] at hlength
                exact (h.cons c).regularString_eq hlength
            · next hquote =>
              rw [if_neg hquote] at hlength
              split
              · next hcharacter =>
                rw [if_pos hcharacter] at hlength
                exact (h.cons c).characterLiteral_eq hlength
              · rfl

end SameUpTo

end CSharpCheck
