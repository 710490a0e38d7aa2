import CSharpCheck.Proofs.LineFeeds.Offsets
import CSharpCheck.Proofs.Scanning.GroupLocality

/-!
# Scans of one line before a CR or an LF

Whether a line ends with CR or with LF makes no difference to a scan that stops on it. Names,
numbers, signs, escapes and the openings of strings and directive lines are therefore the same in a
text and in its form with line feeds.
-/

namespace CSharpCheck

/-! ### CR and LF -/

/-- What holds of LF as well as of CR is not seen to change. -/
theorem apply_lineFeed {α : Type} {f : Char → α} (h : f '\n' = f '\r') (c : Char) :
    f (lineFeed c) = f c := by
  unfold lineFeed
  split
  · next hc => rw [hc, h]
  · rfl

/-- A line end is none of the characters that end no line. -/
theorem beq_of_isLineEnd {c d : Char} (hc : isLineEnd c = true) (hd : isLineEnd d = false) :
    (c == d) = false := by
  rw [beq_eq_false_iff_ne]
  rintro rfl
  rw [hc] at hd
  contradiction

theorem isLineEnd_lineFeed (c : Char) : isLineEnd (lineFeed c) = isLineEnd c :=
  apply_lineFeed (by decide) c

theorem lineFeed_beq_cr (c : Char) : (lineFeed c == '\r') = false := by
  rw [lineFeed, beq_eq_false_iff_ne]
  split
  · decide
  · assumption

theorem lineFeed_of_ne {c : Char} (h : c ≠ '\r') : lineFeed c = c := if_neg h

theorem lineFeed_of_not_isLineEnd {c : Char} (h : isLineEnd c = false) : lineFeed c = c := by
  refine lineFeed_of_ne ?_
  rintro rfl
  contradiction

theorem lineFeeds_cons_of_not_isLineEnd {c : Char} (h : isLineEnd c = false) (cs : List Char) :
    lineFeeds (c :: cs) = c :: lineFeeds cs := by
  rw [lineFeeds_cons_of_not_pair, lineFeed_of_not_isLineEnd h]
  rintro ⟨rfl, -⟩
  contradiction

/-- Every line end of a text with line feeds is one character. -/
theorem lineEndLength_lineFeed (c : Char) (cs : List Char) :
    lineEndLength (lineFeed c :: cs) = 1 := by
  rw [lineEndLength_cons, if_neg fun hpair ↦ beq_eq_false_iff_ne.1 (lineFeed_beq_cr c) hpair.1]

theorem any_isLineEnd_lineFeeds (text : List Char) :
    (lineFeeds text).any isLineEnd = text.any isLineEnd := by
  induction text using lineFeeds_induction with
  | nil => rfl
  | cons c cs ih =>
    rw [lineFeeds_cons, List.any_cons, isLineEnd_lineFeed]
    cases hc : isLineEnd c with
    | true => simp [hc]
    | false =>
      rw [ih, lineEndLength_of_not_isLineEnd hc, List.any_cons, hc]
      rfl

theorem all_head?_lineFeeds (text : List Char) :
    (lineFeeds text).head?.all isLineEnd = text.head?.all isLineEnd := by
  cases text with
  | nil => rfl
  | cons c cs =>
    rw [lineFeeds_cons]
    exact isLineEnd_lineFeed c

theorem lineFeeds_eq_nil_iff {text : List Char} : lineFeeds text = [] ↔ text = [] := by
  cases text with
  | nil => exact Iff.rfl
  | cons c cs =>
    rw [lineFeeds_cons]
    exact iff_of_false (List.cons_ne_nil _ _) (List.cons_ne_nil _ _)

/-- The text with LF for every CR is the text with line feeds up to the end of its first line. -/
theorem lineFeeds_eq_map_or_sameUpTo (text : List Char) :
    lineFeeds text = text.map lineFeed ∨
      SameUpTo .lineEnd (restOfLine text).length (text.map lineFeed) (lineFeeds text) := by
  induction text with
  | nil => exact .inl rfl
  | cons c cs ih =>
    cases hc : isLineEnd c with
    | true =>
      rw [restOfLine_lineEnd hc, lineFeeds_cons]
      exact .inr (.atLineEnd (by rw [isLineEnd_lineFeed, hc]))
    | false =>
      rw [restOfLine_cons hc, lineFeeds_cons_of_not_isLineEnd hc, List.map_cons,
        lineFeed_of_not_isLineEnd hc]
      rcases ih with heq | hsame
      · exact .inl (congrArg (c :: ·) heq)
      · exact .inr (hsame.cons c)

/-- A scan that does not tell LF from CR, and looks no further than to the end of the first line,
is the same in the text with line feeds. -/
theorem scan_lineFeeds {α : Type} {f : List Char → α} {text : List Char}
    (hmap : f (text.map lineFeed) = f text)
    (hsame : ∀ other, SameUpTo .lineEnd (restOfLine text).length (text.map lineFeed) other →
      f other = f (text.map lineFeed)) : f (lineFeeds text) = f text := by
  rcases lineFeeds_eq_map_or_sameUpTo text with heq | hline
  · rw [heq, hmap]
  · rw [hsame _ hline, hmap]

/-! ### First characters -/

theorem lineFeed_eq_iff {c d : Char} (hd : isLineEnd d = false) : lineFeed c = d ↔ c = d := by
  unfold lineFeed
  split
  · next hc =>
    rw [hc]
    refine iff_of_false ?_ ?_ <;>
    · rintro rfl
      contradiction
  · rfl

theorem lineFeed_beq {c d : Char} (hd : isLineEnd d = false) : (lineFeed c == d) = (c == d) := by
  rw [Bool.eq_iff_iff, beq_iff_eq, beq_iff_eq, lineFeed_eq_iff hd]

section

variable {p : Char → Bool} {c : Char}

theorem any_head?_map_lineFeed (hp : p '\n' = p '\r') (text : List Char) :
    (text.map lineFeed).head?.any p = text.head?.any p := by
  cases text with
  | nil => rfl
  | cons d ds => exact apply_lineFeed hp d

theorem beq_head?_map_lineFeed (hc : isLineEnd c = false) (text : List Char) :
    ((text.map lineFeed).head? == some c) = (text.head? == some c) := by
  cases text with
  | nil => rfl
  | cons d ds => exact lineFeed_beq hc

theorem isPrefixOf_map_lineFeed {word : List Char} (hword : word.all (!isLineEnd ·) = true)
    (text : List Char) : word.isPrefixOf (text.map lineFeed) = word.isPrefixOf text := by
  induction word generalizing text with
  | nil => simp
  | cons c word ih =>
    rw [List.all_cons, Bool.and_eq_true, Bool.not_eq_true'] at hword
    cases text with
    | nil => rfl
    | cons d ds =>
      rw [List.map_cons, List.isPrefixOf, List.isPrefixOf, ih hword.2, Bool.beq_comm,
        lineFeed_beq hword.1, Bool.beq_comm]

/-- A run in which neither CR nor LF stands. -/
theorem takeWhile_map_lineFeed (hp : p '\n' = false ∧ p '\r' = false) (text : List Char) :
    (text.map lineFeed).takeWhile p = text.takeWhile p := by
  induction text with
  | nil => rfl
  | cons c cs ih =>
    rw [List.map_cons, List.takeWhile_cons, List.takeWhile_cons,
      apply_lineFeed (hp.1.trans hp.2.symm), ih]
    split
    · next hc =>
      rw [lineFeed_of_ne]
      rintro rfl
      rw [hp.2] at hc
      contradiction
    · rfl

end

/-! ### Names -/

theorem escapedChar?_map_lineFeed (count : Nat) (text : List Char) :
    escapedChar? count (text.map lineFeed) = escapedChar? count text := by
  have hall : ((text.map lineFeed).take count).all isHexDigit =
      (text.take count).all isHexDigit := by
    rw [← List.map_take, List.all_map]
    exact congrArg (List.all _) (funext fun c ↦ apply_lineFeed (f := isHexDigit) (by decide) c)
  cases hhex : (text.take count).all isHexDigit with
  | false => simp [escapedChar?, hall, hhex]
  | true =>
    have hsame : (text.map lineFeed).take count = text.take count := by
      rw [← List.map_take]
      refine (List.map_congr_left fun c hc ↦ ?_).trans (List.map_id _)
      exact lineFeed_of_not_isLineEnd
        (not_isLineEnd_of_partings (p := isHexDigit) (by decide) (List.all_eq_true.1 hhex c hc))
    rw [escapedChar?, hsame, escapedChar?]

theorem nameChar?_map_lineFeed {c : Char} (hc : isLineEnd c = false) (cs : List Char) :
    nameChar? ((c :: cs).map lineFeed) = nameChar? (c :: cs) := by
  rw [List.map_cons, lineFeed_of_not_isLineEnd hc]
  cases cs with
  | nil => rfl
  | cons d ds =>
    cases hd : isLineEnd d with
    | true =>
      rw [List.map_cons, nameChar?_cons_of_mem_partings (mem_partings_of_isLineEnd hd),
        nameChar?_cons_of_mem_partings]
      exact mem_partings_of_isLineEnd (by rw [isLineEnd_lineFeed, hd])
    | false =>
      rw [List.map_cons, lineFeed_of_not_isLineEnd hd]
      by_cases hu : d = 'u'
      · simp [nameChar?, hu, escapedChar?_map_lineFeed]
      · by_cases hU : d = 'U'
        · simp [nameChar?, hU, escapedChar?_map_lineFeed]
        · simp [nameChar?, hu, hU]

theorem nameStarts_map_lineFeed (text : List Char) :
    nameStarts (text.map lineFeed) = nameStarts text := by
  cases text with
  | nil => rfl
  | cons c cs =>
    cases hc : isLineEnd c with
    | true =>
      rw [List.map_cons, nameStarts_of_mem_partings (mem_partings_of_isLineEnd hc),
        nameStarts_of_mem_partings]
      exact mem_partings_of_isLineEnd (by rw [isLineEnd_lineFeed, hc])
    | false => rw [nameStarts, nameChar?_map_lineFeed hc, nameStarts]

theorem nameChars_map_lineFeed (text : List Char) :
    nameChars (text.map lineFeed) = nameChars text := by
  induction hlength : text.length using Nat.strongRecOn generalizing text with
  | ind length ih =>
    cases text with
    | nil => rfl
    | cons c cs =>
      cases hc : isLineEnd c with
      | true =>
        rw [List.map_cons, nameChars_of_mem_partings (mem_partings_of_isLineEnd hc),
          nameChars_of_mem_partings]
        exact mem_partings_of_isLineEnd (by rw [isLineEnd_lineFeed, hc])
      | false =>
        have hchar := nameChar?_map_lineFeed hc cs
        rw [List.map_cons] at hchar ⊢
        rw [nameChars, nameChars, hchar]
        cases nameChar? (c :: cs) with
        | none => rfl
        | some first =>
          simp only
          rw [← List.map_drop, ih _ ?_ _ rfl]
          rw [List.length_drop, ← hlength, List.length_cons]
          omega

theorem nameLexeme_map_lineFeed (verbatim : Bool) (text : List Char) :
    nameLexeme verbatim (text.map lineFeed) = nameLexeme verbatim text := by
  have hname : nameChars (if verbatim then (text.map lineFeed).drop 1 else text.map lineFeed) =
      nameChars (if verbatim then text.drop 1 else text) := by
    rw [← List.map_drop, ← apply_ite (List.map lineFeed), nameChars_map_lineFeed]
  rw [nameLexeme, hname, nameLexeme]

/-! ### Numbers -/

theorem digitGroup_map_lineFeed {p : Char → Bool} (hp : p '\n' = false ∧ p '\r' = false)
    (text : List Char) : digitGroup p (text.map lineFeed) = digitGroup p text :=
  takeWhile_map_lineFeed (by simp [hp]) text

theorem digitFollows_map_lineFeed (text : List Char) :
    digitFollows (text.map lineFeed) = digitFollows text := by
  cases text with
  | nil => rfl
  | cons c cs => exact apply_lineFeed (f := Char.isDigit) (by decide) c

theorem integerSuffixLength_map_lineFeed (text : List Char) :
    integerSuffixLength (text.map lineFeed) = integerSuffixLength text := by
  cases text with
  | nil => rfl
  | cons c cs =>
    have hnext {d : Char} (hd : ('\n' == d) = ('\r' == d)) :
        ((cs.map lineFeed).head?.map Char.toLower == some d) =
          (cs.head?.map Char.toLower == some d) := by
      have hany (o : Option Char) : (o.map Char.toLower == some d) = o.any (·.toLower == d) := by
        cases o <;> rfl
      rw [hany, hany, any_head?_map_lineFeed (p := (·.toLower == d)) hd]
    rw [List.map_cons,
      apply_lineFeed (f := fun c ↦ integerSuffixLength (c :: cs.map lineFeed)) rfl c]
    simp only [integerSuffixLength, hnext (d := 'l') (by decide),
      hnext (d := 'u') (by decide)]

theorem realSuffixLength_map_lineFeed (text : List Char) :
    realSuffixLength (text.map lineFeed) = realSuffixLength text := by
  cases text with
  | nil => rfl
  | cons c cs =>
    exact apply_lineFeed (f := fun c ↦ if ['f', 'd', 'm'].contains c.toLower then 1 else 0)
      (by decide) c

theorem exponent?_map_lineFeed (text : List Char) :
    exponent? (text.map lineFeed) = exponent? text := by
  cases text with
  | nil => rfl
  | cons c cs =>
    rw [List.map_cons, apply_lineFeed (f := fun c ↦ exponent? (c :: cs.map lineFeed)) rfl c]
    simp only [exponent?, beq_head?_map_lineFeed (c := '+') (by decide),
      beq_head?_map_lineFeed (c := '-') (by decide), ← List.map_drop,
      digitGroup_map_lineFeed (p := Char.isDigit) (by decide)]

theorem fraction?_map_lineFeed (text : List Char) :
    fraction? (text.map lineFeed) = fraction? text := by
  cases text with
  | nil => rfl
  | cons c cs =>
    rw [List.map_cons, apply_lineFeed (f := fun c ↦ fraction? (c :: cs.map lineFeed)) rfl c]
    by_cases hdot : c = '.'
    · subst hdot
      simp only [fraction?, digitFollows_map_lineFeed,
        digitGroup_map_lineFeed (p := Char.isDigit) (by decide)]
    · simp [fraction?, hdot]

theorem prefixedNumber_map_lineFeed (binary : Bool) (text : List Char) :
    prefixedNumber binary (text.map lineFeed) = prefixedNumber binary text := by
  have hp : (if binary then Char.isDigit else isHexDigit) '\n' = false ∧
      (if binary then Char.isDigit else isHexDigit) '\r' = false := by
    cases binary <;> decide
  simp only [prefixedNumber, ← List.map_drop, digitGroup_map_lineFeed hp,
    integerSuffixLength_map_lineFeed]

theorem decimalNumber_map_lineFeed (text : List Char) :
    decimalNumber (text.map lineFeed) = decimalNumber text := by
  have hp : Char.isDigit '\n' = false ∧ Char.isDigit '\r' = false := by decide
  simp only [decimalNumber, ← List.map_drop, digitGroup_map_lineFeed hp, fraction?_map_lineFeed,
    exponent?_map_lineFeed, realSuffixLength_map_lineFeed, integerSuffixLength_map_lineFeed]

theorem number_map_lineFeed (text : List Char) :
    number (text.map lineFeed) = number text := by
  cases text with
  | nil => rfl
  | cons c cs =>
    by_cases hzero : c = '0'
    · subst hzero
      have hcons : ('0' :: cs).map lineFeed = '0' :: cs.map lineFeed := rfl
      rw [hcons, number_zero, number_zero, any_head?_map_lineFeed (by decide),
        any_head?_map_lineFeed (by decide), ← hcons, prefixedNumber_map_lineFeed,
        prefixedNumber_map_lineFeed, decimalNumber_map_lineFeed]
    · have hfed : lineFeed c ≠ '0' := by
        unfold lineFeed
        split
        · decide
        · exact hzero
      rw [number_of_ne_zero hzero, List.map_cons, number_of_ne_zero hfed, ← List.map_cons,
        decimalNumber_map_lineFeed]

theorem numberStarts_map_lineFeed (text : List Char) :
    numberStarts (text.map lineFeed) = numberStarts text := by
  cases text with
  | nil => rfl
  | cons c cs =>
    rw [List.map_cons, apply_lineFeed (f := fun c ↦ numberStarts (c :: cs.map lineFeed)) rfl c]
    by_cases hdot : c = '.'
    · subst hdot
      exact digitFollows_map_lineFeed cs
    · simp [numberStarts]

/-! ### Signs and literals in quotes -/

theorem symbolAt?_map_lineFeed (text : List Char) :
    symbolAt? (text.map lineFeed) = symbolAt? text := by
  have hsign (s : Symbol) :
      s.text.toList.isPrefixOf (text.map lineFeed) = s.text.toList.isPrefixOf text :=
    isPrefixOf_map_lineFeed (by cases s <;> rfl) text
  simp only [symbolAt?, hsign, ← List.map_drop, digitFollows_map_lineFeed]

theorem escape_map_lineFeed (text : List Char) : escape (text.map lineFeed) = escape text := by
  cases text with
  | nil => rfl
  | cons c cs =>
    rw [List.map_cons, apply_lineFeed (f := fun c ↦ escape (c :: cs.map lineFeed)) rfl c]
    simp only [escape, List.drop_succ_cons, List.drop_zero,
      takeWhile_map_lineFeed (p := isHexDigit) (by decide)]

theorem utf8SuffixLength_map_lineFeed (text : List Char) :
    utf8SuffixLength (text.map lineFeed) = utf8SuffixLength text := by
  cases text with
  | nil => rfl
  | cons c cs =>
    rw [List.map_cons, utf8SuffixLength_cons, utf8SuffixLength_cons, lineFeed_beq (by decide),
      lineFeed_beq (by decide), beq_head?_map_lineFeed (by decide)]

theorem runLength_map_lineFeed {c : Char} (hc : isLineEnd c = false) (text : List Char) :
    runLength c (text.map lineFeed) = runLength c text := by
  rw [runLength, runLength, takeWhile_map_lineFeed]
  constructor <;>
  · rw [beq_eq_false_iff_ne]
    rintro rfl
    contradiction

theorem opening?_map_lineFeed (text : List Char) :
    opening? (text.map lineFeed) = opening? text := by
  have hat (t : List Char) : ((t.map lineFeed).head? == some '@') = (t.head? == some '@') :=
    beq_head?_map_lineFeed (by decide) t
  simp only [opening?, hat, ← List.map_drop, ← apply_ite (List.map lineFeed),
    runLength_map_lineFeed (c := '$') (by decide), runLength_map_lineFeed (c := '"') (by decide)]

/-! ### Openings of directive lines -/

theorem restOfLine_map_lineFeed (text : List Char) :
    restOfLine (text.map lineFeed) = restOfLine text :=
  takeWhile_map_lineFeed (by decide) text

theorem take_map_lineFeed {text : List Char} {n : Nat} (hn : n ≤ (restOfLine text).length) :
    (text.map lineFeed).take n = text.take n := by
  rw [← List.map_take]
  refine (List.map_congr_left fun c hc ↦ ?_).trans (List.map_id _)
  have hline : text.take n <+: restOfLine text := by
    rw [restOfLine_eq_take]
    exact List.take_prefix_take_left hn
  exact lineFeed_of_not_isLineEnd (isLineEnd_of_mem_restOfLine (hline.subset hc))

theorem indentLength_map_lineFeed (text : List Char) :
    indentLength (text.map lineFeed) = indentLength text := by
  rw [indentLength, indentLength, takeWhile_map_lineFeed (by decide)]

theorem messagePiece_map_lineFeed (start : Nat) (text : List Char) :
    messagePiece start (text.map lineFeed) = messagePiece start text := by
  rw [messagePiece, restOfLine_map_lineFeed, messagePiece]

theorem directiveOpening_map_lineFeed (text : List Char) :
    directiveOpening (text.map lineFeed) = directiveOpening text := by
  have hstarts (t : List Char) : (t.map lineFeed).head?.any startsName = t.head?.any startsName :=
    any_head?_map_lineFeed (by decide +kernel) t
  have hword (t : List Char) : (t.map lineFeed).take (nameLexeme false t).length =
      t.take (nameLexeme false t).length := take_map_lineFeed (length_nameLexeme_le t)
  simp only [directiveOpening, ← List.map_drop, beq_head?_map_lineFeed (c := '!') (by decide),
    messagePiece_map_lineFeed, indentLength_map_lineFeed, hstarts, nameLexeme_map_lineFeed, hword]

/-! ### Texts with line feeds -/

theorem beq_head?_lineFeeds {c : Char} (hc : isLineEnd c = false) (text : List Char) :
    ((lineFeeds text).head? == some c) = (text.head? == some c) := by
  cases text with
  | nil => rfl
  | cons d ds =>
    rw [lineFeeds_cons]
    exact lineFeed_beq hc

theorem runLength_lineFeeds {c : Char} (hc : c ∉ partings) (text : List Char) :
    runLength c (lineFeeds text) = runLength c text :=
  scan_lineFeeds (runLength_map_lineFeed
    (Bool.eq_false_iff.2 fun h ↦ hc (mem_partings_of_isLineEnd h)) text)
    fun _ h ↦ h.runLength_eq hc

theorem restOfLine_lineFeeds (text : List Char) : restOfLine (lineFeeds text) = restOfLine text :=
  scan_lineFeeds (restOfLine_map_lineFeed text) fun _ h ↦ h.restOfLine_eq h.length_restOfLine_le

theorem escape_lineFeeds (text : List Char) : escape (lineFeeds text) = escape text :=
  scan_lineFeeds (escape_map_lineFeed text) fun _ h ↦ h.escape_eq

theorem utf8SuffixLength_lineFeeds (text : List Char) :
    utf8SuffixLength (lineFeeds text) = utf8SuffixLength text :=
  scan_lineFeeds (utf8SuffixLength_map_lineFeed text) fun _ h ↦ h.utf8SuffixLength_eq

theorem opening?_lineFeeds (text : List Char) : opening? (lineFeeds text) = opening? text :=
  scan_lineFeeds (opening?_map_lineFeed text) fun _ h ↦ h.opening?_eq

theorem nameStarts_lineFeeds (text : List Char) : nameStarts (lineFeeds text) = nameStarts text :=
  scan_lineFeeds (nameStarts_map_lineFeed text) fun _ h ↦ h.nameStarts_eq

theorem nameLexeme_lineFeeds (text : List Char) :
    nameLexeme false (lineFeeds text) = nameLexeme false text :=
  scan_lineFeeds (nameLexeme_map_lineFeed false text) fun _ h ↦ h.nameLexeme_eq

theorem numberStarts_lineFeeds (text : List Char) :
    numberStarts (lineFeeds text) = numberStarts text :=
  scan_lineFeeds (numberStarts_map_lineFeed text) fun _ h ↦ h.numberStarts_eq

section

variable {c : Char} (hc : isLineEnd c = false) (cs : List Char)

include hc

theorem restOfLine_pos : 0 < (restOfLine (c :: cs)).length := by
  rw [restOfLine_cons hc]
  exact Nat.succ_pos _

theorem verbatimName_lineFeeds :
    nameLexeme true (lineFeeds (c :: cs)) = nameLexeme true (c :: cs) :=
  scan_lineFeeds (nameLexeme_map_lineFeed true _) fun _ h ↦ h.verbatimName_eq (restOfLine_pos hc cs)

theorem number_lineFeeds : number (lineFeeds (c :: cs)) = number (c :: cs) := by
  refine scan_lineFeeds (number_map_lineFeed _) fun _ h ↦ h.number_eq (restOfLine_pos hc cs) ?_
  rw [number_map_lineFeed]
  exact length_number_le _

theorem symbolAt?_lineFeeds : symbolAt? (lineFeeds (c :: cs)) = symbolAt? (c :: cs) :=
  scan_lineFeeds (symbolAt?_map_lineFeed _) fun _ h ↦ h.symbolAt?_eq (restOfLine_pos hc cs)

end

theorem isPrefixOf_lineFeeds {word : List Char} (hword : word.all (· ∉ partings) = true)
    (text : List Char) : word.isPrefixOf (lineFeeds text) = word.isPrefixOf text := by
  refine scan_lineFeeds (isPrefixOf_map_lineFeed ?_ text) fun _ h ↦ h.isPrefixOf word hword
  rw [List.all_eq_true] at hword ⊢
  intro c hc
  rw [Bool.not_eq_true', Bool.eq_false_iff]
  exact fun hend ↦ of_decide_eq_true (hword c hc) (mem_partings_of_isLineEnd hend)

theorem directiveOpening_lineFeeds {text : List Char} (hhash : text.head? = some '#') :
    directiveOpening (lineFeeds text) = directiveOpening text := by
  refine scan_lineFeeds (directiveOpening_map_lineFeed text) fun _ h ↦ ?_
  refine h.directiveOpening_eq ?_
  rw [List.head?_map, hhash]
  rfl

end CSharpCheck
