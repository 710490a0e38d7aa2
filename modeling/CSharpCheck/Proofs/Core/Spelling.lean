import CSharpCheck.Proofs.Core.Syntax
import CSharpCheck.Proofs.Directives.Readers

/-!
# The words of core programs are read

In front of white space and at the end of the text, every word of a core program is read as a single
token of its class. Names may be spelled with escapes, and escapes may stand in strings and
characters.
-/

namespace CSharpCheck.Core

/-! ### Characters -/

theorem not_isLineEnd_of_isHexDigit {c : Char} (h : isHexDigit c = true) :
    isLineEnd c = false := by
  rw [Bool.eq_false_iff]
  intro hend
  simp only [isLineEnd, Bool.or_eq_true, beq_iff_eq] at hend
  rcases hend with (((rfl | rfl) | rfl) | rfl) | rfl <;> exact absurd h (by decide)

theorem isHexDigit_of_isDigit {c : Char} (h : c.isDigit = true) : isHexDigit c = true := by
  simp [isHexDigit, h]

/-- No name starts with a digit. -/
theorem not_startsName_of_isDigit {c : Char} (h : c.isDigit = true) : startsName c = false := by
  have hrange := inRanges_of_isDigit h
  rw [Bool.eq_false_iff]
  intro hstarts
  have hnot {rs : List CodeRange} (hc : inRanges rs c = true)
      (hdisjoint : areDisjoint rs [(0x30, 0x39)] = true) : False := by
    have hdigit := inRanges_of_areDisjoint hdisjoint hc
    rw [hrange] at hdigit
    contradiction
  simp only [startsName, isLetter, Bool.or_eq_true, beq_iff_eq] at hstarts
  rcases hstarts with hletter | rfl
  · split at hletter
    · exact hnot (inRanges_of_isAlpha hletter) (by decide)
    · exact hnot hletter (by decide +kernel)
  · contradiction

/-! ### Names -/

/-- Exactly as many digits are read as there have to be. -/
theorem escapedChar?_append (digits rest : List Char) :
    escapedChar? digits.length (digits ++ rest) = escapedChar? digits.length digits := by
  simp [escapedChar?]

theorem isHexDigit_of_escapedChar? {count : Nat} {digits : List Char} {c : Char}
    (hcount : digits.length = count) (h : escapedChar? count digits = some c) :
    ∀ d ∈ digits, isHexDigit d = true := by
  subst hcount
  simp only [escapedChar?, List.take_length] at h
  split at h
  · next hdigits => exact List.all_eq_true.1 hdigits.2.1
  · contradiction

namespace IsSpelling

variable {c : Char} {cs : List Char}

theorem nameChar?_eq (h : IsSpelling c cs) (hc : continuesName c = true) (rest : List Char) :
    nameChar? (cs ++ rest) = some (c, cs.length) := by
  cases h with
  | plain => exact nameChar?_of_ne (ne_of_continuesName hc (by decide)) rest
  | @short digits hlength hdigits =>
    have hescaped := escapedChar?_append digits rest
    rw [hlength, hdigits] at hescaped
    simp [nameChar?, hescaped, hlength]
  | @long digits hlength hdigits =>
    have hescaped := escapedChar?_append digits rest
    rw [hlength, hdigits] at hescaped
    simp [nameChar?, hescaped, hlength]

/-- The first character is the one that is spelled, or a backslash. -/
theorem exists_head (h : IsSpelling c cs) : ∃ d ds, cs = d :: ds ∧ (d = c ∨ d = '\\') := by
  cases h with
  | plain => exact ⟨c, [], rfl, .inl rfl⟩
  | short => exact ⟨_, _, rfl, .inr rfl⟩
  | long => exact ⟨_, _, rfl, .inr rfl⟩

theorem oneLine (h : IsSpelling c cs) (hc : continuesName c = true) :
    ∀ d ∈ cs, isLineEnd d = false := by
  cases h with
  | plain => simpa using not_isLineEnd_of_continuesName hc
  | @short digits hlength hdigits | @long digits hlength hdigits =>
    have hhex := isHexDigit_of_escapedChar? hlength hdigits
    rw [List.forall_mem_cons, List.forall_mem_cons]
    exact ⟨by decide, by decide, fun d hd ↦ not_isLineEnd_of_isHexDigit (hhex d hd)⟩

/-- An escape takes more than one character. -/
theorem eq_of_length_le (h : IsSpelling c cs) (hlength : cs.length ≤ 1) : cs = [c] := by
  cases h with
  | plain => rfl
  | short | long =>
    simp only [List.length_cons] at hlength
    omega

/-- An escape begins with a backslash. -/
theorem eq_of_head_ne (h : IsSpelling c cs) {d : Char} {ds : List Char} (hcs : cs = d :: ds)
    (hd : d ≠ '\\') : cs = [c] := by
  cases h with
  | plain => rfl
  | short | long =>
    cases hcs
    exact absurd rfl hd

end IsSpelling

theorem Letter.flatMap_spelling {ls : List Letter} (h : ArePlain ls) :
    ls.flatMap (·.spelling) = chars ls := by
  induction ls with
  | nil => rfl
  | cons l ls ih =>
    rw [ArePlain, List.forall_mem_cons] at h
    rw [List.flatMap_cons, h.1, ih h.2]
    rfl

theorem nameChars_eq_cons {text : List Char} {c : Char} {n : Nat}
    (hchar : nameChar? text = some (c, n + 1)) (hc : continuesName c = true) :
    nameChars text = (c, n + 1) :: nameChars (text.drop (n + 1)) := by
  cases text with
  | nil => contradiction
  | cons d ds =>
    rw [nameChars, hchar]
    simp [hc]

/-- The letters of a name are read up to the next white space or the end of the text. -/
theorem nameChars_letters {ls : List Letter} {rest : List Char}
    (h : ∀ l ∈ ls, continuesName l.char = true) (hrest : EndsWord rest) :
    nameChars (ls.flatMap (·.spelling) ++ rest) =
      ls.map fun l ↦ (l.char, l.spelling.length) := by
  induction ls with
  | nil =>
    have hnone : ∀ c ∈ ([] : List Char), continuesName c = true := by simp
    exact nameChars_append hnone hrest
  | cons l ls ih =>
    rw [List.forall_mem_cons] at h
    have hchar := l.isSpelling.nameChar?_eq h.1 (ls.flatMap (·.spelling) ++ rest)
    obtain ⟨d, ds, hspelling, -⟩ := l.isSpelling.exists_head
    rw [List.flatMap_cons, List.append_assoc, List.map_cons]
    rw [hspelling, List.length_cons] at hchar ⊢
    rw [nameChars_eq_cons hchar h.1, ← ih h.2]
    simp

namespace Name

variable (n : Name)

theorem continues_letters : ∀ l ∈ n.letters, continuesName l.char = true := fun l hl ↦
  n.continues l.char (List.mem_map_of_mem hl)

theorem exists_letters : ∃ l ls, n.letters = l :: ls ∧ startsName l.char = true := by
  have hstarts := n.starts
  cases hletters : n.letters with
  | nil => simp [hletters, Letter.chars] at hstarts
  | cons l ls =>
    rw [hletters] at hstarts
    exact ⟨l, ls, rfl, by simpa [Letter.chars] using hstarts⟩

/-- Behind its `@`, or without one, a name begins with a character of names or a backslash. -/
theorem exists_head : ∃ d ds, n.letters.flatMap (·.spelling) = d :: ds ∧
    (continuesName d = true ∨ d = '\\') := by
  obtain ⟨l, ls, hletters, hstarts⟩ := n.exists_letters
  obtain ⟨d, ds, hspelling, hd⟩ := l.isSpelling.exists_head
  refine ⟨d, ds ++ ls.flatMap (·.spelling), by simp [hletters, hspelling], ?_⟩
  refine hd.imp_left ?_
  rintro rfl
  exact continuesName_of_startsName hstarts

theorem nameStarts_letters (rest : List Char) :
    nameStarts (n.letters.flatMap (·.spelling) ++ rest) = true := by
  obtain ⟨l, ls, hletters, hstarts⟩ := n.exists_letters
  have hchar := l.isSpelling.nameChar?_eq (continuesName_of_startsName hstarts)
    (ls.flatMap (·.spelling) ++ rest)
  rw [hletters, List.flatMap_cons, List.append_assoc, nameStarts, hchar]
  exact hstarts

theorem oneLine : ∀ c ∈ n.text, isLineEnd c = false := by
  have hletters : ∀ c ∈ n.letters.flatMap (·.spelling), isLineEnd c = false := by
    intro c hc
    obtain ⟨l, hl, hcl⟩ := List.mem_flatMap.1 hc
    exact l.isSpelling.oneLine (n.continues_letters l hl) c hcl
  unfold text
  split
  · exact List.forall_mem_cons.2 ⟨by decide, hletters⟩
  · exact hletters

/-- The class of a name is that of identifiers, since a word of the language is spelled with an `@`
or an escape. -/
theorem nameLexeme_eq {rest : List Char} (hrest : EndsWord rest) :
    nameLexeme n.verbatim (n.text ++ rest) =
      ⟨.identifier, n.text.length, some (String.ofList (Letter.chars n.letters)), [], []⟩ := by
  have hchars : nameChars (if n.verbatim then (n.text ++ rest).drop 1 else n.text ++ rest) =
      n.letters.map fun l ↦ (l.char, l.spelling.length) := by
    rw [← nameChars_letters n.continues_letters hrest, text]
    cases n.verbatim <;> rfl
  have hlength (k : Nat) : (n.letters.map fun l ↦ (l.char, l.spelling.length)).foldr
      (fun (c : Char × Nat) rest ↦ c.2 + rest) k =
        k + (n.letters.flatMap (·.spelling)).length := by
    induction n.letters with
    | nil => rfl
    | cons l ls ih =>
      rw [List.map_cons, List.foldr_cons, ih, List.flatMap_cons, List.length_append]
      omega
  have htext : n.text.length =
      (if n.verbatim then 1 else 0) + (n.letters.flatMap (·.spelling)).length := by
    rw [text]
    cases n.verbatim <;> simp [Nat.add_comm]
  have hname : (n.letters.map fun l ↦ (l.char, l.spelling.length)).map
      (fun c : Char × Nat ↦ c.1) = Letter.chars n.letters := by
    rw [List.map_map]
    rfl
  simp only [nameLexeme, hchars, hlength, hname, ← htext]
  split
  · rfl
  · next hplain =>
    simp only [Bool.or_eq_true, not_or, Bool.not_eq_true, List.any_eq_false, List.mem_map,
      forall_exists_index, and_imp, forall_apply_eq_imp_iff₂, decide_eq_true_eq,
      Nat.not_lt] at hplain
    have hordinary := n.ordinary hplain.1 fun l hl ↦
      l.isSpelling.eq_of_length_le (hplain.2 l hl)
    rw [hordinary.1]

theorem plainLexeme_eq (rest : List Char) :
    plainLexeme (n.text ++ rest) = nameLexeme n.verbatim (n.text ++ rest) := by
  have hstarts := n.nameStarts_letters rest
  obtain ⟨d, ds, hhead, hd⟩ := n.exists_head
  rw [text]
  rw [hhead] at hstarts ⊢
  cases n.verbatim with
  | false =>
    have hat : d ≠ '@' := by
      rcases hd with hd | rfl
      · exact ne_of_continuesName hd (by decide)
      · decide
    simp only [Bool.false_eq_true, if_false, List.cons_append] at hstarts ⊢
    simp [plainLexeme, hat, hstarts]
  | true =>
    have hquote : d ≠ '"' := by
      rcases hd with hd | rfl
      · exact ne_of_continuesName hd (by decide)
      · decide
    simp only [if_true, List.cons_append] at hstarts ⊢
    simp [plainLexeme, hquote, hstarts]

/-- A name is a word that is an identifier. -/
theorem isFullWord : IsFullWord false n.text
    [⟨.identifier, 0, n.text.length, some (String.ofList (Letter.chars n.letters)), []⟩] := by
  intro rest hrest
  obtain ⟨d, ds, hhead, hd⟩ := n.exists_head
  have hne : n.text ≠ [] := by
    rw [text, hhead]
    split <;> simp
  refine spells_of_plainLexeme hne n.oneLine ?_ ?_
    ((n.plainLexeme_eq rest).trans (n.nameLexeme_eq hrest)) rfl rfl
  · rw [text, hhead]
    cases n.verbatim with
    | true => rfl
    | false =>
      have hblank : isBlank d = false ∧ isLineEnd d = false ∧ d ≠ '/' := by
        rcases hd with hd | rfl
        · exact ⟨not_isBlank_of_continuesName hd, not_isLineEnd_of_continuesName hd,
            ne_of_continuesName hd (by decide)⟩
        · decide
      simp [gapItem?, hblank]
  · have hdollar : d ≠ '$' := by
      rcases hd with hd | rfl
      · exact ne_of_continuesName hd (by decide)
      · decide
    rw [text, hhead]
    cases n.verbatim with
    | true => simp [opening?, runLength, hdollar]
    | false =>
      have hat : d ≠ '@' := by
        rcases hd with hd | rfl
        · exact ne_of_continuesName hd (by decide)
        · decide
      simp [opening?, runLength, hat, hdollar]

/-- A name that spells a contextual word is spelled with an `@` or an escape. -/
theorem text_ne_contextual {word : String} (hword : word ∈ contextualWords) :
    String.ofList n.text ≠ word := by
  intro heq
  have hsigns : ∀ word ∈ contextualWords, ∀ c ∈ word.toList, c ≠ '@' ∧ c ≠ '\\' := by
    have hall : contextualWords.all (·.toList.all fun c ↦ c != '@' && c != '\\') = true := by
      decide +kernel
    simpa using hall
  have htext : ∀ c ∈ n.text, c ≠ '@' ∧ c ≠ '\\' := by
    rw [← heq] at hword
    simpa using hsigns _ hword
  have hverbatim : n.verbatim = false := by
    rw [Bool.eq_false_iff]
    intro hverbatim
    rw [text, if_pos hverbatim, List.forall_mem_cons] at htext
    exact htext.1.1 rfl
  rw [text, hverbatim, if_neg Bool.false_ne_true] at htext heq
  have hplain : Letter.ArePlain n.letters := by
    intro l hl
    obtain ⟨d, ds, hspelling, hd⟩ := l.isSpelling.exists_head
    have hmem : d ∈ n.letters.flatMap (·.spelling) :=
      List.mem_flatMap.2 ⟨l, hl, by simp [hspelling]⟩
    exact l.isSpelling.eq_of_head_ne hspelling (htext d hmem).2
  rw [Letter.flatMap_spelling hplain] at heq
  exact (n.ordinary hverbatim hplain).2 (heq ▸ hword)

end Name

/-! ### Literals -/

theorem digitGroup_append {digits rest : List Char} (h : ∀ c ∈ digits, c.isDigit = true)
    (hrest : EndsWord rest) : digitGroup Char.isDigit (digits ++ rest) = digits := by
  rw [digitGroup, List.takeWhile_append_of_pos fun c hc ↦ by simp [h c hc]]
  rcases hrest with rfl | ⟨cs, rfl | rfl⟩ <;> simp

/-- Decimal digits in front of white space or at the end of the text are a whole number. -/
theorem decimalNumber_append {digits rest : List Char} (hne : digits ≠ [])
    (h : ∀ c ∈ digits, c.isDigit = true) (hrest : EndsWord rest) :
    decimalNumber (digits ++ rest) = numberLexeme digits.length none [] := by
  have hgroup := digitGroup_append h hrest
  have hunderscore : '_' ∉ digits := fun hmem ↦ absurd (h _ hmem) (by decide)
  have hlast : endsWithDigit digits = true := by
    rw [endsWithDigit, List.getLast?_eq_some_getLast hne]
    have hmem := List.getLast_mem hne
    simpa using ne_of_mem_of_not_mem hmem hunderscore
  have hpart : fraction? rest = none ∧ exponent? rest = none ∧ realSuffixLength rest = 0 ∧
      integerSuffixLength rest = 0 := by
    rcases hrest with rfl | ⟨cs, rfl | rfl⟩ <;> exact ⟨rfl, rfl, rfl, rfl⟩
  have hdrop : (digits ++ rest).drop digits.length = rest := List.drop_left
  simp [decimalNumber, hgroup, hdrop, hpart, hlast, hunderscore]

theorem number_append {digits rest : List Char} (hne : digits ≠ [])
    (h : ∀ c ∈ digits, c.isDigit = true) (hrest : EndsWord rest) :
    number (digits ++ rest) = numberLexeme digits.length none [] := by
  rw [← decimalNumber_append hne h hrest]
  have hprefix {c : Char} (hc : c.isDigit = true ∨ c = ' ' ∨ c = '\n') :
      c ≠ 'x' ∧ c ≠ 'X' ∧ c ≠ 'b' ∧ c ≠ 'B' := by
    refine ⟨?_, ?_, ?_, ?_⟩ <;>
      · rintro rfl
        revert hc
        decide
  unfold number
  split
  · next c cs heq =>
    have hc : c.isDigit = true ∨ c = ' ' ∨ c = '\n' := by
      match digits, hne with
      | [d], _ =>
        rcases hrest with rfl | ⟨ds, rfl | rfl⟩
        · simp at heq
        all_goals
          obtain ⟨-, rfl, -⟩ : d = '0' ∧ _ = c ∧ _ := by simpa using heq
          simp
      | d :: e :: ds, _ =>
        obtain ⟨-, rfl, -⟩ : d = '0' ∧ e = c ∧ _ := by simpa using heq
        exact .inl (h e (by simp))
    obtain ⟨hx, hX, hb, hB⟩ := hprefix hc
    simp [hx, hX, hb, hB]
  · rfl

/-- An escape is read with the hexadecimal digits behind it that it has room for. -/
theorem IsEscape.escape_eq {e : List Char} (h : IsEscape e) (rest : List Char) :
    ∃ (j : Nat) (added : Bool), j ≤ (rest.takeWhile isHexDigit).length ∧
      escape (e ++ rest) = ⟨1 + e.length + j, true, added⟩ := by
  have hdigits {digits : List Char} (hhex : ∀ c ∈ digits, isHexDigit c = true) :
      ((digits ++ rest).takeWhile isHexDigit).length =
        digits.length + (rest.takeWhile isHexDigit).length := by
    rw [List.takeWhile_append_of_pos hhex, List.length_append]
  cases h with
  | @simple c hc =>
    refine ⟨0, c == 'e', Nat.zero_le _, ?_⟩
    revert hc
    simp only [List.mem_cons, List.not_mem_nil, or_false]
    rintro (rfl | rfl | rfl | rfl | rfl | rfl | rfl | rfl | rfl | rfl | rfl | rfl) <;> rfl
  | @short digits hlength hhex =>
    refine ⟨0, false, Nat.zero_le _, ?_⟩
    simp [escape, Escape.numeric, hdigits hhex, hlength]
  | @long digits hlength hhex =>
    refine ⟨0, false, Nat.zero_le _, ?_⟩
    simp [escape, Escape.numeric, hdigits hhex, hlength]
  | @hexadecimal digits hne hlength hhex =>
    have hpos := List.length_pos_iff.2 hne
    generalize hcount : (rest.takeWhile isHexDigit).length = count at hdigits ⊢
    have hmin : (digits.length + count).min 4 = min (digits.length + count) 4 := rfl
    refine ⟨min (digits.length + count) 4 - digits.length, false, by omega, ?_⟩
    simp only [escape, List.cons_append, List.drop_succ_cons, List.drop_zero, hdigits hhex,
      Escape.numeric, List.length_cons, hmin]
    simp
    omega

theorem Escape.features_subset (e : Escape) : ∀ f ∈ e.features, f = .escapeCharacter := by
  unfold Escape.features
  split <;> simp

/-- Behind hexadecimal digits the content of a string goes on. -/
theorem IsStringContent.drop {cs rest : List Char} (h : IsStringContent cs) {n : Nat}
    (hn : n ≤ ((cs ++ '"' :: rest).takeWhile isHexDigit).length) :
    n ≤ cs.length ∧ IsStringContent (cs.drop n) := by
  induction n generalizing cs with
  | zero => exact ⟨Nat.zero_le _, h⟩
  | succ n ih =>
    cases h with
    | nil => simp [isHexDigit] at hn
    | @char c cs hquote hbackslash hline h =>
      rw [List.cons_append, List.takeWhile_cons] at hn
      split at hn
      · have hdrop := ih h (Nat.le_of_succ_le_succ hn)
        exact ⟨Nat.succ_le_succ hdrop.1, hdrop.2⟩
      · contradiction
    | escape he h => simp [isHexDigit] at hn

/-- What comes behind the closing quote has nothing to do with an escape. -/
theorem IsEscape.escape_append {e : List Char} (h : IsEscape e) {quote : Char}
    (hquote : isHexDigit quote = false) (cs rest : List Char) :
    escape (e ++ (cs ++ quote :: rest)) = escape (e ++ (cs ++ [quote])) := by
  have htake (ds : List Char) : (ds ++ quote :: rest).takeWhile isHexDigit =
      (ds ++ [quote]).takeWhile isHexDigit := by
    induction ds with
    | nil => simp [hquote]
    | cons d ds ih =>
      rw [List.cons_append, List.cons_append, List.takeWhile_cons, List.takeWhile_cons, ih]
  obtain ⟨c, ds, rfl⟩ : ∃ c ds, e = c :: ds := by cases h <;> exact ⟨_, _, rfl⟩
  have htail := htake (ds ++ cs)
  rw [List.append_assoc, List.append_assoc] at htail
  simp only [escape, List.cons_append, List.drop_succ_cons, List.drop_zero, htail]

/-- The content of a string is read up to the closing quote, whatever comes behind it. -/
theorem IsStringContent.stringBody_eq {cs : List Char} (h : IsStringContent cs) :
    ∃ features, (∀ f ∈ features, f = Feature.escapeCharacter) ∧ ∀ (start : Nat) (rest : List Char),
      stringBody start (cs ++ '"' :: rest) = ⟨start + cs.length + 1, true, features, []⟩ := by
  cases h with
  | nil =>
    refine ⟨[], by simp, fun start rest ↦ ?_⟩
    rw [List.nil_append, stringBody]
    rfl
  | @char c cs hquote hbackslash hline h =>
    obtain ⟨features, hfeatures, hbody⟩ := h.stringBody_eq
    refine ⟨features, hfeatures, fun start rest ↦ ?_⟩
    rw [List.cons_append, stringBody, if_neg (by simp [hline]), if_neg (by simpa using hquote),
      if_neg (by simpa using hbackslash), hbody, List.length_cons, Nat.add_right_comm start 1,
      Nat.add_assoc start]
  | @escape e cs he h =>
    obtain ⟨j, added, hj, hescape⟩ := he.escape_eq (cs ++ ['"'])
    obtain ⟨hlength, hdrop⟩ := h.drop hj
    obtain ⟨features, hfeatures, hbody⟩ := hdrop.stringBody_eq
    refine ⟨(Escape.mk (1 + e.length + j) true added).features ++ features, ?_, fun start rest ↦ ?_⟩
    · exact List.forall_mem_append.2 ⟨Escape.features_subset _, hfeatures⟩
    · have hrest : (e ++ (cs ++ '"' :: rest)).drop (1 + e.length + j - 1) =
          cs.drop j ++ '"' :: rest := by
        rw [Nat.add_assoc, Nat.add_sub_cancel_left, List.drop_length_add_append,
          List.drop_append_of_le_length hlength]
      have hstop : start + (1 + e.length + j) + (cs.length - j) + 1 =
          start + ('\\' :: e ++ cs).length + 1 := by
        simp only [List.cons_append, List.length_cons, List.length_append]
        omega
      have hquote : isHexDigit '"' = false := rfl
      rw [List.cons_append, List.cons_append, List.append_assoc, stringBody, if_neg (by decide),
        if_neg (by decide), if_pos (by decide)]
      simp only [he.escape_append hquote, hescape, hrest, hbody, Body.afterEscape,
        List.length_drop, hstop]
      rfl
termination_by cs.length
decreasing_by all_goals simp only [List.length_drop, List.length_cons, List.length_append]; omega

/-- A regular string is read up to its closing quote, and with the suffix behind it. -/
theorem IsStringContent.regularString_eq {content : List Char} (h : IsStringContent content) :
    ∃ features, (∀ f ∈ features, f = Feature.escapeCharacter) ∧ ∀ rest,
      regularString ('"' :: (content ++ '"' :: rest)) =
        ⟨.stringLiteral, content.length + 2 + utf8SuffixLength rest, none,
          Feature.listed
            (features ++ if utf8SuffixLength rest = 0 then [] else [.utf8StringLiterals]), []⟩ := by
  obtain ⟨features, hfeatures, hbody⟩ := h.stringBody_eq
  refine ⟨features, hfeatures, fun rest ↦ ?_⟩
  have hdrop : ('"' :: (content ++ '"' :: rest)).drop (1 + content.length + 1) = rest := by
    rw [List.drop_succ_cons, Nat.add_comm, List.drop_length_add_append]
    rfl
  simp only [regularString, List.drop_succ_cons, List.drop_zero, hbody, if_true, stringLexeme, hdrop]
  rw [show 1 + content.length + 1 = content.length + 2 by omega]

/-- A character literal is read up to its closing quote. -/
theorem IsCharacterContent.characterLiteral_eq {content : List Char}
    (h : IsCharacterContent content) :
    ∃ features, (∀ f ∈ features, f = Feature.escapeCharacter) ∧
      ∀ rest, characterLiteral ('\'' :: (content ++ '\'' :: rest)) =
        ⟨.characterLiteral, content.length + 2, none, Feature.listed features, []⟩ := by
  cases h with
  | @char c hquote hbackslash hline =>
    refine ⟨[], by simp, fun rest ↦ ?_⟩
    simp [characterLiteral, hquote, hbackslash, hline, Escape.faults, Escape.features]
  | @escape e he =>
    obtain ⟨j, added, hj, hescape⟩ := he.escape_eq ['\'']
    obtain rfl : j = 0 := by simpa [isHexDigit] using hj
    refine ⟨_, Escape.features_subset ⟨1 + e.length + 0, true, added⟩, fun rest ↦ ?_⟩
    have hquote : isHexDigit '\'' = false := rfl
    have hfull := (he.escape_append hquote [] rest).trans hescape
    rw [List.nil_append] at hfull
    simp [characterLiteral, hfull, isLineEnd, Escape.faults]
    omega

/-- Decimal digits are a word. -/
theorem isFullWord_digits {digits : List Char} (hne : digits ≠ [])
    (h : ∀ c ∈ digits, c.isDigit = true) :
    IsFullWord false digits [⟨.numericLiteral, 0, digits.length, none, []⟩] := by
  intro rest hrest
  have hnumber := number_append hne h hrest
  obtain ⟨c, cs, rfl⟩ := List.exists_cons_of_ne_nil hne
  rw [List.forall_mem_cons] at h
  have hno {d : Char} (hd : d.isDigit = false) : c ≠ d := by
    rintro rfl
    rw [h.1] at hd
    contradiction
  have honeLine : ∀ d ∈ c :: cs, isLineEnd d = false := fun d hd ↦
    not_isLineEnd_of_isHexDigit
      (isHexDigit_of_isDigit ((List.mem_cons.1 hd).elim (fun heq ↦ heq ▸ h.1) (h.2 d)))
  have hspace : isSpace c = false :=
    inRanges_of_areDisjoint (by decide) (inRanges_of_isDigit h.1)
  have hblank : isBlank c = false := by
    simp [isBlank, hspace, hno (d := '\ufeff') (by decide), hno (d := '\u001a') (by decide)]
  have hline := honeLine c List.mem_cons_self
  refine spells_of_plainLexeme (by simp) honeLine ?_ ?_ ?_
    (l := numberLexeme (c :: cs).length none []) rfl rfl
  · simp [gapItem?, hno (d := '/') rfl, hline, hblank]
  · simp [opening?, runLength, hno (d := '@') rfl, hno (d := '$') rfl]
  · have hstarts : nameStarts (c :: (cs ++ rest)) = false := by
      rw [nameStarts, nameChar?_of_ne (hno (d := '\\') rfl)]
      exact not_startsName_of_isDigit h.1
    have hdigit : numberStarts (c :: (cs ++ rest)) = true := by
      simp [numberStarts, hno (d := '.') rfl, h.1]
    rw [← hnumber, List.cons_append, plainLexeme]
    simp [hno (d := '@') rfl, hstarts, hdigit]

theorem IsEscape.oneLine {e : List Char} (h : IsEscape e) : ∀ c ∈ e, isLineEnd c = false := by
  have hdigits {digits : List Char} (hhex : ∀ c ∈ digits, isHexDigit c = true) :
      ∀ c ∈ digits, isLineEnd c = false := fun c hc ↦ not_isLineEnd_of_isHexDigit (hhex c hc)
  cases h with
  | @simple c hc =>
    rw [List.forall_mem_singleton]
    revert hc
    simp only [List.mem_cons, List.not_mem_nil, or_false]
    rintro (rfl | rfl | rfl | rfl | rfl | rfl | rfl | rfl | rfl | rfl | rfl | rfl) <;> rfl
  | short _ hhex | long _ hhex | hexadecimal _ _ hhex =>
    exact List.forall_mem_cons.2 ⟨by decide, hdigits hhex⟩

theorem IsStringContent.oneLine {cs : List Char} (h : IsStringContent cs) :
    ∀ c ∈ cs, isLineEnd c = false := by
  induction h with
  | nil => simp
  | char _ _ hline _ ih => exact List.forall_mem_cons.2 ⟨hline, ih⟩
  | escape he _ ih =>
    rw [List.cons_append]
    exact List.forall_mem_cons.2 ⟨by decide, List.forall_mem_append.2 ⟨he.oneLine, ih⟩⟩

/-- Characters in quotes stand in one line if those between the quotes do. -/
theorem oneLine_quoted {quote : Char} {content : List Char} (hquote : isLineEnd quote = false)
    (h : ∀ c ∈ content, isLineEnd c = false) :
    ∀ c ∈ quote :: content ++ [quote], isLineEnd c = false := by
  rw [List.cons_append, List.forall_mem_cons, List.forall_mem_append]
  exact ⟨hquote, h, by simpa using hquote⟩

/-- The content of a string in quotes is a word. -/
theorem IsStringContent.isFullWord {content : List Char} (h : IsStringContent content) :
    ∃ features, (∀ f ∈ features, f = Feature.escapeCharacter) ∧
      IsFullWord false ('"' :: content ++ ['"'])
        [⟨.stringLiteral, 0, ('"' :: content ++ ['"']).length, none, features⟩] := by
  obtain ⟨features, hfeatures, hliteral⟩ := h.regularString_eq
  refine ⟨Feature.listed features, fun f hf ↦ hfeatures f (Feature.mem_listed.1 hf).2, ?_⟩
  intro rest hrest
  have htext : '"' :: content ++ ['"'] ++ rest = '"' :: (content ++ '"' :: rest) := by simp
  have hsuffix : utf8SuffixLength rest = 0 := by
    rcases hrest with rfl | ⟨cs, rfl | rfl⟩
    · rfl
    all_goals
      unfold utf8SuffixLength
      split
      · next heq =>
        cases heq
        rfl
      · rfl
  have hraw : ['"', '"', '"'].isPrefixOf ('"' :: (content ++ '"' :: rest)) = false := by
    cases h with
    | nil => rcases hrest with rfl | ⟨cs, rfl | rfl⟩ <;> rfl
    | char hquote => simp [List.isPrefixOf, Ne.symm hquote]
    | escape => rfl
  have hregular : regularString ('"' :: (content ++ '"' :: rest)) =
      ⟨.stringLiteral, ('"' :: content ++ ['"']).length, none, Feature.listed features, []⟩ := by
    simp [hliteral, hsuffix]
  refine spells_of_plainLexeme (by simp) (oneLine_quoted rfl h.oneLine) ?_ ?_ ?_
    (l := ⟨.stringLiteral, ('"' :: content ++ ['"']).length, none, Feature.listed features, []⟩)
    rfl rfl
  · rw [htext]
    rfl
  · rw [htext]
    rfl
  · rw [htext, plainLexeme, ← hregular]
    have hstarts : nameStarts ('"' :: (content ++ '"' :: rest)) = false := rfl
    have hnumber : numberStarts ('"' :: (content ++ '"' :: rest)) = false := rfl
    simp only [hstarts, hnumber, hraw]
    rfl

/-- The content of a character in quotes is a word. -/
theorem IsCharacterContent.isFullWord {content : List Char} (h : IsCharacterContent content) :
    ∃ features, (∀ f ∈ features, f = Feature.escapeCharacter) ∧
      IsFullWord false ('\'' :: content ++ ['\''])
        [⟨.characterLiteral, 0, ('\'' :: content ++ ['\'']).length, none, features⟩] := by
  have honeLine : ∀ c ∈ content, isLineEnd c = false := by
    cases h with
    | char _ _ hline => simpa using hline
    | escape he => exact List.forall_mem_cons.2 ⟨by decide, he.oneLine⟩
  obtain ⟨features, hfeatures, hcharacter⟩ := h.characterLiteral_eq
  have hliteral (rest : List Char) : characterLiteral ('\'' :: (content ++ '\'' :: rest)) =
      ⟨.characterLiteral, ('\'' :: content ++ ['\'']).length, none, Feature.listed features, []⟩ := by
    simp [hcharacter]
  refine ⟨Feature.listed features, fun f hf ↦ hfeatures f (Feature.mem_listed.1 hf).2, ?_⟩
  intro rest hrest
  have htext : '\'' :: content ++ ['\''] ++ rest = '\'' :: (content ++ '\'' :: rest) := by simp
  refine spells_of_plainLexeme (by simp) (oneLine_quoted rfl honeLine) ?_ ?_ ?_
    (l := ⟨.characterLiteral, ('\'' :: content ++ ['\'']).length, none, Feature.listed features,
      []⟩) rfl rfl
  · rw [htext]
    rfl
  · rw [htext]
    rfl
  · rw [htext, plainLexeme, ← hliteral rest]
    have hstarts : nameStarts ('\'' :: (content ++ '\'' :: rest)) = false := rfl
    have hnumber : numberStarts ('\'' :: (content ++ '\'' :: rest)) = false := rfl
    simp only [hstarts, hnumber]
    rfl

/-- A literal is a word. Only strings and characters may need a feature. -/
theorem Literal.isFullWord (l : Literal) : ∃ features,
    (∀ f ∈ features, f = Feature.escapeCharacter ∧ l.kind ≠ .numericLiteral) ∧
      IsFullWord false l.text [⟨l.kind, 0, l.text.length, none, features⟩] := by
  cases l with
  | decimal digits hne hdigits => exact ⟨[], by simp, isFullWord_digits hne hdigits⟩
  | string content hcontent =>
    obtain ⟨features, hfeatures, hword⟩ := hcontent.isFullWord
    exact ⟨features, fun f hf ↦ ⟨hfeatures f hf, by simp [kind]⟩, hword⟩
  | character content hcontent =>
    obtain ⟨features, hfeatures, hword⟩ := hcontent.isFullWord
    exact ⟨features, fun f hf ↦ ⟨hfeatures f hf, by simp [kind]⟩, hword⟩

end CSharpCheck.Core
