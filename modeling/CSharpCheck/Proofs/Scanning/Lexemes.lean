import CSharpCheck.Lexeme.Plain

/-!
# What single scans find

Outside of interpolated strings a scan finds a single token. It takes at least one character of a
text that is not empty, and its class does not belong to a group.
-/

namespace CSharpCheck

/-- Whether a token of the class is a group of its own and no part of a directive line. -/
def Kind.isSingle : Kind → Bool
  | .identifier | .keyword _ | .symbol _ | .numericLiteral | .stringLiteral | .characterLiteral
  | .bad => true
  | _ => false

/-- A single token that is not empty. -/
structure Lexeme.Single (l : Lexeme) : Prop where
  isSingle : l.kind.isSingle = true
  length_pos : 0 < l.length

/-! ### Names -/

theorem length_nameChar?_pos {text : List Char} {c : Char} {n : Nat}
    (h : nameChar? text = some (c, n)) : 0 < n := by
  unfold nameChar? at h
  split at h
  · contradiction
  · next c' cs =>
    simp only [Option.some.injEq] at h
    have hn : (c, n).2 = n := rfl
    rw [← hn, ← h]
    split
    · split
      · cases escapedChar? 4 _ <;> simp
      · cases escapedChar? 8 _ <;> simp
      · simp
    · simp

/-- The name at a place where one starts has a character. -/
theorem exists_nameChars {text : List Char} (h : nameStarts text = true) :
    ∃ c n rest, nameChars text = (c, n) :: rest ∧ 0 < n := by
  unfold nameStarts at h
  split at h
  · next c n hc =>
    cases text with
    | nil => contradiction
    | cons d cs =>
      have hcontinues : continuesName c = true := by
        simp only [startsName, continuesName, isLetterOrNumeral, Bool.or_eq_true] at h ⊢
        exact h.imp_left .inl
      rw [nameChars, hc]
      simp only [hcontinues, if_true]
      exact ⟨c, n, _, rfl, length_nameChar?_pos hc⟩
  · contradiction

theorem isSingle_nameLexeme (verbatim : Bool) (text : List Char) :
    (nameLexeme verbatim text).kind.isSingle = true := by
  simp only [nameLexeme]
  generalize nameChars (if verbatim = true then List.drop 1 text else text) = chars
  split
  · rfl
  · split <;> rfl

theorem single_nameLexeme {text : List Char} (h : nameStarts text = true) :
    (nameLexeme false text).Single where
  isSingle := isSingle_nameLexeme false text
  length_pos := by
    obtain ⟨c, n, rest, hchars, hn⟩ := exists_nameChars h
    simp only [nameLexeme, Bool.false_eq_true, if_false, hchars, List.foldr_cons]
    omega

theorem single_verbatimName (text : List Char) : (nameLexeme true text).Single where
  isSingle := isSingle_nameLexeme true text
  length_pos := by
    simp only [nameLexeme, if_true]
    generalize nameChars (text.drop 1) = chars
    induction chars with
    | nil => simp
    | cons c chars ih =>
      rw [List.foldr_cons]
      omega

/-! ### Numbers -/

theorem length_digitGroup_pos {c : Char} (cs : List Char) {p : Char → Bool} (h : p c = true) :
    0 < (digitGroup p (c :: cs)).length := by
  simp [digitGroup, h]

theorem length_decimalNumber_pos {text : List Char} (h : numberStarts text = true) :
    0 < (decimalNumber text).length := by
  simp only [decimalNumber, numberLexeme]
  unfold numberStarts at h
  split at h
  · next cs =>
    have hdot : digitGroup Char.isDigit ('.' :: cs) = [] := by simp [digitGroup]
    simp only [hdot, List.length_nil, List.drop_zero, fraction?, h, if_true, Option.map_some,
      Option.getD_some]
    omega
  · next c cs _ =>
    have hpos := length_digitGroup_pos cs h
    omega
  · contradiction

theorem single_number {text : List Char} (h : numberStarts text = true) :
    (number text).Single := by
  have hdecimal : (decimalNumber text).Single := ⟨rfl, length_decimalNumber_pos h⟩
  have hprefixed (binary : Bool) : (prefixedNumber binary text).Single := by
    refine ⟨rfl, ?_⟩
    simp only [prefixedNumber, numberLexeme]
    omega
  unfold number
  split
  · split
    · exact hprefixed false
    · split
      · exact hprefixed true
      · exact hdecimal
  · exact hdecimal

/-! ### Strings and characters -/

theorem le_stop_stringBody (start : Nat) (text : List Char) :
    start ≤ (stringBody start text).stop := by
  fun_induction stringBody start text with
  | case1 | case2 => exact Nat.le_refl _
  | case3 => exact Nat.le_succ _
  | case4 start c cs _ _ _ e ih => exact Nat.le_trans (Nat.le_add_right _ _) ih
  | case5 start c cs _ _ _ ih => exact Nat.le_trans (Nat.le_succ _) ih

theorem le_stop_verbatimBody (start : Nat) (text : List Char) :
    start ≤ (verbatimBody start text).stop := by
  fun_induction verbatimBody start text with
  | case1 => exact Nat.le_refl _
  | case2 start cs ih => exact Nat.le_trans (Nat.le_add_right _ _) ih
  | case3 => exact Nat.le_succ _
  | case4 start c cs _ _ ih => exact Nat.le_trans (Nat.le_succ _) ih

theorem le_stop_rawLineBody (quotes start : Nat) (text : List Char) :
    start ≤ (rawLineBody quotes start text).stop := by
  fun_induction rawLineBody quotes start text with
  | case1 | case2 => exact Nat.le_refl _
  | case3 start c cs _ _ run _ => exact Nat.le_add_right _ _
  | case4 start c cs _ _ run _ ih => exact Nat.le_trans (Nat.le_add_right _ _) ih
  | case5 start c cs _ _ ih => exact Nat.le_trans (Nat.le_succ _) ih

theorem le_stop_rawBlockBody (quotes start : Nat) (lines : List (Nat × List Char))
    (text : List Char) : start ≤ (rawBlockBody quotes start lines text).stop := by
  fun_induction rawBlockBody quotes start lines text with
  | case1 => exact Nat.le_refl _
  | case2 start lines c cs lead rest line indentation run hrun =>
    rw [if_pos hrun]
    simp only [closeRaw]
    omega
  | case3 start lines c cs offset lead rest line indentation run hrun hoffset =>
    rw [if_neg hrun]
    simp only
    split
    · simp only [closeRaw]
      omega
    · next hnone =>
      rw [hoffset] at hnone
      contradiction
  | case4 start lines c cs lead lineStart rest line indentation run hrun hnone ih =>
    rw [if_neg hrun]
    simp only
    split
    · next hoffset =>
      rw [hnone] at hoffset
      contradiction
    · refine Nat.le_trans ?_ ih
      show start ≤ start + lead + line.length
      omega

theorem single_stringLexeme {text : List Char} {length : Nat} (hlength : 0 < length)
    (features : List Feature) (faults : List Fault) :
    (stringLexeme text length features faults).Single :=
  ⟨rfl, Nat.lt_of_lt_of_le hlength (Nat.le_add_right _ _)⟩

theorem single_regularString (text : List Char) : (regularString text).Single := by
  have hstop : 0 < (stringBody 1 (text.drop 1)).stop := le_stop_stringBody 1 _
  unfold regularString
  simp only
  split
  · exact single_stringLexeme hstop _ _
  · exact ⟨rfl, hstop⟩

theorem single_verbatimString (text : List Char) : (verbatimString text).Single := by
  have hstop : 0 < (verbatimBody 2 (text.drop 2)).stop :=
    Nat.lt_of_lt_of_le Nat.zero_lt_two (le_stop_verbatimBody 2 _)
  unfold verbatimString
  simp only
  split
  · exact single_stringLexeme hstop _ _
  · exact ⟨rfl, hstop⟩

theorem single_rawString {text : List Char} (h : ['"', '"', '"'].isPrefixOf text = true) :
    (rawString text).Single := by
  have hquotes : 0 < runLength '"' text := by
    obtain ⟨rest, rfl⟩ := List.isPrefixOf_iff_prefix.1 h
    simp [runLength]
  have hline := le_stop_rawLineBody (runLength '"' text) (runLength '"' text)
    (text.drop (runLength '"' text))
  unfold rawString
  simp only
  split
  · have hblock := le_stop_rawBlockBody (runLength '"' text)
      (runLength '"' text + (restOfLine (text.drop (runLength '"' text))).length) []
      ((text.drop (runLength '"' text)).drop
        (restOfLine (text.drop (runLength '"' text))).length)
    split
    · exact single_stringLexeme (by omega) _ _
    · exact ⟨rfl, by simp only [openStringLexeme]; omega⟩
  · split
    · exact single_stringLexeme (by omega) _ _
    · exact ⟨rfl, by simp only [openStringLexeme]; omega⟩

theorem single_characterLiteral (text : List Char) : (characterLiteral text).Single := by
  unfold characterLiteral
  simp only
  repeat' split
  all_goals exact ⟨rfl, by simp only; omega⟩

/-! ### All single tokens -/

theorem length_text_pos (s : Symbol) : 0 < s.text.length := by
  cases s <;> decide

theorem single_plainLexeme {text : List Char} (h : text ≠ []) : (plainLexeme text).Single := by
  unfold plainLexeme
  split
  · contradiction
  · split
    · exact single_verbatimString _
    · split
      · exact single_verbatimName _
      · split
        · next hname => exact single_nameLexeme hname
        · split
          · next hnumber => exact single_number hnumber
          · split
            · split
              · next hraw => exact single_rawString hraw
              · exact single_regularString _
            · split
              · exact single_characterLiteral _
              · split
                · exact ⟨rfl, Nat.zero_lt_one⟩
                · split
                  · next s _ => exact ⟨rfl, length_text_pos s⟩
                  · exact ⟨rfl, Nat.zero_lt_one⟩

end CSharpCheck
