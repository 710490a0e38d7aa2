import CSharpCheck.Proofs.Scanning.Locality
import CSharpCheck.Proofs.Scanning.Tilings

/-!
# Scans that stay on their line

On a directive line only a literal in quotes and a block comment can reach over the end of the
line. What else is scanned there ends with the line at the latest.
-/

namespace CSharpCheck

variable {text : List Char} {m n : Nat}

/-! ### Parts of a line -/

/-- Where texts part are all line ends. -/
theorem not_isLineEnd_of_partings {p : Char → Bool} (hp : partings.any p = false) {c : Char}
    (hc : p c = true) : isLineEnd c = false := by
  rw [Bool.eq_false_iff]
  intro hend
  rw [false_of_mem_partings hp (mem_partings_of_isLineEnd hend)] at hc
  contradiction

/-- Two parts of a line, one after the other, are on the line together. -/
theorem add_le_restOfLine (hm : m ≤ (restOfLine text).length)
    (hn : n ≤ (restOfLine (text.drop m)).length) : m + n ≤ (restOfLine text).length := by
  rw [restOfLine_drop hm, List.length_drop] at hn
  omega

theorem length_takeWhile_le_restOfLine {p : Char → Bool}
    (hp : ∀ c, p c = true → isLineEnd c = false) (text : List Char) :
    (text.takeWhile p).length ≤ (restOfLine text).length := by
  induction text with
  | nil => exact Nat.le_refl 0
  | cons c cs ih =>
    rw [List.takeWhile_cons]
    split
    · next hc =>
      rw [restOfLine_cons (hp c hc)]
      exact Nat.succ_le_succ ih
    · exact Nat.zero_le _

theorem length_le_restOfLine_of_prefix {word : List Char} (h : word <+: text)
    (hword : ∀ c ∈ word, isLineEnd c = false) : word.length ≤ (restOfLine text).length := by
  induction word generalizing text with
  | nil => exact Nat.zero_le _
  | cons c word ih =>
    obtain ⟨cs, rfl⟩ := h
    rw [List.cons_append, restOfLine_cons (hword c List.mem_cons_self)]
    exact Nat.succ_le_succ (ih (List.prefix_append _ _) fun d hd ↦
      hword d (List.mem_cons_of_mem c hd))

/-! ### Names -/

theorem escapedChar?_le_restOfLine {count : Nat} {c : Char} (h : escapedChar? count text = some c) :
    count ≤ (restOfLine text).length := by
  unfold escapedChar? at h
  simp only at h
  split at h
  · next hdigits =>
    obtain ⟨hlength, hhex, -⟩ := hdigits
    rw [← hlength]
    exact length_le_restOfLine_of_prefix (List.take_prefix _ _) fun d hd ↦
      not_isLineEnd_of_partings (p := isHexDigit) (by decide) (List.all_eq_true.mp hhex d hd)
  · contradiction

theorem length_nameChars_le (text : List Char) :
    (nameChars text).foldr (fun c rest ↦ c.2 + rest) 0 ≤ (restOfLine text).length := by
  induction hlength : text.length using Nat.strongRecOn generalizing text with
  | ind length ih =>
    cases text with
    | nil => simp [nameChars]
    | cons c cs =>
      rw [nameChars]
      cases hfirst : nameChar? (c :: cs) with
      | none => exact Nat.zero_le _
      | some first =>
        obtain ⟨d, m⟩ := first
        cases hd : continuesName d with
        | false => simp [hd]
        | true =>
          have hpos := length_nameChar?_pos hfirst
          have hm : m ≤ (restOfLine (c :: cs)).length := by
            rcases SameUpTo.nameChar?_cases hfirst with
              ⟨ds, htext, rfl⟩ | ⟨u, digits, count, htext, hu, hdigits, rfl⟩
            · rw [htext, restOfLine_cons (not_isLineEnd_of_continuesName hd)]
              exact Nat.le_add_left 1 _
            · have hend : isLineEnd u = false :=
                Bool.eq_false_iff.mpr fun hend ↦ hu (mem_partings_of_isLineEnd hend)
              rw [htext, restOfLine_cons (by decide), restOfLine_cons hend]
              exact Nat.add_le_add_right (escapedChar?_le_restOfLine hdigits) 2
          simp only [hd, if_true, List.foldr_cons]
          refine add_le_restOfLine hm ?_
          rw [drop_sub_one hpos c]
          refine ih _ ?_ _ rfl
          rw [List.length_cons] at hlength
          rw [List.length_drop, List.length_cons]
          omega

theorem length_nameLexeme_le (text : List Char) :
    (nameLexeme false text).length ≤ (restOfLine text).length := length_nameChars_le text

theorem length_verbatimName_le {c : Char} (h : isLineEnd c = false) (cs : List Char) :
    (nameLexeme true (c :: cs)).length ≤ (restOfLine (c :: cs)).length := by
  have hfold (chars : List (Char × Nat)) : chars.foldr (fun c rest ↦ c.2 + rest) 1 =
      chars.foldr (fun c rest ↦ c.2 + rest) 0 + 1 := by
    induction chars with
    | nil => rfl
    | cons c chars ih =>
      rw [List.foldr_cons, List.foldr_cons, ih]
      omega
  simp only [nameLexeme, if_true, List.drop_succ_cons, List.drop_zero, hfold, restOfLine_cons h]
  exact Nat.succ_le_succ (length_nameChars_le cs)

/-! ### Numbers -/

theorem length_digitGroup_le {p : Char → Bool} (hp : partings.any p = false) (text : List Char) :
    (digitGroup p text).length ≤ (restOfLine text).length := by
  refine length_takeWhile_le_restOfLine (fun c hc ↦ ?_) text
  rcases Bool.or_eq_true_iff.mp hc with hdigit | hseparator
  · exact not_isLineEnd_of_partings hp hdigit
  · exact not_isLineEnd_of_partings (p := (· == '_')) (by decide) hseparator

theorem integerSuffixLength_le (text : List Char) :
    integerSuffixLength text ≤ (restOfLine text).length := by
  cases text with
  | nil => exact Nat.le_refl 0
  | cons c cs =>
    have hletter {first second : Char} (hfirst : partings.any (·.toLower == first) = false)
        (hsecond : partings.any (·.toLower == second) = false) (hc : c.toLower = first) :
        (if cs.head?.map Char.toLower == some second then 2 else 1) ≤
          (restOfLine (c :: cs)).length := by
      rw [restOfLine_cons (not_isLineEnd_of_partings hfirst (by simpa using hc))]
      split
      · next hnext =>
        cases cs with
        | nil => contradiction
        | cons d ds =>
          rw [restOfLine_cons (not_isLineEnd_of_partings hsecond (by simpa using hnext))]
          exact Nat.le_add_left 2 _
      · exact Nat.le_add_left 1 _
    simp only [integerSuffixLength]
    split
    · next hc => exact hletter (by decide) (by decide) hc
    · next hc => exact hletter (by decide) (by decide) hc
    · exact Nat.zero_le _

theorem realSuffixLength_le (text : List Char) :
    realSuffixLength text ≤ (restOfLine text).length := by
  cases text with
  | nil => exact Nat.le_refl 0
  | cons c cs =>
    rw [realSuffixLength]
    split
    · next hc =>
      rw [restOfLine_cons (not_isLineEnd_of_partings
        (p := fun c ↦ ['f', 'd', 'm'].contains c.toLower) (by decide) hc)]
      exact Nat.le_add_left 1 _
    · exact Nat.zero_le _

theorem length_prefixedNumber_le (binary : Bool) (h : 2 ≤ (restOfLine text).length) :
    (prefixedNumber binary text).length ≤ (restOfLine text).length := by
  have hp : partings.any (if binary then Char.isDigit else isHexDigit) = false := by
    cases binary <;> decide
  exact add_le_restOfLine (add_le_restOfLine h (length_digitGroup_le hp _))
    (integerSuffixLength_le _)

theorem length_fraction?_le {digits : List Char} (h : fraction? text = some digits) :
    digits.length + 1 ≤ (restOfLine text).length := by
  unfold fraction? at h
  split at h
  · split at h
    · cases h
      rw [restOfLine_cons (by decide)]
      exact Nat.succ_le_succ (length_digitGroup_le (by decide) _)
    · contradiction
  · contradiction

theorem length_exponent?_le {lead : Nat} {digits : List Char}
    (h : exponent? text = some (lead, digits)) :
    lead + digits.length ≤ (restOfLine text).length := by
  unfold exponent? at h
  split at h
  · next c cs =>
    split at h
    · next hc =>
      cases h
      have hsign : (if cs.head? == some '+' || cs.head? == some '-' then 1 else 0) ≤
          (restOfLine cs).length := by
        split
        · next hsign =>
          cases cs with
          | nil => contradiction
          | cons d ds =>
            rw [restOfLine_cons (not_isLineEnd_of_partings (p := fun d ↦ d == '+' || d == '-')
              (by decide) (by simpa using hsign))]
            exact Nat.le_add_left 1 _
        · exact Nat.zero_le _
      have hdigits :=
        add_le_restOfLine hsign (length_digitGroup_le (p := Char.isDigit) (by decide) _)
      rw [restOfLine_cons (not_isLineEnd_of_partings (p := fun c ↦ c == 'e' || c == 'E')
        (by decide) hc), List.length_cons]
      omega
    · contradiction
  · contradiction

theorem length_decimalNumber_le (text : List Char) :
    (decimalNumber text).length ≤ (restOfLine text).length := by
  have hfraction (text : List Char) :
      ((fraction? text).map (·.length + 1)).getD 0 ≤ (restOfLine text).length := by
    cases hdigits : fraction? text with
    | none => exact Nat.zero_le _
    | some digits => exact length_fraction?_le hdigits
  have hexponent (text : List Char) :
      ((exponent? text).map fun digits ↦ digits.1 + digits.2.length).getD 0 ≤
        (restOfLine text).length := by
    cases hdigits : exponent? text with
    | none => exact Nat.zero_le _
    | some digits => exact length_exponent?_le hdigits
  have hsuffix (text : List Char) (isReal : Bool) :
      (if realSuffixLength text = 1 then 1 else if isReal then 0 else integerSuffixLength text) ≤
        (restOfLine text).length := by
    split
    · next hreal => exact hreal ▸ realSuffixLength_le text
    · split
      · exact Nat.zero_le _
      · exact integerSuffixLength_le text
  have hwhole := length_digitGroup_le (p := Char.isDigit) (by decide) text
  exact add_le_restOfLine
    (add_le_restOfLine (add_le_restOfLine hwhole (hfraction _)) (hexponent _)) (hsuffix _ _)

theorem length_number_le (text : List Char) : (number text).length ≤ (restOfLine text).length := by
  unfold number
  split
  · next c cs =>
    have htwo (hc : isLineEnd c = false) : 2 ≤ (restOfLine ('0' :: c :: cs)).length := by
      rw [restOfLine_cons (by decide), restOfLine_cons hc]
      exact Nat.le_add_left 2 _
    split
    · next hx =>
      exact length_prefixedNumber_le false (htwo (not_isLineEnd_of_partings
        (p := fun c ↦ c == 'x' || c == 'X') (by decide) hx))
    · split
      · next hb =>
        exact length_prefixedNumber_le true (htwo (not_isLineEnd_of_partings
          (p := fun c ↦ c == 'b' || c == 'B') (by decide) hb))
      · exact length_decimalNumber_le _
  · exact length_decimalNumber_le text

/-! ### Single tokens -/

theorem length_le_of_symbolAt? {s : Symbol} (h : symbolAt? text = some s) :
    s.text.length ≤ (restOfLine text).length := by
  have hbegins : s.text.toList.isPrefixOf text = true := by
    simp only [symbolAt?, Option.or_eq_some_iff] at h
    rcases h with h | ⟨-, h | ⟨-, h⟩⟩
    · exact List.find?_some (p := fun s : Symbol ↦ s.text.toList.isPrefixOf text) h
    · have hpair := List.find?_some h
      exact (Bool.and_eq_true_iff.mp hpair).1
    · exact List.find?_some (p := fun s : Symbol ↦ s.text.toList.isPrefixOf text) h
  have hword : s.text.toList.all (!isLineEnd ·) = true := by
    cases s <;> rfl
  exact length_le_restOfLine_of_prefix (List.isPrefixOf_iff_prefix.mp hbegins) fun c hc ↦
    Bool.not_eq_true' _ ▸ List.all_eq_true.mp hword c hc

/-- Whether a token of the class is a literal in quotes or ends one. -/
def Kind.endsQuoted : Kind → Bool
  | .stringLiteral | .characterLiteral | .interpolatedEnd => true
  | _ => false

theorem endsQuoted_regularString (text : List Char) :
    (regularString text).kind.endsQuoted = true := by
  simp only [regularString]
  split <;> rfl

theorem endsQuoted_verbatimString (text : List Char) :
    (verbatimString text).kind.endsQuoted = true := by
  simp only [verbatimString]
  split <;> rfl

theorem endsQuoted_rawString (text : List Char) : (rawString text).kind.endsQuoted = true := by
  unfold rawString
  extract_lets
  split <;> rfl

theorem kind_characterLiteral (text : List Char) :
    (characterLiteral text).kind = .characterLiteral := by
  simp only [characterLiteral]
  repeat' split
  all_goals rfl

theorem endsQuoted_characterLiteral (text : List Char) :
    (characterLiteral text).kind.endsQuoted = true := by
  rw [kind_characterLiteral]
  rfl

/-- A single token that is no literal in quotes ends with its line at the latest. -/
theorem length_plainLexeme_le {c : Char} {cs : List Char} (hc : isLineEnd c = false) :
    (plainLexeme (c :: cs)).kind.endsQuoted = true ∨
      (plainLexeme (c :: cs)).length ≤ (restOfLine (c :: cs)).length := by
  have hone : 1 ≤ (restOfLine (c :: cs)).length := by
    rw [restOfLine_cons hc]
    exact Nat.le_add_left 1 _
  simp only [plainLexeme]
  split
  · exact .inl (endsQuoted_verbatimString _)
  · split
    · exact .inr (length_verbatimName_le hc cs)
    · split
      · exact .inr (length_nameLexeme_le _)
      · split
        · exact .inr (length_number_le _)
        · split
          · split
            · exact .inl (endsQuoted_rawString _)
            · exact .inl (endsQuoted_regularString _)
          · split
            · exact .inl (endsQuoted_characterLiteral _)
            · split
              · exact .inr hone
              · split
                · next s hs => exact .inr (length_le_of_symbolAt? hs)
                · exact .inr hone

/-! ### What is read on a directive line -/

/-- The last token of an interpolated string is its end. -/
theorem exists_interpolatedEnd (o : Opening) (multiLine : Bool) (scan : List Char → Group)
    (inDirective : Bool) (textStart start : Nat) (text : List Char) :
    ∃ ps p, (interpolatedBody o multiLine scan inDirective textStart start text).pieces =
        ps ++ [p] ∧ p.kind = .interpolatedEnd ∧ p.start + p.length =
          (interpolatedBody o multiLine scan inDirective textStart start text).stop := by
  fun_induction interpolatedBody o multiLine scan inDirective textStart start text with
  | case1 | case2 => exact ⟨_, _, rfl, rfl, rfl⟩
  | case4 => exact ⟨_, _, rfl, rfl, (Nat.add_assoc _ _ _).symm⟩
  | case9 textStart start c cs _ _ _ _ length _ holeStart part ih =>
    obtain ⟨ps, p, hpieces, hkind, hstop⟩ := ih
    refine ⟨textPieces textStart holeStart ++ part.pieces ++ ps, p, ?_, hkind, hstop⟩
    change textPieces textStart holeStart ++ part.pieces ++ _ = _
    rw [hpieces, ← List.append_assoc]
  | _ =>
    rename_i ih
    exact ih

/-- A scan that goes on behind its line ends with a literal in quotes. -/
theorem endsQuoted_or_length_le (inDirective : Bool) (room : Nat) {c : Char} {cs : List Char}
    (hc : isLineEnd c = false) :
    (∃ p ∈ (scanGroup inDirective (room + 1) (c :: cs)).pieces, p.kind.endsQuoted = true ∧
        p.start + p.length = (scanGroup inDirective (room + 1) (c :: cs)).length) ∨
      (scanGroup inDirective (room + 1) (c :: cs)).length ≤ (restOfLine (c :: cs)).length := by
  unfold scanGroup
  split
  · rcases length_plainLexeme_le hc with hquoted | hlength
    · exact .inl ⟨_, List.mem_cons_self, hquoted, Nat.zero_add _⟩
    · exact .inr hlength
  · next o _ =>
    obtain ⟨ps, p, hpieces, hkind, hstop⟩ := exists_interpolatedEnd o
      (if o.raw then restOfLineIsBlank ((c :: cs).drop o.length) else o.verbatim)
      (scanGroup inDirective room) inDirective o.length o.length ((c :: cs).drop o.length)
    refine .inl ⟨p, List.mem_cons_of_mem _ ?_, by rw [hkind]; rfl, hstop⟩
    rw [hpieces]
    exact List.mem_append_right ps List.mem_cons_self

theorem length_gapItem?_le {item : GapItem} (hitem : gapItem? true text = some item)
    (h : ¬['/', '*'] <:+: restOfLine text) : item.length ≤ (restOfLine text).length := by
  unfold gapItem? at hitem
  split at hitem
  · contradiction
  · cases hitem
    rw [restOfLine_cons (by decide), restOfLine_cons (by decide)]
    exact Nat.le_refl _
  · rw [restOfLine_cons (by decide), restOfLine_cons (by decide)] at h
    exact absurd (List.prefix_append ['/', '*'] _).isInfix h
  · next c cs _ _ =>
    split at hitem
    · contradiction
    · next hc =>
      split at hitem
      · cases hitem
        rw [restOfLine_cons (by simpa using hc)]
        exact Nat.le_add_left 1 _
      · contradiction

/-- On a directive line a gap without block comments ends with the line at the latest. -/
theorem gapLength_le (h : ¬['/', '*'] <:+: restOfLine text) :
    gapLength (gap true text) ≤ (restOfLine text).length := by
  generalize hin : true = inDirective
  fun_induction gap inDirective text with
  | case1 => exact Nat.zero_le _
  | case2 => exact Nat.zero_le _
  | case3 text item hitem hne ih =>
    subst hin
    have hlength := length_gapItem?_le hitem h
    refine add_le_restOfLine hlength (ih ?_)
    rw [restOfLine_drop hlength]
    exact fun hopens ↦ h (List.IsInfix.trans hopens (List.drop_suffix _ _).isInfix)

/-- The opening of a directive line ends with the line at the latest. -/
theorem length_directiveOpening_le (cs : List Char) :
    (directiveOpening ('#' :: cs)).length ≤ (restOfLine ('#' :: cs)).length := by
  have hhash : 1 ≤ (restOfLine ('#' :: cs)).length := by
    rw [restOfLine_cons (by decide)]
    exact Nat.le_add_left 1 _
  have hindent (text : List Char) : indentLength text ≤ (restOfLine text).length :=
    length_takeWhile_le_restOfLine (fun c hc ↦ by
      simp only [Bool.or_eq_true, beq_iff_eq] at hc
      rcases hc with rfl | rfl <;> rfl) text
  unfold directiveOpening
  simp only
  split
  · exact add_le_restOfLine hhash (Nat.le_refl _)
  · have hstart := add_le_restOfLine hhash (hindent _)
    split
    · have hname := add_le_restOfLine hstart (length_nameLexeme_le _)
      split
      · exact add_le_restOfLine (add_le_restOfLine hname (hindent _)) (Nat.le_refl _)
      · exact hname
    · exact hstart

end CSharpCheck
