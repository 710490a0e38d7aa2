import CSharpCheck.Proofs.Scanning.Words

/-!
# Names, reserved words and symbols as words

In front of white space, a name, a reserved word or a symbol is read as a single token.
-/

namespace CSharpCheck

/-! ### Characters of names -/

/-- Whether no code point lies in a range of either list. -/
def areDisjoint (rs qs : List CodeRange) : Bool :=
  rs.all fun r ↦ qs.all fun q ↦ r.2 < q.1 || q.2 < r.1

theorem inRanges_of_areDisjoint {rs qs : List CodeRange} {c : Char}
    (hdisjoint : areDisjoint rs qs = true) (h : inRanges rs c = true) :
    inRanges qs c = false := by
  obtain ⟨r, hr, hrc⟩ := List.any_eq_true.1 h
  refine List.any_eq_false.2 fun q hq hqc ↦ ?_
  have hor := List.all_eq_true.1 (List.all_eq_true.1 hdisjoint r hr) q hq
  simp only [Bool.and_eq_true, Bool.or_eq_true, decide_eq_true_eq] at hrc hqc hor
  omega

theorem continuesName_of_startsName {c : Char} (h : startsName c = true) :
    continuesName c = true := by
  simp only [startsName, continuesName, isLetterOrNumeral, Bool.or_eq_true] at h ⊢
  exact h.imp_left .inl

/-- A character of a name is none that cannot stand in a name. -/
theorem ne_of_continuesName {c d : Char} (h : continuesName c = true)
    (hd : continuesName d = false) : c ≠ d := by
  rintro rfl
  rw [h] at hd
  contradiction

theorem inRanges_of_isUpper {c : Char} (h : c.isUpper = true) :
    inRanges [(0x41, 0x5A)] c = true := by
  have hrange : 'A'.val ≤ c.val ∧ c.val ≤ 'Z'.val := of_decide_eq_true h
  rw [UInt32.le_iff_toNat_le, UInt32.le_iff_toNat_le] at hrange
  simpa [inRanges] using hrange

theorem inRanges_of_isLower {c : Char} (h : c.isLower = true) :
    inRanges [(0x61, 0x7A)] c = true := by
  have hrange : decide (c.val ≥ 'a'.val) = true ∧ decide (c.val ≤ 'z'.val) = true :=
    (Bool.and_eq_true ..).mp h
  rw [decide_eq_true_eq, decide_eq_true_eq, ge_iff_le, UInt32.le_iff_toNat_le,
    UInt32.le_iff_toNat_le] at hrange
  simpa [inRanges] using hrange

theorem inRanges_of_isAlpha {c : Char} (h : c.isAlpha = true) :
    inRanges [(0x41, 0x5A), (0x61, 0x7A)] c = true := by
  have hcase : c.isUpper = true ∨ c.isLower = true := (Bool.or_eq_true ..).mp h
  have hranges : inRanges ([(0x41, 0x5A)] ++ [(0x61, 0x7A)]) c =
      (inRanges [(0x41, 0x5A)] c || inRanges [(0x61, 0x7A)] c) := List.any_append
  exact hranges.trans (Bool.or_eq_true_iff.2 (hcase.imp inRanges_of_isUpper inRanges_of_isLower))

theorem inRanges_of_isDigit {c : Char} (h : c.isDigit = true) :
    inRanges [(0x30, 0x39)] c = true := by
  simp only [Char.isDigit, Bool.and_eq_true, decide_eq_true_eq, UInt32.le_iff_toNat_le,
    ge_iff_le] at h
  simpa [inRanges] using h

theorem not_isSpace_of_continuesName {c : Char} (h : continuesName c = true) :
    isSpace c = false := by
  have hnot {rs : List CodeRange} (hc : inRanges rs c = true)
      (hdisjoint : areDisjoint rs _ = true) : isSpace c = false :=
    inRanges_of_areDisjoint hdisjoint hc
  simp only [continuesName, isLetterOrNumeral, isLetter, isNumeral, Bool.or_eq_true,
    beq_iff_eq] at h
  rcases h with (h | h) | rfl
  · split at h
    · exact hnot (inRanges_of_isAlpha h) (by decide)
    · exact hnot h (by decide +kernel)
  · split at h
    · exact hnot (inRanges_of_isDigit h) (by decide)
    · exact hnot h (by decide +kernel)
  · decide

theorem not_isLineEnd_of_continuesName {c : Char} (h : continuesName c = true) :
    isLineEnd c = false := by
  rw [Bool.eq_false_iff]
  intro hend
  simp only [isLineEnd, Bool.or_eq_true, beq_iff_eq] at hend
  have hspace := not_isSpace_of_continuesName h
  have hyes : isSpace c = true := by
    rcases hend with (((rfl | rfl) | rfl) | rfl) | rfl <;> decide
  rw [hspace] at hyes
  contradiction

theorem not_isBlank_of_continuesName {c : Char} (h : continuesName c = true) :
    isBlank c = false := by
  have hmark := ne_of_continuesName (d := '\ufeff') h (by decide +kernel)
  have hsubstitute := ne_of_continuesName (d := '\u001a') h (by decide)
  simp [isBlank, not_isSpace_of_continuesName h, hmark, hsubstitute]

/-! ### Single tokens -/

/-- What is read as a single token in front of some text, and does not look like a gap or an
interpolated string, is a word there. -/
theorem spells_of_plainLexeme {inDirective : Bool} {chars rest : List Char} {l : Lexeme}
    (hne : chars ≠ []) (honeLine : ∀ c ∈ chars, isLineEnd c = false)
    (hgap : gapItem? inDirective (chars ++ rest) = none) (hopening : opening? (chars ++ rest) = none)
    (hlexeme : plainLexeme (chars ++ rest) = l) (hlength : l.length = chars.length)
    (hfaults : l.faults = []) : Spells inDirective chars [l.piece] rest where
  ne_nil := hne
  oneLine := honeLine
  gap_eq := by
    rw [gap]
    split
    · rfl
    · next hitem =>
      rw [hgap] at hitem
      contradiction
  scan_eq := by
    unfold scanGroup
    split
    · rw [hlexeme, Lexeme.toGroup, hlength, hfaults]
    · next o ho =>
      rw [hopening] at ho
      contradiction

/-! ### Names -/

theorem nameChar?_of_ne {c : Char} (h : c ≠ '\\') (cs : List Char) :
    nameChar? (c :: cs) = some (c, 1) := by
  simp [nameChar?, h]

/-- The characters of a name are read up to the next white space or the end of the text. -/
theorem nameChars_append {cs rest : List Char} (h : ∀ c ∈ cs, continuesName c = true)
    (hrest : EndsWord rest) : nameChars (cs ++ rest) = cs.map (·, 1) := by
  induction cs with
  | nil =>
    rcases hrest with rfl | ⟨ds, rfl | rfl⟩ <;> rw [List.nil_append, nameChars] <;> rfl
  | cons c cs ih =>
    rw [List.forall_mem_cons] at h
    have hne := ne_of_continuesName (d := '\\') h.1 (by decide)
    rw [List.cons_append, nameChars, nameChar?_of_ne hne]
    simp [h.1, ih h.2]

/-- The class of a name that is spelled without escapes. -/
def nameKind (cs : List Char) : Kind :=
  match Keyword.ofText? (String.ofList cs) with
  | some word => .keyword word
  | none => .identifier

/-- The token of a name that is spelled without escapes. With `verbatim`, an `@` comes first. -/
def namePiece (verbatim : Bool) (cs : List Char) : Piece :=
  ⟨if verbatim then .identifier else nameKind cs, 0, (if verbatim then 1 else 0) + cs.length,
    some (String.ofList cs), []⟩

/-- The characters of a name, spelled without escapes. -/
structure IsName (cs : List Char) : Prop where
  starts : ∃ c ∈ cs.head?, startsName c = true
  continues : ∀ c ∈ cs, continuesName c = true

namespace IsName

variable {cs rest : List Char}

theorem of_check (hstarts : cs.head?.any startsName = true)
    (hcontinues : cs.all continuesName = true) : IsName cs where
  starts := (Option.any_eq_true _ _).1 hstarts
  continues := List.all_eq_true.1 hcontinues

theorem exists_eq_cons (h : IsName cs) : ∃ c ds, cs = c :: ds ∧ startsName c = true := by
  obtain ⟨c, hc, hstarts⟩ := h.starts
  obtain ⟨ds, rfl⟩ := List.head?_eq_some_iff.1 hc
  exact ⟨c, ds, rfl, hstarts⟩

theorem nameLexeme_eq (h : IsName cs) (verbatim : Bool) (hrest : EndsWord rest) :
    (nameLexeme verbatim (if verbatim then '@' :: (cs ++ rest) else cs ++ rest)).piece =
        namePiece verbatim cs ∧
      (nameLexeme verbatim (if verbatim then '@' :: (cs ++ rest) else cs ++ rest)).faults = [] := by
  have hchars := nameChars_append h.continues hrest
  have hname : (cs.map (·, 1)).map (fun x : Char × Nat ↦ x.1) = cs := by
    rw [List.map_map]
    exact List.map_id cs
  have hlength (n : Nat) :
      (cs.map (·, 1)).foldr (fun (c : Char × Nat) rest ↦ c.2 + rest) n = n + cs.length := by
    clear h hchars hname
    induction cs with
    | nil => rfl
    | cons c cs ih =>
      rw [List.map_cons, List.foldr_cons, ih, List.length_cons]
      omega
  have hescaped : (cs.map (·, 1)).any (fun x : Char × Nat ↦ decide (1 < x.2)) = false := by simp
  cases verbatim with
  | false =>
    simp only [nameLexeme, Bool.false_eq_true, if_false, hchars, hname, hlength, hescaped,
      Bool.or_false, Lexeme.piece, namePiece, and_true]
    rfl
  | true =>
    simp only [nameLexeme, if_true, List.drop_succ_cons, List.drop_zero, hchars, hname, hlength,
      hescaped, Bool.or_false, Lexeme.piece, namePiece, and_true]

theorem plainLexeme_eq (h : IsName cs) (rest : List Char) :
    plainLexeme (cs ++ rest) = nameLexeme false (cs ++ rest) := by
  obtain ⟨c, ds, rfl, hstarts⟩ := h.exists_eq_cons
  have hc := continuesName_of_startsName hstarts
  have hat := ne_of_continuesName (d := '@') hc (by decide)
  have hbackslash := ne_of_continuesName (d := '\\') hc (by decide)
  simp [plainLexeme, hat, nameStarts, nameChar?_of_ne hbackslash, hstarts]

/-- A name without `@` is a word. -/
theorem isFullWord (h : IsName cs) (inDirective : Bool) :
    IsFullWord inDirective cs [namePiece false cs] := by
  intro rest hrest
  obtain ⟨hpiece, hfaults⟩ := h.nameLexeme_eq false hrest
  rw [← hpiece]
  have hlength : (nameLexeme false (cs ++ rest)).length = cs.length := by
    have heq := congrArg Piece.length hpiece
    exact heq.trans (Nat.zero_add _)
  obtain ⟨c, ds, rfl, hstarts⟩ := h.exists_eq_cons
  have hc := continuesName_of_startsName hstarts
  have hslash := ne_of_continuesName (d := '/') hc (by decide)
  have hdollar := ne_of_continuesName (d := '$') hc (by decide)
  have hat := ne_of_continuesName (d := '@') hc (by decide)
  refine spells_of_plainLexeme (by simp) ?_ ?_ ?_ (h.plainLexeme_eq rest) hlength hfaults
  · exact fun c hc ↦ not_isLineEnd_of_continuesName (h.continues c hc)
  · simp [gapItem?, hslash, not_isLineEnd_of_continuesName hc, not_isBlank_of_continuesName hc]
  · simp [opening?, runLength, hat, hdollar]

theorem isWord (h : IsName cs) (inDirective : Bool) : IsWord inDirective cs [namePiece false cs] :=
  (h.isFullWord inDirective).isWord

/-- An `@` makes any name a word that is an identifier. -/
theorem isWord_verbatim (h : IsName cs) (inDirective : Bool) :
    IsWord inDirective ('@' :: cs) [namePiece true cs] := by
  intro rest hrest
  obtain ⟨hpiece, hfaults⟩ := h.nameLexeme_eq true hrest.endsWord
  rw [← hpiece]
  have hlength : (nameLexeme true ('@' :: (cs ++ rest))).length = ('@' :: cs).length := by
    have heq := congrArg Piece.length hpiece
    refine heq.trans ?_
    simp [namePiece, Nat.add_comm]
  obtain ⟨c, ds, rfl, hstarts⟩ := h.exists_eq_cons
  have hc := continuesName_of_startsName hstarts
  have hquote := ne_of_continuesName (d := '"') hc (by decide)
  have hdollar := ne_of_continuesName (d := '$') hc (by decide)
  have hbackslash := ne_of_continuesName (d := '\\') hc (by decide)
  have hlexeme : plainLexeme ('@' :: (c :: ds ++ rest)) =
      nameLexeme true ('@' :: (c :: ds ++ rest)) := by
    simp [plainLexeme, hquote, nameStarts, nameChar?_of_ne hbackslash, hstarts]
  refine spells_of_plainLexeme (by simp) ?_ ?_ ?_ hlexeme hlength hfaults
  · refine List.forall_mem_cons.2 ⟨by decide, fun c hc ↦ ?_⟩
    exact not_isLineEnd_of_continuesName (h.continues c hc)
  · rfl
  · simp [opening?, runLength, hdollar]

end IsName

/-! ### Reserved words and symbols -/

theorem Keyword.ofText?_text (k : Keyword) : ofText? k.text = some k := by
  cases k <;> decide

theorem Keyword.isName_text (k : Keyword) : IsName k.text.toList :=
  .of_check (by cases k <;> rfl) (by cases k <;> rfl)

theorem Keyword.isFullWord_text (k : Keyword) (inDirective : Bool) :
    IsFullWord inDirective k.text.toList
      [⟨.keyword k, 0, k.text.toList.length, some k.text, []⟩] := by
  have hpiece : namePiece false k.text.toList =
      ⟨.keyword k, 0, k.text.toList.length, some k.text, []⟩ := by
    simp [namePiece, nameKind, k.ofText?_text]
  rw [← hpiece]
  exact k.isName_text.isFullWord inDirective

theorem Keyword.isWord_text (k : Keyword) (inDirective : Bool) :
    IsWord inDirective k.text.toList
      [⟨.keyword k, 0, k.text.toList.length, some k.text, []⟩] :=
  (k.isFullWord_text inDirective).isWord

/-- The signs of a symbol are read as the symbol in front of any white space. -/
theorem Symbol.isWord_text (s : Symbol) (inDirective : Bool) :
    IsWord inDirective s.text.toList [.bare (.symbol s) 0 s.text.toList.length] := by
  have hne : s.text.toList ≠ [] := by cases s <;> decide
  have honeLine : ∀ c ∈ s.text.toList, isLineEnd c = false := by
    have hall : s.text.toList.all (!isLineEnd ·) = true := by cases s <;> rfl
    simpa using hall
  rintro rest ⟨cs, rfl | rfl⟩
  all_goals
    refine spells_of_plainLexeme (l := .bare (.symbol s) s.text.toList.length) hne honeLine ?_ ?_ ?_
      rfl rfl
    all_goals cases s <;> rfl

/-- Whether the signs of the symbol are read as the symbol at the end of the text, too. Behind a dot
a number may begin there. -/
def Symbol.mayEnd : Symbol → Bool
  | .dot | .questionDot => false
  | _ => true

theorem Symbol.isFullWord_text {s : Symbol} (hend : s.mayEnd = true) (inDirective : Bool) :
    IsFullWord inDirective s.text.toList [.bare (.symbol s) 0 s.text.toList.length] := by
  rintro rest (rfl | hrest)
  · have hword := s.isWord_text inDirective [' '] ⟨[], .inl rfl⟩
    refine spells_of_plainLexeme (l := .bare (.symbol s) s.text.toList.length) hword.ne_nil
      hword.oneLine ?_ ?_ ?_ rfl rfl
    all_goals cases s <;> first | rfl | contradiction
  · exact s.isWord_text inDirective rest hrest

end CSharpCheck
