import CSharpCheck.Proofs.Core.Spelling
import CSharpCheck.Proofs.Scanning.LiteralFaults

/-!
# The grammar of quoted literals

Characters, regular strings and verbatim strings have their own scanners, two of which share the
reading of escapes. A scanner reports what is wrong and goes on. It finds no fault exactly in front
of the literals of the grammar, and of those it takes all characters.
-/

namespace CSharpCheck

open Core (IsEscape IsStringContent IsCharacterContent)

variable {text content rest cs : List Char} {start : Nat}

/-! ### The grammar -/

/-- The characters may stand between the quotes of a verbatim string. -/
inductive IsVerbatimContent : List Char → Prop where
  | nil : IsVerbatimContent []
  | char {c : Char} {cs : List Char} : c ≠ '"' → IsVerbatimContent cs → IsVerbatimContent (c :: cs)
  | quotes {cs : List Char} : IsVerbatimContent cs → IsVerbatimContent ('"' :: '"' :: cs)

/-- The forms of literals in quotes, raw strings apart. -/
inductive QuotedForm where
  | character
  | regular
  | verbatim
  deriving DecidableEq, Repr

namespace QuotedForm

/-- The class of tokens that literals of the form belong to. -/
def kind : QuotedForm → Kind
  | character => .characterLiteral
  | regular | verbatim => .stringLiteral

/-- A literal at the beginning of the text is one of the form, well-formed or not. -/
def Starts : QuotedForm → List Char → Prop
  | character, text => text.head? = some '\''
  | regular, text => text.head? = some '"' ∧ ['"', '"', '"'].isPrefixOf text = false
  | verbatim, text => ['@', '"'].isPrefixOf text = true

/-- The characters are a literal of the form when `rest` comes behind them. An escape by number takes
all the digits that it can. For the grammar that makes no difference, since the digit behind an
escape may stand for itself in a string, and may not follow it in a character literal. -/
inductive Accepts : QuotedForm → List Char → List Char → Prop where
  | character {content rest : List Char} : IsCharacterContent content →
      Accepts character ('\'' :: (content ++ ['\''])) rest
  | regular {content rest : List Char} : IsStringContent content →
      Accepts regular ('"' :: (content ++ ['"'])) rest
  | verbatim {content rest : List Char} : IsVerbatimContent content → rest.head? ≠ some '"' →
      Accepts verbatim ('@' :: '"' :: (content ++ ['"'])) rest

/-- The number of characters behind the closing quote that belong to a literal of the form. -/
def suffixLength : QuotedForm → List Char → Nat
  | character, _ => 0
  | regular, rest | verbatim, rest => utf8SuffixLength rest

end QuotedForm

/-! ### Escapes -/

theorem mem_take_takeWhile {p : Char → Bool} {n : Nat} (hn : n ≤ (text.takeWhile p).length) :
    (text.take n).length = n ∧ ∀ c ∈ text.take n, p c = true := by
  have hprefix : text.takeWhile p <+: text := List.takeWhile_prefix p
  have hlength := hprefix.length_le
  refine ⟨List.length_take_of_le (by omega), fun c hc ↦ ?_⟩
  have htake : text.take n = (text.takeWhile p).take n := by
    rw [List.prefix_iff_eq_take.1 hprefix, List.take_take, Nat.min_eq_left hn]
  rw [htake] at hc
  exact List.all_eq_true.1 List.all_takeWhile c (List.mem_of_mem_take hc)

/-- A legal escape is one of the grammar. -/
theorem exists_isEscape_of_legal (h : (escape text).legal = true) :
    ∃ e rest, text = e ++ rest ∧ IsEscape e ∧ (escape text).length = 1 + e.length := by
  cases text with
  | nil => contradiction
  | cons c cs =>
    have hdigits (limit : Nat) : min (cs.takeWhile isHexDigit).length limit ≤
      (cs.takeWhile isHexDigit).length := Nat.min_le_left _ _
    simp only [escape, List.drop_succ_cons, List.drop_zero] at h ⊢
    split at h
    · next hc =>
      rw [if_pos hc]
      refine ⟨[c], cs, rfl, .simple ?_, rfl⟩
      simp only [List.contains_eq_mem, decide_eq_true_eq, List.mem_cons, List.not_mem_nil,
        or_false] at hc ⊢
      grind
    · next hsimple =>
      rw [if_neg hsimple]
      split at h
      · next hc =>
        rw [if_pos hc]
        obtain rfl := beq_iff_eq.1 hc
        exact ⟨['e'], cs, rfl, .simple (by decide), rfl⟩
      · next he =>
        rw [if_neg he]
        split at h
        · next hc =>
          rw [if_pos hc]
          obtain rfl := beq_iff_eq.1 hc
          obtain ⟨hlength, hhex⟩ := mem_take_takeWhile (hdigits 4)
          have hpos : 0 < min (cs.takeWhile isHexDigit).length 4 := by
            simpa [Escape.numeric] using h
          have hle : min (cs.takeWhile isHexDigit).length 4 ≤ 4 := Nat.min_le_right _ _
          refine ⟨_, _, congrArg ('x' :: ·)
            (List.take_append_drop (min (cs.takeWhile isHexDigit).length 4) cs).symm,
            .hexadecimal (List.ne_nil_of_length_pos ?_) ?_ hhex, ?_⟩
          · rw [hlength]
            exact hpos
          · rw [hlength]
            exact hle
          · rw [List.length_cons, hlength]
            show 2 + min (cs.takeWhile isHexDigit).length 4 = _
            omega
        · next hx =>
          rw [if_neg hx]
          -- an escape with a fixed number of digits
          have hfixed {limit : Nat} (hlegal : (Escape.numeric
              (min (cs.takeWhile isHexDigit).length limit) limit false).legal = true) :
              (cs.take limit).length = limit ∧ (∀ d ∈ cs.take limit, isHexDigit d = true) ∧
                min (cs.takeWhile isHexDigit).length limit = limit := by
            obtain ⟨-, heq⟩ : 0 < min (cs.takeWhile isHexDigit).length limit ∧
                min (cs.takeWhile isHexDigit).length limit = limit := by
              simpa [Escape.numeric] using hlegal
            obtain ⟨hlength, hhex⟩ := mem_take_takeWhile (hdigits limit)
            rw [heq] at hlength hhex
            exact ⟨hlength, hhex, heq⟩
          split at h
          · next hc =>
            rw [if_pos hc]
            obtain rfl := beq_iff_eq.1 hc
            obtain ⟨hlength, hhex, heq⟩ := hfixed h
            refine ⟨_, _, congrArg ('u' :: ·) (List.take_append_drop 4 cs).symm,
              .short hlength hhex, ?_⟩
            rw [List.length_cons, hlength]
            exact congrArg (2 + ·) heq
          · next hu =>
            rw [if_neg hu]
            split at h
            · next hc =>
              rw [if_pos hc]
              obtain rfl := beq_iff_eq.1 hc
              obtain ⟨hlength, hhex, heq⟩ := hfixed h
              refine ⟨_, _, congrArg ('U' :: ·) (List.take_append_drop 8 cs).symm,
                .long hlength hhex, ?_⟩
              rw [List.length_cons, hlength]
              exact congrArg (2 + ·) heq
            · split at h <;> contradiction

theorem faults_eq_nil_iff_legal {e : Escape} {start : Nat} :
    e.faults start = [] ↔ e.legal = true := by
  unfold Escape.faults
  split
  · next h => simp [h]
  · next h => simp [h]

/-! ### Regular strings -/

/-- A body that is closed and has no fault is the content of a string in front of a quote. -/
theorem exists_content_of_stringBody (hclosed : (stringBody start text).closed = true)
    (hfaults : (stringBody start text).faults = []) :
    ∃ content rest, text = content ++ '"' :: rest ∧ IsStringContent content := by
  induction start, text using stringBody.induct with
  | case1 => 
    rw [stringBody] at hclosed
    contradiction
  | case2 start c cs hline =>
    rw [stringBody, if_pos hline] at hclosed
    contradiction
  | case3 start c cs hline hquote =>
    obtain rfl := beq_iff_eq.1 hquote
    exact ⟨[], cs, rfl, .nil⟩
  | case4 start c cs hline hquote hbackslash e ih =>
    obtain rfl := beq_iff_eq.1 hbackslash
    rw [stringBody, if_neg hline, if_neg hquote, if_pos hbackslash] at hclosed hfaults
    obtain ⟨hlegal, hrest⟩ := List.append_eq_nil_iff.1 hfaults
    obtain ⟨es, rest, rfl, hescape, hlength⟩ :=
      exists_isEscape_of_legal (faults_eq_nil_iff_legal.1 hlegal)
    obtain ⟨content, rest', heq, hcontent⟩ := ih hclosed hrest
    have hdrop : rest = content ++ '"' :: rest' := by
      rw [← heq]
      simp [e, hlength]
    exact ⟨'\\' :: es ++ content, rest', by simp [hdrop], .escape hescape hcontent⟩
  | case5 start c cs hline hquote hbackslash ih =>
    rw [stringBody, if_neg hline, if_neg hquote, if_neg hbackslash] at hclosed hfaults
    obtain ⟨content, rest, rfl, hcontent⟩ := ih hclosed hfaults
    exact ⟨c :: content, rest, rfl, .char (by simpa using hquote) (by simpa using hbackslash)
      (by simpa using hline) hcontent⟩

/-- A regular string without fault is one of the grammar. -/
theorem exists_content_of_regularString (h : (regularString ('"' :: text)).faults = []) :
    ∃ content rest, text = content ++ '"' :: rest ∧ IsStringContent content := by
  simp only [regularString, List.drop_succ_cons, List.drop_zero] at h
  split at h
  · next hclosed => exact exists_content_of_stringBody hclosed h
  · exact absurd h (by simp [openStringLexeme])

/-! ### Verbatim strings -/

/-- The content of a verbatim string is read up to its closing quote. -/
theorem IsVerbatimContent.verbatimBody_eq (h : IsVerbatimContent content)
    (hrest : rest.head? ≠ some '"') (start : Nat) :
    verbatimBody start (content ++ '"' :: rest) = ⟨start + content.length + 1, true, [], []⟩ := by
  induction h generalizing start with
  | nil =>
    rw [List.nil_append]
    unfold verbatimBody
    split
    · contradiction
    · next heq =>
      obtain rfl := (List.cons.inj heq).2
      exact absurd rfl hrest
    · rfl
    · next hquote heq => exact (hquote (List.cons.inj heq).1.symm).elim
  | @char c cs hc _ ih =>
    rw [List.cons_append, verbatimBody, ih, List.length_cons]
    · congr 1
      omega
    · rintro ds rfl
      exact absurd rfl hc
    · exact fun heq ↦ hc heq
  | @quotes cs _ ih =>
    rw [List.cons_append, List.cons_append, verbatimBody, ih, List.length_cons, List.length_cons]
    congr 1
    omega

/-- A verbatim string that is closed is one of the grammar. -/
theorem exists_content_of_verbatimBody (h : (verbatimBody start text).closed = true) :
    ∃ content rest, text = content ++ '"' :: rest ∧ IsVerbatimContent content ∧
      rest.head? ≠ some '"' := by
  induction start, text using verbatimBody.induct with
  | case1 => contradiction
  | case2 start cs ih =>
    rw [verbatimBody] at h
    obtain ⟨content, rest, rfl, hcontent, hrest⟩ := ih h
    exact ⟨'"' :: '"' :: content, rest, rfl, .quotes hcontent, hrest⟩
  | case3 start cs hsingle =>
    refine ⟨[], cs, rfl, .nil, fun hhead ↦ ?_⟩
    obtain ⟨ds, rfl⟩ := List.head?_eq_some_iff.1 hhead
    exact hsingle ds rfl
  | case4 start c cs _ hquote ih =>
    rw [verbatimBody] at h
    · obtain ⟨content, rest, rfl, hcontent, hrest⟩ := ih h
      exact ⟨c :: content, rest, rfl, .char hquote hcontent, hrest⟩
    · assumption
    · exact hquote

/-! ### Characters -/

/-- A character literal without fault is one of the grammar. -/
theorem exists_content_of_characterLiteral (h : (characterLiteral ('\'' :: text)).faults = []) :
    ∃ content rest, text = content ++ '\'' :: rest ∧ IsCharacterContent content := by
  cases text with
  | nil => contradiction
  | cons c cs =>
    simp only [characterLiteral, List.drop_succ_cons, List.drop_zero] at h
    split at h
    · contradiction
    · next hquote =>
      split at h
      · contradiction
      · next hline =>
        generalize he : (if c == '\\' then escape cs else ⟨1, true, false⟩ : Escape) = e at h
        split at h
        · next hclosed =>
          obtain ⟨rest, hrest⟩ := List.head?_eq_some_iff.1 (beq_iff_eq.1 hclosed)
          have hlegal := faults_eq_nil_iff_legal.1 h
          split at he
          · next hbackslash =>
            obtain rfl := beq_iff_eq.1 hbackslash
            obtain rfl := he
            obtain ⟨es, rest', rfl, hescape, hlength⟩ := exists_isEscape_of_legal hlegal
            refine ⟨'\\' :: es, rest, ?_, .escape hescape⟩
            rw [← hrest]
            simp [hlength]
          · next hbackslash =>
            obtain rfl := he
            refine ⟨[c], rest, ?_, .char (by simpa using hquote) (by simpa using hbackslash)
              (by simpa using hline)⟩
            rw [← hrest]
            rfl
        · split at h
          · exact absurd h (by simp)
          · exact absurd h (by simp)

/-! ### Literals -/

namespace QuotedForm

/-- The scanner of a form of literals. -/
def scan : QuotedForm → List Char → Lexeme
  | character => characterLiteral
  | regular => regularString
  | verbatim => verbatimString

/-- Where a literal starts, its first characters decide on the scanner. -/
theorem Starts.eq_scan {form : QuotedForm} {l : Lexeme} (h : form.Starts text)
    (hl : IsLiteral text l) : l = form.scan text := by
  cases form with
  | character =>
    obtain ⟨cs, rfl⟩ := List.head?_eq_some_iff.1 h
    cases hl with
    | number hnumber => contradiction
    | character => rfl
  | regular =>
    obtain ⟨hquote, hraw⟩ := h
    obtain ⟨cs, rfl⟩ := List.head?_eq_some_iff.1 hquote
    cases hl with
    | number hnumber => contradiction
    | rawString hprefix => exact absurd hprefix (Bool.eq_false_iff.1 hraw)
    | regularString => rfl
  | verbatim =>
    obtain ⟨cs, rfl⟩ := List.isPrefixOf_iff_prefix.1 h
    cases hl with
    | number hnumber => contradiction
    | verbatimString => rfl

/-- In front of a literal of the grammar the scanner takes it whole and finds no fault. -/
theorem Accepts.scan_eq {form : QuotedForm} (h : form.Accepts cs rest) :
    (form.scan (cs ++ rest)).length = cs.length + form.suffixLength rest ∧
      (form.scan (cs ++ rest)).faults = [] := by
  cases h with
  | @character content rest hcontent =>
    obtain ⟨features, -, heq⟩ := hcontent.characterLiteral_eq
    rw [List.cons_append, List.append_assoc]
    show (characterLiteral ('\'' :: (content ++ '\'' :: rest))).length = _ ∧
      (characterLiteral ('\'' :: (content ++ '\'' :: rest))).faults = []
    rw [heq]
    exact ⟨by simp [suffixLength], rfl⟩
  | @regular content rest hcontent =>
    obtain ⟨features, -, heq⟩ := hcontent.regularString_eq
    rw [List.cons_append, List.append_assoc]
    show (regularString ('"' :: (content ++ '"' :: rest))).length = _ ∧
      (regularString ('"' :: (content ++ '"' :: rest))).faults = []
    rw [heq]
    exact ⟨by simp [suffixLength], rfl⟩
  | @verbatim content rest hcontent hrest =>
    have hbody := hcontent.verbatimBody_eq hrest 2
    rw [List.cons_append, List.cons_append, List.append_assoc]
    have hdrop : ('@' :: '"' :: (content ++ '"' :: rest)).drop (2 + content.length + 1) = rest := by
      rw [show 2 + content.length + 1 = content.length + 1 + 1 + 1 by omega, List.drop_succ_cons,
        List.drop_succ_cons, List.drop_length_add_append]
      rfl
    have heq : verbatimString ('@' :: '"' :: (content ++ '"' :: rest)) =
        stringLexeme ('@' :: '"' :: (content ++ '"' :: rest)) (2 + content.length + 1) [] [] := by
      simp only [verbatimString, List.drop_succ_cons, List.drop_zero, hbody, if_true]
    show (verbatimString ('@' :: '"' :: (content ++ '"' :: rest))).length = _ ∧
      (verbatimString ('@' :: '"' :: (content ++ '"' :: rest))).faults = []
    rw [heq, stringLexeme, hdrop]
    refine ⟨?_, rfl⟩
    simp only [suffixLength, List.length_cons, List.length_append, List.length_nil]
    omega

/-- Without fault the scanner has met a literal of the grammar. -/
theorem Starts.exists_accepts {form : QuotedForm} (h : form.Starts text)
    (hfaults : (form.scan text).faults = []) :
    ∃ cs rest, text = cs ++ rest ∧ form.Accepts cs rest := by
  cases form with
  | character =>
    obtain ⟨cs, rfl⟩ := List.head?_eq_some_iff.1 h
    obtain ⟨content, rest, rfl, hcontent⟩ := exists_content_of_characterLiteral hfaults
    exact ⟨_, rest, by simp, .character hcontent⟩
  | regular =>
    obtain ⟨cs, rfl⟩ := List.head?_eq_some_iff.1 h.1
    obtain ⟨content, rest, rfl, hcontent⟩ := exists_content_of_regularString hfaults
    exact ⟨_, rest, by simp, .regular hcontent⟩
  | verbatim =>
    obtain ⟨cs, rfl⟩ := List.isPrefixOf_iff_prefix.1 h
    have hclosed : (verbatimBody 2 cs).closed = true := by
      simp only [scan, verbatimString, List.cons_append, List.nil_append, List.drop_succ_cons,
        List.drop_zero] at hfaults
      split at hfaults
      · assumption
      · contradiction
    obtain ⟨content, rest, rfl, hcontent, hrest⟩ := exists_content_of_verbatimBody hclosed
    exact ⟨_, rest, by simp, .verbatim hcontent hrest⟩

end QuotedForm

end CSharpCheck
