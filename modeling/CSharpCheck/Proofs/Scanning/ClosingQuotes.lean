import CSharpCheck.Proofs.Scanning.OneLine
import CSharpCheck.Proofs.Scanning.QuotedGrammar

/-!
# Where quoted literals of one line end

A regular string ends at the first quote that no backslash escapes, or with its line. A character
literal does the same, unless a backslash at the end of the line makes it go on in the next one.
-/

namespace CSharpCheck

variable {quote : Char} {text cs : List Char} {start : Nat}

/-- What becomes of a literal on its line. -/
inductive QuoteEnd where
  | /-- A quote closes it. -/ closed
  | /-- The line ends before it is closed. -/ unclosed
  | /-- The line ends before it is closed, with a backslash that nothing comes behind. -/ escaped
  deriving DecidableEq, Repr

/-- What becomes of a literal when the line goes on like this behind its opening quote. A backslash
takes the character behind it along. -/
def quoteEnd (quote : Char) : List Char → QuoteEnd
  | [] => .unclosed
  | ['\\'] => .escaped
  | '\\' :: _ :: cs => quoteEnd quote cs
  | c :: cs => if c == quote then .closed else quoteEnd quote cs

theorem quoteEnd_cons {c : Char} (hc : c ≠ '\\') (cs : List Char) :
    quoteEnd quote (c :: cs) = if c == quote then .closed else quoteEnd quote cs := by
  rw [quoteEnd]
  · exact fun h ↦ absurd h hc
  · exact fun _ _ h ↦ absurd h hc

/-! ### Escapes on a line -/

/-- Digits do not close a literal. -/
theorem quoteEnd_drop_digits (hquote : isHexDigit quote = false) {k : Nat}
    (hk : k ≤ (text.takeWhile isHexDigit).length) :
    quoteEnd quote (restOfLine text) = quoteEnd quote (restOfLine (text.drop k)) ∧
      (restOfLine text).length = k + (restOfLine (text.drop k)).length := by
  induction k generalizing text with
  | zero => exact ⟨rfl, (Nat.zero_add _).symm⟩
  | succ k ih =>
    cases text with
    | nil => contradiction
    | cons c cs =>
      rw [List.takeWhile_cons] at hk
      split at hk
      · next hc =>
        obtain ⟨hend, hlength⟩ := ih (Nat.le_of_succ_le_succ hk)
        have hbackslash : c ≠ '\\' := by
          rintro rfl
          contradiction
        have hne : (c == quote) = false := by
          refine beq_eq_false_iff_ne.2 ?_
          rintro rfl
          rw [hc] at hquote
          contradiction
        rw [restOfLine_cons (Core.not_isLineEnd_of_isHexDigit hc), quoteEnd_cons hbackslash, hne,
          if_neg Bool.false_ne_true, List.drop_succ_cons, List.length_cons, hend, hlength]
        exact ⟨rfl, by omega⟩
      · contradiction

/-- An escape takes a character along and the digits behind it that it can use. -/
theorem exists_length_escape {c : Char} (hc : isLineEnd c = false) (cs : List Char) :
    ∃ k ≤ (cs.takeWhile isHexDigit).length, (escape (c :: cs)).length = 2 + k := by
  have hnumeric {limit : Nat} {short : Bool} : ∃ k ≤ (cs.takeWhile isHexDigit).length,
      (Escape.numeric (min (cs.takeWhile isHexDigit).length limit) limit short).length = 2 + k :=
    ⟨_, Nat.min_le_left _ _, rfl⟩
  have hnone : ∃ k ≤ (cs.takeWhile isHexDigit).length, 2 = 2 + k := ⟨0, Nat.zero_le _, rfl⟩
  simp only [escape, List.drop_succ_cons, List.drop_zero]
  split
  · exact hnone
  · split
    · exact hnone
    · split
      · exact hnumeric
      · split
        · exact hnumeric
        · split
          · exact hnumeric
          · rw [if_neg (Bool.eq_false_iff.1 hc)]
            exact hnone

/-- An escape does not take a line end along. -/
theorem length_escape_of_lineEnd (h : text.head?.all isLineEnd = true) :
    (escape text).length = 1 := by
  cases text with
  | nil => rfl
  | cons c cs =>
    have hc : isLineEnd c = true := h
    have hletters : (['\'', '"', '\\', '0', 'a', 'b', 'f', 'n', 'r', 't', 'v', 'e', 'x', 'u',
        'U'].contains c) = false :=
      false_of_mem_partings (p := List.contains _) (by decide) (mem_partings_of_isLineEnd hc)
    simp only [List.contains_cons, List.contains_nil, Bool.or_eq_false_iff] at hletters
    simp only [escape, List.contains_cons, List.contains_nil, hletters, hc, Bool.or_false,
      Bool.false_eq_true, if_false, if_true]

/-- Behind an escape the line goes on, and what becomes of the literal is decided there. -/
theorem quoteEnd_escape (hquote : isHexDigit quote = false) {c : Char} (hc : isLineEnd c = false)
    (cs : List Char) :
    let rest := (c :: cs).drop ((escape (c :: cs)).length - 1)
    quoteEnd quote (restOfLine ('\\' :: c :: cs)) = quoteEnd quote (restOfLine rest) ∧
      (restOfLine ('\\' :: c :: cs)).length = (escape (c :: cs)).length + (restOfLine rest).length := by
  obtain ⟨k, hk, hlength⟩ := exists_length_escape hc cs
  obtain ⟨hend, hline⟩ := quoteEnd_drop_digits hquote hk
  have hdrop : (c :: cs).drop ((escape (c :: cs)).length - 1) = cs.drop k := by
    rw [hlength, show 2 + k - 1 = k + 1 by omega, List.drop_succ_cons]
  simp only [hdrop, restOfLine_cons (c := '\\') rfl, restOfLine_cons hc]
  refine ⟨hend, ?_⟩
  rw [List.length_cons, List.length_cons, hline, hlength]
  omega

/-! ### Regular strings -/

/-- The body of a regular string ends with its closing quote, or with its line. -/
theorem stringBody_line (start : Nat) (text : List Char) :
    ((stringBody start text).closed = true ↔ quoteEnd '"' (restOfLine text) = .closed) ∧
      (stringBody start text).stop ≤ start + (restOfLine text).length ∧
      ((stringBody start text).closed = false →
        (stringBody start text).stop = start + (restOfLine text).length) := by
  induction start, text using stringBody.induct with
  | case1 start =>
    rw [stringBody]
    exact ⟨iff_of_false Bool.false_ne_true (by decide), Nat.le_refl _, fun _ ↦ rfl⟩
  | case2 start c cs hline =>
    have hrest : restOfLine (c :: cs) = [] := restOfLine_of_lineEnd hline
    rw [stringBody, if_pos hline, hrest]
    exact ⟨iff_of_false Bool.false_ne_true (by decide), Nat.le_refl _, fun _ ↦ rfl⟩
  | case3 start c cs hline hquote =>
    obtain rfl := beq_iff_eq.1 hquote
    rw [stringBody, if_neg hline, if_pos hquote, restOfLine_cons (Bool.eq_false_iff.2 hline),
      quoteEnd_cons (by decide), List.length_cons]
    refine ⟨by simp, ?_, fun hopen ↦ absurd hopen.symm Bool.false_ne_true⟩
    show start + 1 ≤ _
    omega
  | case4 start c cs hline hquote hbackslash e ih =>
    obtain rfl := beq_iff_eq.1 hbackslash
    rw [stringBody, if_neg hline, if_neg hquote, if_pos hbackslash]
    change (((stringBody (start + e.length) (cs.drop (e.length - 1))).closed = true ↔ _) ∧
      (stringBody (start + e.length) (cs.drop (e.length - 1))).stop ≤ _ ∧
      ((stringBody (start + e.length) (cs.drop (e.length - 1))).closed = false →
        (stringBody (start + e.length) (cs.drop (e.length - 1))).stop = _))
    cases hend : cs.head?.all isLineEnd with
    | true =>
      have hlength : e.length = 1 := length_escape_of_lineEnd hend
      have hrest := restOfLine_of_lineEnd hend
      rw [hlength, Nat.sub_self, List.drop_zero, hrest] at ih
      rw [hlength, Nat.sub_self, List.drop_zero, restOfLine_cons rfl, hrest]
      exact ⟨ih.1.trans (by decide), ih.2.1, ih.2.2⟩
    | false =>
      cases cs with
      | nil => contradiction
      | cons d ds =>
        have hquote : isHexDigit '"' = false := by decide
        obtain ⟨hquoteEnd, hlength⟩ := quoteEnd_escape hquote hend ds
        rw [hquoteEnd, hlength, ← Nat.add_assoc]
        exact ih
  | case5 start c cs hline hquote hbackslash ih =>
    rw [stringBody, if_neg hline, if_neg hquote, if_neg hbackslash,
      restOfLine_cons (Bool.eq_false_iff.2 hline), quoteEnd_cons (by simpa using hbackslash),
      if_neg hquote, List.length_cons, Nat.add_comm (restOfLine cs).length, ← Nat.add_assoc]
    exact ih

theorem utf8SuffixLength_le_restOfLine (text : List Char) :
    utf8SuffixLength text ≤ (restOfLine text).length := by
  unfold utf8SuffixLength
  split
  · next c cs =>
    split
    · next hc =>
      have hline : isLineEnd c = false := by
        simp only [Bool.or_eq_true, beq_iff_eq] at hc
        rcases hc with rfl | rfl <;> decide
      rw [restOfLine_cons hline, restOfLine_cons (by decide)]
      simp
    · exact Nat.zero_le _
  · exact Nat.zero_le _

/-- A regular string stays on its line. If no quote closes it there, it ends with the line. -/
theorem regularString_line (cs : List Char) :
    (regularString ('"' :: cs)).length ≤ 1 + (restOfLine cs).length ∧
      (quoteEnd '"' (restOfLine cs) ≠ .closed →
        (regularString ('"' :: cs)).length = 1 + (restOfLine cs).length ∧
          ⟨.newlineInConstant, 0, 0⟩ ∈ (regularString ('"' :: cs)).faults) := by
  obtain ⟨hclosed, hle, hstop⟩ := stringBody_line 1 cs
  simp only [regularString, List.drop_succ_cons, List.drop_zero]
  split
  · next hbody =>
    have hline : (restOfLine ('"' :: cs)).length = 1 + (restOfLine cs).length := by
      rw [restOfLine_cons (by decide), List.length_cons, Nat.add_comm]
    refine ⟨?_, fun hne ↦ absurd (hclosed.1 hbody) hne⟩
    rw [← hline] at hle ⊢
    exact add_le_restOfLine hle (utf8SuffixLength_le_restOfLine _)
  · next hbody =>
    have heq := hstop (Bool.eq_false_iff.2 hbody)
    exact ⟨Nat.le_of_eq heq, fun _ ↦ ⟨heq, List.mem_append_right _ List.mem_cons_self⟩⟩

/-! ### Character literals -/

/-- A character literal with too much in it ends at its closing quote, or with its line, or it takes
the line end along. -/
theorem overlongLength_line (text : List Char) :
    (quoteEnd '\'' (restOfLine text) = .closed → overlongLength text < (restOfLine text).length ∧
        (text.drop (overlongLength text)).head? = some '\'') ∧
      (quoteEnd '\'' (restOfLine text) = .unclosed →
        overlongLength text = (restOfLine text).length) ∧
      (quoteEnd '\'' (restOfLine text) = .escaped →
        if restOfLine text = text then overlongLength text = (restOfLine text).length
        else (restOfLine text).length < overlongLength text) := by
  induction text using overlongLength.induct with
  | case1 =>
    exact ⟨fun hend ↦ (by cases hend), fun _ ↦ rfl, fun hend ↦ (by cases hend)⟩
  | case2 =>
    exact ⟨fun hend ↦ (by cases hend), fun hend ↦ (by cases hend), fun _ ↦ rfl⟩
  | case3 c cs ih =>
    rw [overlongLength, restOfLine_cons (c := '\\') rfl]
    cases hc : isLineEnd c with
    | true =>
      rw [restOfLine_lineEnd hc]
      refine ⟨fun hend ↦ (by cases hend), fun hend ↦ (by cases hend), fun _ ↦ ?_⟩
      rw [if_neg (by simp), List.length_singleton]
      omega
    | false =>
      rw [restOfLine_cons hc, quoteEnd, List.length_cons, List.length_cons]
      obtain ⟨hclosed, hunclosed, hescaped⟩ := ih
      refine ⟨fun hend ↦ ?_, fun hend ↦ ?_, fun hend ↦ ?_⟩
      · obtain ⟨hlt, hhead⟩ := hclosed hend
        refine ⟨by omega, ?_⟩
        rw [Nat.add_comm, List.drop_succ_cons, List.drop_succ_cons]
        exact hhead
      · rw [hunclosed hend]
        omega
      · simp only [List.cons.injEq, true_and]
        have hrest := hescaped hend
        split
        · next heq =>
          rw [if_pos heq] at hrest
          omega
        · next hne =>
          rw [if_neg hne] at hrest
          omega
  | case4 c cs hlast hpair hstop =>
    have hbackslash : c ≠ '\\' := by
      rintro rfl
      cases cs with
      | nil => exact hlast rfl rfl
      | cons d ds => exact hpair d ds rfl rfl
    rw [overlongLength, if_pos hstop]
    · cases hc : isLineEnd c with
      | true =>
        rw [restOfLine_lineEnd hc]
        exact ⟨fun hend ↦ (by cases hend), fun _ ↦ rfl, fun hend ↦ (by cases hend)⟩
      | false =>
        rw [hc, Bool.or_false] at hstop
        obtain rfl := beq_iff_eq.1 hstop
        rw [restOfLine_cons hc, quoteEnd_cons hbackslash]
        simp only [beq_self_eq_true, if_true]
        exact ⟨fun _ ↦ ⟨by simp, rfl⟩, fun hend ↦ (by cases hend), fun hend ↦ (by cases hend)⟩
    · exact hlast
    · exact hpair
  | case5 c cs hlast hpair hgo ih =>
    have hbackslash : c ≠ '\\' := by
      rintro rfl
      cases cs with
      | nil => exact hlast rfl rfl
      | cons d ds => exact hpair d ds rfl rfl
    obtain ⟨hquote, hc⟩ := Bool.or_eq_false_iff.1 (Bool.eq_false_iff.2 hgo)
    rw [overlongLength, if_neg hgo, restOfLine_cons hc, quoteEnd_cons hbackslash, hquote,
      if_neg Bool.false_ne_true, List.length_cons]
    · obtain ⟨hclosed, hunclosed, hescaped⟩ := ih
      refine ⟨fun hend ↦ ?_, fun hend ↦ ?_, fun hend ↦ ?_⟩
      · obtain ⟨hlt, hhead⟩ := hclosed hend
        refine ⟨by omega, ?_⟩
        rw [Nat.add_comm, List.drop_succ_cons]
        exact hhead
      · rw [hunclosed hend, Nat.add_comm]
      · simp only [List.cons.injEq, true_and]
        have hrest := hescaped hend
        split
        · next heq =>
          rw [if_pos heq] at hrest
          omega
        · next hne =>
          rw [if_neg hne] at hrest
          omega
    · exact hlast
    · exact hpair

theorem head?_ne_of_lineEnd {c : Char} (h : text.head?.all isLineEnd = true)
    (hc : isLineEnd c = false) : (text.head? == some c) = false := by
  refine beq_eq_false_iff_ne.2 fun hhead ↦ ?_
  rw [hhead, Option.all_some, hc] at h
  contradiction

/-- The length of a character literal that begins with the escape `e` in front of `rest`, and the
faults behind those of the escape. -/
def characterTail (e : Escape) (rest : List Char) : Nat × List Fault :=
  if rest.head? == some '\'' then (e.length + 2, [])
  else
    let stop := 1 + e.length + overlongLength rest
    if (rest.drop (overlongLength rest)).head? == some '\'' then
      (stop + 1, [⟨.tooManyCharacters, 0, stop + 1⟩])
    else (stop, [⟨.newlineInConstant, 0, 0⟩])

/-- A character literal at the end of a line is its opening quote. -/
theorem characterLiteral_of_lineEnd (h : cs.head?.all isLineEnd = true) :
    characterLiteral ('\'' :: cs) =
      ⟨.characterLiteral, 1, none, Feature.listed [], [⟨.newlineInConstant, 0, 0⟩]⟩ := by
  cases cs with
  | nil => rfl
  | cons c cs =>
    have hc : isLineEnd c = true := h
    have hquote : (c == '\'') = false := head?_ne_of_lineEnd h rfl
    simp [characterLiteral, hc, hquote]

/-- What a character literal begins with: an escape, or a character that stands for itself. -/
def leadEscape (c : Char) (cs : List Char) : Escape :=
  if c == '\\' then escape cs else ⟨1, true, false⟩

theorem length_leadEscape_pos (c : Char) (cs : List Char) : 0 < (leadEscape c cs).length := by
  unfold leadEscape
  split
  · exact length_escape_pos cs
  · exact Nat.one_pos

/-- Behind what a character literal begins with. -/
theorem drop_leadEscape (c : Char) (cs : List Char) :
    ('\'' :: c :: cs).drop (1 + (leadEscape c cs).length) =
      cs.drop ((leadEscape c cs).length - 1) := by
  have hpos := length_leadEscape_pos c cs
  rw [show 1 + (leadEscape c cs).length = (leadEscape c cs).length - 1 + 1 + 1 by omega,
    List.drop_succ_cons, List.drop_succ_cons]

/-- A character literal whose first character is there goes on behind it. -/
theorem characterLiteral_cons {c : Char} (hquote : c ≠ '\'') (hc : isLineEnd c = false)
    (cs : List Char) : characterLiteral ('\'' :: c :: cs) =
      let e := leadEscape c cs
      let tail := characterTail e (cs.drop (e.length - 1))
      ⟨.characterLiteral, tail.1, none, Feature.listed e.features, e.faults 1 ++ tail.2⟩ := by
  have hdrop := drop_leadEscape c cs
  simp only [characterLiteral, List.drop_succ_cons, List.drop_zero]
  rw [if_neg (by simpa using hquote), if_neg (Bool.eq_false_iff.1 hc)]
  rw [← leadEscape]
  generalize leadEscape c cs = e at hdrop ⊢
  rw [← List.drop_drop, hdrop, characterTail]
  split
  · rw [List.append_nil]
  · split <;> rfl

/-- Behind its first character a character literal ends at its closing quote, or with its line, or it
takes the line end along. -/
theorem characterTail_line (e : Escape) (rest : List Char) :
    (1 + (e.length + (restOfLine rest).length) < (characterTail e rest).1 ↔
        quoteEnd '\'' (restOfLine rest) = .escaped ∧ restOfLine rest ≠ rest) ∧
      (¬(quoteEnd '\'' (restOfLine rest) = .escaped ∧ restOfLine rest ≠ rest) →
        quoteEnd '\'' (restOfLine rest) ≠ .closed →
          (characterTail e rest).1 = 1 + (e.length + (restOfLine rest).length) ∧
            ⟨.newlineInConstant, 0, 0⟩ ∈ (characterTail e rest).2) := by
  obtain ⟨hclosed, hunclosed, hescaped⟩ := overlongLength_line rest
  -- behind the end of the line there is no quote
  have hopen (h : overlongLength rest = (restOfLine rest).length) :
      ((rest.drop (overlongLength rest)).head? == some '\'') = false := by
    rw [h]
    exact head?_ne_of_lineEnd (isLineEnd_head_drop_restOfLine rest) rfl
  unfold characterTail
  split
  · next hfirst =>
    obtain ⟨ds, rfl⟩ := List.head?_eq_some_iff.1 (beq_iff_eq.1 hfirst)
    rw [restOfLine_cons (by decide), quoteEnd_cons (by decide), List.length_cons]
    refine ⟨iff_of_false ?_ (by simp), by simp⟩
    show ¬_ < e.length + 2
    omega
  · cases hend : quoteEnd '\'' (restOfLine rest) with
    | closed =>
      obtain ⟨hlt, hhead⟩ := hclosed hend
      rw [hhead, if_pos (beq_self_eq_true _)]
      refine ⟨iff_of_false ?_ (by simp), fun _ hne ↦ absurd rfl hne⟩
      show ¬_ < 1 + e.length + overlongLength rest + 1
      omega
    | unclosed =>
      have heq := hunclosed hend
      rw [hopen heq, if_neg Bool.false_ne_true, heq, ← Nat.add_assoc]
      exact ⟨iff_of_false (Nat.lt_irrefl _) (by simp), fun _ _ ↦ ⟨rfl, List.mem_cons_self⟩⟩
    | escaped =>
      have htaken := hescaped hend
      split at htaken
      · next heq =>
        rw [hopen htaken, if_neg Bool.false_ne_true, htaken, ← Nat.add_assoc]
        exact ⟨iff_of_false (Nat.lt_irrefl _) (by simp [heq]),
          fun _ _ ↦ ⟨rfl, List.mem_cons_self⟩⟩
      · next hfollows =>
        refine ⟨iff_of_true ?_ ⟨rfl, hfollows⟩, fun hstays ↦ absurd ⟨rfl, hfollows⟩ hstays⟩
        split
        · show _ < 1 + e.length + overlongLength rest + 1
          omega
        · show _ < 1 + e.length + overlongLength rest
          omega

/-- What a character literal begins with goes on in the line, apart from a backslash at the end of
it. -/
theorem quoteEnd_leadEscape {c : Char} (hquote : c ≠ '\'') (hc : isLineEnd c = false)
    (cs : List Char) :
    let e := leadEscape c cs
    let rest := cs.drop (e.length - 1)
    (restOfLine (c :: cs) = ['\\'] ∧ e.length = 1 ∧ rest = cs ∧
        cs.head?.all isLineEnd = true) ∨
      (restOfLine (c :: cs) ≠ ['\\'] ∧
        quoteEnd '\'' (restOfLine (c :: cs)) = quoteEnd '\'' (restOfLine rest) ∧
        (restOfLine (c :: cs)).length = e.length + (restOfLine rest).length) := by
  by_cases hbackslash : c = '\\'
  · subst hbackslash
    simp only [leadEscape, beq_self_eq_true, if_true]
    cases hend : cs.head?.all isLineEnd with
    | true =>
      left
      rw [length_escape_of_lineEnd hend, restOfLine_cons hc, restOfLine_of_lineEnd hend]
      exact ⟨rfl, rfl, rfl, rfl⟩
    | false =>
      right
      cases cs with
      | nil => contradiction
      | cons d ds =>
        refine ⟨?_, quoteEnd_escape (by decide) hend ds⟩
        rw [restOfLine_cons hc, restOfLine_cons (c := d) hend]
        simp
  · right
    rw [leadEscape, if_neg (by simpa using hbackslash), Nat.sub_self, List.drop_zero,
      restOfLine_cons hc, quoteEnd_cons hbackslash, if_neg (by simpa using hquote),
      List.length_cons]
    exact ⟨fun heq ↦ hbackslash (List.cons.inj heq).1, rfl, Nat.add_comm _ _⟩

theorem restOfLine_eq_iff (text : List Char) :
    restOfLine text = text ↔ (restOfLine text).length = text.length :=
  ⟨congrArg List.length, (List.takeWhile_prefix _).eq_of_length⟩

/-- A backslash ends the line, not the first character behind the opening quote, and another line
follows. -/
def TakesLineEnd (behind : List Char) : Prop :=
  quoteEnd '\'' (restOfLine behind) = .escaped ∧ restOfLine behind ≠ ['\\'] ∧
    restOfLine behind ≠ behind

theorem not_takesLineEnd_of_lineEnd (h : text.head?.all isLineEnd = true) : ¬TakesLineEnd text := by
  rw [TakesLineEnd, restOfLine_of_lineEnd h]
  exact fun htakes ↦ nomatch htakes.1

/-- A character literal stays on its line unless it takes the line end along. If no quote closes it
on the line, it ends with the line. -/
theorem characterLiteral_line (cs : List Char) :
    (1 + (restOfLine cs).length < (characterLiteral ('\'' :: cs)).length ↔ TakesLineEnd cs) ∧
      (¬TakesLineEnd cs → quoteEnd '\'' (restOfLine cs) ≠ .closed →
        (characterLiteral ('\'' :: cs)).length = 1 + (restOfLine cs).length ∧
          ⟨.newlineInConstant, 0, 0⟩ ∈ (characterLiteral ('\'' :: cs)).faults) := by
  by_cases hend : cs.head?.all isLineEnd = true
  · rw [characterLiteral_of_lineEnd hend, restOfLine_of_lineEnd hend]
    exact ⟨iff_of_false (Nat.lt_irrefl 1) (not_takesLineEnd_of_lineEnd hend),
      fun _ _ ↦ ⟨rfl, List.mem_cons_self⟩⟩
  · cases cs with
    | nil => exact absurd rfl hend
    | cons c cs =>
      have hc : isLineEnd c = false := Bool.eq_false_iff.2 hend
      by_cases hquote : c = '\''
      · subst hquote
        rw [TakesLineEnd, restOfLine_cons hc, quoteEnd_cons (by decide), List.length_cons]
        refine ⟨iff_of_false ?_ (by simp), by simp⟩
        show ¬1 + _ < 2
        omega
      · have hlead := quoteEnd_leadEscape hquote hc cs
        have hpos := length_leadEscape_pos c cs
        rw [characterLiteral_cons hquote hc cs]
        simp only at hlead ⊢
        generalize leadEscape c cs = e at hlead hpos ⊢
        obtain ⟨htakes, hstays⟩ := characterTail_line e (cs.drop (e.length - 1))
        rcases hlead with ⟨hline, he, hcs, hnone⟩ | ⟨hne, hquoteEnd, hline⟩
        · rw [hcs, restOfLine_of_lineEnd hnone, he] at htakes hstays
          rw [TakesLineEnd, hline]
          refine ⟨iff_of_false ?_ (by simp), fun _ _ ↦ ?_⟩
          · rw [hcs]
            exact fun hlt ↦ nomatch (htakes.1 hlt).1
          · rw [hcs]
            exact (hstays nofun nofun).imp_right (List.mem_append_right _)
        · have hwhole : restOfLine (c :: cs) = c :: cs ↔
              restOfLine (cs.drop (e.length - 1)) = cs.drop (e.length - 1) := by
            have hle : (restOfLine (c :: cs)).length ≤ (c :: cs).length :=
              (List.takeWhile_prefix _).length_le
            rw [restOfLine_eq_iff, restOfLine_eq_iff, List.length_drop]
            rw [List.length_cons] at hle ⊢
            omega
          have hiff : TakesLineEnd (c :: cs) ↔
              quoteEnd '\'' (restOfLine (cs.drop (e.length - 1))) = .escaped ∧
                restOfLine (cs.drop (e.length - 1)) ≠ cs.drop (e.length - 1) := by
            rw [TakesLineEnd, hquoteEnd, Ne, Ne, hwhole]
            simp [hne]
          rw [hiff, hquoteEnd, hline]
          exact ⟨htakes, fun hnot hopen ↦ (hstays hnot hopen).imp_right (List.mem_append_right _)⟩

/-! ### Literals of one line -/

/-- The quote that closes a literal of the form. -/
def QuotedForm.closing : QuotedForm → Char
  | character => '\''
  | regular | verbatim => '"'

/-- A character literal or a regular string stays on its line, unless it is a character literal that
takes the line end along. If no quote closes it on the line, it ends with the line. -/
theorem QuotedForm.Starts.scan_line {form : QuotedForm} (hform : form ≠ .verbatim)
    (h : form.Starts text) :
    (restOfLine text).length = 1 + (restOfLine (text.drop 1)).length ∧
      ((restOfLine text).length < (form.scan text).length ↔
        form = .character ∧ TakesLineEnd (text.drop 1)) ∧
      (¬(form = .character ∧ TakesLineEnd (text.drop 1)) →
        quoteEnd form.closing (restOfLine (text.drop 1)) ≠ .closed →
          (form.scan text).length = (restOfLine text).length ∧
            ⟨.newlineInConstant, 0, 0⟩ ∈ (form.scan text).faults) := by
  cases form with
  | verbatim => exact absurd rfl hform
  | character =>
    obtain ⟨cs, rfl⟩ := List.head?_eq_some_iff.1 h
    obtain ⟨htakes, hstays⟩ := characterLiteral_line cs
    rw [restOfLine_cons (by decide), List.length_cons, Nat.add_comm _ 1]
    exact ⟨rfl, htakes.trans (and_iff_right rfl).symm,
      fun hnot ↦ hstays fun hline ↦ hnot ⟨rfl, hline⟩⟩
  | regular =>
    obtain ⟨cs, rfl⟩ := List.head?_eq_some_iff.1 h.1
    obtain ⟨hle, hopen⟩ := regularString_line cs
    rw [restOfLine_cons (by decide), List.length_cons, Nat.add_comm _ 1]
    exact ⟨rfl, iff_of_false (Nat.not_lt.2 hle) (by simp), fun _ ↦ hopen⟩

/-- Characters at the beginning of a text hold a line end if they are more than its first line. -/
theorem exists_isLineEnd_take_iff {n : Nat} (hn : n ≤ text.length) :
    (∃ c ∈ text.take n, isLineEnd c = true) ↔ (restOfLine text).length < n := by
  induction text generalizing n with
  | nil =>
    obtain rfl := Nat.le_zero.1 hn
    simp
  | cons c cs ih =>
    cases n with
    | zero => simp
    | succ n =>
      cases hc : isLineEnd c with
      | true =>
        rw [restOfLine_lineEnd hc]
        exact iff_of_true ⟨c, List.mem_cons_self, hc⟩ (Nat.succ_pos n)
      | false =>
        rw [restOfLine_cons hc, List.length_cons, Nat.add_lt_add_iff_right,
          ← ih (Nat.le_of_succ_le_succ hn)]
        simp [hc]

end CSharpCheck
