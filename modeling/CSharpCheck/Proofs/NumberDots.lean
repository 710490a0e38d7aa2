import CSharpCheck.Proofs.Literals

/-!
# Dots in numbers and in front of them

A dot belongs to a number if a decimal digit follows, and a question mark in front of it is then an
operator of its own. The scanner takes the end of the text for a digit, so a dot at the end of the
text is always part of a number.
-/

namespace CSharpCheck

variable {text front back : List Char}

/-! ### The dot of a number -/

namespace NumberParts

variable {cs whole fraction exponent suffix : List Char}

/-- The only dot of a number without prefix is that of its fraction. -/
theorem dot (h : NumberParts cs whole fraction exponent suffix) (hsuffix : '.' ∉ suffix)
    (heq : cs = front ++ '.' :: back) : ∃ ds, DigitGroup ds ∧ fraction = '.' :: ds ∧
      front = whole ∧ back = ds ++ (exponent ++ suffix) := by
  have hgroup {ds : List Char} (hds : DigitGroup ds) : '.' ∉ ds := fun hmem ↦
    absurd (hds '.' hmem) (by decide)
  have hexponent : '.' ∉ exponent := by
    rcases h.exponent with rfl | ⟨hc, hsign, hds⟩
    · exact List.not_mem_nil
    · simp only [List.mem_cons, List.mem_append, not_or]
      refine ⟨?_, ?_, hgroup hds⟩
      · rcases hc with rfl | rfl <;> decide
      · simp only [List.mem_cons, List.not_mem_nil, or_false] at hsign
        rcases hsign with rfl | rfl | rfl <;> decide
  have hbehind : '.' ∉ exponent ++ suffix := by
    rw [List.mem_append, not_or]
    exact ⟨hexponent, hsuffix⟩
  rw [h.eq] at heq
  rcases h.fraction with rfl | @⟨ds, hds⟩
  · have hmem : '.' ∈ whole ++ ([] ++ (exponent ++ suffix)) := by
      rw [heq]
      exact List.mem_append_right _ List.mem_cons_self
    rcases List.mem_append.1 hmem with hmem | hmem
    · exact absurd hmem (hgroup h.whole)
    · exact absurd hmem hbehind
  · have hds' : '.' ∉ ds ++ (exponent ++ suffix) := by
      rw [List.mem_append, not_or]
      exact ⟨hgroup hds, hbehind⟩
    rw [List.cons_append] at heq
    obtain ⟨rfl, -, rfl⟩ := (List.append_cons_inj_of_notMem (hgroup h.whole) hds').1 heq
    exact ⟨ds, hds, rfl, rfl, rfl⟩

end NumberParts

/-- The fraction of a number starts with a digit, or the text ends with its dot. -/
theorem fractionPart_dot {ds : List Char} (h : fractionPart text = '.' :: ds) :
    (∃ c cs, ds = c :: cs ∧ c.isDigit = true) ∨ text = ['.'] := by
  unfold fractionPart fraction? at h
  split at h
  · next cs =>
    split at h
    · next hfollows =>
      obtain rfl := (List.cons.inj h).2
      cases cs with
      | nil => exact .inr rfl
      | cons c cs =>
        have hc : c.isDigit = true := hfollows
        refine .inl ⟨c, digitGroup Char.isDigit cs, ?_, hc⟩
        exact List.takeWhile_cons_of_pos (by rw [hc]; rfl)
    · contradiction
  · contradiction

/-- A dot in a number is in front of a decimal digit, or the number and the text end with it. -/
theorem number_dot (hstarts : numberStarts text = true)
    (heq : text.take (number text).length = front ++ '.' :: back) :
    (∃ c cs, back = c :: cs ∧ c.isDigit = true) ∨
      back = [] ∧ text.length ≤ (number text).length := by
  rcases number_eq text with ⟨binary, c, cs, rfl, hc, hnumber⟩ | hnumber
  · rw [hnumber] at heq
    obtain ⟨digits, suffix, htake, hsuffix, hdigits, -⟩ := prefixedNumber_parts binary c cs
    have hmem : '.' ∈ '0' :: c :: (digits ++ suffix) := by
      rw [← htake, heq]
      exact List.mem_append_right _ List.mem_cons_self
    simp only [List.mem_cons, List.mem_append] at hmem
    rcases hmem with hmem | rfl | hmem | hmem
    · contradiction
    · cases binary <;> rcases hc with hc | hc <;> contradiction
    · exact absurd (hdigits '.' hmem) (by cases binary <;> decide)
    · exact absurd (startsSuffix_of_mem_suffix (.inl hsuffix) hmem) (by decide)
  · rw [hnumber] at heq ⊢
    obtain ⟨whole, fraction, exponent, suffix, hparts, hfraction, -, hsuffix, -⟩ :=
      decimalNumber_parts hstarts
    have hnone : '.' ∉ suffix := fun hmem ↦
      absurd (startsSuffix_of_mem_suffix (hsuffix.symm.imp_left And.right) hmem) (by decide)
    obtain ⟨ds, -, hds, rfl, rfl⟩ := hparts.dot hnone heq
    rcases fractionPart_dot (hfraction.symm.trans hds) with ⟨c, cs, rfl, hc⟩ | hend
    · exact .inl ⟨c, _, rfl, hc⟩
    · -- Behind the dot there is no text that the number could take.
      have hlength := congrArg List.length heq
      have hdrop := congrArg List.length hend
      simp only [List.length_take, List.length_append, List.length_cons, List.length_drop,
        List.length_nil] at hlength hdrop
      have hnil : (ds ++ (exponent ++ suffix)).length = 0 := by
        rw [List.length_append, List.length_append]
        omega
      exact .inr ⟨List.eq_nil_of_length_eq_zero hnil, by omega⟩

/-! ### The scan of a dot -/

/-- The single token of a symbol. -/
def Symbol.group (s : Symbol) : Group := (Lexeme.bare (.symbol s) s.text.length).toGroup

theorem symbolAt?_questionDot (cs : List Char) : symbolAt? ('?' :: '.' :: cs) =
    some (if digitFollows cs then .question else .questionDot) := by
  unfold symbolAt?
  simp only [List.drop_succ_cons, List.drop_zero]
  cases digitFollows cs <;> rfl

theorem symbolAt?_dot {c : Char} (hc : c ≠ '.') (cs : List Char) :
    symbolAt? ('.' :: c :: cs) = some .dot := by
  have hdots : Symbol.dotDot.text.toList.isPrefixOf ('.' :: c :: cs) = false := by
    show ('.' == '.' && ('.' == c && true)) = false
    simp [Ne.symm hc]
  have hsigns : ∀ s ∈ Symbol.triples ++ Symbol.pairs,
      s.text.toList.isPrefixOf ('.' :: c :: cs) = false := by
    intro s hs
    cases s <;> first | rfl | exact hdots | exact absurd hs (by decide)
  have htriples : Symbol.triples.find? (·.text.toList.isPrefixOf ('.' :: c :: cs)) = none :=
    List.find?_eq_none.2 fun s hs ↦ by simp [hsigns s (List.mem_append_left _ hs)]
  have hpairs (p : Symbol → Bool) :
      Symbol.pairs.find? (fun s ↦ s.text.toList.isPrefixOf ('.' :: c :: cs) && p s) = none :=
    List.find?_eq_none.2 fun s hs ↦ by simp [hsigns s (List.mem_append_right _ hs)]
  unfold symbolAt?
  dsimp only
  rw [htriples, hpairs]
  rfl

theorem scanGroup_of_symbol {c : Char} {cs : List Char} {s : Symbol} (hc : c ∈ ['.', '?'])
    (hnumber : numberStarts (c :: cs) = false) (hs : symbolAt? (c :: cs) = some s)
    (inDirective : Bool) (room : Nat) : scanGroup inDirective room (c :: cs) = s.group := by
  have hopening : opening? (c :: cs) = none := by
    rcases List.mem_pair.1 hc with rfl | rfl <;> simp [opening?, runLength]
  have hname : nameStarts (c :: cs) = false := by
    rcases List.mem_pair.1 hc with rfl | rfl
    · show startsName '.' = false
      decide +kernel
    · show startsName '?' = false
      decide +kernel
  rw [scanGroup, hopening]
  simp only [plainLexeme, hname, hnumber, hs]
  rcases List.mem_pair.1 hc with rfl | rfl <;> rfl

theorem scanGroup_lone_dot (inDirective : Bool) (room : Nat) : scanGroup inDirective room ['.'] =
    (numberLexeme 1 (some .invalidNumber) []).toGroup := by
  have hname : nameStarts ['.'] = false := by
    show startsName '.' = false
    decide +kernel
  rw [scanGroup, show opening? ['.'] = none by rfl]
  simp only [plainLexeme, hname]
  rfl

/-- A dot in a number is in front of a decimal digit of the number, or the number and the text end
with it. A question mark and a dot that something else than a digit follows are one operator, and a
dot that neither a digit nor a dot follows is a token of its own. At the end of the text a dot is a
number and a question mark in front of it an operator, as in front of a digit. -/
theorem dots_followed_by_digits {ts : List Token} {fs : List Finding} {s : TokenSource}
    (h : TokenSource.Collects text ts fs s) :
    (∀ t ∈ ts, t.kind = .numericLiteral → ∀ front back, t.text.toList = front ++ '.' :: back →
      (∃ c cs, back = c :: cs ∧ c.isDigit = true) ∨
        back = [] ∧ t.span.stop.offset = text.length) ∧
      ∀ (inDirective : Bool) (room : Nat),
        (∀ c cs, c.isDigit = false →
          scanGroup inDirective room ('?' :: '.' :: c :: cs) = Symbol.group .questionDot ∧
            (c ≠ '.' → scanGroup inDirective room ('.' :: c :: cs) = Symbol.group .dot)) ∧
          (∀ c cs, c.isDigit = true →
            scanGroup inDirective room ('?' :: '.' :: c :: cs) = Symbol.group .question) ∧
          scanGroup inDirective room ['?', '.'] = Symbol.group .question ∧
          scanGroup inDirective room ['.'] =
            (numberLexeme 1 (some .invalidNumber) []).toGroup := by
  constructor
  · intro t ht hkind front back heq
    obtain ⟨before, after, hts⟩ := List.append_of_mem ht
    obtain ⟨l, hl, -⟩ := h.exists_literal hts (by rw [hkind]; rfl)
    obtain ⟨hstarts, rfl⟩ := eq_number_of_isLiteral hl.literal (hl.kind ▸ hkind)
    have hin : t.span.In text := h.readsTo.spans_in t ht
    rw [hl.chars] at heq
    rcases number_dot hstarts heq with hdigit | ⟨hback, hlength⟩
    · exact .inl hdigit
    · refine .inr ⟨hback, ?_⟩
      have hstop := hin.stop.2
      rw [hl.stop] at hstop ⊢
      rw [List.length_drop] at hlength
      omega
  · intro inDirective room
    have scan_questionDot {cs : List Char} {s : Symbol}
        (hs : (if digitFollows cs then Symbol.question else .questionDot) = s) :
        scanGroup inDirective room ('?' :: '.' :: cs) = s.group :=
      scanGroup_of_symbol (by decide) rfl (by rw [symbolAt?_questionDot, hs]) inDirective room
    refine ⟨fun c cs hc ↦ ⟨?_, fun hdot ↦ ?_⟩, fun c cs hc ↦ ?_, ?_, ?_⟩
    · exact scan_questionDot (if_neg (by simpa [digitFollows] using hc))
    · have hnumber : numberStarts ('.' :: c :: cs) = false := hc
      exact scanGroup_of_symbol (by decide) hnumber (symbolAt?_dot hdot cs) inDirective room
    · exact scan_questionDot (if_pos hc)
    · exact scan_questionDot rfl
    · exact scanGroup_lone_dot inDirective room

theorem dots_followed_by_digits_last :
    let text := "x = 1.".toList
    (∃ t ∈ tokensOf text, t.text = "1." ∧ t.span.stop.offset = text.length) ∧
      scanGroup false 0 "?.a".toList = Symbol.group .questionDot := by
  intro text
  have htokens : tokensOf "x = 1.".toList =
      [⟨.identifier, "x", some "x", ⟨⟨1, 1, 0⟩, ⟨1, 2, 1⟩⟩, true, []⟩,
        ⟨.symbol .equals, "=", none, ⟨⟨1, 3, 2⟩, ⟨1, 4, 3⟩⟩, false, []⟩]
      ++ ⟨.numericLiteral, "1.", none, ⟨⟨1, 5, 4⟩, ⟨1, 7, 6⟩⟩, false, []⟩ ::
        [⟨.endOfFile, "", none, .point ⟨1, 7, 6⟩, false, []⟩] := by cbv
  obtain ⟨s, h⟩ := TokenSource.Collects.exists_ofText text
  obtain ⟨hdots, hscans⟩ := dots_followed_by_digits h
  have hmem := htokens ▸ List.mem_append_right _ List.mem_cons_self
  refine ⟨⟨_, hmem, rfl, ?_⟩, ((hscans false 0).1 'a' [] (by decide)).1⟩
  rcases hdots _ hmem rfl ['1'] [] rfl with ⟨c, cs, hcons, -⟩ | ⟨-, hstop⟩
  · contradiction
  · exact hstop

/-- The dot that ends a text is a number, and in front of a line end the same dot is none. -/
theorem dot_ends_text :
    ((tokensOf "a.".toList).map fun t ↦ (t.kind, t.text)) =
        [(.identifier, "a"), (.numericLiteral, "."), (.endOfFile, "")] ∧
      ((tokensOf "a.\n".toList).map fun t ↦ (t.kind, t.text)) =
        [(.identifier, "a"), (.symbol .dot, "."), (.endOfFile, "")] := by
  constructor <;> cbv

end CSharpCheck
