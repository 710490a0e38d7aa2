import CSharpCheck.Proofs.Scanning.ClosingQuotes
import CSharpCheck.Proofs.Scanning.Collecting
import CSharpCheck.Proofs.Scanning.NumberGrammar

/-!
# Literals are accepted by their grammar

Wherever a number, a character or a string without holes is read, on its own or in a hole, nothing is
found in it exactly when the grammar has it, and then the token is what the grammar says. A malformed
character or regular string ends with its line, but for one case.
-/

namespace CSharpCheck

variable {text : List Char} {ts before after : List Token} {t : Token} {fs : List Finding}
  {s : TokenSource}

theorem Token.span_eq (hin : t.span.In text) {n : Nat}
    (hstop : t.span.stop.offset = t.span.start.offset + n) :
    t.span = ⟨Position.first.after text t.span.start.offset,
      Position.first.after text (t.span.start.offset + n)⟩ := by
  rw [← hstop, ← hin.start.1, ← hin.stop.1]

/-! ### Numbers -/

theorem eq_number_of_isLiteral {l : Lexeme} (h : IsLiteral text l) (hkind : l.kind = .numericLiteral) :
    numberStarts text = true ∧ l = number text := by
  have hquoted : l.kind.endsQuoted ≠ true := by
    rw [hkind]
    exact Bool.false_ne_true
  cases h with
  | number hstarts => exact ⟨hstarts, rfl⟩
  | verbatimString => exact absurd (endsQuoted_verbatimString _) hquoted
  | rawString => exact absurd (endsQuoted_rawString _) hquoted
  | regularString => exact absurd (endsQuoted_regularString _) hquoted
  | character => exact absurd (endsQuoted_characterLiteral _) hquoted

/-- Nothing is found in a number outside of directives if and only if the grammar has its characters.
Otherwise one thing is found, about all of it. A number has the features that its characters call
for. -/
theorem numbers_by_grammar (h : TokenSource.Collects text ts fs s) (hts : ts = before ++ t :: after)
    (hout : OutsideDirectives before) (hkind : t.kind = .numericLiteral) :
    (t.found fs = [] ↔ IsNumber t.text.toList) ∧
      (t.found fs ≠ [] → ∃ e : LexicalError, (e.code = "CS1013" ∨ e.code = "CS0595") ∧
        t.found fs = [⟨.lexical e, t.span⟩]) ∧
      NumberFeatures t.text.toList t.features := by
  obtain ⟨l, hl, hfound⟩ := h.exists_literal hts (by rw [hkind]; rfl)
  obtain ⟨hstarts, rfl⟩ := eq_number_of_isLiteral hl.literal (hl.kind ▸ hkind)
  have hin : t.span.In text := h.readsTo.spans_in t (by simp [hts])
  rw [hl.chars, hl.features, hfound hout, List.map_eq_nil_iff]
  refine ⟨number_faults_iff hstarts, fun hne ↦ ?_, number_features hstarts⟩
  rcases faults_number (text.drop t.span.start.offset) with hnone | ⟨e, he, hfaults⟩
  · exact absurd (by rw [hnone]; rfl) hne
  · refine ⟨e, he.imp (by rintro rfl; rfl) (by rintro rfl; rfl), ?_⟩
    rw [hfaults]
    exact congrArg (fun span ↦ [(⟨.lexical e, span⟩ : Finding)]) (Token.span_eq hin hl.stop).symm

theorem numbers_by_grammar_binary :
    let text := "x = 0b_1u;".toList
    ∃ t ∈ tokensOf text, t.text = "0b_1u" ∧ t.found (tokenFindings text) = [] ∧
      .binaryLiterals ∈ t.features ∧ .leadingDigitSeparator ∈ t.features := by
  intro text
  have htokens : tokensOf "x = 0b_1u;".toList =
      [⟨.identifier, "x", some "x", ⟨⟨1, 1, 0⟩, ⟨1, 2, 1⟩⟩, true, []⟩,
        ⟨.symbol .equals, "=", none, ⟨⟨1, 3, 2⟩, ⟨1, 4, 3⟩⟩, false, []⟩]
      ++ ⟨.numericLiteral, "0b_1u", none, ⟨⟨1, 5, 4⟩, ⟨1, 10, 9⟩⟩, false,
          [.binaryLiterals, .digitSeparators, .leadingDigitSeparator]⟩ ::
        [⟨.symbol .semicolon, ";", none, ⟨⟨1, 10, 9⟩, ⟨1, 11, 10⟩⟩, false, []⟩,
          ⟨.endOfFile, "", none, .point ⟨1, 11, 10⟩, false, []⟩] := by cbv
  obtain ⟨s, h⟩ := TokenSource.Collects.exists_ofText text
  obtain ⟨haccepted, -, hfeatures⟩ := numbers_by_grammar h htokens (by decide) rfl
  have hnumber : IsNumber ('0' :: 'b' :: (['_', '1'] ++ ['u'])) :=
    .binary (.inl rfl) ⟨List.all_eq_true.1 (by decide), rfl⟩
      (List.mem_cons_of_mem _ List.mem_cons_self)
  refine ⟨_, htokens ▸ List.mem_append_right _ List.mem_cons_self, rfl, haccepted.2 hnumber,
    hfeatures.binary.2 ?_, hfeatures.leading.2 ?_⟩
  · exact ⟨'b', ['_', '1', 'u'], rfl, .inl rfl⟩
  · exact ⟨'b', ['1', 'u'], rfl, by decide⟩

/-! ### Quoted literals -/

/-- In front of a quoted literal of the grammar the token is that literal, with its suffix, and
nothing is found in it outside of directives. Where the grammar has none, something is found. -/
theorem quoted_literals_by_grammar {form : QuotedForm} (h : TokenSource.Collects text ts fs s)
    (hts : ts = before ++ t :: after) (hout : OutsideDirectives before)
    (hkind : t.kind = form.kind) (hstarts : form.Starts (text.drop t.span.start.offset)) :
    (∀ cs rest, text.drop t.span.start.offset = cs ++ rest → form.Accepts cs rest →
        t.text.toList = cs ++ rest.take (form.suffixLength rest) ∧ t.found fs = []) ∧
      ((∀ cs rest, text.drop t.span.start.offset = cs ++ rest → ¬form.Accepts cs rest) →
        ∃ x ∈ t.found fs, ∃ e, x.cause = .lexical e) := by
  obtain ⟨l, hl, hfound⟩ := h.exists_literal hts (by rw [hkind]; cases form <;> rfl)
  obtain rfl := hstarts.eq_scan hl.literal
  rw [hl.chars, hfound hout]
  constructor
  · intro cs rest heq haccepts
    obtain ⟨hlength, hfaults⟩ := haccepts.scan_eq
    rw [heq, hlength, hfaults, List.take_length_add_append]
    exact ⟨rfl, rfl⟩
  · intro hnone
    obtain ⟨f, fs', hfaults⟩ : ∃ f fs',
        (form.scan (text.drop t.span.start.offset)).faults = f :: fs' := by
      refine List.exists_cons_of_ne_nil fun hnil ↦ ?_
      obtain ⟨cs, rest, heq, haccepts⟩ := hstarts.exists_accepts hnil
      exact hnone cs rest heq haccepts
    rw [hfaults]
    exact ⟨_, List.mem_cons_self, f.error, rfl⟩

theorem quoted_literals_by_grammar_suffixed :
    let text := "x = \"\\x41-\"u8;".toList
    ∃ t ∈ tokensOf text, t.text = "\"\\x41-\"u8" ∧ t.found (tokenFindings text) = [] := by
  intro text
  have htokens : tokensOf "x = \"\\x41-\"u8;".toList =
      [⟨.identifier, "x", some "x", ⟨⟨1, 1, 0⟩, ⟨1, 2, 1⟩⟩, true, []⟩,
        ⟨.symbol .equals, "=", none, ⟨⟨1, 3, 2⟩, ⟨1, 4, 3⟩⟩, false, []⟩]
      ++ ⟨.stringLiteral, "\"\\x41-\"u8", none, ⟨⟨1, 5, 4⟩, ⟨1, 14, 13⟩⟩, false,
          [.utf8StringLiterals]⟩ ::
        [⟨.symbol .semicolon, ";", none, ⟨⟨1, 14, 13⟩, ⟨1, 15, 14⟩⟩, false, []⟩,
          ⟨.endOfFile, "", none, .point ⟨1, 15, 14⟩, false, []⟩] := by cbv
  have hkind : Kind.stringLiteral = QuotedForm.regular.kind := rfl
  have hescape : Core.IsEscape ['x', '4', '1'] :=
    .hexadecimal (by decide) (by decide) (List.all_eq_true.1 (by decide))
  have hlast : Core.IsStringContent ['-'] := .char (by decide) (by decide) rfl .nil
  have hcontent : Core.IsStringContent "\\x41-".toList := .escape hescape hlast
  obtain ⟨s, h⟩ := TokenSource.Collects.exists_ofText text
  obtain ⟨haccepted, -⟩ := quoted_literals_by_grammar h htokens (by decide) hkind ⟨rfl, rfl⟩
  obtain ⟨-, hfound⟩ := haccepted "\"\\x41-\"".toList "u8;".toList rfl (.regular hcontent)
  exact ⟨_, htokens ▸ List.mem_append_right _ List.mem_cons_self, rfl, hfound⟩

/-! ### Literals of one line -/

/-- A character literal or a regular string holds a line end only if it is a character literal that a
backslash at the end of the line makes go on. Any other that no quote closes on its line ends with
the line, and a newline in a constant is found outside of directives. -/
theorem quoted_literals_on_line {form : QuotedForm} (h : TokenSource.Collects text ts fs s)
    (hts : ts = before ++ t :: after) (hform : form ≠ .verbatim) (hkind : t.kind = form.kind)
    (hstarts : form.Starts (text.drop t.span.start.offset)) :
    let behind := text.drop (t.span.start.offset + 1)
    ((∃ c ∈ t.text.toList, isLineEnd c = true) ↔ form = .character ∧ TakesLineEnd behind) ∧
      (¬(form = .character ∧ TakesLineEnd behind) →
        quoteEnd form.closing (restOfLine behind) ≠ .closed →
          t.span.stop.offset = t.span.start.offset + 1 + (restOfLine behind).length ∧
            (OutsideDirectives before →
              ⟨.lexical .newlineInConstant, .point t.span.start⟩ ∈ fs)) := by
  obtain ⟨l, hl, hfound⟩ := h.exists_literal hts (by rw [hkind]; cases form <;> rfl)
  obtain rfl := hstarts.eq_scan hl.literal
  have hin : t.span.In text := h.readsTo.spans_in t (by simp [hts])
  obtain ⟨hline, htakes, hstays⟩ := hstarts.scan_line hform
  simp only [List.drop_drop] at hline htakes hstays
  have hlength : (form.scan (text.drop t.span.start.offset)).length ≤
      (text.drop t.span.start.offset).length := by
    have hle := hin.stop.2
    rw [hl.stop] at hle
    rw [List.length_drop]
    omega
  refine ⟨?_, fun hnot hopen ↦ ?_⟩
  · rw [hl.chars, exists_isLineEnd_take_iff hlength, htakes]
  · obtain ⟨hstop, hmem⟩ := hstays hnot hopen
    refine ⟨by rw [hl.stop, hstop, hline, Nat.add_assoc], fun hout ↦ ?_⟩
    have hfinding : Fault.findingIn text t.span.start.offset ⟨.newlineInConstant, 0, 0⟩ =
        ⟨.lexical .newlineInConstant, .point t.span.start⟩ := by
      rw [Fault.findingIn, Nat.add_zero, ← hin.start.1]
      rfl
    have hmem' := List.mem_map_of_mem (f := Fault.findingIn text t.span.start.offset) hmem
    rw [← hfound hout, hfinding] at hmem'
    exact (List.mem_filter.1 hmem').1

theorem quoted_literals_on_line_unclosed :
    let text := "'ab\n;".toList
    ∃ t ∈ tokensOf text, t.kind = .characterLiteral ∧ t.span.stop.offset = 3 ∧
      ⟨.lexical .newlineInConstant, .point t.span.start⟩ ∈ tokenFindings text := by
  intro text
  have htokens : tokensOf "'ab\n;".toList = []
      ++ ⟨.characterLiteral, "'ab", none, ⟨⟨1, 1, 0⟩, ⟨1, 4, 3⟩⟩, true, []⟩ ::
        [⟨.symbol .semicolon, ";", none, ⟨⟨2, 1, 4⟩, ⟨2, 2, 5⟩⟩, true, []⟩,
          ⟨.endOfFile, "", none, .point ⟨2, 2, 5⟩, false, []⟩] := by cbv
  have hkind : Kind.characterLiteral = QuotedForm.character.kind := rfl
  have hend : quoteEnd '\'' (restOfLine ("'ab\n;".toList.drop 1)) = .unclosed := by decide
  obtain ⟨s, h⟩ := TokenSource.Collects.exists_ofText text
  obtain ⟨-, hstays⟩ := quoted_literals_on_line h htokens (by decide) hkind rfl
  obtain ⟨hstop, hfound⟩ := hstays (fun htakes ↦ absurd (hend.symm.trans htakes.2.1) (by decide))
    (fun hclosed ↦ absurd (hend.symm.trans hclosed) (by decide))
  exact ⟨_, htokens ▸ List.mem_append_right _ List.mem_cons_self, rfl, hstop, hfound rfl⟩

/-- A character literal that a backslash at the end of its line makes go on holds the line end. -/
theorem character_literal_takes_lineEnd : ∃ t ∈ tokensOf "'ab\\\n; \x7d".toList,
    t.kind = .characterLiteral ∧ ∃ c ∈ t.text.toList, isLineEnd c = true := by
  have htokens : tokensOf "'ab\\\n; \x7d".toList =
      [⟨.characterLiteral, "'ab\\\n; \x7d", none, ⟨⟨1, 1, 0⟩, ⟨2, 4, 8⟩⟩, true, []⟩,
        ⟨.endOfFile, "", none, .point ⟨2, 4, 8⟩, false, []⟩] := by cbv
  refine ⟨_, htokens ▸ List.mem_cons_self, rfl, '\n', ?_, rfl⟩
  decide

end CSharpCheck
