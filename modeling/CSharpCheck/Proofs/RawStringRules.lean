import CSharpCheck.Proofs.Scanning.Literals

/-!
# Raw strings are accepted by their rules

Where a text goes on with three or more quotes, no fault is found in what they open exactly when it
is a raw string by the rules, on one line or over several, and then the token ends behind the
closing quotes and the suffix, if there is one.
-/

namespace CSharpCheck

variable {n : Nat} {text : List Char}

/-- Where a text goes on with just `n` quotes, no fault is found in what they open exactly when a
raw string by the rules is there, and then the token is that string with its suffix. Inside of
holes it is the same. -/
theorem raw_strings_by_rules (hn : 3 ≤ n) (hexact : text.head? ≠ some '"') :
    (∀ room, (scanGroup false room (quoteMarks n ++ text)).faults = [] ↔
      ∃ characters rest, characters ++ rest = quoteMarks n ++ text ∧
        IsRawString n characters rest) ∧
    (∀ characters rest, characters ++ rest = quoteMarks n ++ text →
      IsRawString n characters rest →
        ∀ room, ∃ p, (scanGroup false room (quoteMarks n ++ text)).pieces = [p] ∧
          p.kind = .stringLiteral ∧ p.start = 0 ∧
          p.length = characters.length + utf8SuffixLength rest) ∧
    ∀ s : TokenSource, s.finished = false → s.inDirective = false →
      s.cursor.rest = quoteMarks n ++ text →
        ∃ r, s.read = some r ∧
          (r.findings = [] ↔ ∃ characters rest, characters ++ rest = quoteMarks n ++ text ∧
            IsRawString n characters rest) ∧
          ∀ characters rest, characters ++ rest = quoteMarks n ++ text →
            IsRawString n characters rest →
              ∃ t, r.tokens = [t] ∧ t.kind = .stringLiteral ∧
                t.text = String.ofList (characters ++ rest.take (utf8SuffixLength rest)) ∧
                t.span = ⟨s.cursor.position,
                  s.cursor.positionAt (characters.length + utf8SuffixLength rest)⟩ := by
  have hpos : 0 < n := Nat.lt_of_lt_of_le (by decide) hn
  refine ⟨?_, ?_, ?_⟩
  · intro room
    rw [scanGroup_quoteMarks hn]
    exact rawString_faults_iff hpos hexact
  · intro characters rest htext hrules room
    rw [scanGroup_quoteMarks hn, hrules.rawString_eq hpos htext hexact]
    refine ⟨_, rfl, rfl, rfl, ?_⟩
    simp [Lexeme.piece, stringLexeme]
  · intro s hfinished hdirective htext
    obtain ⟨m, hm⟩ := Nat.exists_eq_add_of_le' hpos
    have hquote : s.cursor.rest = '"' :: (quoteMarks m ++ text) := by
      rw [htext, hm]
      rfl
    have hgap : gap false s.cursor.rest = [] := by
      rw [hquote, gap]
      rfl
    obtain ⟨r, hr, htokens, hfindings, -⟩ := TokenSource.read_of_gap_nil hfinished hdirective hgap
      (by rw [hquote]; rfl)
    rw [htext, scanGroup_quoteMarks hn] at htokens hfindings
    refine ⟨r, hr, ?_, ?_⟩
    · rw [hfindings, List.map_eq_nil_iff, upToGivingUp_eq_nil_iff]
      exact rawString_faults_iff hpos hexact
    · intro characters rest hcharacters hrules
      rw [hrules.rawString_eq hpos hcharacters hexact] at htokens
      refine ⟨_, htokens, rfl, ?_, ?_⟩
      · simp [Cursor.token, Lexeme.piece, stringLexeme, htext, ← hcharacters,
          List.take_length_add_append]
      · simp [Cursor.token, Lexeme.piece, stringLexeme, Cursor.positionAt, Position.after_zero]

theorem raw_strings_by_rules_block :
    let text := "\n  a\n  \"\"\" ;".toList
    3 ≤ 3 ∧ text.head? ≠ some '"' ∧
      ∃ r, (TokenSource.ofText (quoteMarks 3 ++ text)).read = some r ∧ r.findings = [] ∧
        ∃ t, r.tokens = [t] ∧ t.text = "\"\"\"\n  a\n  \"\"\"" := by
  have hexact : "\n  a\n  \"\"\" ;".toList.head? ≠ some '"' := by decide +kernel
  have hrules : IsRawString 3 (quoteMarks 3 ++ "\n  a\n".toList ++ "  ".toList ++ quoteMarks 3)
      " ;".toList := by
    have hjoined : Joined [[], "  a".toList] "\n  a\n".toList "  \"\"\" ;".toList :=
      .cons (by simp) (.single rfl (by decide +kernel))
        (.cons (by simp [isLineEnd]) (.single rfl (by decide +kernel)) .nil)
    refine .overLines (by simp) hjoined ?_ (by decide +kernel)
    constructor
    · decide +kernel
    · simp
    · intro line hline
      rw [List.mem_singleton.1 hline]
      exact .inr (by decide +kernel)
  refine ⟨Nat.le_refl 3, hexact, ?_⟩
  obtain ⟨-, -, hread⟩ := raw_strings_by_rules (n := 3) (Nat.le_refl 3) hexact
  obtain ⟨r, hr, hfindings, htokens⟩ := hread (.ofText _) rfl rfl rfl
  obtain ⟨t, ht, -, htext, -⟩ := htokens _ " ;".toList rfl hrules
  refine ⟨r, hr, hfindings.2 ⟨_, " ;".toList, rfl, hrules⟩, t, ht, ?_⟩
  rw [htext]
  decide +kernel

end CSharpCheck
