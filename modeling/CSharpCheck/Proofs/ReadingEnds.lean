import CSharpCheck.Proofs.Reading.CompilationUnits
import CSharpCheck.Validation

/-!
# Every reading ends at the end of the text

Read step by step, without bounds for loops and jumps, a text of any tokens is read to its end. On
the way the place in the text never goes back, nor beyond the end, and all levels of nesting are
left. No gate takes part in the reading.
-/

namespace CSharpCheck

namespace Moment

variable {β : Type} {rules : Rules} {m n last : Moment β}

/-! ### What every step preserves -/

/-- The text is the given one, and the levels of nesting that are counted are those that are still
to be left. -/
structure Sound (stream : TokenStream) (m : Moment β) : Prop where
  stream_eq : m.around.stream = stream
  depth_eq : m.depth = m.rest.levels

variable {stream : TokenStream}

theorem Sound.step (hm : m.Sound stream) (h : Next rules m n) : n.Sound stream := by
  obtain ⟨r, k, around, p, depth⟩ := m
  obtain ⟨hstream, hdepth⟩ := hm
  rw [Next] at h
  cases r with
  | pure result =>
    cases k with
    | done => contradiction
    | resume next rest => cases h; exact ⟨hstream, hdepth⟩
    | leave rest =>
      cases h
      refine ⟨hstream, ?_⟩
      replace hdepth : depth = rest.levels + 1 := hdepth
      rw [hdepth, Nat.add_sub_cancel]
    | repeating round next rest =>
      cases result with
      | again state => cases h; exact ⟨hstream, hdepth⟩
      | stop state => cases h; exact ⟨hstream, hdepth⟩
    | outside next rest => cases h; exact ⟨hstream, hdepth⟩
  | call q next =>
    rw [Moment.step] at h
    split at h
    · cases h
      exact ⟨hstream, hdepth⟩
    · split at h
      · cases h
        exact ⟨hstream, congrArg (· + 1) hdepth⟩
      · cases h
        exact ⟨hstream, congrArg (· + 1) hdepth⟩
  | look | script | enclosing | advance | require | report | loop | within =>
    cases h
    exact ⟨hstream, hdepth⟩

theorem Sound.reaches (hm : m.Sound stream) (h : Reaches rules m n) : n.Sound stream := by
  induction h with
  | refl => exact hm
  | tail _ hstep ih => exact ih.step hstep

/-! ### The way to the end -/

theorem next_rightUnique : Relator.RightUnique (Next rules : Moment β → Moment β → Prop) :=
  fun _ _ _ h h' ↦ Option.some.inj (h.symm.trans h')

theorem Proceeds.reaches (h : Proceeds rules m n) : Reaches rules m n := by
  induction h with
  | refl => exact Relation.ReflTransGen.refl
  | tail _ hstep ih => exact ih.tail hstep.next

theorem Proceeds.within (h : Proceeds rules m n)
    (hm : m.progress.index ≤ m.around.stream.tokens.size) :
    n.progress.index ≤ n.around.stream.tokens.size := by
  cases h with
  | refl => exact hm
  | tail _ hstep => exact hstep.within

/-- A reading that proceeds to its last moment has no other way: whatever it reaches lies on this
one. -/
theorem Proceeds.through (h : Proceeds rules m last) (hlast : last.step rules = none)
    (hn : Reaches rules m n) : Proceeds rules m n ∧ Proceeds rules n last := by
  induction hn with
  | refl => exact ⟨.refl m, h⟩
  | tail _ hstep ih =>
    obtain ⟨hmn, hrest⟩ := ih
    rcases Relation.ReflTransGen.cases_head hrest with rfl | ⟨o, hforward, hrest'⟩
    · rw [Next, hlast] at hstep
      contradiction
    · have heq := next_rightUnique hforward.next hstep
      rw [heq] at hforward hrest'
      exact ⟨Relation.ReflTransGen.tail hmn hforward, hrest'⟩

/-- Where a reading proceeds to its last moment, its next step goes forward. -/
theorem Proceeds.forward_of_next (h : Proceeds rules m last) (hlast : last.step rules = none)
    (hn : Next rules m n) : Forward rules m n := by
  rcases Relation.ReflTransGen.cases_head h with rfl | ⟨o, hforward, -⟩
  · rw [Next, hlast] at hn
    contradiction
  · have heq : o = n := next_rightUnique hforward.next hn
    exact heq ▸ hforward

/-- The first moment of the reading of a text. -/
def start (stream : TokenStream) (script : Bool) : Moment Unit :=
  ⟨Rule.unitElements false, .done, ⟨stream, script, []⟩, .start stream, 0⟩

end Moment

/-- Whatever the text, its reading proceeds to a last moment. -/
theorem exists_last (stream : TokenStream) (script : Bool) : ∃ last : Moment Unit,
    (Moment.start stream script).Proceeds grammarRules last ∧ last.step grammarRules = none ∧
      last.depth = 0 ∧ last.progress = readUnit stream script ∧
      last.progress.index = stream.tokens.size := by
  have hstart : Spot.Describes ⟨0, stream.tokens.toList, none, none⟩ stream True
      (.start stream) := by
    refine ⟨rfl, rfl, Nat.zero_le _, rfl, fun b hb ↦ ?_, fun w hw ↦ ?_, fun _ ↦ .inl trivial⟩
    · contradiction
    · contradiction
  have hholds : Spot.Holds ⟨0, stream.tokens.toList, none, none⟩ [] := by
    intro b hb
    contradiction
  obtain ⟨⟨t, ht, -, hahead⟩, hsteps⟩ :=
    Rule.Ensures.meets grammarRules_keep (r := Rule.unitElements false)
      (show Surroundings.stream ⟨stream, script, []⟩ = stream from rfl) hstart
      (Rule.ensures_unitElements false hholds)
  replace ht : t.Describes stream True (readUnit stream script) := ht
  refine ⟨_, hsteps Unit .done 0 (Nat.zero_add maxNesting), rfl, rfl, rfl, ?_⟩
  have hlength := ht.length_ahead
  have hle := ht.index_le
  rw [hahead rfl, List.length_nil] at hlength
  exact ht.index.trans (by omega)

/-- The stream of tokens that only the last one ends. -/
theorem TokenStream.ofTokens?_append (body : List Token) {eof : Token}
    (heof : eof.kind = .endOfFile) :
    ofTokens? (body ++ [eof]) = some ⟨(body.filter (·.kind != .bad)).toArray, eof⟩ := by
  have hfilter : (body ++ [eof]).filter (·.kind != .bad) =
      body.filter (·.kind != .bad) ++ [eof] := by
    rw [List.filter_append]
    simp [heof]
  simp [ofTokens?, hfilter, heof]

/-- The end of the text comes where it has to, if no other token ends it. -/
theorem TokenStream.kind_token_eq_endOfFile {stream : TokenStream}
    (heof : stream.eof.kind = .endOfFile) (htokens : ∀ t ∈ stream.tokens, t.kind ≠ .endOfFile)
    (i : Nat) : (stream.token i).kind = .endOfFile ↔ stream.tokens.size ≤ i := by
  by_cases hi : i < stream.tokens.size
  · rw [token, Array.getElem?_eq_getElem hi, Option.getD_some]
    exact iff_of_false (htokens _ (Array.getElem_mem hi)) (by omega)
  · rw [token, Array.getElem?_eq_none (by omega), Option.getD_none]
    exact iff_of_true heof (by omega)

/-- Reading ends. A text of any tokens, of which the last one and no other is the end of the text,
is read step by step up to its last token. -/
theorem reading_ends (body : List Token) (eof : Token) (script : Bool)
    (heof : eof.kind = .endOfFile) (hbody : ∀ t ∈ body, t.kind ≠ .endOfFile) :
    ∃ stream, TokenStream.ofTokens? (body ++ [eof]) = some stream ∧
      (∀ i, (stream.token i).kind = .endOfFile ↔ stream.tokens.size ≤ i) ∧
      ∃ last : Moment Unit,
        (∀ m, (Moment.start stream script).Reaches grammarRules m →
          m.Reaches grammarRules last ∧ m.progress.index ≤ stream.tokens.size ∧
          m.depth = m.rest.levels ∧
          ∀ n, m.Next grammarRules n → m.progress.index ≤ n.progress.index) ∧
        last.step grammarRules = none ∧ last.depth = 0 ∧
        last.progress.index = stream.tokens.size ∧
        ∀ textFindings remarks,
          (Survey.ofTokens script textFindings remarks (body ++ [eof])).progress =
            if textFindings.any (·.isTooComplex) then none else some last.progress := by
  have hstream := TokenStream.ofTokens?_append body heof
  refine ⟨_, hstream, TokenStream.kind_token_eq_endOfFile heof fun t ht ↦ ?_, ?_⟩
  · rw [List.mem_toArray, List.mem_filter] at ht
    exact hbody t ht.1
  generalize (⟨(body.filter (·.kind != .bad)).toArray, eof⟩ : TokenStream) = stream at hstream
  obtain ⟨last, hproceeds, hlast, hdepth, hprogress, hindex⟩ := exists_last stream script
  refine ⟨last, fun m hm ↦ ?_, hlast, hdepth, hindex, fun _ _ ↦ ?_⟩
  · obtain ⟨hforward, hrest⟩ := hproceeds.through hlast hm
    have hstart : (Moment.start stream script).Sound stream := ⟨rfl, rfl⟩
    have hsound := hstart.reaches hm
    have hwithin := hforward.within (Nat.zero_le _)
    rw [hsound.stream_eq] at hwithin
    refine ⟨hrest.reaches, hwithin, hsound.depth_eq, fun n hn ↦ ?_⟩
    exact (hrest.forward_of_next hlast hn).index_le
  · simp only [Survey.ofTokens, hstream, hprogress, Option.map_some]

/-- A stray brace and a directive are read to the end of the text. -/
theorem reading_ends_after_stray_brace :
    ∃ stream, TokenStream.ofTokens?
        ([⟨.symbol .closeBrace, "\x7d", none, .point .first, true, []⟩,
          ⟨.directiveStart, "#", none, .point .first, true, []⟩] ++
          [⟨.endOfFile, "", none, .point .first, false, []⟩]) = some stream ∧
      ∃ last : Moment Unit, (Moment.start stream false).Reaches grammarRules last ∧
        last.step grammarRules = none ∧ last.depth = 0 ∧ last.progress.index = 2 := by
  obtain ⟨stream, hstream, -, last, hreaches, hlast, hdepth, hindex, -⟩ := reading_ends
    [⟨.symbol .closeBrace, "\x7d", none, .point .first, true, []⟩,
      ⟨.directiveStart, "#", none, .point .first, true, []⟩]
    ⟨.endOfFile, "", none, .point .first, false, []⟩ false rfl (by decide)
  refine ⟨stream, hstream, last, (hreaches _ .refl).1, hlast, hdepth, ?_⟩
  cases hstream
  exact hindex

end CSharpCheck
