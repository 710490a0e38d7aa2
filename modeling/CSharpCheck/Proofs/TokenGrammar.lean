import CSharpCheck.Proofs.Scanning.Features
import CSharpCheck.Proofs.Scanning.Phrases

/-!
# The grammar of tokens

However malformed a text is, its tokens are those of a grammar: single tokens, interpolated strings
and directive lines, and at last the end of the text. Of these the directives leave single tokens
and whole interpolated strings active, and the end of the text.
-/

namespace CSharpCheck

open Phrase

/-! ### All tokens of a text -/

namespace Phrase

/-- The classes are those of the rest of a text, which starts on a directive line or outside. -/
def Remain (inDirective : Bool) (ks : List Kind) : Prop :=
  match inDirective with
  | false => Derives stream ks
  | true => ∃ body rest, ks = body ++ rest ∧ Derives line body ∧ Derives stream rest

/-- Items may come in front of any rest of a text. -/
theorem Remain.items {inDirective : Bool} {ks ls : List Kind} (hks : Derives items ks)
    (hls : Remain inDirective ls) : Remain inDirective (ks ++ ls) := by
  cases inDirective with
  | false => exact .streamItems hks hls
  | true =>
    obtain ⟨body, rest, rfl, hbody, hrest⟩ := hls
    exact ⟨ks ++ body, rest, (List.append_assoc _ _ _).symm, .lineItems hks hbody, hrest⟩

end Phrase

/-- The end of the text is not an item. -/
theorem ne_endOfFile_of_items {k : Kind} {ks : List Kind} (h : Derives items (k :: ks)) :
    k ≠ .endOfFile := by
  cases h with
  | single hk _ => exact Kind.ne_endOfFile_of_isSingle hk
  | group _ _ => exact nofun

namespace TokenSource

variable {s : TokenSource} {r : Reading}

/-- A reading step ends the text, or gives tokens that the rest of the text may follow. -/
theorem remain_of_read (h : s.read = some r) :
    (r.source.finished = true ∧ s.inDirective = false ∧ r.tokens.map (·.kind) = [.endOfFile]) ∨
      (r.source.finished = false ∧ ∀ ks, Remain r.source.inDirective ks →
        Remain s.inDirective (r.tokens.map (·.kind) ++ ks)) := by
  obtain ⟨-, c, fs, -, ⟨hin, rfl⟩ | ⟨hin, rfl⟩ | ⟨hc, rfl⟩⟩ := read_cases h
  · refine .inr ⟨rfl, fun ks hks ↦ ?_⟩
    rw [hin]
    exact ⟨[.directiveEnd], ks, rfl, .lineEnd, hks⟩
  · exact .inl ⟨rfl, hin, rfl⟩
  · refine .inr ⟨rfl, fun ks hks ↦ ?_⟩
    unfold readGroup at hks ⊢
    simp only [Cursor.kinds_tokens] at hks ⊢
    split
    · next hopens =>
      obtain ⟨opening, hopening, hline⟩ := derives_directiveOpening c.rest
      have hout : s.inDirective = false := by simp_all
      rw [hopening]
      rw [hopens, Bool.or_true] at hks
      obtain ⟨body, rest, rfl, hbody, hrest⟩ := hks
      rw [hout, List.cons_append, ← List.append_assoc]
      exact .directive (hline body hbody) hrest
    · next hopens =>
      rw [Bool.eq_false_iff.2 hopens, Bool.or_false] at hks
      exact .items (derives_scanGroup _ _ _) hks

/-- A reading step that does not end the text gives items, or it belongs to a directive line. -/
theorem items_of_read (h : r.source.finished = false) (hread : s.read = some r) :
    Derives items (r.tokens.map (·.kind)) ∨ ∃ k ks,
      r.tokens.map (·.kind) = k :: ks ∧ (k = .directiveStart ∨ k = .directiveEnd) := by
  obtain ⟨-, c, fs, -, ⟨-, rfl⟩ | ⟨-, rfl⟩ | ⟨hc, rfl⟩⟩ := read_cases hread
  · exact .inr ⟨_, [], rfl, .inr rfl⟩
  · contradiction
  · simp only [readGroup, Cursor.kinds_tokens]
    split
    · obtain ⟨opening, hopening, -⟩ := derives_directiveOpening c.rest
      exact .inr ⟨_, opening, hopening, .inl rfl⟩
    · exact .inl (derives_scanGroup _ _ _)

/-- What is read from some place on is the rest of a text. -/
theorem remain_readUpTo {limit : Nat} (hfinished : s.finished = false)
    (hlimit : s.stepsLeft ≤ limit) :
    Remain s.inDirective (((readUpTo limit s).flatMap (·.tokens)).map (·.kind)) := by
  induction limit generalizing s with
  | zero =>
    simp only [stepsLeft, hfinished, Bool.false_eq_true, if_false] at hlimit
    omega
  | succ limit ih =>
    obtain ⟨r, hread⟩ := exists_read hfinished
    have hsteps := stepsLeft_lt_of_read hread
    simp only [readUpTo, hread, List.flatMap_cons, List.map_append]
    rcases remain_of_read hread with ⟨hends, hout, hkinds⟩ | ⟨hgoes, hremain⟩
    · rw [readUpTo_of_finished hends, hkinds, hout]
      exact .streamEnd
    · exact hremain _ (ih hgoes (by omega))

theorem shows_readUpTo (limit : Nat) (s : TokenSource) :
    ∀ r ∈ readUpTo limit s, ∀ t ∈ r.tokens, t.Shows := by
  induction limit generalizing s with
  | zero => exact List.forall_mem_nil _
  | succ limit ih =>
    unfold readUpTo
    split
    · exact List.forall_mem_nil _
    · next r hread => exact List.forall_mem_cons.2 ⟨shows_of_read hread, ih r.source⟩

end TokenSource

/-! ### The tokens of active text -/

namespace ActiveReader

variable {script : Bool} {r : ActiveReader} {reading : Reading}

/-- A reading step contributes items, unless it finishes the text. -/
theorem derives_take (script : Bool) (h : r.source.read = some reading)
    (hfinished : reading.source.finished = false) :
    Derives items ((r.take script reading).1.tokens.map (·.kind)) := by
  rcases TokenSource.items_of_read hfinished h with hitems | ⟨k, ks, hkinds, hk⟩
  · unfold take
    split
    · exact .nil
    · next t ts htokens =>
      rw [htokens] at hitems
      split
      · exact .nil
      · split
        · exact .nil
        · split
          · next heof => exact absurd heof (ne_endOfFile_of_items hitems)
          · rwa [htokens]
  · obtain ⟨t, ts, htokens, rfl, -⟩ := List.map_eq_cons_iff.1 hkinds
    have hnone : (r.take script reading).1.tokens = [] := by
      unfold take
      rw [htokens]
      rcases hk with hk | hk <;> simp [hk, endLine]
    rw [hnone]
    exact .nil

/-- A line after which nothing is read contributes no tokens. -/
theorem tokens_of_breakdown (script : Bool) (r : ActiveReader) (reading : Reading)
    (h : (r.take script reading).1.breakdown ≠ none) : (r.take script reading).1.tokens = [] := by
  revert h
  unfold take
  split
  · exact fun _ ↦ rfl
  · split
    · exact fun _ ↦ rfl
    · split
      · exact fun _ ↦ rfl
      · split
        · exact fun h ↦ absurd rfl h
        · exact fun h ↦ absurd rfl h

/-- The active tokens from some place on are items, and the end of the text unless the reading
breaks off. -/
theorem derives_chunksUpTo {limit : Nat} {r : ActiveReader} (hr : r.Tidy)
    (hfinished : r.source.finished = false) (hlimit : r.source.stepsLeft ≤ limit) :
    ∃ body, Derives items (body.map (·.kind)) ∧
      match (r.chunksUpTo script limit).findSome? (·.breakdown) with
      | some _ => (r.chunksUpTo script limit).flatMap (·.tokens) = body
      | none => ∃ eof, (r.chunksUpTo script limit).flatMap (·.tokens) = body ++ [eof] ∧
          eof.kind = .endOfFile := by
  induction limit generalizing r with
  | zero =>
    simp only [TokenSource.stepsLeft, hfinished, Bool.false_eq_true, if_false] at hlimit
    omega
  | succ limit ih =>
    obtain ⟨reading, hread⟩ := TokenSource.exists_read hfinished
    have hsteps := stepsLeft_source_take script hread
    simp only [chunksUpTo, hread]
    cases hbreak : (r.take script reading).1.breakdown with
    | some b =>
      refine ⟨[], .nil, ?_⟩
      have hnone := tokens_of_breakdown script r reading (by simp [hbreak])
      simp [hbreak, hnone]
    | none =>
      simp only [Option.isSome_none, Bool.false_eq_true, if_false, List.findSome?_cons, hbreak,
        List.flatMap_cons]
      cases hends : reading.source.finished with
      | true =>
        obtain ⟨eof, htokens, heof⟩ := exists_eof_of_finished script hr hread hends
        rw [chunksUpTo_of_finished ((finished_source_take _ _ _).trans hends), htokens]
        exact ⟨[], .nil, eof, rfl, heof⟩
      | false =>
        obtain ⟨body, hbody, hrest⟩ := ih (r := (r.take script reading).2) (tidy_take hr hread)
          ((finished_source_take _ _ _).trans hends) (by omega)
        refine ⟨(r.take script reading).1.tokens ++ body, ?_, ?_⟩
        · rw [List.map_append]
          exact (derives_take script hread hends).append hbody
        · cases hrun : ((r.take script reading).2.chunksUpTo script limit).findSome?
              (·.breakdown) with
          | some b =>
            rw [hrun] at hrest
            exact congrArg _ hrest
          | none =>
            rw [hrun] at hrest
            obtain ⟨eof, htokens, heof⟩ := hrest
            exact ⟨eof, by rw [htokens, List.append_assoc], heof⟩

/-- No text among the active tokens is empty. -/
theorem shows_chunksUpTo (limit : Nat) (r : ActiveReader) :
    ∀ t ∈ (r.chunksUpTo script limit).flatMap (·.tokens), t.Shows := by
  induction limit generalizing r with
  | zero => exact List.forall_mem_nil _
  | succ limit ih =>
    unfold chunksUpTo
    split
    · exact List.forall_mem_nil _
    · next reading hread =>
      have hfirst : ∀ t ∈ (r.take script reading).1.tokens, t.Shows := fun t ht ↦
        TokenSource.shows_of_read hread t (r.tokens_take_subset script reading ht)
      dsimp only
      split
      · simpa using hfirst
      · rw [List.flatMap_cons]
        exact List.forall_mem_append.2 ⟨hfirst, ih _⟩

end ActiveReader

/-- The tokens of a text make a stream of items and directive lines. The active ones are items,
followed by the end of the text unless a directive line cannot be processed. No text of an
interpolated string is empty. -/
theorem stream_of_tokens (text : List Char) :
    (Derives stream ((tokensOf text).map (·.kind)) ∧
      ∀ t ∈ tokensOf text, t.kind = .interpolatedText → t.text ≠ "") ∧
    ∀ (script : Bool) (symbols : List String),
      (∃ body, Derives items (body.map (·.kind)) ∧
        match (activeText script symbols text).findSome? (·.breakdown) with
        | some _ => activeTokens script symbols text = body
        | none => ∃ eof, activeTokens script symbols text = body ++ [eof] ∧
            eof.kind = .endOfFile) ∧
      ∀ t ∈ activeTokens script symbols text, t.kind = .interpolatedText → t.text ≠ "" := by
  refine ⟨⟨?_, fun t ht ↦ ?_⟩, fun script symbols ↦ ⟨?_, ?_⟩⟩
  · exact TokenSource.remain_readUpTo (s := .ofText text) rfl (Nat.le_refl _)
  · obtain ⟨r, hr, ht⟩ := List.mem_flatMap.1 ht
    exact TokenSource.shows_readUpTo _ _ r hr t ht
  · exact ActiveReader.derives_chunksUpTo (fun _ ↦ rfl) rfl (Nat.le_refl _)
  · exact ActiveReader.shows_chunksUpTo _ _

end CSharpCheck
