import CSharpCheck.Proofs.Scanning.LineStops
import CSharpCheck.Proofs.Scanning.Snug

/-!
# Consecutive active tokens

Two active tokens that follow one another outside of holes and do not touch are the last one of a
step and the first one of a later step. The reader stops between them, on a line that is used and is
no directive line.
-/

namespace CSharpCheck

namespace ActiveReader

variable {script : Bool} {r : ActiveReader} {reading : Reading} {limit : Nat}

/-- The tokens of a directive line that the source is in are being gathered. -/
def Gathers (r : ActiveReader) : Prop := r.line = [] → r.source.inDirective = false

theorem gathers_take (hr : r.Gathers) (h : r.source.read = some reading) :
    (r.take script reading).2.Gathers := by
  have hout (hin : reading.source.inDirective = false) : (r.take script reading).2.Gathers := by
    intro _
    rcases r.source_take script reading with hsource | hsource <;> rw [hsource]
    · exact hin
    · exact hin
  have hgather {t : Token} {ts : List Token} (htokens : reading.tokens = t :: ts)
      (hline : r.line ≠ [] ∨ t.kind = .directiveStart) (hend : t.kind ≠ .directiveEnd) :
      (r.take script reading).2.Gathers := by
    rw [take_line script hline htokens hend]
    intro hnil
    rw [htokens] at hnil
    simp at hnil
  cases TokenSource.gives_of_read h with
  | directiveEnd _ _ _ hin | endOfFile _ _ _ hin => exact hout hin
  | directiveStart htokens hkind => exact hgather htokens (.inr hkind) (by simp [hkind])
  | @scan t ts htokens hkind hin =>
    by_cases hline : r.line = []
    · exact hout (hin.trans (hr hline))
    · refine hgather htokens (.inl hline) fun hend ↦ ?_
      rw [hend] at hkind
      rcases hkind with hkind | hkind <;> contradiction

/-- A step that gives active tokens is no part of a directive line. -/
theorem kind_of_active {t : Token} {ts : List Token} (htokens : reading.tokens = t :: ts)
    (hactive : (r.take script reading).1.tokens ≠ []) :
    r.line = [] ∧ t.kind ≠ .directiveEnd ∧ t.kind ≠ .directiveStart := by
  have hend : t.kind ≠ .directiveEnd := fun hend ↦ hactive (by
    rw [take, htokens]
    simp only
    rw [if_pos hend]
    rfl)
  by_cases hline : r.line ≠ [] ∨ t.kind = .directiveStart
  · rw [take_line script hline htokens hend] at hactive
    exact absurd rfl hactive
  · rw [not_or, Decidable.not_not] at hline
    exact ⟨hline.1, hend, hline.2⟩

/-- A step that gives active tokens gives all its tokens, and the reader goes on where it stops. -/
theorem active_take (hr : r.Gathers) (h : r.source.read = some reading)
    (hactive : (r.take script reading).1.tokens ≠ []) :
    (r.take script reading).1.tokens = reading.tokens ∧
      (∀ t ∈ reading.tokens.head?, t.kind ≠ .directiveStart) ∧
      (r.take script reading).2.source = reading.source ∧ reading.source.inDirective = false ∧
      (reading.source.finished = true ∨ reading.source.cursor.lineUsed = true) := by
  cases TokenSource.gives_of_read h with
  | directiveEnd _ htokens hkind => exact absurd hkind (kind_of_active htokens hactive).2.1
  | directiveStart htokens hkind => exact absurd hkind (kind_of_active htokens hactive).2.2
  | @endOfFile t _ htokens hkind hin hfinished =>
    obtain ⟨hline, hend, hstart⟩ := kind_of_active htokens hactive
    have htake : r.take script reading =
        (⟨[t], reading.findings ++ openBlockFindings r.state.blocks t, [], r.state, none⟩,
          { r with source := reading.source }) := by
      simp [take, htokens, hkind, hline]
    rw [htake, htokens]
    exact ⟨rfl, by simpa using hstart, rfl, hin, .inl hfinished⟩
  | @scan t ts htokens hkind hin hused =>
    obtain ⟨hline, hend, hstart⟩ := kind_of_active htokens hactive
    have heof : t.kind ≠ .endOfFile := fun heof ↦ by
      rw [heof] at hkind
      rcases hkind with hkind | hkind <;> contradiction
    have htake : r.take script reading = (⟨reading.tokens, reading.findings, [],
        { r.state with seenToken := true }, none⟩,
        ⟨reading.source, { r.state with seenToken := true }, []⟩) := by
      simp [take, htokens, hend, hstart, heof, hline]
    rw [htake, htokens]
    exact ⟨rfl, by simpa using hstart, rfl, hin.trans (hr hline), .inr hused⟩

theorem holesWithin_take (hr : r.Gathers) (h : r.source.read = some reading) :
    HolesWithin maxOpenHoles ((r.take script reading).1.tokens.map (·.kind)) := by
  by_cases hactive : (r.take script reading).1.tokens = []
  · rw [hactive]
    exact .nil _
  · rw [(active_take hr h hactive).1]
    exact TokenSource.holesWithin_of_read h

variable {l rest : List Token} {t u : Token}

/-- Of two active tokens that follow one another outside of holes and do not touch, either both are
still to come after a step, or the step stops with the first one and the second one comes next. -/
theorem pair_cases (hr : r.Gathers)
    (h : (r.chunksUpTo script (limit + 1)).flatMap (·.tokens) = l ++ t :: u :: rest)
    (houter : openHoles maxOpenHoles 0 ((l ++ [t]).map (·.kind)) = some 0)
    (hapart : u.span.start ≠ t.span.stop) :
    ∃ reading, r.source.read = some reading ∧
      ((∃ l', ((r.take script reading).2.chunksUpTo script limit).flatMap (·.tokens) =
            l' ++ t :: u :: rest ∧
          openHoles maxOpenHoles 0 ((l' ++ [t]).map (·.kind)) = some 0) ∨
        (((r.take script reading).2.chunksUpTo script limit).flatMap (·.tokens) = u :: rest ∧
          (r.take script reading).2.source = reading.source ∧
          reading.source.cursor.position = t.span.stop ∧
          reading.source.cursor.lineUsed = true ∧ reading.source.inDirective = false ∧
          reading.source.finished = false)) := by
  rw [chunksUpTo] at h
  cases hread : r.source.read with
  | none =>
    rw [hread] at h
    simp at h
  | some reading =>
    refine ⟨reading, rfl, ?_⟩
    rw [hread] at h
    obtain ⟨later, hlater, hsplit⟩ : ∃ later, (later = [] ∨
        later = ((r.take script reading).2.chunksUpTo script limit).flatMap (·.tokens)) ∧
        (r.take script reading).1.tokens ++ later = l ++ t :: u :: rest := by
      simp only at h
      split at h
      · exact ⟨[], .inl rfl, by simpa using h⟩
      · exact ⟨_, .inr rfl, by simpa using h⟩
    have hgo {x : Token} {xs : List Token} (hne : later = x :: xs) :
        ((r.take script reading).2.chunksUpTo script limit).flatMap (·.tokens) = x :: xs := by
      rcases hlater with rfl | rfl
      · contradiction
      · exact hne
    rcases List.append_eq_append_iff.1 hsplit with ⟨before, rfl, hbefore⟩ | ⟨after, hafter, hrest⟩
    · refine .inl ⟨before, ?_, ?_⟩
      · obtain ⟨x, xs, hxs⟩ := List.exists_cons_of_ne_nil
          (show before ++ t :: u :: rest ≠ [] by simp)
        rw [hxs]
        exact hgo (hbefore.trans hxs)
      · rw [List.append_assoc, List.map_append] at houter
        rwa [← openHoles_append (holesWithin_take hr hread)]
    · cases after with
      | nil =>
        rw [List.append_nil] at hafter
        refine .inl ⟨[], hgo hrest.symm, ?_⟩
        rw [← hafter, List.map_append] at houter
        rwa [← openHoles_append (holesWithin_take hr hread)]
      | cons x after =>
        rw [List.cons_append, List.cons.injEq] at hrest
        obtain ⟨rfl, hrest⟩ := hrest
        have hactive : (r.take script reading).1.tokens ≠ [] := by simp [hafter]
        obtain ⟨htokens, hfirst, hsource, hin, hend⟩ := active_take hr hread hactive
        rw [htokens] at hafter
        rcases TokenSource.next_of_read hread hfirst hafter houter with
          ⟨rfl, hstop⟩ | ⟨v, vs, rfl, hv⟩
        · have hnext := hgo hrest.symm
          have hgoes : reading.source.finished = false := by
            rw [Bool.eq_false_iff]
            intro hfinished
            rw [chunksUpTo_of_finished ((congrArg _ hsource).trans hfinished)] at hnext
            contradiction
          refine .inr ⟨hnext, hsource, hstop, hend.resolve_left ?_, hin, hgoes⟩
          rw [hgoes]
          exact Bool.false_ne_true
        · rw [List.cons_append, List.cons.injEq] at hrest
          rw [← hrest.1] at hv
          exact absurd hv hapart

end ActiveReader

end CSharpCheck
