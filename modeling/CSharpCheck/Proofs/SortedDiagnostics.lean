import CSharpCheck.Diagnostic

/-!
# Diagnostics in the order of the text

Sorting keeps the order of diagnostics that start at the same offset, so leaving some diagnostics
out before sorting is the same as leaving them out afterwards.
-/

namespace CSharpCheck

section

variable {α : Type} {le : α → α → Bool} (trans : ∀ a b c, le a b → le b c → le a c)
  (total : ∀ a b, le a b || le b a)

private theorem eq_of_append_eq {q : α → Bool} {xs ys us vs : List α} (h : xs ++ ys = us ++ vs)
    (hxs : ∀ b ∈ xs, q b = true) (hys : ∀ b ∈ ys, q b = false)
    (hus : ∀ b ∈ us, q b = true) (hvs : ∀ b ∈ vs, q b = false) : xs = us ∧ ys = vs := by
  have first := congrArg (List.filter q) h
  have second := congrArg (List.filter (!q ·)) h
  rw [List.filter_append, List.filter_append, List.filter_eq_self.2 hxs, List.filter_eq_self.2 hus,
    List.filter_eq_nil_iff.2 (by simpa using hys), List.filter_eq_nil_iff.2 (by simpa using hvs),
    List.append_nil, List.append_nil] at first
  rw [first] at h
  exact ⟨first, List.append_cancel_left h⟩

include trans total in
/-- Filtering commutes with a stable sort. -/
theorem mergeSort_filter (p : α → Bool) (xs : List α) :
    (xs.filter p).mergeSort le = (xs.mergeSort le).filter p := by
  induction xs with
  | nil => simp
  | cons a xs ih =>
    obtain ⟨front, back, hsorted, htail, hfront⟩ := List.mergeSort_cons trans total a xs
    have hpairs := List.pairwise_mergeSort trans total (a :: xs)
    rw [hsorted] at hpairs
    have hback : ∀ b ∈ back, le a b = true :=
      (List.pairwise_cons.1 (List.pairwise_append.1 hpairs).2.1).1
    cases ha : p a with
    | false => simp [ha, ih, hsorted, htail]
    | true =>
      obtain ⟨front', back', hsorted', htail', hfront'⟩ :=
        List.mergeSort_cons trans total a (xs.filter p)
      have hpairs' := List.pairwise_mergeSort trans total (a :: xs.filter p)
      rw [hsorted'] at hpairs'
      have hback' : ∀ b ∈ back', le a b = true :=
        (List.pairwise_cons.1 (List.pairwise_append.1 hpairs').2.1).1
      -- The inserted element separates the smaller elements from the others in both sorted lists.
      have split : front' ++ back' = front.filter p ++ back.filter p := by
        rw [← htail', ih, htail, List.filter_append]
      obtain ⟨hf, hb⟩ := eq_of_append_eq (q := fun b ↦ !le a b) split hfront'
        (fun b hb ↦ by simp [hback' b hb])
        (fun b hb ↦ hfront b (List.mem_filter.1 hb).1)
        (fun b hb ↦ by simp [hback b (List.mem_filter.1 hb).1])
      rw [List.filter_cons_of_pos ha, hsorted', hsorted, hf, hb, List.filter_append,
        List.filter_cons_of_pos ha]

end

namespace Diagnostics

/-- The order of the text is transitive. -/
theorem start_le_trans (a b c : Diagnostic) :
    decide (a.span.start.offset ≤ b.span.start.offset) →
      decide (b.span.start.offset ≤ c.span.start.offset) →
        decide (a.span.start.offset ≤ c.span.start.offset) := by
  simp only [decide_eq_true_eq]
  exact Nat.le_trans

/-- Of two diagnostics one starts in front of the other, or where it does. -/
theorem start_le_total (a b : Diagnostic) :
    decide (a.span.start.offset ≤ b.span.start.offset) ||
      decide (b.span.start.offset ≤ a.span.start.offset) := by
  simpa using Nat.le_total a.span.start.offset b.span.start.offset

/-- Leaving diagnostics out commutes with sorting them. -/
theorem sorted_filter (p : Diagnostic → Bool) (ds : Diagnostics) :
    sorted (ds.filter p) = (sorted ds).filter p :=
  mergeSort_filter start_le_trans start_le_total p ds

/-- Sorting keeps the diagnostics. -/
theorem mem_sorted {d : Diagnostic} {ds : Diagnostics} : d ∈ sorted ds ↔ d ∈ ds :=
  (sorted_perm ds).mem_iff

/-- A diagnostic that starts in front of all others, or where they do, stays the first of them. -/
theorem sorted_cons {d : Diagnostic} {ds : Diagnostics}
    (h : ∀ e ∈ ds, d.span.start.offset ≤ e.span.start.offset) :
    sorted (d :: ds) = d :: sorted ds := by
  obtain ⟨front, back, hcons, hrest, hfront⟩ :=
    List.mergeSort_cons start_le_trans start_le_total d ds
  have hnil : front = [] := by
    refine List.eq_nil_iff_forall_not_mem.2 fun e he ↦ ?_
    have hmem : e ∈ sorted ds := by
      rw [sorted, hrest]
      exact List.mem_append_left _ he
    simpa [h e (mem_sorted.1 hmem)] using hfront e he
  rw [sorted, sorted, hcons, hrest, hnil]
  rfl

/-- Sorting does not change whether there are errors. -/
theorem hasErrors_sorted (ds : Diagnostics) : hasErrors (sorted ds) = hasErrors ds := by
  rw [Bool.eq_iff_iff]
  simp only [hasErrors, List.any_eq_true, mem_sorted]

end Diagnostics

end CSharpCheck
