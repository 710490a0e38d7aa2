import CSharpCheck.Proofs.Scanning.Faults
import CSharpCheck.Proofs.Scanning.Phrases

/-!
# Giving up a text

A scan that comes to a string nested too deeply takes all of the text that is left, however many
strings are open around it. The fault of it is the last one that is reported.
-/

namespace CSharpCheck

namespace Fault

/-- One of the faults ends the reading of the text. -/
def GivesUp (faults : List Fault) : Prop := ∃ f ∈ faults, f.error = .tooComplex

variable {fs gs : List Fault}

theorem givesUp_append : GivesUp (fs ++ gs) ↔ GivesUp fs ∨ GivesUp gs := by
  simp [GivesUp, or_and_right, exists_or]

theorem givesUp_shift {n : Nat} : GivesUp (fs.map (·.shift n)) ↔ GivesUp fs := by
  simp [GivesUp, shift]

theorem Local.not_givesUp {stop : Nat} (h : Local stop fs) : ¬GivesUp fs :=
  fun ⟨f, hf, herror⟩ ↦ (h f hf).2 herror

/-- Among the faults up to the one that ends the reading only the last one does. -/
theorem pairwise_upToGivingUp (faults : List Fault) :
    (upToGivingUp faults).Pairwise fun f _ ↦ f.error ≠ .tooComplex := by
  induction faults with
  | nil => exact .nil
  | cons f fs ih =>
    unfold upToGivingUp
    split
    · exact List.pairwise_singleton _ _
    · next herror => exact .cons (fun _ _ ↦ herror) ih

theorem pairwise_audible (inDirective : Bool) (faults : List Fault) :
    (audible inDirective faults).Pairwise fun f _ ↦ f.error ≠ .tooComplex :=
  (pairwise_upToGivingUp faults).filter _

theorem upToGivingUp_subset (faults : List Fault) : upToGivingUp faults ⊆ faults := by
  induction faults with
  | nil => exact List.nil_subset _
  | cons f fs ih =>
    unfold upToGivingUp
    split
    · exact List.cons_subset.2 ⟨List.mem_cons_self, List.nil_subset _⟩
    · exact List.cons_subset_cons f ih

/-- What is audible is there. -/
theorem audible_subset (inDirective : Bool) (faults : List Fault) :
    audible inDirective faults ⊆ faults :=
  fun _ hf ↦ upToGivingUp_subset faults (List.mem_filter.1 hf).1

end Fault

open Fault

section Content

variable {scan : List Char → Group}

/-- A step over `n` characters leads to the end of a text if what comes after it does. -/
private theorem le_of_step {start stop n : Nat} {c : Char} {cs : List Char} (hn : 0 < n)
    (h : start + n + (cs.drop (n - 1)).length ≤ stop) : start + (c :: cs).length ≤ stop := by
  rw [List.length_drop] at h
  rw [List.length_cons]
  omega

/-- The tokens of a hole in which the text is given up are all of the text. -/
theorem le_stop_holeTokens_of_givesUp
    (hscan : ∀ text, GivesUp (scan text).faults → text.length ≤ (scan text).length)
    (hpos : ∀ text, text ≠ [] → 0 < (scan text).length) (inDirective : Bool) (depth start : Nat) (text : List Char) :
    GivesUp (holeTokens scan inDirective depth start text).faults →
      start + text.length ≤ (holeTokens scan inDirective depth start text).stop := by
  induction hn : text.length using Nat.strongRecOn generalizing depth start text with
  | ind n ih =>
    have hgap := (local_gapFaults start (gap inDirective text)).not_givesUp
    rw [holeTokens]
    split
    · exact fun h ↦ absurd h hgap
    · next c cs hdrop =>
      split
      · exact fun h ↦ absurd h hgap
      · have hlength := congrArg List.length hdrop
        simp only [List.length_drop, List.length_cons] at hlength
        intro h
        simp only [Part.after, givesUp_append, givesUp_shift] at h ⊢
        rcases h with (h | h) | h
        · exact absurd h hgap
        · have hgroup := hscan _ h
          rw [List.length_cons] at hgroup
          refine Nat.le_trans ?_ (le_stop_holeTokens _ _ _ _ _)
          omega
        · have hgroup := hpos (c :: cs) (by simp)
          have hrest := ih _ ?_ _ _ _ rfl h
          · rw [List.length_drop] at hrest
            omega
          · rw [List.length_drop]
            omega

/-- A hole in which the text is given up takes all of the text. -/
theorem le_stop_hole_of_givesUp
    (hscan : ∀ text, GivesUp (scan text).faults → text.length ≤ (scan text).length)
    (hpos : ∀ text, text ≠ [] → 0 < (scan text).length) (o : Opening)
    (multiLine inDirective : Bool) (start : Nat) (text : List Char)
    (h : GivesUp (hole o multiLine scan inDirective start text).faults) :
    start + text.length ≤ (hole o multiLine scan inDirective start text).stop := by
  have hclose (p : Prop) [Decidable p] (n : Nat) :
      ¬GivesUp (if p then [⟨.closeBraceExpected, n, n⟩] else []) :=
    (Local.ite (.single (Nat.le_refl n) (Nat.le_refl n) (by simp)) .nil).not_givesUp
  simp only [hole, givesUp_append, or_iff_left (hclose _ _)] at h ⊢
  have htokens := le_stop_holeTokens_of_givesUp hscan hpos inDirective 0 (start + o.braces) _ h
  rw [List.length_drop] at htokens
  omega

/-- An interpolated string in which the text is given up takes all of the text. -/
theorem le_stop_interpolatedBody_of_givesUp
    (hscan : ∀ text, GivesUp (scan text).faults → text.length ≤ (scan text).length)
    (hpos : ∀ text, text ≠ [] → 0 < (scan text).length) {o : Opening} (ho : 0 < o.braces)
    (multiLine inDirective : Bool) (textStart start : Nat) (text : List Char) :
    GivesUp (interpolatedBody o multiLine scan inDirective textStart start text).faults →
      start + text.length ≤
        (interpolatedBody o multiLine scan inDirective textStart start text).stop := by
  have hlocal {error : LexicalError} {start stop : Nat} (hle : start ≤ stop)
      (he : error ≠ .tooComplex) : ¬GivesUp [⟨error, start, stop⟩] :=
    (Local.single hle (Nat.le_refl stop) he).not_givesUp
  have hunclosed (atLineEnd : Bool) : o.unclosedError atLineEnd ≠ .tooComplex := by
    unfold Opening.unclosedError
    repeat' split
    all_goals simp
  fun_induction interpolatedBody o multiLine scan inDirective textStart start text with
  | case1 | case2 => exact fun h ↦ absurd h (hlocal (Nat.le_refl _) (hunclosed _))
  | case4 textStart start c cs _ _ _ run =>
    refine fun h ↦ absurd h (@Local.not_givesUp _ (start + run) ?_)
    exact .ite (.single (Nat.le_add_right _ _) (Nat.le_refl _) (by simp)) .nil
  | case3 _ _ _ _ _ _ _ ih => exact fun h ↦ le_of_step Nat.zero_lt_two (ih h)
  | case5 _ _ _ cs _ _ _ run _ ih =>
    have hrun : 0 < run := by
      simp only [run]
      split <;> omega
    exact fun h ↦ le_of_step hrun (ih h)
  | case6 _ start _ cs _ _ _ e ih =>
    intro h
    have hrest := (givesUp_append.1 h).resolve_left (local_escape e start).not_givesUp
    exact le_of_step (length_escape_pos cs) (ih hrest)
  | case7 _ _ _ _ _ _ _ _ length hrole ih =>
    exact fun h ↦ le_of_step (length_braceRole_pos (Nat.succ_pos _) (.inl hrole)) (ih h)
  | case8 _ _ _ _ _ _ _ _ length hrole ih =>
    intro h
    have hrest := (givesUp_append.1 h).resolve_left (hlocal (Nat.le_refl _) (by simp))
    exact le_of_step (length_braceRole_pos (Nat.succ_pos _) (.inr hrole)) (ih hrest)
  | case9 textStart start c cs _ _ _ _ length _ holeStart part ih =>
    intro h
    have hlt : holeStart < part.stop := lt_stop_hole ho multiLine inDirective holeStart _
    have hlength : start + length = holeStart := rfl
    rcases givesUp_append.1 h with h | h
    · have hhole := le_stop_hole_of_givesUp hscan hpos o multiLine inDirective holeStart _ h
      rw [List.length_drop] at hhole
      refine Nat.le_trans ?_ (le_stop_interpolatedBody _ _ _ _ _ _ _)
      omega
    · refine le_of_step (n := part.stop - start) (by omega) ?_
      rw [show start + (part.stop - start) = part.stop by omega]
      exact ih h
  | case10 _ _ _ _ _ _ _ _ _ _ _ ih => exact fun h ↦ le_of_step (Nat.succ_pos _) (ih h)
  | case11 _ _ _ _ _ _ _ _ _ _ _ _ ih => exact fun h ↦ le_of_step Nat.zero_lt_two (ih h)
  | case12 _ _ _ _ _ _ _ _ _ _ _ _ ih =>
    intro h
    have hrest := (givesUp_append.1 h).resolve_left (hlocal (Nat.le_refl _) (by simp))
    exact le_of_step Nat.zero_lt_one (ih hrest)
  | case13 _ _ _ _ _ _ _ _ _ ih => exact fun h ↦ le_of_step Nat.zero_lt_one (ih h)

end Content

/-- A scan that gives up takes all of the text. -/
theorem le_length_scanGroup_of_givesUp (inDirective : Bool) (room : Nat) (text : List Char)
    (h : GivesUp (scanGroup inDirective room text).faults) :
    text.length ≤ (scanGroup inDirective room text).length := by
  have hplain (text : List Char) : ¬GivesUp (plainLexeme text).toGroup.faults :=
    (local_plainLexeme text).not_givesUp
  induction room generalizing text with
  | zero =>
    unfold scanGroup at h ⊢
    split at h
    · exact absurd h (hplain text)
    · exact Nat.le_refl _
  | succ room ih =>
    unfold scanGroup at h ⊢
    split at h
    · exact absurd h (hplain text)
    · next o ho =>
      have hbody := le_stop_interpolatedBody_of_givesUp ih (fun _ ↦ length_scanGroup_pos _ _)
        (braces_pos ho) _ _ _ _ _ h
      rw [List.length_drop] at hbody
      exact Nat.le_trans (by omega) hbody

/-! ### Reading steps -/

/-- The finding says that the text is given up as it is scanned. -/
def Finding.GivesUp (x : Finding) : Prop := x.cause = .lexical .tooComplex

/-- Whether the finding is a broken rule about single tokens and comments. -/
def Finding.isLexical (x : Finding) : Bool :=
  match x.cause with
  | .lexical _ => true
  | _ => false

namespace Cursor

theorem forall_isLexical_map (c : Cursor) (faults : List Fault) :
    ∀ x ∈ faults.map c.finding, x.isLexical = true :=
  List.forall_mem_map.2 fun _ _ ↦ rfl

/-- Of the faults that are reported none comes behind the one that gives the text up. -/
theorem pairwise_findings (c : Cursor) (inDirective : Bool) (faults : List Fault) :
    ((Fault.audible inDirective faults).map c.finding).Pairwise fun x _ ↦ ¬x.GivesUp :=
  List.pairwise_map.2 ((pairwise_audible inDirective faults).imp fun h hx ↦ h (Cause.lexical.inj hx))

end Cursor

namespace TokenSource

variable {s : TokenSource} {r : Reading}

/-- A text is not given up in a gap. -/
theorem not_givesUp_gapFindings (s : TokenSource) : ∀ x ∈ s.gapFindings, ¬x.GivesUp := by
  refine List.forall_mem_map.2 fun f hf hx ↦ ?_
  exact (local_gapFaults 0 _).not_givesUp ⟨f, audible_subset _ _ hf, Cause.lexical.inj hx⟩

/-- The findings of a reading step are those of the gap and those of the group behind the gap. Where
the text is given up, nothing of it is left. -/
theorem findings_of_read (h : s.read = some r) :
    ∃ faults, r.findings =
        s.gapFindings ++ (Fault.audible s.inDirective faults).map s.behindGap.finding ∧
      (GivesUp faults → r.source.cursor.rest = []) := by
  rw [read_eq (read_cases h).1] at h
  split at h
  · cases h
    exact ⟨[], (List.append_nil _).symm, nofun⟩
  · split at h
    · cases h
      exact ⟨[], (List.append_nil _).symm, nofun⟩
    · cases h
      refine ⟨_, by rw [readGroup_eq], fun hgives ↦ List.drop_eq_nil_iff.2 ?_⟩
      change s.behindGap.rest.length ≤ (s.groupAt s.behindGap).length
      unfold groupAt at hgives ⊢
      split at hgives
      · rw [faults_directiveOpening] at hgives
        exact absurd hgives nofun
      · next hopens =>
        rw [if_neg hopens]
        exact le_length_scanGroup_of_givesUp _ _ _ hgives

/-- In a reading step nothing is found behind the place where the text is given up. -/
theorem pairwise_of_read (h : s.read = some r) : r.findings.Pairwise fun x _ ↦ ¬x.GivesUp := by
  obtain ⟨faults, hfindings, -⟩ := findings_of_read h
  rw [hfindings]
  exact List.pairwise_append.2 ⟨Cursor.pairwise_findings _ _ _, Cursor.pairwise_findings _ _ _,
    fun x hx _ _ ↦ s.not_givesUp_gapFindings x hx⟩

theorem isLexical_of_read (h : s.read = some r) : ∀ x ∈ r.findings, x.isLexical = true := by
  obtain ⟨faults, hfindings, -⟩ := findings_of_read h
  rw [hfindings]
  exact List.forall_mem_append.2 ⟨Cursor.forall_isLexical_map _ _, Cursor.forall_isLexical_map _ _⟩

/-- Where the text is given up, nothing of it is left. -/
theorem rest_of_givesUp (h : s.read = some r) {x : Finding} (hx : x ∈ r.findings)
    (hgives : x.GivesUp) : r.source.cursor.rest = [] := by
  obtain ⟨faults, hfindings, hrest⟩ := findings_of_read h
  rw [hfindings] at hx
  rcases List.mem_append.1 hx with hx | hx
  · exact absurd hgives (s.not_givesUp_gapFindings x hx)
  · obtain ⟨f, hf, rfl⟩ := List.mem_map.1 hx
    exact hrest ⟨f, audible_subset _ _ hf, Cause.lexical.inj hgives⟩

/-- Where nothing is left of a text, nothing more is found. -/
theorem findings_of_rest (hrest : s.cursor.rest = []) (h : s.read = some r) :
    r.findings = [] ∧ r.source.cursor.rest = [] := by
  have hgap : gap s.inDirective s.cursor.rest = [] := by
    rw [hrest, gap]
    rfl
  have hbehind : s.behindGap.rest = [] := by
    rw [behindGap, hgap]
    exact hrest
  have hfindings : s.gapFindings = [] := by
    rw [gapFindings, hgap]
    cases s.inDirective <;> rfl
  rw [read_eq (read_cases h).1, hfindings, if_pos hbehind] at h
  split at h <;> cases h <;> exact ⟨rfl, hbehind⟩

end TokenSource

end CSharpCheck
