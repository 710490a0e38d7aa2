import CSharpCheck.Proofs.Scanning.Tilings

/-!
# The faults of scans

Every fault of a scan ends where it starts or further on, and no further than the scan. Only strings
that are nested too deeply end the reading of the text; the faults of single tokens and of gaps do
not.
-/

namespace CSharpCheck

/-- No fault ends before it starts, or behind `stop`. -/
def Fault.Within (stop : Nat) (faults : List Fault) : Prop :=
  ∀ f ∈ faults, f.start ≤ f.stop ∧ f.stop ≤ stop

namespace Fault.Within

variable {fs gs : List Fault} {m n : Nat}

theorem nil : Within n [] := List.forall_mem_nil _

theorem single {error : LexicalError} {start stop : Nat} (h : start ≤ stop) (hn : stop ≤ n) :
    Within n [⟨error, start, stop⟩] :=
  List.forall_mem_singleton.2 ⟨h, hn⟩

theorem mono (h : Within m fs) (hmn : m ≤ n) : Within n fs :=
  fun f hf ↦ ⟨(h f hf).1, Nat.le_trans (h f hf).2 hmn⟩

theorem append (hfs : Within n fs) (hgs : Within n gs) : Within n (fs ++ gs) :=
  List.forall_mem_append.2 ⟨hfs, hgs⟩

theorem ite {p : Prop} [Decidable p] (hfs : Within n fs) (hgs : Within n gs) :
    Within n (if p then fs else gs) := by
  split
  · exact hfs
  · exact hgs

theorem shift (h : Within n fs) (m : Nat) : Within (m + n) (fs.map (·.shift m)) := by
  intro f hf
  obtain ⟨g, hg, rfl⟩ := List.mem_map.1 hf
  exact ⟨Nat.add_le_add_left (h g hg).1 m, Nat.add_le_add_left (h g hg).2 m⟩

theorem upToGivingUp (h : Within n fs) : Within n (upToGivingUp fs) := by
  induction fs with
  | nil => exact nil
  | cons f fs ih =>
    obtain ⟨hf, hfs⟩ := List.forall_mem_cons.1 h
    unfold Fault.upToGivingUp
    split
    · exact List.forall_mem_singleton.2 hf
    · exact List.forall_mem_cons.2 ⟨hf, ih hfs⟩

theorem audible (h : Within n fs) (inDirective : Bool) : Within n (audible inDirective fs) :=
  fun f hf ↦ h.upToGivingUp f (List.mem_filter.1 hf).1

end Fault.Within

/-- No fault ends before it starts, or behind `stop`, and none of them ends the reading of the
text. -/
def Fault.Local (stop : Nat) (faults : List Fault) : Prop :=
  ∀ f ∈ faults, (f.start ≤ f.stop ∧ f.stop ≤ stop) ∧ f.error ≠ .tooComplex

namespace Fault.Local

variable {fs gs : List Fault} {m n : Nat}

theorem nil : Local n [] := List.forall_mem_nil _

theorem single {error : LexicalError} {start stop : Nat} (h : start ≤ stop) (hn : stop ≤ n)
    (he : error ≠ .tooComplex) : Local n [⟨error, start, stop⟩] :=
  List.forall_mem_singleton.2 ⟨⟨h, hn⟩, he⟩

theorem mono (h : Local m fs) (hmn : m ≤ n) : Local n fs :=
  fun f hf ↦ ⟨⟨(h f hf).1.1, Nat.le_trans (h f hf).1.2 hmn⟩, (h f hf).2⟩

theorem append (hfs : Local n fs) (hgs : Local n gs) : Local n (fs ++ gs) :=
  List.forall_mem_append.2 ⟨hfs, hgs⟩

theorem ite {p : Prop} [Decidable p] (hfs : Local n fs) (hgs : Local n gs) :
    Local n (if p then fs else gs) := by
  split
  · exact hfs
  · exact hgs

theorem within (h : Local n fs) : Within n fs := fun f hf ↦ (h f hf).1

end Fault.Local

open Fault

theorem local_gapFaults (start : Nat) (items : List GapItem) :
    Local (start + gapLength items) (gapFaults start items) := by
  induction items generalizing start with
  | nil => exact .nil
  | cons item items ih =>
    have hrest := ih (start + item.length)
    rw [Nat.add_assoc] at hrest
    unfold gapFaults
    split
    · exact List.forall_mem_cons.2 ⟨⟨⟨Nat.le_refl _, Nat.le_add_right _ _⟩, by simp⟩, hrest⟩
    · exact hrest

/-! ### Single tokens -/

theorem local_escape (e : Escape) (start : Nat) : Local (start + e.length) (e.faults start) :=
  .ite .nil (.single (Nat.le_add_right _ _) (Nat.le_refl _) (by simp))

theorem local_number (text : List Char) : Local (number text).length (number text).faults := by
  have hnumber (length : Nat) (error : Option LexicalError) (features : List Feature)
      (he : error ≠ some .tooComplex) : Local (numberLexeme length error features).length
        (numberLexeme length error features).faults := by
    cases error with
    | none => exact .nil
    | some e => exact .single (Nat.zero_le _) (Nat.le_refl _) fun h ↦ he (congrArg some h)
  have hprefixed (binary : Bool) (text : List Char) :
      Local (prefixedNumber binary text).length (prefixedNumber binary text).faults := by
    refine hnumber _ _ _ ?_
    split <;> simp
  have hdecimal (text : List Char) :
      Local (decimalNumber text).length (decimalNumber text).faults := by
    refine hnumber _ _ _ ?_
    split
    · simp
    · split <;> simp
  unfold number
  split
  · split
    · exact hprefixed _ _
    · split
      · exact hprefixed _ _
      · exact hdecimal _
  · exact hdecimal _

theorem local_stringBody (start : Nat) (text : List Char) :
    Local (stringBody start text).stop (stringBody start text).faults := by
  fun_induction stringBody start text with
  | case4 start c cs _ _ _ e ih =>
    exact ((local_escape e start).mono (le_stop_stringBody _ _)).append ih
  | case5 start c cs _ _ _ ih => exact ih
  | _ => exact .nil

theorem local_closeRaw (start run quotes : Nat) :
    Local (start + run) (closeRaw start run quotes).faults :=
  .ite (.single (Nat.le_add_right _ _) (Nat.le_refl _) (by simp)) .nil

theorem local_rawLineBody (quotes start : Nat) (text : List Char) :
    Local (rawLineBody quotes start text).stop (rawLineBody quotes start text).faults := by
  fun_induction rawLineBody quotes start text with
  | case1 | case2 => exact .nil
  | case3 => exact local_closeRaw _ _ _
  | case4 | case5 => assumption

theorem local_indentationFaults {n : Nat} (indentation : List Char)
    {lines : List (Nat × List Char)} (hlines : ∀ line ∈ lines, line.1 ≤ n) :
    Local n (indentationFaults indentation lines) := by
  unfold indentationFaults
  split
  · next hfind =>
    exact .single (Nat.le_refl _) (hlines _ (List.mem_of_find?_eq_some hfind)) (by simp)
  · exact .nil

theorem local_rawBlockBody (quotes start : Nat) (lines : List (Nat × List Char))
    (text : List Char) (hlines : ∀ line ∈ lines, line.1 ≤ start) :
    Local (rawBlockBody quotes start lines text).stop
      (rawBlockBody quotes start lines text).faults := by
  fun_induction rawBlockBody quotes start lines text with
  | case1 => exact .nil
  | case2 start lines c cs lead rest line indentation run hrun =>
    rw [if_pos hrun]
    refine (local_closeRaw _ _ _).append (local_indentationFaults _ fun line hline ↦ ?_)
    have hle := hlines line (List.mem_reverse.1 hline)
    omega
  | case3 start lines c cs offset lead rest line indentation run hrun hoffset =>
    rw [if_neg hrun]
    simp only
    split
    · exact List.forall_mem_cons.2
        ⟨⟨⟨Nat.le_refl _, Nat.le_add_right _ _⟩, by simp⟩, local_closeRaw _ _ _⟩
    · next hnone =>
      rw [hoffset] at hnone
      contradiction
  | case4 start lines c cs lead lineStart rest line indentation run hrun hnone ih =>
    rw [if_neg hrun]
    simp only
    split
    · next hoffset =>
      rw [hnone] at hoffset
      contradiction
    · refine ih (List.forall_mem_cons.2 ⟨Nat.le_add_right _ _, fun line hline ↦ ?_⟩)
      have hle := hlines line hline
      omega

/-- The faults of a string are those of its body, and that it may not be closed. -/
theorem local_string {text : List Char} {body : Body} (h : Local body.stop body.faults)
    (features features' : List Feature) {error : LexicalError} (herror : error ≠ .tooComplex) :
    Local (if body.closed = true then stringLexeme text body.stop features body.faults
        else openStringLexeme body.stop features' (body.faults ++ [⟨error, 0, 0⟩])).length
      (if body.closed = true then stringLexeme text body.stop features body.faults
        else openStringLexeme body.stop features' (body.faults ++ [⟨error, 0, 0⟩])).faults := by
  split
  · exact h.mono (Nat.le_add_right _ _)
  · exact h.append (.single (Nat.le_refl _) (Nat.zero_le _) herror)

theorem local_regularString (text : List Char) :
    Local (regularString text).length (regularString text).faults :=
  local_string (local_stringBody 1 (text.drop 1)) _ _ (by simp)

theorem local_verbatimString (text : List Char) :
    Local (verbatimString text).length (verbatimString text).faults := by
  unfold verbatimString
  simp only
  split
  · exact .nil
  · exact .single (Nat.le_refl _) (Nat.zero_le _) (by simp)

theorem local_rawString (text : List Char) :
    Local (rawString text).length (rawString text).faults := by
  refine local_string ?_ _ _ (by simp)
  split
  · exact local_rawBlockBody _ _ _ _ (List.forall_mem_nil _)
  · exact local_rawLineBody _ _ _

theorem local_characterLiteral (text : List Char) :
    Local (characterLiteral text).length (characterLiteral text).faults := by
  unfold characterLiteral
  simp only
  split
  · exact .single (Nat.le_refl _) (Nat.zero_le _) (by simp)
  · split
    · exact .single (Nat.zero_le _) (Nat.le_refl _) (by simp)
    · split
      · exact .single (Nat.le_refl _) (Nat.zero_le _) (by simp)
      · generalize (if _ == '\\' then escape _ else (⟨1, true, false⟩ : Escape)) = e
        have hescape := local_escape e 1
        split
        · exact hescape.mono (by simp only; omega)
        · split
          · refine (hescape.mono ?_).append (.single (Nat.zero_le _) (Nat.le_refl _) (by simp))
            simp only
            omega
          · exact (hescape.mono (Nat.le_add_right _ _)).append
              (.single (Nat.le_refl _) (Nat.zero_le _) (by simp))

theorem local_plainLexeme (text : List Char) :
    Local (plainLexeme text).length (plainLexeme text).faults := by
  unfold plainLexeme
  split
  · exact .nil
  · split
    · exact local_verbatimString _
    · split
      · exact .nil
      · split
        · exact .nil
        · split
          · exact local_number _
          · split
            · split
              · exact local_rawString _
              · exact local_regularString _
            · split
              · exact local_characterLiteral _
              · split
                · exact .single (Nat.le_refl _) (Nat.zero_le _) (by simp)
                · split
                  · exact .nil
                  · exact .single (Nat.le_refl _) (Nat.zero_le _) (by simp)

/-! ### Groups -/

section Content

variable {scan : List Char → Group}

theorem within_holeTokens (hscan : ∀ text, Within (scan text).length (scan text).faults)
    (inDirective : Bool) (depth start : Nat) (text : List Char) :
    Within (holeTokens scan inDirective depth start text).stop
      (holeTokens scan inDirective depth start text).faults := by
  induction hn : text.length using Nat.strongRecOn generalizing depth start text with
  | ind n ih =>
    have hgap := (local_gapFaults start (gap inDirective text)).within
    rw [holeTokens]
    split
    · exact hgap
    · next c cs hdrop =>
      split
      · exact hgap
      · have hlength := congrArg List.length hdrop
        simp only [List.length_drop, List.length_cons] at hlength
        have hle := le_stop_holeTokens scan inDirective (bracketDepth depth (scan (c :: cs)).pieces)
          (start + gapLength (gap inDirective text) + (scan (c :: cs)).length)
          (cs.drop ((scan (c :: cs)).length - 1))
        refine ((hgap.mono ?_).append (((hscan _).shift _).mono hle)).append (ih _ ?_ _ _ _ rfl)
        · omega
        · rw [List.length_drop]
          omega

theorem within_hole (hscan : ∀ text, Within (scan text).length (scan text).faults) (o : Opening)
    (multiLine inDirective : Bool) (start : Nat) (text : List Char) :
    Within (hole o multiLine scan inDirective start text).stop
      (hole o multiLine scan inDirective start text).faults := by
  have htokens := within_holeTokens hscan inDirective 0 (start + o.braces) (text.drop o.braces)
  refine (htokens.mono ?_).append (.ite (.single (Nat.le_refl _) (Nat.le_add_right _ _)) .nil)
  simp only [hole]
  omega

theorem within_interpolatedBody (hscan : ∀ text, Within (scan text).length (scan text).faults)
    (o : Opening) (multiLine inDirective : Bool) (textStart start : Nat) (text : List Char) :
    Within (interpolatedBody o multiLine scan inDirective textStart start text).stop
      (interpolatedBody o multiLine scan inDirective textStart start text).faults := by
  fun_induction interpolatedBody o multiLine scan inDirective textStart start text with
  | case1 | case2 => exact .single (Nat.le_refl _) (Nat.zero_le _)
  | case4 => exact .ite (.single (Nat.le_add_right _ _) (Nat.le_add_right _ _)) .nil
  | case6 textStart start c cs _ _ _ e ih =>
    exact ((local_escape e start).within.mono (le_stop_interpolatedBody _ _ _ _ _ _ _)).append ih
  | case8 textStart start c cs _ _ _ _ length _ ih =>
    have hle := le_stop_interpolatedBody scan o multiLine inDirective textStart (start + length)
      (cs.drop (length - 1))
    exact Within.append (.single (Nat.le_refl _) (Nat.le_trans (Nat.le_add_right _ _) hle)) ih
  | case9 textStart start c cs _ _ _ _ length _ holeStart part ih =>
    exact ((within_hole hscan o multiLine inDirective holeStart _).mono
      (le_stop_interpolatedBody _ _ _ _ _ _ _)).append ih
  | case12 textStart start c cs _ _ _ _ _ _ _ _ ih =>
    have hle := le_stop_interpolatedBody scan o multiLine inDirective textStart (start + 1) cs
    exact Within.append (.single (Nat.le_refl _) (Nat.le_of_succ_le hle)) ih
  | _ => assumption

end Content

/-- The faults of a scan lie in it. -/
theorem within_scanGroup (inDirective : Bool) (room : Nat) (text : List Char) :
    Within (scanGroup inDirective room text).length (scanGroup inDirective room text).faults := by
  induction room generalizing text with
  | zero =>
    unfold scanGroup
    split
    · exact (local_plainLexeme text).within
    · exact .single (Nat.le_refl _) (Nat.zero_le _)
  | succ room ih =>
    unfold scanGroup
    split
    · exact (local_plainLexeme text).within
    · exact within_interpolatedBody ih _ _ _ _ _ _

theorem faults_directiveOpening (text : List Char) : (directiveOpening text).faults = [] := by
  unfold directiveOpening
  simp only
  repeat' split
  all_goals rfl

end CSharpCheck
