import Mathlib
import CSharpCheck.Proofs.Scanning.HoleMarks
import CSharpCheck.Proofs.Scanning.Literals

/-!
# The faults of literals

A number, a character or a string without holes is one token, wherever a scan meets it, also in a
hole. What a scan finds between the ends of it is what the scanner of the literal finds when the
text starts there, neither more nor less.
-/

namespace CSharpCheck

open Fault

variable {text : List Char}

/-! ### Literals -/

/-- Whether tokens of the class are numbers, characters or strings without holes. -/
def Kind.isLiteral : Kind → Bool
  | .numericLiteral | .stringLiteral | .characterLiteral => true
  | _ => false

/-- The literals, each with the characters that lead to its scanner. -/
inductive IsLiteral : List Char → Lexeme → Prop where
  | number {text : List Char} : numberStarts text = true → IsLiteral text (number text)
  | verbatimString {cs : List Char} :
      IsLiteral ('@' :: '"' :: cs) (verbatimString ('@' :: '"' :: cs))
  | rawString {cs : List Char} : ['"', '"', '"'].isPrefixOf ('"' :: cs) = true →
      IsLiteral ('"' :: cs) (rawString ('"' :: cs))
  | regularString {cs : List Char} : ['"', '"', '"'].isPrefixOf ('"' :: cs) = false →
      IsLiteral ('"' :: cs) (regularString ('"' :: cs))
  | character {cs : List Char} : IsLiteral ('\'' :: cs) (characterLiteral ('\'' :: cs))

theorem isLiteral_nameLexeme (verbatim : Bool) (text : List Char) :
    (nameLexeme verbatim text).kind.isLiteral = false := by
  simp only [nameLexeme]
  generalize nameChars (if verbatim = true then List.drop 1 text else text) = chars
  split
  · rfl
  · split <;> rfl

/-- A single token is a literal only if one starts there. -/
theorem isLiteral_plainLexeme (h : (plainLexeme text).kind.isLiteral = true) :
    IsLiteral text (plainLexeme text) := by
  have hname (verbatim : Bool) : (nameLexeme verbatim text).kind.isLiteral ≠ true := by
    simp [isLiteral_nameLexeme]
  unfold plainLexeme at h ⊢
  split at h
  · contradiction
  · next c cs =>
    split at h
    · next hat =>
      obtain ⟨hc, hquote⟩ := Bool.and_eq_true_iff.1 hat
      obtain ⟨ds, rfl⟩ := List.head?_eq_some_iff.1 (beq_iff_eq.1 hquote)
      rw [if_pos hat]
      obtain rfl := beq_iff_eq.1 hc
      exact .verbatimString
    · next hat =>
      rw [if_neg hat]
      split at h
      · exact absurd h (hname true)
      · next hverbatim =>
        rw [if_neg hverbatim]
        split at h
        · exact absurd h (hname false)
        · next hplain =>
          rw [if_neg hplain]
          split at h
          · next hnumber =>
            rw [if_pos hnumber]
            exact .number hnumber
          · next hnumber =>
            rw [if_neg hnumber]
            split at h
            · next hquote =>
              obtain rfl := beq_iff_eq.1 hquote
              rw [if_pos hquote]
              split
              · next hraw => exact .rawString hraw
              · next hraw => exact .regularString (Bool.eq_false_iff.2 hraw)
            · next hquote =>
              rw [if_neg hquote]
              split at h
              · next hmark =>
                obtain rfl := beq_iff_eq.1 hmark
                rw [if_pos hmark]
                exact .character
              · split at h
                · contradiction
                · split at h <;> contradiction

/-- No literal starts with a line end. -/
theorem IsLiteral.not_isLineEnd {l : Lexeme} (h : IsLiteral text l) :
    ∃ c cs, text = c :: cs ∧ isLineEnd c = false := by
  cases h with
  | number h =>
    unfold numberStarts at h
    split at h
    · exact ⟨_, _, rfl, by decide⟩
    · next c cs _ => exact ⟨c, cs, rfl, not_isLineEnd_of_partings (p := Char.isDigit) (by decide) h⟩
    · contradiction
  | verbatimString | rawString | regularString | character => exact ⟨_, _, rfl, by decide⟩

/-! ### Where the faults of a single token start -/

/-- Every fault starts in front of `stop`. -/
def Fault.Before (stop : Nat) (faults : List Fault) : Prop := ∀ f ∈ faults, f.start < stop

namespace Fault.Before

variable {fs gs : List Fault} {m n : Nat}

theorem nil : Before n [] := List.forall_mem_nil _

theorem single {error : LexicalError} {start stop : Nat} (h : start < n) :
    Before n [⟨error, start, stop⟩] := List.forall_mem_singleton.2 h

theorem mono (h : Before m fs) (hmn : m ≤ n) : Before n fs :=
  fun f hf ↦ Nat.lt_of_lt_of_le (h f hf) hmn

theorem append (hfs : Before n fs) (hgs : Before n gs) : Before n (fs ++ gs) :=
  List.forall_mem_append.2 ⟨hfs, hgs⟩

end Fault.Before

theorem before_escape (text : List Char) (start : Nat) :
    Before (start + (escape text).length) ((escape text).faults start) := by
  have hpos := length_escape_pos text
  unfold Escape.faults
  split
  · exact .nil
  · exact .single (by omega)

/-- The fault of a number covers all of it. -/
theorem faults_number (text : List Char) : (number text).faults = [] ∨
    ∃ e, (e = .invalidNumber ∨ e = .invalidReal) ∧
      (number text).faults = [⟨e, 0, (number text).length⟩] := by
  have hlexeme (length : Nat) (features : List Feature) {error : Option LexicalError}
      (h : ∀ e ∈ error, e = .invalidNumber ∨ e = .invalidReal) :
      (numberLexeme length error features).faults = [] ∨
        ∃ e, (e = .invalidNumber ∨ e = .invalidReal) ∧ (numberLexeme length error features).faults =
          [⟨e, 0, (numberLexeme length error features).length⟩] := by
    cases error with
    | none => exact .inl rfl
    | some e => exact .inr ⟨e, h e rfl, rfl⟩
  have hprefixed (binary : Bool) : (prefixedNumber binary text).faults = [] ∨
      ∃ e, (e = .invalidNumber ∨ e = .invalidReal) ∧ (prefixedNumber binary text).faults =
        [⟨e, 0, (prefixedNumber binary text).length⟩] := by
    refine hlexeme _ _ ?_
    split <;> simp
  have hdecimal : (decimalNumber text).faults = [] ∨
      ∃ e, (e = .invalidNumber ∨ e = .invalidReal) ∧ (decimalNumber text).faults =
        [⟨e, 0, (decimalNumber text).length⟩] := by
    refine hlexeme _ _ ?_
    split
    · simp
    · split <;> simp
  unfold number
  split
  · split
    · exact hprefixed false
    · split
      · exact hprefixed true
      · exact hdecimal
  · exact hdecimal

theorem before_number (h : numberStarts text = true) :
    Before (number text).length (number text).faults := by
  rcases faults_number text with hnone | ⟨e, -, hone⟩
  · rw [hnone]
    exact .nil
  · rw [hone]
    exact .single (single_number h).length_pos

theorem before_stringBody (start : Nat) (text : List Char) :
    Before (stringBody start text).stop (stringBody start text).faults := by
  fun_induction stringBody start text with
  | case4 start c cs _ _ _ e ih =>
    exact ((before_escape cs start).mono (le_stop_stringBody _ _)).append ih
  | case5 start c cs _ _ _ ih => exact ih
  | _ => exact .nil

theorem before_closeRaw {start run quotes : Nat} :
    Before (start + run) (closeRaw start run quotes).faults := by
  unfold closeRaw
  split
  · exact .single (by omega)
  · exact .nil

theorem before_rawLineBody (quotes start : Nat) (text : List Char) :
    Before (rawLineBody quotes start text).stop (rawLineBody quotes start text).faults := by
  fun_induction rawLineBody quotes start text with
  | case1 | case2 => exact .nil
  | case3 => exact before_closeRaw
  | case4 | case5 => assumption

theorem before_indentationFaults {n : Nat} (indentation : List Char)
    {lines : List (Nat × List Char)} (hlines : ∀ line ∈ lines, line.1 < n) :
    Before n (indentationFaults indentation lines) := by
  unfold indentationFaults
  split
  · next hfind => exact .single (hlines _ (List.mem_of_find?_eq_some hfind))
  · exact .nil

theorem before_rawBlockBody {quotes : Nat} (hquotes : 0 < quotes) (start : Nat)
    (lines : List (Nat × List Char)) (text : List Char) (hlines : ∀ line ∈ lines, line.1 ≤ start) :
    Before (rawBlockBody quotes start lines text).stop
      (rawBlockBody quotes start lines text).faults := by
  fun_induction rawBlockBody quotes start lines text with
  | case1 => exact .nil
  | case2 start lines c cs lead rest line indentation run hrun =>
    rw [if_pos hrun]
    refine before_closeRaw.append (before_indentationFaults _ fun line hline ↦ ?_)
    have hstop : start < start + lead + indentation.length + run := by omega
    exact Nat.lt_of_le_of_lt (hlines line (List.mem_reverse.1 hline)) hstop
  | case3 start lines c cs offset lead rest line indentation run hrun hoffset =>
    rw [if_neg hrun]
    simp only
    split
    · next found hfound =>
      obtain ⟨content, more, hline, rfl, -⟩ := exists_of_quoteRun? hquotes hfound
      refine List.forall_mem_cons.2 ⟨?_, before_closeRaw⟩
      have hclosing : quotes ≤ runLength '"' (line.drop content.length) := by
        change quotes ≤ runLength '"' ((restOfLine rest).drop content.length)
        rw [show restOfLine rest = _ from hline, List.drop_left, le_runLength_iff]
        exact List.prefix_append _ _
      exact Nat.lt_add_of_pos_right (Nat.lt_of_lt_of_le hquotes hclosing)
    · next hnone =>
      rw [hoffset] at hnone
      contradiction
  | case4 start lines c cs lead lineStart rest line indentation run hrun hnone ih =>
    rw [if_neg hrun]
    simp only
    split
    · next hoffset =>
      rw [hnone] at hoffset
      contradiction
    · refine ih (List.forall_mem_cons.2 ⟨Nat.le_add_right _ _, fun line hline ↦ ?_⟩)
      have hle := hlines line hline
      omega

/-- The faults of a string are those of its body, and that it may not be closed. -/
theorem before_string {text : List Char} {body : Body} (hpos : 0 < body.stop)
    (h : Before body.stop body.faults) (features features' : List Feature) (error : LexicalError) :
    Before (if body.closed = true then stringLexeme text body.stop features body.faults
        else openStringLexeme body.stop features' (body.faults ++ [⟨error, 0, 0⟩])).length
      (if body.closed = true then stringLexeme text body.stop features body.faults
        else openStringLexeme body.stop features' (body.faults ++ [⟨error, 0, 0⟩])).faults := by
  split
  · exact h.mono (Nat.le_add_right _ _)
  · exact h.append (.single hpos)

theorem before_rawString (h : ['"', '"', '"'].isPrefixOf text = true) :
    Before (rawString text).length (rawString text).faults := by
  have hquotes : 0 < runLength '"' text := by
    obtain ⟨rest, rfl⟩ := List.isPrefixOf_iff_prefix.1 h
    simp [runLength]
  unfold rawString
  extract_lets quotes rest line body
  have hbody : quotes ≤ body.stop ∧ Before body.stop body.faults := by
    unfold body
    split
    · exact ⟨Nat.le_trans (Nat.le_add_right _ _) (le_stop_rawBlockBody _ _ _ _),
        before_rawBlockBody hquotes _ _ _ (List.forall_mem_nil _)⟩
    · exact ⟨le_stop_rawLineBody _ _ _, before_rawLineBody _ _ _⟩
  exact before_string (Nat.lt_of_lt_of_le hquotes hbody.1) hbody.2 _ _ _

theorem before_characterLiteral (text : List Char) :
    Before (characterLiteral text).length (characterLiteral text).faults := by
  have hescape (c : Char) (cs : List Char) :
      let e := if c == '\\' then escape cs else (⟨1, true, false⟩ : Escape)
      Before (1 + e.length) (e.faults 1) := by
    simp only
    split
    · exact before_escape cs 1
    · exact .nil
  unfold characterLiteral
  simp only
  split
  · exact .single Nat.zero_lt_one
  · next c cs _ =>
    split
    · exact .single Nat.zero_lt_two
    · split
      · exact .single Nat.zero_lt_one
      · have hfirst := hescape c cs
        generalize (if c == '\\' then escape cs else (⟨1, true, false⟩ : Escape)) = e at hfirst ⊢
        simp only at hfirst
        split
        · exact hfirst.mono (by simp only; omega)
        · split
          · exact (hfirst.mono (by simp only; omega)).append (.single (Nat.succ_pos _))
          · exact (hfirst.mono (by simp only; omega)).append (.single (by simp only; omega))

/-- A fault of a single token starts in it. -/
theorem before_plainLexeme (h : text ≠ []) :
    Before (plainLexeme text).length (plainLexeme text).faults := by
  unfold plainLexeme
  split
  · contradiction
  · split
    · unfold verbatimString
      extract_lets body
      have hpos : 2 ≤ body.stop := le_stop_verbatimBody 2 _
      split
      · exact .nil
      · exact .single (Nat.lt_of_lt_of_le Nat.zero_lt_two hpos)
    · split
      · exact .nil
      · split
        · exact .nil
        · split
          · next hnumber => exact before_number hnumber
          · split
            · split
              · next hraw => exact before_rawString hraw
              · exact before_string (le_stop_stringBody 1 _) (before_stringBody 1 _) _ _ _
            · split
              · exact before_characterLiteral _
              · split
                · exact .single Nat.zero_lt_one
                · split
                  · exact .nil
                  · exact .single Nat.zero_lt_one

/-! ### Where the faults of gaps and holes start -/

theorem start_le_gapFaults (start : Nat) (items : List GapItem) :
    ∀ f ∈ gapFaults start items, start ≤ f.start ∧ f.start < start + gapLength items := by
  induction items generalizing start with
  | nil => exact List.forall_mem_nil _
  | cons item items ih =>
    have hpos := item.length_pos
    have hlength : gapLength (item :: items) = item.length + gapLength items := rfl
    have hrest : ∀ f ∈ gapFaults (start + item.length) items,
        start ≤ f.start ∧ f.start < start + gapLength (item :: items) := by
      intro f hf
      obtain ⟨hle, hlt⟩ := ih _ f hf
      omega
    unfold gapFaults
    split
    · exact List.forall_mem_cons.2 ⟨⟨Nat.le_refl _, by simp only; omega⟩, hrest⟩
    · exact hrest

section Content

variable {scan : List Char → Group} {inDirective : Bool}

theorem start_le_holeTokens (depth start : Nat) (text : List Char) :
    ∀ f ∈ (holeTokens scan inDirective depth start text).faults, start ≤ f.start := by
  induction hn : text.length using Nat.strongRecOn generalizing depth start text with
  | ind n ih =>
    have hgap : ∀ f ∈ gapFaults start (gap inDirective text), start ≤ f.start :=
      fun f hf ↦ (start_le_gapFaults start _ f hf).1
    rw [holeTokens]
    split
    · exact hgap
    · next c cs hdrop =>
      split
      · exact hgap
      · have hlength := congrArg List.length hdrop
        simp only [List.length_drop, List.length_cons] at hlength
        refine List.forall_mem_append.2 ⟨List.forall_mem_append.2 ⟨hgap, ?_⟩, fun f hf ↦ ?_⟩
        · refine List.forall_mem_map.2 fun f _ ↦ ?_
          simp only [Fault.shift]
          omega
        · have hle := ih _ (by rw [List.length_drop]; omega) _ _ _ rfl f hf
          omega

theorem start_le_hole (o : Opening) (multiLine : Bool) (start : Nat) (text : List Char) :
    ∀ f ∈ (hole o multiLine scan inDirective start text).faults, start ≤ f.start := by
  have hle := le_stop_holeTokens scan inDirective 0 (start + o.braces) (text.drop o.braces)
  simp only [hole]
  refine List.forall_mem_append.2 ⟨fun f hf ↦ ?_, ?_⟩
  · exact Nat.le_of_add_right_le (start_le_holeTokens 0 (start + o.braces) _ f hf)
  · split
    · exact List.forall_mem_singleton.2 (by simp only; omega)
    · exact List.forall_mem_nil _

/-- That a string does not end is a fault of its start. Its other faults stand where they show. -/
theorem start_le_interpolatedBody (o : Opening) (multiLine : Bool) (textStart start : Nat)
    (text : List Char) :
    ∀ f ∈ (interpolatedBody o multiLine scan inDirective textStart start text).faults,
      f.start = 0 ∨ start ≤ f.start := by
  have further {m n : Nat} {faults : List Fault} (hmn : m ≤ n)
      (h : ∀ f ∈ faults, f.start = 0 ∨ n ≤ f.start) : ∀ f ∈ faults, f.start = 0 ∨ m ≤ f.start :=
    fun f hf ↦ (h f hf).imp_right (Nat.le_trans hmn)
  fun_induction interpolatedBody o multiLine scan inDirective textStart start text with
  | case1 | case2 => exact List.forall_mem_singleton.2 (.inl rfl)
  | case4 textStart start c cs _ _ _ run =>
    simp only [closedEnd]
    split
    · exact List.forall_mem_singleton.2 (.inr (Nat.le_refl _))
    · exact List.forall_mem_nil _
  | case6 textStart start c cs _ _ _ e ih =>
    refine List.forall_mem_append.2 ⟨?_, further (Nat.le_add_right _ _) ih⟩
    unfold Escape.faults
    split
    · exact List.forall_mem_nil _
    · exact List.forall_mem_singleton.2 (.inr (Nat.le_refl _))
  | case8 _ _ _ _ _ _ _ _ _ _ ih | case12 _ _ _ _ _ _ _ _ _ _ _ _ ih =>
    exact List.forall_mem_cons.2 ⟨.inr (Nat.le_refl _), further (Nat.le_add_right _ _) ih⟩
  | case9 textStart start c cs _ _ _ _ length _ holeStart part ih =>
    have htokens := le_stop_holeTokens scan inDirective 0 (holeStart + o.braces)
      (((c :: cs).drop length).drop o.braces)
    have hstart : start ≤ holeStart := Nat.le_add_right _ _
    have hstop : holeStart ≤ part.stop := by
      simp only [part, hole]
      omega
    refine List.forall_mem_append.2 ⟨fun f hf ↦ ?_, further (Nat.le_trans hstart hstop) ih⟩
    exact .inr (Nat.le_trans hstart (start_le_hole o multiLine holeStart _ f hf))
  | case3 _ _ _ _ _ _ _ ih | case5 _ _ _ _ _ _ _ _ _ ih | case7 _ _ _ _ _ _ _ _ _ _ ih
  | case10 _ _ _ _ _ _ _ _ _ _ _ ih | case11 _ _ _ _ _ _ _ _ _ _ _ _ ih
  | case13 _ _ _ _ _ _ _ _ _ ih =>
    exact further (Nat.le_add_right _ _) ih

/-- Every fault of a scan starts in front of `stop`, unless the line ends there. -/
def Fault.Enclosed (text : List Char) (stop : Nat) (faults : List Fault) : Prop :=
  ∀ f ∈ faults, f.start < stop ∨ (text.drop stop).head?.all isLineEnd = true

/-- A string that stops where its rest begins stops at the end of a line. -/
theorem lt_stop_interpolatedBody {o : Opening} (ho : 0 < o.braces) (multiLine : Bool)
    (textStart start : Nat) (text : List Char) :
    start < (interpolatedBody o multiLine scan inDirective textStart start text).stop ∨
      (interpolatedBody o multiLine scan inDirective textStart start text).stop = start ∧
        text.head?.all isLineEnd = true := by
  have further {n : Nat} {textStart start : Nat} {text : List Char} (hn : 0 < n) :
      start < (interpolatedBody o multiLine scan inDirective textStart (start + n) text).stop := by
    have hle := le_stop_interpolatedBody scan o multiLine inDirective textStart (start + n) text
    omega
  fun_cases interpolatedBody o multiLine scan inDirective textStart start text with
  | case1 => exact .inr ⟨rfl, rfl⟩
  | case2 c cs hend => exact .inr ⟨rfl, (Bool.and_eq_true_iff.1 hend).1⟩
  | case3 | case11 => exact .inl (further Nat.zero_lt_two)
  | case4 c cs _ _ _ run =>
    left
    simp only [closedEnd, run]
    split <;> omega
  | case5 c cs _ _ _ run =>
    refine .inl (further ?_)
    simp only [run]
    split <;> omega
  | case6 c cs => exact .inl (further (length_escape_pos cs))
  | case7 c cs _ _ _ _ length hrole =>
    exact .inl (further (length_braceRole_pos (Nat.succ_pos _) (.inl hrole)))
  | case8 c cs _ _ _ _ length hrole =>
    exact .inl (further (length_braceRole_pos (Nat.succ_pos _) (.inr hrole)))
  | case9 c cs _ _ _ _ length _ holeStart =>
    extract_lets part
    have hlt : holeStart < part.stop := lt_stop_hole ho multiLine inDirective holeStart _
    have hle := le_stop_interpolatedBody scan o multiLine inDirective part.stop part.stop
      (cs.drop (part.stop - start - 1))
    exact .inl (Nat.lt_of_le_of_lt (Nat.le_add_right start length) (Nat.lt_of_lt_of_le hlt hle))
  | case10 => exact .inl (further (Nat.succ_pos _))
  | case12 | case13 => exact .inl (further Nat.zero_lt_one)

/-- The faults of a string start in front of its end, or the line ends there. -/
theorem enclosed_interpolatedBody (hscan : ∀ text, Within (scan text).length (scan text).faults)
    {o : Opening} (ho : 0 < o.braces) (multiLine : Bool) (textStart : Nat) {start : Nat}
    {text whole : List Char} (hstart : 0 < start) (hwhole : whole.drop start = text) :
    Enclosed whole (interpolatedBody o multiLine scan inDirective textStart start text).stop
      (interpolatedBody o multiLine scan inDirective textStart start text).faults := by
  have hsingle {stop n m : Nat} {error : LexicalError} {faults : List Fault} (h : n < stop)
      (hfaults : Enclosed whole stop faults) : Enclosed whole stop (⟨error, n, m⟩ :: faults) :=
    List.forall_mem_cons.2 ⟨.inl h, hfaults⟩
  fun_induction interpolatedBody o multiLine scan inDirective textStart start text with
  | case1 textStart start => exact hsingle hstart (List.forall_mem_nil _)
  | case2 textStart start c cs _ => exact hsingle hstart (List.forall_mem_nil _)
  | case4 textStart start c cs _ _ _ run =>
    intro f hf
    obtain ⟨hmore, hf⟩ := List.mem_ite_nil_right.1 hf
    obtain rfl := List.mem_singleton.1 hf
    left
    simp only [closedEnd]
    omega
  | case6 textStart start c cs _ _ _ e ih =>
    have hpos : 0 < e.length := length_escape_pos cs
    have hle := le_stop_interpolatedBody scan o multiLine inDirective textStart (start + e.length)
      (cs.drop (e.length - 1))
    refine List.forall_mem_append.2 ⟨fun f hf ↦ .inl ?_, ih (by omega) (drop_add_of_drop hwhole hpos)⟩
    exact Nat.lt_of_lt_of_le (before_escape cs start f hf) hle
  | case8 textStart start c cs _ _ _ _ length hrole ih =>
    have hpos := length_braceRole_pos (Nat.succ_pos _) (.inr hrole)
    have hle := le_stop_interpolatedBody scan o multiLine inDirective textStart (start + length)
      (cs.drop (length - 1))
    refine hsingle ?_ (ih (by omega) (drop_add_of_drop hwhole hpos))
    simp only [Part.after]
    omega
  | case9 textStart start c cs _ _ _ _ length _ holeStart part ih =>
    have hlt : holeStart < part.stop := lt_stop_hole ho multiLine inDirective holeStart _
    have hle : start ≤ holeStart := Nat.le_add_right start length
    have hnext : whole.drop part.stop = cs.drop (part.stop - start - 1) := by
      have h := drop_add_of_drop hwhole (n := part.stop - start) (by omega)
      rwa [Nat.add_sub_cancel' (by omega)] at h
    have hhole := within_hole hscan o multiLine inDirective holeStart ((c :: cs).drop length)
    refine List.forall_mem_append.2 ⟨fun f hf ↦ ?_, ih (by omega) hnext⟩
    obtain ⟨hf, hstop⟩ := hhole f hf
    rcases lt_stop_interpolatedBody ho multiLine part.stop part.stop
      (cs.drop (part.stop - start - 1)) with hmore | ⟨hstops, hend⟩
    · exact .inl (Nat.lt_of_le_of_lt (Nat.le_trans hf hstop) hmore)
    · right
      rw [Part.after, hstops, hnext]
      exact hend
  | case12 textStart start c cs _ _ _ _ _ _ _ _ ih =>
    have hle := le_stop_interpolatedBody scan o multiLine inDirective textStart (start + 1) cs
    exact hsingle hle (ih (Nat.succ_pos _) (drop_add_of_drop hwhole Nat.zero_lt_one))
  | case3 textStart start c cs _ _ _ ih | case11 textStart start c cs _ _ _ _ _ _ _ _ ih =>
    exact ih (by omega) (drop_add_of_drop hwhole Nat.zero_lt_two)
  | case5 textStart start c cs _ _ _ run _ ih =>
    have hrun : 0 < run := by
      simp only [run]
      split <;> omega
    exact ih (by omega) (drop_add_of_drop hwhole hrun)
  | case7 textStart start c cs _ _ _ _ length hrole ih =>
    have hpos := length_braceRole_pos (Nat.succ_pos _) (.inl hrole)
    exact ih (by omega) (drop_add_of_drop hwhole hpos)
  | case10 textStart start c cs _ _ _ _ _ run _ ih =>
    exact ih (by omega) (drop_add_of_drop hwhole (Nat.succ_pos _))
  | case13 textStart start c cs _ _ _ _ _ ih =>
    exact ih (Nat.succ_pos _) (drop_add_of_drop hwhole Nat.zero_lt_one)

end Content

theorem enclosed_scanGroup (inDirective : Bool) (room : Nat) {text : List Char} (h : text ≠ []) :
    Enclosed text (scanGroup inDirective room text).length (scanGroup inDirective room text).faults := by
  have hplain : Enclosed text (plainLexeme text).toGroup.length (plainLexeme text).toGroup.faults :=
    fun f hf ↦ .inl (before_plainLexeme h f hf)
  cases room with
  | zero =>
    unfold scanGroup
    split
    · exact hplain
    · exact List.forall_mem_singleton.2 (.inl (List.length_pos_iff.2 h))
  | succ room =>
    unfold scanGroup
    split
    · exact hplain
    · next o ho =>
      exact enclosed_interpolatedBody (within_scanGroup inDirective room) (braces_pos ho) _ _
        (length_opening?_pos ho) rfl

/-! ### Literals among the pieces of a scan -/

/-- The fault starts outside of the piece. -/
def Fault.Outside (p : Piece) (f : Fault) : Prop :=
  f.start < p.start ∨ p.start + p.length ≤ f.start

/-- The piece is the literal that the text makes at its place, and among the faults those of the
literal come in one stretch. No other fault starts in the literal, and the text is not given up in
front of them. -/
structure Piece.LiteralOf (whole : List Char) (faults : List Fault) (p : Piece) : Prop where
  opening : opening? (whole.drop p.start) = none
  literal : IsLiteral (whole.drop p.start) (plainLexeme (whole.drop p.start))
  piece : p = (plainLexeme (whole.drop p.start)).piece.shift p.start
  faults : ∃ before after, faults =
      before ++ ((plainLexeme (whole.drop p.start)).faults.map (·.shift p.start) ++ after) ∧
    ¬GivesUp before ∧ (∀ f ∈ before, f.Outside p) ∧ ∀ f ∈ after, f.Outside p

/-- All literals among the pieces are literals of the text with their faults. -/
def LiteralsIn (whole : List Char) (pieces : List Piece) (faults : List Fault) : Prop :=
  ∀ p ∈ pieces, p.kind.isLiteral = true → p.LiteralOf whole faults

namespace Piece.LiteralOf

variable {whole cs : List Char} {fs gs : List Fault} {p : Piece}

/-- A fault that starts at the end of a line in front of a literal starts outside of it. -/
theorem outside_of_lineEnd (h : p.LiteralOf whole fs) {stop : Nat} (hle : stop ≤ p.start)
    (hend : (whole.drop stop).head?.all isLineEnd = true) : stop < p.start := by
  refine Nat.lt_of_le_of_ne hle fun heq ↦ ?_
  obtain ⟨c, cs, hdrop, hc⟩ := h.literal.not_isLineEnd
  rw [heq, hdrop] at hend
  exact Bool.false_ne_true (hc.symm.trans hend)

theorem behind (h : p.LiteralOf whole gs) (hgives : ¬GivesUp fs) (hfs : ∀ f ∈ fs, f.Outside p) :
    p.LiteralOf whole (fs ++ gs) := by
  obtain ⟨hopening, hliteral, hpiece, before, after, rfl, hgoes, hbefore, hafter⟩ := h
  refine ⟨hopening, hliteral, hpiece, fs ++ before, after, (List.append_assoc _ _ _).symm, ?_,
    List.forall_mem_append.2 ⟨hfs, hbefore⟩, hafter⟩
  rw [givesUp_append, not_or]
  exact ⟨hgives, hgoes⟩

theorem before (h : p.LiteralOf whole fs) (hgs : ∀ g ∈ gs, g.Outside p) :
    p.LiteralOf whole (fs ++ gs) := by
  obtain ⟨hopening, hliteral, hpiece, before, after, rfl, hgoes, hbefore, hafter⟩ := h
  refine ⟨hopening, hliteral, hpiece, before, after ++ gs, ?_, hgoes, hbefore,
    List.forall_mem_append.2 ⟨hafter, hgs⟩⟩
  rw [List.append_assoc, List.append_assoc]

theorem shift (h : p.LiteralOf cs fs) {n : Nat} (hdrop : whole.drop n = cs) :
    (p.shift n).LiteralOf whole (fs.map (·.shift n)) := by
  have hplace : whole.drop (p.shift n).start = cs.drop p.start := by
    rw [← hdrop, List.drop_drop]
    rfl
  have houtside {faults : List Fault} (h : ∀ f ∈ faults, f.Outside p) :
      ∀ f ∈ faults.map (·.shift n), f.Outside (p.shift n) := by
    refine List.forall_mem_map.2 fun f hf ↦ (h f hf).imp (Nat.add_lt_add_left · n) fun hle ↦ ?_
    simp only [Piece.shift, Fault.shift]
    omega
  obtain ⟨hopening, hliteral, hpiece, before, after, rfl, hgoes, hbefore, hafter⟩ := h
  refine ⟨hplace ▸ hopening, hplace ▸ hliteral, ?_, before.map (·.shift n), after.map (·.shift n),
    ?_, mt givesUp_shift.1 hgoes, houtside hbefore, houtside hafter⟩
  · rw [hplace]
    exact congrArg (·.shift n) hpiece
  · rw [hplace, List.map_append, List.map_append, List.map_map]
    simp [Function.comp_def, Fault.shift, Piece.shift, Nat.add_assoc]

end Piece.LiteralOf

namespace LiteralsIn

variable {whole cs : List Char} {fs gs : List Fault} {ps qs : List Piece}

theorem none (h : ∀ p ∈ ps, p.kind.isLiteral = false) : LiteralsIn whole ps fs :=
  fun p hp hliteral ↦ absurd (h p hp) (by rw [hliteral]; nofun)

theorem append (hps : LiteralsIn whole ps fs) (hqs : LiteralsIn whole qs fs) :
    LiteralsIn whole (ps ++ qs) fs := List.forall_mem_append.2 ⟨hps, hqs⟩

theorem shift (h : LiteralsIn cs ps fs) {n : Nat} (hdrop : whole.drop n = cs) :
    LiteralsIn whole (ps.map (·.shift n)) (fs.map (·.shift n)) :=
  List.forall_mem_map.2 fun p hp hliteral ↦ (h p hp hliteral).shift hdrop

/-- Faults in front of all literals belong to none of them. -/
theorem behind (h : LiteralsIn whole ps gs) (hgives : ¬GivesUp fs)
    (hfs : ∀ p ∈ ps, p.kind.isLiteral = true → ∀ f ∈ fs, f.start < p.start) :
    LiteralsIn whole ps (fs ++ gs) :=
  fun p hp hliteral ↦ (h p hp hliteral).behind hgives fun f hf ↦ .inl (hfs p hp hliteral f hf)

end LiteralsIn

/-- What holes rely on: a group covers the beginning of its text, its literals have their faults,
its faults lie in it, and nothing is left behind one that gives up. -/
structure ScansLiterals (scan : List Char → Group) : Prop where
  literals (text : List Char) : text ≠ [] → LiteralsIn text (scan text).pieces (scan text).faults
  covers (text : List Char) : text ≠ [] → (scan text).Covers text
  within (text : List Char) : Within (scan text).length (scan text).faults
  enclosed (text : List Char) : text ≠ [] → Enclosed text (scan text).length (scan text).faults
  le_length (text : List Char) : GivesUp (scan text).faults → text.length ≤ (scan text).length

section Content

variable {scan : List Char → Group} {inDirective : Bool}

theorem literals_holeTokens (hscan : ScansLiterals scan) (depth start : Nat)
    {text whole : List Char} (hwhole : whole.drop start = text) :
    LiteralsIn whole (holeTokens scan inDirective depth start text).pieces
      (holeTokens scan inDirective depth start text).faults := by
  induction hn : text.length using Nat.strongRecOn generalizing depth start text with
  | ind n ih =>
    rw [holeTokens]
    split
    · exact .none (List.forall_mem_nil _)
    · next c cs hdrop =>
      split
      · exact .none (List.forall_mem_nil _)
      · have hlength := congrArg List.length hdrop
        simp only [List.length_drop, List.length_cons] at hlength
        have hgap := (local_gapFaults start (gap inDirective text)).not_givesUp
        have hgapFaults := start_le_gapFaults start (gap inDirective text)
        generalize hhere : start + gapLength (gap inDirective text) = here at hgapFaults ⊢
        have hplace : whole.drop here = c :: cs := by
          rw [← hhere, ← List.drop_drop, hwhole, hdrop]
        have hne := List.cons_ne_nil c cs
        have hgroup := (hscan.literals _ hne).shift hplace
        have hwithin := hscan.within (c :: cs)
        have henclosed := hscan.enclosed _ hne
        have hall := hscan.le_length (c :: cs)
        obtain ⟨htiled, hpos⟩ := hscan.covers _ hne
        generalize scan (c :: cs) = group at hgroup hwithin henclosed hall htiled hpos ⊢
        have hnext : whole.drop (here + group.length) = cs.drop (group.length - 1) :=
          drop_add_of_drop hplace hpos
        have hrest := ih _ (by rw [List.length_drop]; omega) (bracketDepth depth group.pieces)
          (here + group.length) hnext rfl
        have hlater := @start_le_holeTokens scan inDirective (bracketDepth depth group.pieces)
          (here + group.length) (cs.drop (group.length - 1))
        have hplaced := (tiled_holeTokens hscan.covers inDirective (bracketDepth depth group.pieces)
          (here + group.length) (cs.drop (group.length - 1))).start_le_of_mem
        simp only [Part.after]
        generalize holeTokens scan inDirective (bracketDepth depth group.pieces)
          (here + group.length) (cs.drop (group.length - 1)) = rest at hrest hlater hplaced ⊢
        refine .append (fun p hp hliteral ↦ ?_) fun q hq hliteral ↦ ?_
        · -- a literal of the group: behind the gap, in front of what is left
          have hplaced : here ≤ p.start ∧ p.start + p.length ≤ here + group.length := by
            have hshifted := htiled.shift here
            exact ⟨hshifted.start_le_of_mem p hp, hshifted.le_of_mem p hp⟩
          refine ((hgroup p hp hliteral).behind hgap fun f hf ↦ .inl ?_).before fun f hf ↦ .inr ?_
          · exact Nat.lt_of_lt_of_le (hgapFaults f hf).2 hplaced.1
          · exact Nat.le_trans hplaced.2 (hlater f hf)
        · -- a literal of what is left, behind the group
          have hplaced := hplaced q hq
          have hgoes : ¬GivesUp group.faults := by
            intro hgives
            obtain ⟨d, ds, hbehind, -⟩ := (hrest q hq hliteral).literal.not_isLineEnd
            have hwhole := congrArg List.length hplace
            have hle := hall hgives
            rw [List.length_drop] at hwhole
            rw [List.drop_eq_nil_of_le (by omega)] at hbehind
            contradiction
          refine (hrest q hq hliteral).behind ?_ (List.forall_mem_append.2
            ⟨fun f hf ↦ .inl ?_, List.forall_mem_map.2 fun f hf ↦ .inl ?_⟩)
          · rw [givesUp_append, givesUp_shift, not_or]
            exact ⟨hgap, hgoes⟩
          · exact Nat.lt_of_lt_of_le (hgapFaults f hf).2 (Nat.le_of_add_right_le hplaced)
          · rcases henclosed f hf with hlt | hend
            · exact Nat.lt_of_lt_of_le (Nat.add_lt_add_left hlt here) hplaced
            · rw [drop_sub_one hpos c] at hnext
              rw [← hnext] at hend
              have hlt := (hrest q hq hliteral).outside_of_lineEnd hplaced hend
              have hle := hwithin f hf
              exact Nat.lt_of_le_of_lt (Nat.add_le_add_left (Nat.le_trans hle.1 hle.2) here) hlt

/-- Of the pieces of a hole only its tokens may be literals. -/
theorem mem_holeTokens_of_isLiteral {o : Opening} {multiLine : Bool} {start : Nat}
    {text : List Char} {p : Piece}
    (hp : p ∈ (hole o multiLine scan inDirective start text).pieces)
    (hliteral : p.kind.isLiteral = true) :
    p ∈ (holeTokens scan inDirective 0 (start + o.braces) (text.drop o.braces)).pieces := by
  have hbare {kind : Kind} {start length : Nat} (hp : p = .bare kind start length)
      (hkind : kind.isLiteral = false) : False := by
    rw [hp] at hliteral
    exact Bool.false_ne_true (hkind.symm.trans hliteral)
  simp only [hole, List.cons_append, List.append_assoc, List.mem_cons, List.mem_append,
    List.not_mem_nil, or_false] at hp
  rcases hp with hp | hp | hp | hp
  · exact (hbare hp rfl).elim
  · exact hp
  · split at hp
    · contradiction
    · exact (hbare (List.mem_singleton.1 hp) rfl).elim
  · exact (hbare hp rfl).elim

theorem literals_hole (hscan : ScansLiterals scan) (o : Opening) (multiLine : Bool) {start : Nat}
    {text whole : List Char} (hwhole : whole.drop start = text) :
    LiteralsIn whole (hole o multiLine scan inDirective start text).pieces
      (hole o multiLine scan inDirective start text).faults := by
  intro p hp hliteral
  have hp := mem_holeTokens_of_isLiteral hp hliteral
  have hplace : whole.drop (start + o.braces) = text.drop o.braces := by
    rw [← hwhole, List.drop_drop]
  have hstop := (tiled_holeTokens hscan.covers inDirective 0 (start + o.braces)
    (text.drop o.braces)).le_of_mem p hp
  refine (literals_holeTokens hscan 0 _ hplace p hp hliteral).before fun f hf ↦ .inr ?_
  obtain ⟨-, hf⟩ := List.mem_ite_nil_right.1 hf
  obtain rfl := List.mem_singleton.1 hf
  exact Nat.le_trans hstop (Nat.le_add_right _ _)

theorem isLiteral_textPieces {start stop : Nat} :
    ∀ p ∈ textPieces start stop, p.kind.isLiteral = false := by
  unfold textPieces
  split
  · exact List.forall_mem_singleton.2 rfl
  · exact List.forall_mem_nil _

/-- Literals stand in the holes of a string, behind their braces. -/
theorem lt_start_interpolatedBody (hscan : ∀ text, text ≠ [] → (scan text).Covers text)
    {o : Opening} (ho : 0 < o.braces) (multiLine : Bool) (textStart start : Nat)
    (text : List Char) :
    ∀ p ∈ (interpolatedBody o multiLine scan inDirective textStart start text).pieces,
      p.kind.isLiteral = true → start < p.start := by
  have hend {first last length : Nat} (start : Nat) :
      ∀ p ∈ textPieces first last ++ [Piece.bare .interpolatedEnd last length],
        p.kind.isLiteral = true → start < p.start := by
    refine fun p hp hliteral ↦ absurd hliteral (Bool.not_eq_true _ ▸ ?_)
    rcases List.mem_append.1 hp with hp | hp
    · exact isLiteral_textPieces p hp
    · rw [List.mem_singleton.1 hp]
      rfl
  fun_induction interpolatedBody o multiLine scan inDirective textStart start text with
  | case1 | case2 | case4 => exact hend _
  | case9 textStart start c cs _ _ _ _ length _ holeStart part ih =>
    have hlt : holeStart < part.stop := lt_stop_hole ho multiLine inDirective holeStart _
    have hle : start ≤ holeStart := Nat.le_add_right start length
    intro p hp hliteral
    rcases List.mem_append.1 hp with hp | hp
    · rcases List.mem_append.1 hp with hp | hp
      · exact absurd ((isLiteral_textPieces p hp).symm.trans hliteral) Bool.false_ne_true
      · have hbehind := (tiled_holeTokens hscan inDirective 0 (holeStart + o.braces) _).start_le_of_mem
          p (mem_holeTokens_of_isLiteral hp hliteral)
        omega
    · have hbehind := ih p hp hliteral
      omega
  | case3 _ _ _ _ _ _ _ ih | case5 _ _ _ _ _ _ _ _ _ ih | case6 _ _ _ _ _ _ _ _ ih
  | case7 _ _ _ _ _ _ _ _ _ _ ih | case8 _ _ _ _ _ _ _ _ _ _ ih
  | case10 _ _ _ _ _ _ _ _ _ _ _ ih | case11 _ _ _ _ _ _ _ _ _ _ _ _ ih
  | case12 _ _ _ _ _ _ _ _ _ _ _ _ ih | case13 _ _ _ _ _ _ _ _ _ ih =>
    exact fun p hp hliteral ↦ Nat.lt_of_le_of_lt (Nat.le_add_right _ _) (ih p hp hliteral)

theorem literals_interpolatedBody (hscan : ScansLiterals scan) {o : Opening} (ho : 0 < o.braces)
    (multiLine : Bool) (textStart start : Nat) {text whole : List Char}
    (hwhole : whole.drop start = text) :
    LiteralsIn whole (interpolatedBody o multiLine scan inDirective textStart start text).pieces
      (interpolatedBody o multiLine scan inDirective textStart start text).faults := by
  have hend {first last length : Nat} {faults : List Fault} :
      LiteralsIn whole (textPieces first last ++ [.bare .interpolatedEnd last length]) faults :=
    .append (.none isLiteral_textPieces) (.none (List.forall_mem_singleton.2 rfl))
  have hliterals := @lt_start_interpolatedBody scan inDirective hscan.covers o ho multiLine
  fun_induction interpolatedBody o multiLine scan inDirective textStart start text with
  | case1 | case2 | case4 => exact hend
  | case6 textStart start c cs _ _ _ e ih =>
    refine (ih (drop_add_of_drop hwhole (length_escape_pos cs))).behind
      (local_escape e start).not_givesUp fun p hp hliteral f hf ↦ ?_
    exact Nat.lt_trans (before_escape cs start f hf) (hliterals _ _ _ p hp hliteral)
  | case8 textStart start c cs _ _ _ _ length hrole ih =>
    have hpos := length_braceRole_pos (Nat.succ_pos _) (.inr hrole)
    refine (ih (drop_add_of_drop hwhole hpos)).behind
      (Local.single (Nat.le_refl start) (Nat.le_refl start) (by simp)).not_givesUp
      fun p hp hliteral ↦ List.forall_mem_singleton.2 ?_
    exact Nat.lt_of_le_of_lt (Nat.le_add_right _ _) (hliterals _ _ _ p hp hliteral)
  | case9 textStart start c cs _ _ _ _ length _ holeStart part ih =>
    have hlt : holeStart < part.stop := lt_stop_hole ho multiLine inDirective holeStart _
    have hle : start ≤ holeStart := Nat.le_add_right start length
    have hplace : whole.drop holeStart = (c :: cs).drop length := by
      rw [← hwhole, List.drop_drop]
    have hnext : whole.drop part.stop = cs.drop (part.stop - start - 1) := by
      have h := drop_add_of_drop hwhole (n := part.stop - start) (by omega)
      rwa [Nat.add_sub_cancel' (by omega)] at h
    have hhole := @literals_hole scan inDirective hscan o multiLine _ _ _ hplace
    have htiled := tiled_hole hscan.covers o multiLine inDirective holeStart
      ((c :: cs).drop length)
    have hlater := @start_le_interpolatedBody scan inDirective o multiLine part.stop part.stop
      (cs.drop (part.stop - start - 1))
    refine .append (.append (.none isLiteral_textPieces) fun p hp hliteral ↦ ?_)
      fun q hq hliteral ↦ ?_
    · have hbehind := (tiled_holeTokens hscan.covers inDirective 0 (holeStart + o.braces)
        _).start_le_of_mem p (mem_holeTokens_of_isLiteral hp hliteral)
      refine (hhole p hp hliteral).before fun f hf ↦ ?_
      rcases hlater f hf with hzero | hstart
      · left
        omega
      · exact .inr (Nat.le_trans (htiled.le_of_mem p hp) hstart)
    · refine (ih hnext q hq hliteral).behind (fun hgives ↦ ?_) fun f hf ↦ .inl ?_
      · -- a hole that gives the text up leaves nothing of it
        have hall : holeStart + ((c :: cs).drop length).length ≤ part.stop :=
          le_stop_hole_of_givesUp hscan.le_length
            (fun text h ↦ (hscan.covers text h).length_pos) o multiLine inDirective _ _ hgives
        rw [← hplace, List.length_drop] at hall
        obtain ⟨d, ds, hdrop, -⟩ := (ih hnext q hq hliteral).literal.not_isLineEnd
        have hbehind : part.stop < q.start := hliterals _ _ _ q hq hliteral
        rw [List.drop_eq_nil_of_le (by omega)] at hdrop
        contradiction
      · have hwithin := within_hole hscan.within o multiLine inDirective holeStart
          ((c :: cs).drop length) f hf
        exact Nat.lt_of_le_of_lt (Nat.le_trans hwithin.1 hwithin.2) (hliterals _ _ _ q hq hliteral)
  | case3 textStart start c cs _ _ _ ih | case11 textStart start c cs _ _ _ _ _ _ _ _ ih =>
    exact ih (drop_add_of_drop hwhole Nat.zero_lt_two)
  | case5 textStart start c cs _ _ _ run _ ih =>
    have hrun : 0 < run := by
      simp only [run]
      split <;> omega
    exact ih (drop_add_of_drop hwhole hrun)
  | case7 textStart start c cs _ _ _ _ length hrole ih =>
    exact ih (drop_add_of_drop hwhole (length_braceRole_pos (Nat.succ_pos _) (.inl hrole)))
  | case10 textStart start c cs _ _ _ _ _ run _ ih =>
    exact ih (drop_add_of_drop hwhole (Nat.succ_pos _))
  | case12 textStart start c cs _ _ _ _ _ _ _ _ ih =>
    refine (ih (drop_add_of_drop hwhole Nat.zero_lt_one)).behind
      (Local.single (Nat.le_refl start) (Nat.le_refl start) (by simp)).not_givesUp
      fun p hp hliteral ↦ List.forall_mem_singleton.2 ?_
    exact Nat.lt_of_le_of_lt (Nat.le_add_right _ _) (hliterals _ _ _ p hp hliteral)
  | case13 textStart start c cs _ _ _ _ _ ih =>
    exact ih (drop_add_of_drop hwhole Nat.zero_lt_one)

end Content

theorem literals_plainLexeme (hopening : opening? text = none) :
    LiteralsIn text (plainLexeme text).toGroup.pieces (plainLexeme text).toGroup.faults := by
  refine List.forall_mem_singleton.2 fun hliteral ↦ ?_
  have hshift : (·.shift 0) = (id : Fault → Fault) := by
    funext f
    simp [Fault.shift]
  refine ⟨hopening, isLiteral_plainLexeme hliteral, ?_, [], [], ?_, by simp [GivesUp],
    List.forall_mem_nil _, List.forall_mem_nil _⟩
  · simp [Lexeme.piece, Piece.shift]
  · simp [Lexeme.piece, Lexeme.toGroup, hshift]

/-- The literals of a scan are those of the text, with the faults of each. -/
theorem literals_scanGroup (inDirective : Bool) (room : Nat) {text : List Char} (h : text ≠ []) :
    LiteralsIn text (scanGroup inDirective room text).pieces
      (scanGroup inDirective room text).faults := by
  induction room generalizing text with
  | zero =>
    unfold scanGroup
    split
    · next hopening => exact literals_plainLexeme hopening
    · exact .none (List.forall_mem_singleton.2 rfl)
  | succ room ih =>
    unfold scanGroup
    split
    · next hopening => exact literals_plainLexeme hopening
    · next o ho =>
      have hscan : ScansLiterals (scanGroup inDirective room) :=
        ⟨fun _ ↦ ih, fun _ ↦ covers_scanGroup inDirective room, within_scanGroup inDirective room,
          fun _ ↦ enclosed_scanGroup inDirective room,
          le_length_scanGroup_of_givesUp inDirective room⟩
      refine List.forall_mem_cons.2 ⟨nofun, ?_⟩
      exact literals_interpolatedBody hscan (braces_pos ho) _ _ _ rfl

theorem isLiteral_directiveOpening (text : List Char) :
    ∀ p ∈ (directiveOpening text).pieces, p.kind.isLiteral = false := by
  have hname (rest : List Char) (start : Nat) :
      ((nameLexeme false rest).piece.shift start).kind.isLiteral = false :=
    isLiteral_nameLexeme false rest
  unfold directiveOpening
  simp only
  split
  · exact List.forall_mem_cons.2 ⟨rfl, List.forall_mem_singleton.2 rfl⟩
  · split
    · split
      · refine List.forall_mem_append.2
          ⟨List.forall_mem_cons.2 ⟨rfl, List.forall_mem_singleton.2 (hname _ _)⟩, ?_⟩
        split
        · exact List.forall_mem_nil _
        · exact List.forall_mem_singleton.2 rfl
      · exact List.forall_mem_cons.2 ⟨rfl, List.forall_mem_singleton.2 (hname _ _)⟩
    · exact List.forall_mem_singleton.2 rfl

/-- Of the faults that are reported up to the end of all reading those of a literal start in it, and
no others. -/
theorem Piece.LiteralOf.filter_upToGivingUp {whole : List Char} {faults : List Fault} {p : Piece}
    (h : p.LiteralOf whole faults) :
    (upToGivingUp faults).filter (fun f ↦ p.start ≤ f.start && f.start < p.start + p.length) =
      (plainLexeme (whole.drop p.start)).faults.map (·.shift p.start) := by
  have hnone {fs : List Fault} (hfs : ∀ f ∈ fs, f.Outside p) :
      fs.filter (fun f ↦ p.start ≤ f.start && f.start < p.start + p.length) = [] := by
    refine List.filter_eq_nil_iff.2 fun f hf hin ↦ ?_
    have hout := hfs f hf
    simp only [Bool.and_eq_true, decide_eq_true_eq] at hin
    unfold Fault.Outside at hout
    omega
  obtain ⟨-, hliteral, hpiece, before, after, hfaults, hgoes, hbefore, hafter⟩ := h
  have hown : ¬GivesUp ((plainLexeme (whole.drop p.start)).faults.map (·.shift p.start)) :=
    mt givesUp_shift.1 (local_plainLexeme _).not_givesUp
  have hlength : p.length = (plainLexeme (whole.drop p.start)).length := congrArg (·.length) hpiece
  obtain ⟨c, cs, hdrop, -⟩ := hliteral.not_isLineEnd
  have hne : whole.drop p.start ≠ [] := by
    rw [hdrop]
    exact List.cons_ne_nil c cs
  have hstart := before_plainLexeme hne
  rw [hfaults, upToGivingUp_append hgoes, upToGivingUp_append hown, List.filter_append,
    List.filter_append, hnone hbefore, hnone fun f hf ↦ hafter f (upToGivingUp_subset _ hf),
    List.append_nil, List.nil_append, List.filter_eq_self]
  refine List.forall_mem_map.2 fun f hf ↦ ?_
  have hlt := hstart f hf
  exact Bool.and_eq_true_iff.2 ⟨decide_eq_true (Nat.le_add_right _ _),
    decide_eq_true (Nat.add_lt_add_left (hlength ▸ hlt) _)⟩

end CSharpCheck
