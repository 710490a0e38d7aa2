import CSharpCheck.Proofs.Scanning.ActiveTexts
import CSharpCheck.Proofs.Scanning.GivingUp
import CSharpCheck.Proofs.Scanning.RawStrings

/-!
# Literals where a text goes on

Which scanner the first characters of a literal lead to, and what a reading step outside of
directives makes of its answer.
-/

namespace CSharpCheck

variable {n : Nat} {text : List Char}

theorem upToGivingUp_eq_nil_iff {faults : List Fault} :
    Fault.upToGivingUp faults = [] ↔ faults = [] := by
  cases faults with
  | nil => simp [Fault.upToGivingUp]
  | cons f fs =>
    rw [Fault.upToGivingUp]
    split
    · simp
    · simp

/-- Outside of directives everything that a scan finds is heard. -/
theorem audible_false (faults : List Fault) :
    Fault.audible false faults = Fault.upToGivingUp faults := by
  simp [Fault.audible]

theorem plainLexeme_quote (cs : List Char) : plainLexeme ('"' :: cs) =
    if ['"', '"', '"'].isPrefixOf ('"' :: cs) then rawString ('"' :: cs)
    else regularString ('"' :: cs) := by
  have hname : nameStarts ('"' :: cs) = false := by
    show startsName '"' = false
    decide +kernel
  have hnumber : numberStarts ('"' :: cs) = false := rfl
  simp [plainLexeme, hname, hnumber]

/-- Three quotes open a raw string wherever a token is scanned. -/
theorem scanGroup_quoteMarks (hn : 3 ≤ n) (inDirective : Bool) (room : Nat) :
    scanGroup inDirective room (quoteMarks n ++ text) =
      (rawString (quoteMarks n ++ text)).toGroup := by
  obtain ⟨m, rfl⟩ := Nat.exists_eq_add_of_le' hn
  have hopening : opening? ('"' :: (quoteMarks (m + 2) ++ text)) = none := by
    simp [opening?, runLength]
  have hraw : ['"', '"', '"'].isPrefixOf ('"' :: (quoteMarks (m + 2) ++ text)) = true := by
    simp [quoteMarks, List.replicate_succ]
  show scanGroup inDirective room ('"' :: (quoteMarks (m + 2) ++ text)) =
    (rawString ('"' :: (quoteMarks (m + 2) ++ text))).toGroup
  rw [scanGroup, hopening]
  simp only [plainLexeme_quote, hraw, if_true]

/-- Every piece becomes a token with its features. -/
theorem Cursor.exists_token_of_mem (c : Cursor) {p : Piece} {pieces : List Piece}
    (hp : p ∈ pieces) : ∃ t ∈ c.tokens pieces, t.features = p.features := by
  cases pieces with
  | nil => contradiction
  | cons q qs =>
    rcases List.mem_cons.1 hp with rfl | hp
    · exact ⟨_, List.mem_cons_self, rfl⟩
    · exact ⟨_, List.mem_cons_of_mem _ (List.mem_map_of_mem hp), rfl⟩

/-- A reading step outside of directives, in front of a token. -/
theorem TokenSource.read_of_gap_nil {s : TokenSource} (hfinished : s.finished = false)
    (hdirective : s.inDirective = false) (hgap : gap false s.cursor.rest = [])
    (hrest : s.cursor.rest.head?.any (· != '#') = true) :
    ∃ r, s.read = some r ∧
      r.tokens = s.cursor.tokens (scanGroup false maxOpenHoles s.cursor.rest).pieces ∧
      r.findings = (Fault.upToGivingUp
        (scanGroup false maxOpenHoles s.cursor.rest).faults).map s.cursor.finding ∧
      r.source.cursor.rest =
        s.cursor.rest.drop (scanGroup false maxOpenHoles s.cursor.rest).length := by
  have hne : s.cursor.rest ≠ [] := by
    intro hnil
    rw [hnil] at hrest
    contradiction
  have hopens : s.opensDirective s.cursor = false := by
    rw [opensDirective, Bool.and_eq_false_iff, Bool.and_eq_false_iff]
    left
    left
    rw [Bool.eq_false_iff]
    intro hhash
    rw [beq_iff_eq.1 hhash] at hrest
    contradiction
  have hbehind : s.behindGap = s.cursor := by
    rw [behindGap, hdirective, hgap]
    rfl
  have hfindings : s.gapFindings = [] := by
    rw [gapFindings, hdirective, hgap]
    rfl
  have hgroup : s.groupAt s.cursor = scanGroup false maxOpenHoles s.cursor.rest := by
    rw [groupAt, hopens, hdirective]
    rfl
  rw [read_eq hfinished, hbehind, hfindings, hdirective, Bool.false_and,
    if_neg Bool.false_ne_true, if_neg hne]
  refine ⟨_, rfl, ?_, ?_, ?_⟩
  · rw [readGroup_eq, hgroup]
  · rw [readGroup_eq, hgroup, hdirective, audible_false]
    rfl
  · rw [readGroup_eq, hgroup]
    rfl

end CSharpCheck
