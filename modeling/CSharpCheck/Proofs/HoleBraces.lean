import CSharpCheck.Proofs.Scanning.HoleMarks
import CSharpCheck.Proofs.Scanning.Literals
import CSharpCheck.Proofs.TokenGrammar
import CSharpCheck.Proofs.TruePositions

/-!
# The braces of holes

The tokens of a text show the marks of its interpolated strings: a string about which nothing is
found opens in one of the documented ways, and each of its holes opens with the braces that the
dollars ask for. It closes with as many braces as are there, up to that number.
-/

namespace CSharpCheck

open Phrase

/-- What a token of a text shows. -/
def Token.mark (text : List Char) (t : Token) : Mark :=
  ⟨t.kind, t.span.start.offset, t.span.stop.offset, t.text.toList,
    text.drop t.span.start.offset⟩

theorem Token.kinds_mark (text : List Char) (ts : List Token) :
    (ts.map (Token.mark text)).map (·.kind) = ts.map (·.kind) := by
  rw [List.map_map]
  rfl

/-- The messages of directives stand outside of all items. -/
theorem Matching.kind_ne {heard : Nat → Nat → Prop} {f : Form} {ms : List Mark}
    (h : Matching heard f ms) (hf : f ≠ .stream) : ∀ m ∈ ms, m.kind ≠ .directiveMessage := by
  induction h with
  | nil => exact List.forall_mem_nil _
  | single hkind _ ih =>
    refine List.forall_mem_cons.2 ⟨fun hmessage ↦ ?_, ih hf⟩
    rw [hmessage] at hkind
    contradiction
  | string hkind _ _ _ ihcontent ihitems =>
    refine List.forall_mem_cons.2 ⟨by simp [hkind], List.forall_mem_append.2 ⟨?_, ihitems hf⟩⟩
    exact ihcontent nofun
  | text hkind _ ih => exact List.forall_mem_cons.2 ⟨by simp [hkind], ih hf⟩
  | @hole _ _ _ format _ _ _ _ hopening hclosing _ _ hformat _ ihitems ihcontent =>
    have hkinds : ∀ m ∈ format, m.kind ≠ .directiveMessage := by
      intro m hm
      have hmem : m.kind ∈ format.map (·.kind) := List.mem_map_of_mem hm
      rcases hformat with hnone | hone
      · rw [hnone] at hmem
        contradiction
      · rw [hone, List.mem_singleton] at hmem
        simp [hmem]
    refine List.forall_mem_cons.2 ⟨by simp [hopening], List.forall_mem_append.2
      ⟨ihitems nofun, List.forall_mem_append.2 ⟨hkinds, List.forall_mem_cons.2 ⟨?_, ?_⟩⟩⟩⟩
    · simp [hclosing]
    · exact ihcontent hf
  | stringEnd hkind _ => exact List.forall_mem_singleton.2 (by simp [hkind])
  | streamItems | directive | streamEnd => contradiction

namespace Cursor

variable {c : Cursor} {text : List Char}

/-- The tokens of pieces that stand in the text show what the pieces do. -/
theorem In.map_mark_tokens (h : c.In text) {pieces : List Piece}
    (hstop : ∀ p ∈ pieces, p.start + p.length ≤ c.rest.length)
    (hkind : ∀ p ∈ pieces, p.kind ≠ .directiveMessage) :
    (c.tokens pieces).map (Token.mark text) =
      (pieces.map (Piece.mark c.rest)).map (·.shift c.position.offset) := by
  have hmark (atLineStart : Bool) {p : Piece} (hp : p ∈ pieces) :
      (c.token atLineStart p).mark text = (p.mark c.rest).shift c.position.offset := by
    have hle := hstop p hp
    have hplace {n : Nat} (hn : n ≤ c.rest.length) :
        (c.positionAt n).offset = c.position.offset + n := by
      rw [Cursor.offset_positionAt, Nat.min_eq_left hn]
    simp only [Token.mark, Cursor.token, Piece.mark, Mark.shift, if_neg (hkind p hp),
      String.toList_ofList, hplace hle, hplace (Nat.le_trans (Nat.le_add_right _ _) hle), h.rest,
      List.drop_drop]
  cases pieces with
  | nil => rfl
  | cons p ps =>
    rw [Cursor.tokens, List.map_cons, List.map_cons, List.map_cons, hmark _ List.mem_cons_self,
      List.map_map, List.map_map]
    congr 1
    apply List.map_congr_left
    intro q hq
    exact hmark false (List.mem_cons_of_mem p hq)

end Cursor

/-- The marks are those of the rest of a text, which starts on a directive line or outside. -/
def MarksRemain (heard : Nat → Nat → Prop) (inDirective : Bool) (ms : List Mark) : Prop :=
  match inDirective with
  | false => Matching heard .stream ms
  | true => ∃ body rest, ms = body ++ rest ∧ Derives .line (body.map (·.kind)) ∧
      Matching heard .stream rest

/-- Something is found between two places of a text. -/
def FoundBetween (findings : List Finding) (start stop : Nat) : Prop :=
  ∃ x ∈ findings, start ≤ x.span.start.offset ∧ x.span.start.offset < stop

namespace TokenSource

variable {s : TokenSource} {r : Reading} {text : List Char}

/-- What a scan outside of directives shows is shown by the tokens that are read. -/
theorem matching_scan {c : Cursor} (hc : c.In text) (hrest : c.rest ≠ []) {findings : List Finding}
    (hfindings : ∀ f ∈ Fault.upToGivingUp (scanGroup false maxOpenHoles c.rest).faults,
      c.finding f ∈ findings) :
    Matching (FoundBetween findings) .items
      ((c.tokens (scanGroup false maxOpenHoles c.rest).pieces).map (Token.mark text)) := by
  have hmatch := matching_scanGroup false maxOpenHoles hrest
  have hcovers := covers_scanGroup false maxOpenHoles hrest
  have hwithin := within_scanGroup false maxOpenHoles c.rest
  have hlength := length_scanGroup_le false maxOpenHoles c.rest
  generalize scanGroup false maxOpenHoles c.rest = group
    at hfindings hmatch hcovers hwithin hlength ⊢
  rw [hc.map_mark_tokens]
  · apply hmatch.shift
    rintro x y ⟨f, hf, hx, hy⟩
    obtain ⟨hle, hstop⟩ := hwithin f (Fault.upToGivingUp_subset _ hf)
    have hplace : (c.finding f).span.start.offset = c.position.offset + f.start := by
      rw [Cursor.finding, Cursor.offset_positionAt, Nat.min_eq_left (by omega)]
    refine ⟨c.finding f, hfindings f hf, ?_, ?_⟩
    · rw [hplace]
      exact Nat.add_le_add_left hx _
    · rw [hplace]
      exact Nat.add_lt_add_left hy _
  · intro p hp
    exact Nat.le_trans (hcovers.tiled.le_of_mem p hp) hlength
  · intro p hp
    exact hmatch.kind_ne (by simp) _ (List.mem_map_of_mem hp)

/-- The rest of a text may follow what is read of a directive line or outside of all of them. -/
theorem marksRemain_readGroup {c : Cursor} (hc : c.In text) (hrest : c.rest ≠ [])
    {fs findings : List Finding} (hfindings : (s.readGroup fs c).findings ⊆ findings)
    {ms : List Mark}
    (hms : MarksRemain (FoundBetween findings) (s.readGroup fs c).source.inDirective ms) :
    MarksRemain (FoundBetween findings) s.inDirective
      ((s.readGroup fs c).tokens.map (Token.mark text) ++ ms) := by
  rw [readGroup_eq] at hfindings hms ⊢
  simp only at hfindings hms ⊢
  unfold groupAt at hfindings ⊢
  split
  · next hopens =>
    obtain ⟨opening, hopening, hline⟩ := derives_directiveOpening c.rest
    have hout : s.inDirective = false := by
      rw [opensDirective, Bool.and_eq_true, Bool.not_eq_true'] at hopens
      exact hopens.2
    rw [hopens, Bool.or_true] at hms
    obtain ⟨body, rest, rfl, hbody, hstream⟩ := hms
    have hkinds := Cursor.kinds_tokens c (directiveOpening c.rest).pieces
    rw [hopening] at hkinds
    obtain ⟨t, ts, htokens, ht, hts⟩ := List.map_eq_cons_iff.1 hkinds
    rw [htokens, hout, List.map_cons, List.cons_append, ← List.append_assoc]
    refine .directive ht ?_ hstream
    rw [List.map_append, Token.kinds_mark, hts]
    exact hline _ hbody
  · next hopens =>
    rw [if_neg hopens] at hfindings
    rw [Bool.eq_false_iff.2 hopens, Bool.or_false] at hms
    cases hin : s.inDirective with
    | false =>
      rw [hin] at hms hfindings
      refine .streamItems (matching_scan hc hrest fun f hf ↦ ?_) hms
      rw [audible_false] at hfindings
      exact hfindings (List.mem_append_right fs (List.mem_map_of_mem hf))
    | true =>
      rw [hin] at hms
      obtain ⟨body, rest, rfl, hbody, hstream⟩ := hms
      refine ⟨_, rest, (List.append_assoc _ body rest).symm, ?_, hstream⟩
      rw [List.map_append, Token.kinds_mark, Cursor.kinds_tokens]
      exact .lineItems (derives_scanGroup true maxOpenHoles c.rest) hbody

/-- A reading step ends the text, or gives tokens that the rest of the text may follow. -/
theorem marksRemain_of_read (hs : s.cursor.In text) (h : s.read = some r) {findings : List Finding}
    (hfindings : r.findings ⊆ findings) :
    (r.source.finished = true ∧ s.inDirective = false ∧ r.tokens.map (·.kind) = [.endOfFile]) ∨
      (r.source.finished = false ∧ ∀ ms,
        MarksRemain (FoundBetween findings) r.source.inDirective ms →
          MarksRemain (FoundBetween findings) s.inDirective
            (r.tokens.map (Token.mark text) ++ ms)) := by
  have hc := hs.passGap (gap s.inDirective s.cursor.rest)
  rw [read_eq (read_cases h).1] at h
  split at h
  · next hends =>
    cases h
    refine .inr ⟨rfl, fun ms hms ↦ ?_⟩
    rw [(Bool.and_eq_true_iff.1 hends).1]
    exact ⟨_, ms, rfl, .lineEnd, hms⟩
  · next hgoes =>
    split at h
    · next hrest =>
      cases h
      have hout : s.inDirective = false := by simpa [hrest] using hgoes
      exact .inl ⟨rfl, hout, rfl⟩
    · next hrest =>
      cases h
      exact .inr ⟨rfl, fun ms hms ↦ marksRemain_readGroup hc hrest hfindings hms⟩

/-- What is read from some place on shows its marks. -/
theorem marksRemain_readUpTo {limit : Nat} (hs : s.cursor.In text) (hfinished : s.finished = false)
    (hlimit : s.stepsLeft ≤ limit) {findings : List Finding}
    (hfindings : (readUpTo limit s).flatMap (·.findings) ⊆ findings) :
    MarksRemain (FoundBetween findings) s.inDirective
      (((readUpTo limit s).flatMap (·.tokens)).map (Token.mark text)) := by
  induction limit generalizing s with
  | zero =>
    simp only [stepsLeft, hfinished, Bool.false_eq_true, if_false] at hlimit
    omega
  | succ limit ih =>
    obtain ⟨r, hread⟩ := exists_read hfinished
    have hsteps := stepsLeft_lt_of_read hread
    simp only [readUpTo, hread, List.flatMap_cons, List.map_append] at hfindings ⊢
    obtain ⟨hfirst, hrest⟩ := List.append_subset.1 hfindings
    rcases marksRemain_of_read hs hread hfirst with ⟨hends, hout, hkinds⟩ | ⟨hgoes, hremain⟩
    · rw [readUpTo_of_finished hends, hout]
      obtain ⟨t, ht, hkind⟩ := List.map_eq_singleton_iff.1 hkinds
      rw [ht]
      exact .streamEnd hkind
    · exact hremain _ (ih (in_of_read hs hread).source hgoes (by omega) hrest)

end TokenSource

/-- In every text an interpolated string about which nothing is found opens in one of the documented
ways, and each of its holes shows its marks: it opens with the braces that the dollars ask for, and
closes with one brace at least and with no more than those. -/
theorem holes_marked (text : List Char) :
    Matching (FoundBetween (tokenFindings text)) .stream
      ((tokensOf text).map (Token.mark text)) :=
  TokenSource.marksRemain_readUpTo (s := .ofText text) (Cursor.in_ofText text) rfl (Nat.le_refl _)
    (List.Subset.refl _)

/-- Nothing is found about a hole that closes with one brace where its dollars ask for two. -/
theorem hole_closed_by_fewer_braces :
    tokenFindings "$$\"\"\"\x7b\x7ba\x7d\"\"\"".toList = [] ∧
      (tokensOf "$$\"\"\"\x7b\x7ba\x7d\"\"\"".toList).map (fun t ↦ (t.kind, t.text)) =
        [(.interpolatedStart, "$$\"\"\""), (.holeStart, "\x7b\x7b"), (.identifier, "a"),
          (.holeEnd, "\x7d"), (.interpolatedEnd, "\"\"\""), (.endOfFile, "")] := by
  constructor
  · decide +kernel
  · decide +kernel

end CSharpCheck
