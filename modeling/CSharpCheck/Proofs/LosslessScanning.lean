import CSharpCheck.Proofs.Scanning.ActiveTexts
import CSharpCheck.Proofs.Scanning.Cursors

/-!
# Reading loses nothing and doubles nothing

The tokens of a text stand in it one after the other. Each is spelled as the text is at its span,
and between two of them there is nothing but white space and comments. The last one, and no other,
is the end of the text.
-/

namespace CSharpCheck

/-- The characters of the text from one offset to another. -/
def slice (text : List Char) (start stop : Nat) : List Char := (text.drop start).take (stop - start)

theorem slice_self (text : List Char) (n : Nat) : slice text n n = [] := by
  rw [slice, Nat.sub_self, List.take_zero]

theorem slice_append {text : List Char} {start mid stop : Nat} (h : start ≤ mid)
    (h' : mid ≤ stop) : slice text start mid ++ slice text mid stop = slice text start stop := by
  rw [slice, slice, slice, show stop - start = (mid - start) + (stop - mid) by omega, List.take_add,
    List.drop_drop, Nat.add_sub_cancel' h]

theorem slice_append_drop {text : List Char} {start stop : Nat} (h : start ≤ stop) :
    slice text start stop ++ text.drop stop = text.drop start := by
  rw [slice, ← Nat.add_sub_cancel' h, ← List.drop_drop, Nat.add_sub_cancel_left,
    List.take_append_drop]

namespace Token

/-- The token is spelled as the text is at its span, but for white space at the end of a
message. -/
def Quotes (t : Token) (text : List Char) : Prop :=
  let characters := slice text t.span.start.offset t.span.stop.offset
  t.text = String.ofList (if t.kind = .directiveMessage then trimEnd characters else characters)

/-- The token is the end of the text. -/
structure Ends (t : Token) (text : List Char) : Prop where
  kind : t.kind = .endOfFile
  quotes : t.Quotes text
  span : t.span = .point (Position.first.after text text.length)

end Token

/-- The tokens spell the text from `start` to its end, with gaps before, between and after them. -/
def Spell (text : List Char) : (start : Nat) → List Token → Prop
  | start, [] => IsGap (slice text start text.length) []
  | start, t :: ts =>
    start ≤ t.span.start.offset ∧ t.span.start.offset ≤ t.span.stop.offset ∧
      IsGap (slice text start t.span.start.offset) (text.drop t.span.start.offset) ∧
      t.Quotes text ∧ Spell text t.span.stop.offset ts

/-- The tokens, none of which is the end of the text, spell the text from `start` to `stop`. -/
inductive SpellTo (text : List Char) : (start : Nat) → List Token → (stop : Nat) → Prop where
  | nil (start : Nat) : SpellTo text start [] start
  | gap {start mid stop : Nat} {ts : List Token} : start ≤ mid →
      IsGap (slice text start mid) (text.drop mid) → SpellTo text mid ts stop →
      SpellTo text start ts stop
  | token {t : Token} {stop : Nat} {ts : List Token} : t.span.start.offset ≤ t.span.stop.offset →
      t.Quotes text → t.kind ≠ .endOfFile → SpellTo text t.span.stop.offset ts stop →
      SpellTo text t.span.start.offset (t :: ts) stop

namespace SpellTo

variable {text : List Char} {start mid stop : Nat} {ts us : List Token}

theorem le (h : SpellTo text start ts stop) : start ≤ stop := by
  induction h with
  | nil => exact Nat.le_refl _
  | gap hle _ _ ih => exact Nat.le_trans hle ih
  | token hle _ _ _ ih => exact Nat.le_trans hle ih

theorem append (hts : SpellTo text start ts mid) (hus : SpellTo text mid us stop) :
    SpellTo text start (ts ++ us) stop := by
  induction hts with
  | nil => exact hus
  | gap hle hgap _ ih => exact .gap hle hgap (ih hus)
  | token hle hquotes hkind _ ih => exact .token hle hquotes hkind (ih hus)

theorem kind_ne (h : SpellTo text start ts stop) : ∀ t ∈ ts, t.kind ≠ .endOfFile := by
  induction h with
  | nil => exact List.forall_mem_nil _
  | gap _ _ _ ih => exact ih
  | token _ _ hkind _ ih => exact List.forall_mem_cons.2 ⟨hkind, ih⟩

/-- Tokens that spell a part of the text, behind a gap and in front of tokens that spell the rest,
spell all of it. -/
theorem spell (h : SpellTo text mid ts stop) (hle : start ≤ mid)
    (hgap : IsGap (slice text start mid) (text.drop mid))
    (hus : ∀ k ≤ stop, IsGap (slice text k stop) (text.drop stop) → Spell text k us) :
    Spell text start (ts ++ us) := by
  induction h generalizing start with
  | nil => exact hus start hle hgap
  | gap hle' hgap' _ ih =>
    refine ih (Nat.le_trans hle hle') ?_ hus
    rw [← slice_append hle hle']
    exact IsGap.append (by rwa [slice_append_drop hle']) hgap'
  | token hspan hquotes _ _ ih =>
    refine ⟨hle, hspan, hgap, hquotes, ih (Nat.le_refl _) ?_ hus⟩
    rw [slice_self]
    exact .nil

end SpellTo

namespace Cursor

variable {c : Cursor} {text : List Char}

theorem In.slice_eq (h : c.In text) (m n : Nat) :
    slice text (c.positionAt m).offset (c.positionAt (m + n)).offset =
      (c.rest.drop m).take n := by
  rw [slice, ← h.drop_rest, List.take_eq_take_iff, h.drop_rest, h.offset_positionAt,
    h.offset_positionAt, List.length_drop]
  omega

/-- Pieces that cover what is left of the text become tokens that spell it. -/
theorem In.spellTo_tokens (h : c.In text) {start stop : Nat} {ps : List Piece}
    (hps : Tiled start (c.rest.drop start) ps stop) :
    SpellTo text (c.positionAt start).offset (c.tokens ps) (c.positionAt stop).offset := by
  generalize hrest : c.rest.drop start = rest at hps
  induction hps generalizing c with
  | nil => exact .nil _
  | @gap start n stop rest ps hgap hps ih =>
    have hspan := (h.span (Nat.le_add_right start n)).le
    refine .gap hspan ?_ (ih h (by rw [← hrest, List.drop_drop]))
    rw [h.slice_eq, ← h.drop_rest, ← List.drop_drop, hrest]
    exact hgap
  | @piece start stop rest p ps hstart hkind hps ih =>
    subst hstart
    have htail := ih (c := { c with lineUsed := true }) ⟨h.position, h.rest⟩
      (by rw [← hrest, List.drop_drop])
    have hfirst : SpellTo text (c.token (!c.lineUsed) p).span.start.offset
        [c.token (!c.lineUsed) p] (c.positionAt (p.start + p.length)).offset := by
      refine .token (h.span (Nat.le_add_right _ _)).le ?_ hkind (.nil _)
      simp only [Token.Quotes, token, h.slice_eq]
    have htokens : c.tokens (p :: ps) =
        [c.token (!c.lineUsed) p] ++ tokens { c with lineUsed := true } ps := by
      cases ps <;> rfl
    rw [htokens]
    exact hfirst.append htail

end Cursor

namespace TokenSource

variable {s : TokenSource} {r : Reading} {text : List Char}

/-- The gap in front of a reading step. -/
theorem spellTo_passGap (hs : s.cursor.In text) :
    let c := s.cursor.passGap (gap s.inDirective s.cursor.rest)
    s.cursor.position.offset ≤ c.position.offset ∧
      IsGap (slice text s.cursor.position.offset c.position.offset)
        (text.drop c.position.offset) := by
  obtain ⟨-, hposition⟩ := s.cursor.passGap_eq (gap s.inDirective s.cursor.rest)
  have hgap := isGap_take_gap s.inDirective s.cursor.rest
  have hslice := hs.slice_eq 0 (gapLength (gap s.inDirective s.cursor.rest))
  have hle := (hs.span (Nat.zero_le (gapLength (gap s.inDirective s.cursor.rest)))).le
  simp only [Cursor.positionAt_zero, Nat.zero_add, List.drop_zero] at hslice hle
  simp only [hposition]
  refine ⟨hle, ?_⟩
  rw [hslice, ← hs.drop_rest]
  exact hgap

/-- A group that is read at a cursor spells what it takes of the text. -/
theorem spellTo_readGroup (s : TokenSource) (findings : List Finding) {c : Cursor}
    (hc : c.In text) (hrest : c.rest ≠ []) :
    (s.readGroup findings c).source.cursor.In text ∧
      SpellTo text c.position.offset (s.readGroup findings c).tokens
        (s.readGroup findings c).source.cursor.position.offset := by
  have hgroup : ∀ g : Group, g.Covers c.rest →
      SpellTo text c.position.offset (c.tokens g.pieces) (c.advance g.length).position.offset := by
    intro g hg
    have htiled : Tiled 0 (c.rest.drop 0) g.pieces g.length := hg.tiled
    have hspell := hc.spellTo_tokens htiled
    rwa [Cursor.positionAt_zero] at hspell
  unfold readGroup
  simp only
  split
  · exact ⟨⟨hc.positionAt _, hc.drop_rest _⟩, hgroup _ (covers_directiveOpening _)⟩
  · exact ⟨⟨hc.positionAt _, hc.drop_rest _⟩, hgroup _ (covers_scanGroup _ _ hrest)⟩

/-- A reading step spells what it takes of the text. The last one passes over the gap at the end of
the text and gives the end of the text. -/
theorem spellTo_of_read (hs : s.cursor.In text) (h : s.read = some r) :
    r.source.finished = false ∧ r.source.cursor.In text ∧
        SpellTo text s.cursor.position.offset r.tokens r.source.cursor.position.offset ∨
      r.source.finished = true ∧ SpellTo text s.cursor.position.offset [] text.length ∧
        ∃ eof, r.tokens = [eof] ∧ eof.Ends text := by
  obtain ⟨hle, hgap⟩ := s.spellTo_passGap hs
  have hc := hs.passGap (gap s.inDirective s.cursor.rest)
  unfold read at h
  split at h
  · contradiction
  · simp only at h
    generalize s.cursor.passGap (gap s.inDirective s.cursor.rest) = c at h hle hgap hc
    have hempty (kind : Kind) (atLineStart : Bool) :
        (c.emptyToken kind atLineStart).Quotes text := by
      simp [Token.Quotes, Cursor.emptyToken, Span.point, slice_self, trimEnd]
    split at h
    · cases h
      refine .inl ⟨rfl, hc, .gap hle hgap ?_⟩
      exact .token (Nat.le_refl _) (hempty _ _) (by simp [Cursor.emptyToken]) (.nil _)
    · split at h
      · next hrest =>
        cases h
        have hend : c.position.offset = text.length := by
          have hdrop := hc.rest
          rw [hrest, eq_comm, List.drop_eq_nil_iff] at hdrop
          exact Nat.le_antisymm hc.position.2 hdrop
        refine .inr ⟨rfl, .gap hle hgap (hend ▸ .nil _), _, rfl, rfl, hempty _ _, ?_⟩
        rw [← hend, ← hc.position.1]
        rfl
      · next hrest =>
        cases h
        obtain ⟨hcursor, hspell⟩ := spellTo_readGroup s _ hc hrest
        exact .inl ⟨rfl, hcursor, .gap hle hgap hspell⟩

/-- What is read from a place in the text on spells the text from there, up to its end. -/
theorem spellTo_readUpTo {limit : Nat} (hs : s.cursor.In text) (hfinished : s.finished = false)
    (hlimit : s.stepsLeft ≤ limit) :
    ∃ body eof, (readUpTo limit s).flatMap (·.tokens) = body ++ [eof] ∧
      SpellTo text s.cursor.position.offset body text.length ∧ eof.Ends text := by
  induction limit generalizing s with
  | zero =>
    simp only [stepsLeft, hfinished, Bool.false_eq_true, if_false] at hlimit
    omega
  | succ limit ih =>
    obtain ⟨r, hread⟩ := exists_read hfinished
    have hsteps := stepsLeft_lt_of_read hread
    simp only [readUpTo, hread, List.flatMap_cons]
    rcases spellTo_of_read hs hread with ⟨hgoes, hcursor, hspell⟩ | ⟨hends, hspell, eof, htokens, heof⟩
    · obtain ⟨body, eof, hrest, hbody, heof⟩ := ih hcursor hgoes (by omega)
      rw [hrest, ← List.append_assoc]
      exact ⟨_, eof, rfl, hspell.append hbody, heof⟩
    · rw [readUpTo_of_finished hends, htokens]
      exact ⟨[], eof, rfl, hspell, heof⟩

end TokenSource

/-- Reading loses nothing and doubles nothing: the tokens of a text spell the text, with nothing but
gaps between them, and the last one, and no other, is the end of the text. -/
theorem tokensOf_spell (text : List Char) :
    Spell text 0 (tokensOf text) ∧
      ∃ body eof, tokensOf text = body ++ [eof] ∧ (∀ t ∈ body, t.kind ≠ .endOfFile) ∧
        eof.kind = .endOfFile ∧ eof.span.start.offset = text.length ∧
        eof.span.stop.offset = text.length := by
  obtain ⟨body, eof, htokens, hspell, heof⟩ := TokenSource.spellTo_readUpTo
    (Cursor.in_ofText text) (s := .ofText text) rfl (Nat.le_refl _)
  have hoffset : (Position.first.after text text.length).offset = text.length := by
    rw [Position.offset_first_after, Nat.min_self]
  have hstop : eof.span.stop.offset = text.length := by rw [heof.span]; exact hoffset
  have hstart : eof.span.start.offset = text.length := by rw [heof.span]; exact hoffset
  rw [tokensOf, TokenSource.readings, htokens]
  refine ⟨?_, body, eof, rfl, hspell.kind_ne, heof.kind, hstart, hstop⟩
  have hnone : IsGap (slice text 0 0) (text.drop 0) := by
    rw [slice_self]
    exact .nil
  refine hspell.spell (Nat.le_refl _) hnone fun k hk hgap ↦ ?_
  refine ⟨hstart ▸ hk, Nat.le_of_eq (hstart.trans hstop.symm), ?_, heof.quotes, ?_⟩
  · rw [hstart]
    exact hgap
  · rw [hstop, Spell, slice_self]
    exact .nil

end CSharpCheck
