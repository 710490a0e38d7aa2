import CSharpCheck.Proofs.LineFeeds.Groups
import CSharpCheck.Proofs.LineFeeds.Messages
import CSharpCheck.Proofs.Scanning.Collecting

/-!
# Reading a text with line feeds

A source in front of a text and one in front of the text with line feeds read steps that give the
same, up to offsets and to the line ends in what they quote, as long as the tokens of the one stop
at places that the other has, too. Lines and columns are the same.
-/

namespace CSharpCheck

variable {φ : Nat → Nat}

/-! ### Places -/

namespace Position

/-- The position with its offset moved. -/
def spell (φ : Nat → Nat) (p : Position) : Position := { p with offset := φ p.offset }

theorem endsLine_lineFeed (c : Char) (following : Option Char) :
    endsLine (lineFeed c) following = isLineEnd c := by
  rw [endsLine, isLineEnd_lineFeed, lineFeed_beq_cr, Bool.false_and, Bool.not_false, Bool.and_true]

/-- A CR LF ends its line as the one LF does. -/
theorem after_lineEnd (p p' : Position) (hplace : p.line = p'.line ∧ p.column = p'.column)
    (c : Char) (cs : List Char) (following : Option Char) :
    (p.after (c :: cs) (lineEndLength (c :: cs))).line = (p'.step (lineFeed c) following).line ∧
      (p.after (c :: cs) (lineEndLength (c :: cs))).column =
        (p'.step (lineFeed c) following).column := by
  obtain ⟨hline, hcolumn⟩ := hplace
  rw [lineEndLength_cons, step, endsLine_lineFeed]
  split
  · next hpair =>
    obtain ⟨rfl, hhead⟩ := hpair
    obtain ⟨ds, rfl⟩ := List.head?_eq_some_iff.1 hhead
    have hcr (q : Position) :
        q.step '\r' (some '\n') = ⟨q.line, q.column + 1, q.offset + 1⟩ := by
      simp [step, endsLine]
    have hlf (q : Position) : q.step '\n' ds.head? = ⟨q.line + 1, 1, q.offset + 1⟩ := by
      simp [step, endsLine, isLineEnd]
    rw [after, after, after_zero, List.head?_cons, hcr, hlf, if_pos (by decide)]
    exact ⟨congrArg (· + 1) hline, rfl⟩
  · next hpair =>
    have hpair : (c == '\r' && cs.head? == some '\n') = false := by simpa using hpair
    rw [after, after_zero, step, endsLine, hpair, Bool.not_false, Bool.and_true]
    split
    · exact ⟨congrArg (· + 1) hline, rfl⟩
    · exact ⟨hline, congrArg (· + 1) hcolumn⟩

/-- Lines and columns are counted alike, whichever way line ends are written. -/
theorem after_lineFeeds (text : List Char) (n : Nat) {p p' : Position}
    (hplace : p.line = p'.line ∧ p.column = p'.column) :
    (p.after text (spelledLength text n)).line = (p'.after (lineFeeds text) n).line ∧
      (p.after text (spelledLength text n)).column = (p'.after (lineFeeds text) n).column := by
  induction text using lineFeeds_induction generalizing n p p' with
  | nil =>
    rw [lineFeeds, after_nil, after_nil]
    exact hplace
  | cons c cs ih =>
    cases n with
    | zero =>
      rw [spelledLength_zero, after_zero, after_zero]
      exact hplace
    | succ n =>
      rw [spelledLength_cons, lineFeeds_cons, after, ← after_after]
      exact ih n (after_lineEnd p p' hplace c cs _)

end Position

/-! ### Cursors -/

/-- The cursor `c` stands in a text where `c'` stands in the text with line feeds. -/
structure Cursor.Spells (φ : Nat → Nat) (c c' : Cursor) : Prop where
  rest : c'.rest = lineFeeds c.rest
  lineUsed : c'.lineUsed = c.lineUsed
  position : c.position = c'.position.spell φ
  spelled : SpelledFrom φ c.position.offset c'.position.offset c.rest

theorem Cursor.spells_ofText (text : List Char) :
    (ofText text).Spells (spelledLength text) (ofText (lineFeeds text)) where
  rest := rfl
  lineUsed := rfl
  position := by
    rw [Position.spell]
    change _ = (⟨1, 1, spelledLength text 0⟩ : Position)
    rw [spelledLength_zero]
    rfl
  spelled := .refl text

namespace Cursor.Spells

variable {c c' : Cursor} (h : c.Spells φ c')

include h

theorem offset_positionAt (n : Nat) :
    (c.positionAt (spelledLength c.rest n)).offset =
        c.position.offset + spelledLength c.rest (min n c'.rest.length) ∧
      (c'.positionAt n).offset = c'.position.offset + min n c'.rest.length := by
  rw [Cursor.positionAt, Cursor.positionAt, Position.offset_after, Position.offset_after,
    (strictMono_spelledLength c.rest).monotone.map_min, h.rest, spelledLength_length]
  exact ⟨rfl, rfl⟩

theorem positionAt (n : Nat) :
    c.positionAt (spelledLength c.rest n) = (c'.positionAt n).spell φ := by
  obtain ⟨hoffset, hoffset'⟩ := h.offset_positionAt n
  have hplace : c.position.line = c'.position.line ∧ c.position.column = c'.position.column := by
    rw [h.position]
    exact ⟨rfl, rfl⟩
  obtain ⟨hline, hcolumn⟩ := Position.after_lineFeeds c.rest n hplace
  rw [← h.rest] at hline hcolumn
  rw [← h.spelled, ← hoffset'] at hoffset
  change c.positionAt _ = ⟨(c'.positionAt n).line, (c'.positionAt n).column, _⟩
  rw [← hoffset]
  exact congrArg₂ (Position.mk · · _) hline hcolumn

theorem advance (n : Nat) : (c.advance (spelledLength c.rest n)).Spells φ (c'.advance n) where
  rest := by
    rw [rest_advance, rest_advance, h.rest, drop_lineFeeds]
  lineUsed := by
    have hline := congrArg Position.line (h.positionAt n)
    have hhere := congrArg Position.line h.position
    change (c'.lineUsed && (c'.positionAt n).line == c'.position.line) =
      (c.lineUsed && (c.positionAt _).line == c.position.line)
    rw [h.lineUsed, hline, hhere]
    rfl
  position := h.positionAt n
  spelled := by
    obtain ⟨hoffset, hoffset'⟩ := h.offset_positionAt n
    have hdrop : c.rest.drop (spelledLength c.rest n) =
        c.rest.drop (spelledLength c.rest (min n c'.rest.length)) := by
      rw [(strictMono_spelledLength c.rest).monotone.map_min, h.rest, spelledLength_length]
      rcases Nat.le_total (spelledLength c.rest n) c.rest.length with hle | hle
      · rw [Nat.min_eq_left hle]
      · rw [Nat.min_eq_right hle, List.drop_length, List.drop_eq_nil_of_le hle]
    change SpelledFrom φ (c.positionAt _).offset (c'.positionAt n).offset (c.rest.drop _)
    rw [hoffset, hoffset', hdrop]
    exact h.spelled.drop _

/-- Cursors that correspond do so when both lines are used, or none. -/
theorem withLine (used : Bool) :
    Spells φ { c with lineUsed := used } { c' with lineUsed := used } where
  rest := h.rest
  lineUsed := rfl
  position := h.position
  spelled := h.spelled

theorem passItem {item item' : GapItem} (halike : item.Alike item')
    (hlength : spelledLength c.rest item'.length = item.length) :
    (c.passItem item).Spells φ (c'.passItem item') := by
  have hnext := h.advance item'.length
  rw [hlength] at hnext
  cases halike with
  | blockComment => exact hnext.withLine true
  | _ => exact hnext

omit h in
theorem passGap {text : List Char} {items items' : List GapItem}
    (hgap : GapSpells text items items') (h : c.Spells φ c') (htext : c.rest = text) :
    (c.passGap items).Spells φ (c'.passGap items') := by
  induction hgap generalizing c c' with
  | nil => exact h
  | cons halike hlength _ ih =>
    subst htext
    refine ih (h.passItem halike hlength) ?_
    unfold Cursor.passItem
    split <;> rfl

end Cursor.Spells

/-! ### Tokens and findings -/

/-- Texts that are left as they are become no words. -/
theorem id_eq_iff {text word : String} (_ : OneLine word) : id text = word ↔ text = word := Iff.rfl

/-- The relocation of what is found in a text with line feeds to where it stands in the text
before. -/
def Relocation.spelling (φ : Nat → Nat) (hφ : StrictMono φ) : Relocation where
  place := Position.spell φ
  text := id
  offset := φ
  offset_place _ := rfl
  line_place _ := rfl
  strictMono := hφ
  text_eq_iff := @id_eq_iff

namespace Fault

theorem Spells.audible {fs fs' : List Fault} (h : Spells φ fs fs') (inDirective : Bool) :
    Spells φ (Fault.audible inDirective fs) (Fault.audible inDirective fs') := by
  have hmap {g : Fault → Fault} (hg : ∀ f, (g f).error = .tooComplex ↔ f.error = .tooComplex)
      (fs : List Fault) :
      Fault.audible inDirective (fs.map g) = (Fault.audible inDirective fs).map g := by
    have hbeq (f : Fault) : ((g f).error == .tooComplex) = (f.error == .tooComplex) := by
      rw [Bool.eq_iff_iff, beq_iff_eq, beq_iff_eq, hg]
    rw [Fault.audible, Fault.audible, upToGivingUp_map hg, List.filter_map]
    simp only [Function.comp_def, hbeq]
  have hfed (f : Fault) : f.lineFed.error = .tooComplex ↔ f.error = .tooComplex := by
    rw [lineFed]
    cases f.error <;> simp [LexicalError.lineFed]
  have hspell (f : Fault) : (f.spell φ).error = .tooComplex ↔ f.error = .tooComplex := Iff.rfl
  rw [Spells, ← hmap hfed, h, hmap hspell]

end Fault

namespace Cursor.Spells

variable {c c' : Cursor} (h : c.Spells φ c') (hφ : StrictMono φ)

include h

theorem text (p : Piece) :
    lineFeeds ((c.rest.drop (p.spell (spelledLength c.rest)).start).take
        (p.spell (spelledLength c.rest)).length) =
      (c'.rest.drop p.start).take p.length := by
  rw [h.rest, drop_lineFeeds, take_lineFeeds, Piece.spell, spelledLength_add,
    Nat.add_sub_cancel_left]

theorem token (atLineStart : Bool) (p : Piece) :
    (c.token atLineStart (p.spell (spelledLength c.rest))).relocate .feedingLines =
      (c'.token atLineStart p).relocate (.spelling φ hφ) := by
  have htext := h.text p
  have hstart := h.positionAt p.start
  have hstop := h.positionAt (p.start + p.length)
  have hend : (p.spell (spelledLength c.rest)).start + (p.spell (spelledLength c.rest)).length =
      spelledLength c.rest (p.start + p.length) :=
    Nat.add_sub_of_le ((strictMono_spelledLength c.rest).monotone (Nat.le_add_right _ _))
  have hword : withLineFeeds (c.token atLineStart (p.spell (spelledLength c.rest))).text =
      (c'.token atLineStart p).text := by
    simp only [Cursor.token, withLineFeeds, String.toList_ofList, ← htext, apply_ite lineFeeds,
      ← trimEnd_lineFeeds]
    rfl
  have hspan : (c.token atLineStart (p.spell (spelledLength c.rest))).span =
      (c'.token atLineStart p).span.relocate (.spelling φ hφ) := by
    simp only [Cursor.token, hend]
    exact congrArg₂ Span.mk hstart hstop
  exact congrArg₂ (fun text span ↦ (⟨p.kind, text, p.name, span, atLineStart, p.features⟩ : Token))
    hword hspan

theorem tokens (pieces : List Piece) :
    (c.tokens (pieces.map (Piece.spell (spelledLength c.rest)))).map (·.relocate .feedingLines) =
      (c'.tokens pieces).map (·.relocate (.spelling φ hφ)) := by
  cases pieces with
  | nil => rfl
  | cons p ps =>
    rw [List.map_cons, Cursor.tokens, Cursor.tokens, List.map_cons, List.map_cons, h.token hφ,
      h.lineUsed, List.map_map, List.map_map, List.map_map]
    exact congrArg _ (List.map_congr_left fun q _ ↦ h.token hφ false q)

theorem emptyToken (kind : Kind) (atLineStart : Bool) :
    (c.emptyToken kind atLineStart).relocate .feedingLines =
      (c'.emptyToken kind atLineStart).relocate (.spelling φ hφ) :=
  congrArg (fun p ↦ (⟨kind, "", none, .point p, atLineStart, []⟩ : Token)) h.position

theorem findings {fs fs' : List Fault} (hfaults : Fault.Spells (spelledLength c.rest) fs fs') :
    (fs.map c.finding).map (·.relocate .feedingLines) =
      (fs'.map c'.finding).map (·.relocate (.spelling φ hφ)) := by
  have hfed (f : Fault) : (c.finding f).relocate .feedingLines = c.finding f.lineFed := by
    have herror : f.error.relocate .feedingLines = f.error.lineFed := by
      cases f.error <;> simp only [LexicalError.relocate, LexicalError.lineFed,
        Relocation.char_feedingLines]
    exact congrArg (fun e ↦ (⟨.lexical e, _⟩ : Finding)) herror
  have hspell (f : Fault) : (c'.finding f).relocate (.spelling φ hφ) =
      c.finding (f.spell (spelledLength c.rest)) := by
    rw [Finding.relocate, Cause.relocate_of_text_eq_id rfl]
    exact congrArg (Finding.mk _)
      (congrArg₂ Span.mk (h.positionAt f.start) (h.positionAt f.stop)).symm
  rw [Fault.Spells] at hfaults
  have hall := congrArg (List.map c.finding) hfaults
  simp only [List.map_map, Function.comp_def, hfed, hspell] at hall ⊢
  exact hall

end Cursor.Spells

/-! ### Excluded text -/

theorem linesToHash_lineFeeds (text : List Char) :
    spelledLength text (linesToHash (lineFeeds text)) = linesToHash text := by
  have hhash (text : List Char) : hashFirst (lineFeeds text) = hashFirst text := by
    rw [← hashFirst_restOfLine, restOfLine_lineFeeds, hashFirst_restOfLine]
  induction hlength : text.length using Nat.strongRecOn generalizing text with
  | ind length ih =>
    cases text with
    | nil =>
      rw [lineFeeds, linesToHash]
      rfl
    | cons c cs =>
      have hpos := length_lineEnd_pos c cs
      have hshort := length_drop_line_lt hpos c cs
        (restOfLine ((c :: cs).drop (lineEndLength (c :: cs)))).length
      have hone : spelledLength (c :: cs) 1 = lineEndLength (c :: cs) := by
        rw [spelledLength_cons, spelledLength_zero, Nat.add_zero]
      rw [lineFeeds_cons, linesToHash_cons, linesToHash_cons, lineEndLength_lineFeed]
      simp only [List.drop_succ_cons, List.drop_zero, hhash, restOfLine_lineFeeds]
      split
      · exact hone
      · rw [Nat.add_assoc, Nat.add_assoc, spelledLength_add, hone, spelledLength_add,
          spelledLength_of_le (Nat.le_refl _), drop_lineFeeds_of_le (Nat.le_refl _),
          ih _ (hlength ▸ hshort) _ rfl]

theorem excludedLength_lineFeeds (text : List Char) :
    spelledLength text (excludedLength (lineFeeds text)) = excludedLength text := by
  rw [excludedLength, excludedLength, restOfLine_lineFeeds, spelledLength_add,
    spelledLength_of_le (Nat.le_refl _), drop_lineFeeds_of_le (Nat.le_refl _),
    linesToHash_lineFeeds]

/-! ### Steps -/

theorem Cursor.exists_token_of_piece (c : Cursor) {pieces : List Piece} {p : Piece}
    (hp : p ∈ pieces) :
    ∃ t ∈ c.tokens pieces, t.span.stop = c.positionAt (p.start + p.length) := by
  cases pieces with
  | nil => cases hp
  | cons q qs =>
    rcases List.mem_cons.1 hp with rfl | hp
    · exact ⟨_, List.mem_cons_self, rfl⟩
    · exact ⟨_, List.mem_cons_of_mem _ (List.mem_map_of_mem hp), rfl⟩

/-- The source `s` reads a text as `s'` reads the text with line feeds. -/
structure TokenSource.Spells (φ : Nat → Nat) (s s' : TokenSource) : Prop where
  cursor : s.cursor.Spells φ s'.cursor
  inDirective : s'.inDirective = s.inDirective
  finished : s'.finished = s.finished

namespace TokenSource

variable {s s' : TokenSource}

theorem spells_ofText (text : List Char) :
    (ofText text).Spells (spelledLength text) (ofText (lineFeeds text)) where
  cursor := Cursor.spells_ofText text
  inDirective := rfl
  finished := rfl

/-- Pieces whose tokens stop at places of the text with line feeds do so themselves. -/
theorem whole_groupAt (hφ : StrictMono φ) (s : TokenSource) {c : Cursor} (hc : c.rest ≠ [])
    {fed : Nat} (hplace : SpelledFrom φ c.position.offset fed c.rest)
    (hstops : ∀ t ∈ c.tokens (s.groupAt c).pieces, t.span.stop.offset ∈ Set.range φ) :
    Piece.Whole (spelledLength c.rest) (s.groupAt c).pieces := by
  intro p hp
  obtain ⟨t, ht, hstop⟩ := c.exists_token_of_piece hp
  have hle := Nat.le_trans ((covers_groupAt s hc).tiled.le_of_mem p hp) (length_groupAt_le s c)
  have hrange := hstops t ht
  rw [hstop, Cursor.positionAt, Position.offset_after, Nat.min_eq_left hle] at hrange
  exact hplace.mem_range hφ hrange

theorem spells_groupAt (hin : s'.inDirective = s.inDirective) {c c' : Cursor}
    (hopens : s'.opensDirective c' = s.opensDirective c) (hrest : c'.rest = lineFeeds c.rest)
    (hwhole : Piece.Whole (spelledLength c.rest) (s.groupAt c).pieces) :
    (s.groupAt c).Spells (spelledLength c.rest) (s'.groupAt c') := by
  rw [groupAt] at hwhole
  rw [groupAt, groupAt, hopens, hin, hrest]
  split
  · next hhash =>
    simp only [opensDirective, Bool.and_eq_true, beq_iff_eq] at hhash
    obtain ⟨cs, hcs⟩ := List.head?_eq_some_iff.1 hhash.1.1
    rw [hcs]
    exact spells_directiveOpening cs
  · next hhash =>
    rw [if_neg hhash] at hwhole
    exact (fedScan_scanGroup s.inDirective maxOpenHoles).spells c.rest hwhole

namespace Spells

variable (h : s.Spells φ s')

include h

theorem behindGap : s.behindGap.Spells φ s'.behindGap := by
  rw [TokenSource.behindGap, TokenSource.behindGap, h.inDirective, h.cursor.rest]
  exact Cursor.Spells.passGap (gapSpells_gap _ _) h.cursor rfl

theorem gapFindings (hφ : StrictMono φ) :
    s.gapFindings.map (·.relocate .feedingLines) =
      s'.gapFindings.map (·.relocate (.spelling φ hφ)) := by
  rw [TokenSource.gapFindings, TokenSource.gapFindings, h.inDirective, h.cursor.rest]
  exact h.cursor.findings hφ (((gapSpells_gap _ _).faults (.refl _)).audible _)

/-- Sources that correspond read steps that agree, where no token stops inside of a CR LF. -/
theorem read (hφ : StrictMono φ)
    (hstops : ∀ r, s.read = some r → ∀ t ∈ r.tokens, t.span.stop.offset ∈ Set.range φ) :
    (s.read = none ∧ s'.read = none) ∨ ∃ r r', s.read = some r ∧ s'.read = some r' ∧
      r.Agrees .feedingLines (.spelling φ hφ) r' ∧ r.source.Spells φ r'.source := by
  cases hfinished : s.finished with
  | true =>
    refine .inl ⟨?_, ?_⟩
    · rw [TokenSource.read, hfinished]
      rfl
    · rw [TokenSource.read, h.finished, hfinished]
      rfl
  | false =>
    have hgap := h.behindGap
    have hends := all_head?_lineFeeds s.behindGap.rest
    rw [← hgap.rest] at hends
    refine .inr ?_
    rw [read_eq hfinished] at hstops ⊢
    rw [read_eq (h.finished.trans hfinished), h.inDirective, hends, hgap.lineUsed]
    simp only [hgap.rest, lineFeeds_eq_nil_iff]
    split
    · refine ⟨_, _, rfl, rfl, ⟨?_, h.gapFindings hφ⟩, ⟨hgap, rfl, rfl⟩⟩
      exact congrArg (List.cons · []) (hgap.emptyToken hφ _ _)
    · next hline =>
      split
      · refine ⟨_, _, rfl, rfl, ⟨?_, h.gapFindings hφ⟩, ⟨hgap, rfl, rfl⟩⟩
        exact congrArg (List.cons · []) (hgap.emptyToken hφ _ _)
      · next hrest =>
        rw [if_neg hline, if_neg hrest] at hstops
        have hopens : s'.opensDirective s'.behindGap = s.opensDirective s.behindGap := by
          rw [opensDirective, opensDirective, hgap.rest, hgap.lineUsed, h.inDirective,
            beq_head?_lineFeeds (by decide)]
        have hgroup := spells_groupAt h.inDirective hopens hgap.rest
          (whole_groupAt hφ s hrest hgap.spelled (hstops _ rfl))
        refine ⟨_, _, rfl, rfl, ⟨?_, ?_⟩, ⟨?_, ?_, rfl⟩⟩
        · rw [readGroup_eq, readGroup_eq, hgroup.pieces]
          exact hgap.tokens hφ _
        · rw [readGroup_eq, readGroup_eq, h.inDirective]
          simp only [List.map_append, h.gapFindings hφ,
            hgap.findings hφ (hgroup.faults.audible s.inDirective)]
        · rw [readGroup_eq, readGroup_eq, hgroup.length]
          exact (hgap.advance _).withLine true
        · rw [readGroup_eq, readGroup_eq, hopens, h.inDirective]

theorem skipExcluded : s.skipExcluded.Spells φ s'.skipExcluded where
  cursor := by
    have hnext := h.cursor.advance (excludedLength s'.cursor.rest)
    rw [h.cursor.rest, excludedLength_lineFeeds, ← h.cursor.rest] at hnext
    exact hnext.withLine false
  inDirective := h.inDirective
  finished := h.finished

end Spells

/-- Sources that follow steps that agree correspond where these end. -/
theorem Follow.spells {reading reading' : Reading} (h : s.Follow s' reading reading')
    (hreading : reading.source.Spells φ reading'.source) : s.Spells φ s' := by
  rcases h with ⟨rfl, rfl⟩ | ⟨-, rfl, rfl⟩
  · exact hreading
  · exact hreading.skipExcluded

end TokenSource

end CSharpCheck
