import CSharpCheck.Proofs.LineFeeds.Gaps
import CSharpCheck.Proofs.Scanning.Extents

/-!
# Groups of a text with line feeds

A group of a text spells a group of the text with line feeds, piece by piece, unless one of its
pieces stops inside of a CR LF.
-/

namespace CSharpCheck

variable {φ : Nat → Nat} {start fed : Nat} {text : List Char}

/-! ### Pieces -/

/-- The piece with its ends moved. -/
def Piece.spell (φ : Nat → Nat) (p : Piece) : Piece :=
  { p with start := φ p.start, length := φ (p.start + p.length) - φ p.start }

/-- All pieces stop at places that the text with line feeds has, too. -/
def Piece.Whole (φ : Nat → Nat) (ps : List Piece) : Prop :=
  ∀ p ∈ ps, p.start + p.length ∈ Set.range φ

/-- The group `g` is one of a text where `g'` is one of the text with line feeds. -/
structure Group.Spells (φ : Nat → Nat) (g g' : Group) : Prop where
  length : g.length = φ g'.length
  pieces : g.pieces = g'.pieces.map (Piece.spell φ)
  faults : Fault.Spells φ g.faults g'.faults

/-- The part `p` is one of a text where `p'` is one of the text with line feeds. -/
structure Part.Spells (φ : Nat → Nat) (p p' : Part) : Prop where
  stop : p.stop = φ p'.stop
  pieces : p.pieces = p'.pieces.map (Piece.spell φ)
  faults : Fault.Spells φ p.faults p'.faults
  features : p.features = p'.features

theorem Piece.spell_bare {kind : Kind} {length length' : Nat} (hstart : φ fed = start)
    (hstop : φ (fed + length') = start + length) :
    (Piece.bare kind fed length').spell φ = .bare kind start length := by
  simp only [spell, bare, hstart, hstop, Nat.add_sub_cancel_left]

theorem Part.Spells.after {p p' : Part} (h : p.Spells φ p') {ps ps' : List Piece}
    {fs fs' : List Fault} (hpieces : ps = ps'.map (Piece.spell φ)) (hfaults : Fault.Spells φ fs fs')
    (features : List Feature) : (p.after ps fs features).Spells φ (p'.after ps' fs' features) where
  stop := h.stop
  pieces := by
    rw [Part.after, hpieces, h.pieces, ← List.map_append]
    rfl
  faults := hfaults.append h.faults
  features := congrArg (features ++ ·) h.features

theorem Part.Spells.after_faults {p p' : Part} (h : p.Spells φ p') {fs fs' : List Fault}
    (hfaults : Fault.Spells φ fs fs') (features : List Feature) :
    (p.after [] fs features).Spells φ (p'.after [] fs' features) :=
  h.after List.map_nil.symm hfaults features

namespace SpelledFrom

/-- The pieces of a scan that starts further on. -/
theorem shift_pieces (h : SpelledFrom φ start fed text) (ps : List Piece) :
    (ps.map (Piece.spell (spelledLength text))).map (·.shift start) =
      (ps.map (·.shift fed)).map (Piece.spell φ) := by
  rw [List.map_map, List.map_map]
  refine List.map_congr_left fun p _ ↦ ?_
  simp only [Function.comp_apply, Piece.shift, Piece.spell, Nat.add_assoc, h _]
  rw [Nat.add_sub_add_left]

/-- The faults of a scan that starts further on. -/
theorem shift_faults (h : SpelledFrom φ start fed text) {fs fs' : List Fault}
    (hfaults : Fault.Spells (spelledLength text) fs fs') :
    Fault.Spells φ (fs.map (·.shift start)) (fs'.map (·.shift fed)) := by
  have hshift : (fs'.map (·.shift fed)).map (Fault.spell φ) =
      (fs'.map (Fault.spell (spelledLength text))).map (·.shift start) := by
    rw [List.map_map, List.map_map]
    refine List.map_congr_left fun f _ ↦ ?_
    simp only [Function.comp_apply, Fault.shift, Fault.spell, h _]
  rw [Fault.Spells, hshift, ← hfaults, List.map_map, List.map_map]
  rfl

/-- Where a part stops further on, the rest of the text is the rest of the text with line feeds. -/
theorem drop_to (h : SpelledFrom φ start fed text) {stop stop' : Nat} (hstop : stop = φ stop')
    (hle : fed ≤ stop') : spelledLength text (stop' - fed) = stop - start ∧
      SpelledFrom φ stop stop' (text.drop (stop - start)) := by
  obtain ⟨k, rfl⟩ := Nat.exists_eq_add_of_le hle
  rw [hstop, h k, Nat.add_sub_cancel_left, Nat.add_sub_cancel_left]
  exact ⟨rfl, h.drop k⟩

end SpelledFrom

theorem bracketDepth_spell (depth : Nat) (ps : List Piece) :
    bracketDepth depth (ps.map (Piece.spell φ)) = bracketDepth depth ps := by
  rw [bracketDepth, List.foldl_map]
  rfl

/-! ### Holes -/

/-- The scan reads the same in front of a text and in front of the text with line feeds. -/
structure FedScan (scan : List Char → Group) : Prop where
  length_pos (c : Char) (cs : List Char) : 0 < (scan (c :: cs)).length
  spells (text : List Char) : Piece.Whole (spelledLength text) (scan text).pieces →
    (scan text).Spells (spelledLength text) (scan (lineFeeds text))

theorem endsHole_lineFeeds (text : List Char) : endsHole (lineFeeds text) = endsHole text := by
  cases text with
  | nil => rfl
  | cons c cs =>
    cases hc : isLineEnd c with
    | true =>
      have hfed := (isLineEnd_lineFeed c).trans hc
      rw [lineFeeds_cons, endsHole_of_mem_partings (mem_partings_of_isLineEnd hfed),
        endsHole_of_mem_partings (mem_partings_of_isLineEnd hc)]
    | false =>
      rw [lineFeeds_cons_of_not_isLineEnd hc]
      by_cases hcolon : c = ':'
      · subst hcolon
        rw [endsHole, endsHole, bne, bne, beq_head?_lineFeeds (by decide)]
      · by_cases hbrace : c = '\x7d'
        · subst hbrace
          rfl
        · rw [endsHole_of_ne hbrace hcolon, endsHole_of_ne hbrace hcolon]

section Content

variable {scan : List Char → Group} {inDirective : Bool} (hφ : StrictMono φ) (hscan : FedScan scan)

include hφ hscan

theorem spells_holeTokens {depth : Nat} (h : SpelledFrom φ start fed text)
    (hwhole : Piece.Whole φ (holeTokens scan inDirective depth start text).pieces) :
    (holeTokens scan inDirective depth start text).Spells φ
      (holeTokens scan inDirective depth fed (lineFeeds text)) := by
  induction hlength : text.length using Nat.strongRecOn
    generalizing depth start fed text with
  | ind length ih =>
    have hgap := gapSpells_gap inDirective text
    have hfaults := hgap.faults h
    have hrest := h.drop (gapLength (gap inDirective (lineFeeds text)))
    have hdropped := drop_lineFeeds text (gapLength (gap inDirective (lineFeeds text)))
    rw [hgap.length] at hrest hdropped
    cases hdrop : text.drop (gapLength (gap inDirective text)) with
    | nil =>
      rw [hdrop] at hdropped
      rw [holeTokens_of_drop_eq_nil hdrop, holeTokens_of_drop_eq_nil hdropped]
      exact ⟨hrest.here.symm, rfl, hfaults, rfl⟩
    | cons c cs =>
      rw [hdrop] at hrest hdropped
      rw [lineFeeds_cons] at hdropped
      rw [holeTokens_of_drop hdrop] at hwhole ⊢
      rw [holeTokens_of_drop hdropped, ← lineFeeds_cons, endsHole_lineFeeds]
      simp only at hwhole ⊢
      split
      · exact ⟨hrest.here.symm, rfl, hfaults, rfl⟩
      · next hgoes =>
        rw [if_neg hgoes] at hwhole
        obtain ⟨hshifted, hlater⟩ := List.forall_mem_append.1 hwhole
        have hgroup := hscan.spells (c :: cs) fun p hp ↦ by
          have hp' := hshifted _ (List.mem_map_of_mem hp)
          rw [Piece.shift, Nat.add_assoc] at hp'
          exact hrest.mem_range hφ hp'
        have hpos := hscan.length_pos c cs
        have hpos' : 0 < (scan (lineFeeds (c :: cs))).length := by
          rw [lineFeeds_cons]
          exact hscan.length_pos _ _
        have hnext := hrest.drop (scan (lineFeeds (c :: cs))).length
        have hbehind := drop_lineFeeds (c :: cs) (scan (lineFeeds (c :: cs))).length
        rw [← hgroup.length] at hnext hbehind
        rw [drop_sub_one hpos c] at hlater ⊢
        rw [drop_sub_one hpos' (lineFeed c), ← lineFeeds_cons, hbehind]
        have htail := congrArg List.length hdrop
        rw [List.length_drop, List.length_cons, hlength] at htail
        refine Part.Spells.after ?_ ?_ (hfaults.append (hrest.shift_faults hgroup.faults)) []
        · rw [hgroup.pieces, bracketDepth_spell] at hlater ⊢
          refine ih _ ?_ hnext hlater rfl
          rw [List.length_drop, List.length_cons]
          omega
        · rw [hgroup.pieces]
          exact hrest.shift_pieces _

end Content

/-! ### Formats and the ends of holes -/

/-- A run in which CR may stand as well as LF, or neither of them. -/
theorem spelledLength_takeWhile {p : Char → Bool} (hp : p '\n' = p '\r') (text : List Char) :
    spelledLength text ((lineFeeds text).takeWhile p).length = (text.takeWhile p).length := by
  induction text using lineFeeds_induction with
  | nil => rfl
  | cons c cs ih =>
    rw [lineFeeds_cons, List.takeWhile_cons, apply_lineFeed hp]
    cases hc : p c with
    | false => simp [hc, spelledLength_zero]
    | true =>
      have htaken : ((c :: cs).takeWhile p).length = lineEndLength (c :: cs) +
          (((c :: cs).drop (lineEndLength (c :: cs))).takeWhile p).length := by
        rw [lineEndLength_cons]
        split
        · next hpair =>
          obtain ⟨rfl, hhead⟩ := hpair
          obtain ⟨ds, rfl⟩ := List.head?_eq_some_iff.1 hhead
          simp [hc, hp.trans hc]
          omega
        · simp [hc]
          omega
      rw [if_pos rfl, List.length_cons, spelledLength_cons, ih, htaken]

theorem formatLength_lineFeeds (multiLine : Bool) (text : List Char) :
    spelledLength text (formatLength multiLine (lineFeeds text)) = formatLength multiLine text := by
  unfold formatLength
  have hcolon : (lineFeeds text).head? = some ':' ↔ text.head? = some ':' := by
    rw [← beq_iff_eq, beq_head?_lineFeeds (by decide), beq_iff_eq]
  simp only [hcolon]
  split
  · exact spelledLength_takeWhile (by cases multiLine <;> rfl) text
  · exact spelledLength_zero text

section Content

variable {scan : List Char → Group} {inDirective : Bool} (hφ : StrictMono φ) (hscan : FedScan scan)

include hφ hscan

theorem spells_hole {o : Opening} (hbraces : o.braces ≤ (restOfLine text).length) (multiLine : Bool)
    (h : SpelledFrom φ start fed text)
    (hwhole : Piece.Whole φ (hole o multiLine scan inDirective start text).pieces) :
    (hole o multiLine scan inDirective start text).Spells φ
      (hole o multiLine scan inDirective fed (lineFeeds text)) := by
  have hinside := h.drop_of_le hbraces
  simp only [hole, drop_lineFeeds_of_le hbraces] at hwhole ⊢
  obtain ⟨hbefore, hclose⟩ := List.forall_mem_append.1 hwhole
  obtain ⟨hbefore, -⟩ := List.forall_mem_append.1 hbefore
  have htokens := spells_holeTokens hφ hscan hinside (List.forall_mem_cons.1 hbefore).2
  have hle := le_stop_holeTokens scan inDirective 0 (fed + o.braces)
    (lineFeeds (text.drop o.braces))
  generalize holeTokens scan inDirective 0 (start + o.braces) (text.drop o.braces) = tokens
    at htokens ⊢
  generalize holeTokens scan inDirective 0 (fed + o.braces) (lineFeeds (text.drop o.braces)) =
    tokens' at hle htokens ⊢
  obtain ⟨hcrossed, -⟩ := hinside.drop_to htokens.stop hle
  obtain ⟨hlength, hafter⟩ := h.drop_to htokens.stop (by omega)
  rw [take_lineFeeds, hcrossed, any_isLineEnd_lineFeeds, drop_lineFeeds, hlength]
  generalize text.drop (tokens.stop - start) = after at hafter ⊢
  have hformat := formatLength_lineFeeds multiLine after
  have hclose := hafter.drop (formatLength multiLine (lineFeeds after))
  have hbehind := drop_lineFeeds after (formatLength multiLine (lineFeeds after))
  have hnone : formatLength multiLine (lineFeeds after) = 0 ↔ formatLength multiLine after = 0 := by
    rw [← hformat, ← spelledLength_zero after, (strictMono_spelledLength after).injective.eq_iff,
      spelledLength_zero]
  rw [hformat] at hclose hbehind
  rw [hbehind, runLength_lineFeeds (by decide)]
  simp only [hnone, lineFeeds_eq_nil_iff, ne_eq]
  generalize formatLength multiLine (lineFeeds after) = format' at hclose ⊢
  generalize formatLength multiLine after = format at hclose ⊢
  generalize after.drop format = rest at hclose ⊢
  have hrun := hclose.add_of_le (Nat.le_trans (Nat.min_le_left _ o.braces)
    (runLength_le_restOfLine (c := '\x7d') (by decide) rest))
  have hfault : Fault.Spells φ [⟨.closeBraceExpected, _, _⟩] [⟨.closeBraceExpected, _, _⟩] :=
    .single rfl hclose.here hclose.here
  refine ⟨hrun.symm, ?_, htokens.faults.append (.ite hfault .nil), rfl⟩
  have hopen : Piece.bare .holeStart start o.braces =
      (Piece.bare .holeStart fed o.braces).spell φ :=
    (Piece.spell_bare h.here (h.add_of_le hbraces)).symm
  have hformat : Piece.bare .holeFormat tokens.stop format =
      (Piece.bare .holeFormat tokens'.stop format').spell φ :=
    (Piece.spell_bare htokens.stop.symm hclose.here).symm
  rw [List.map_append, List.map_append, List.map_cons, htokens.pieces, apply_ite (List.map _),
    List.map_nil, List.map_singleton, List.map_singleton, Piece.spell_bare hclose.here hrun,
    ← hopen, ← hformat]

end Content

/-! ### Interpolated strings -/

theorem spells_textPieces {textStart textFed : Nat} (hφ : StrictMono φ)
    (htext : φ textFed = textStart) (hstop : φ fed = start) :
    textPieces textStart start = (textPieces textFed fed).map (Piece.spell φ) := by
  unfold textPieces
  subst htext
  subst hstop
  simp only [hφ.lt_iff_lt]
  split
  · next hlt =>
    rw [List.map_singleton, Piece.spell_bare rfl]
    have hlt' := hφ hlt
    rw [Nat.add_sub_cancel' (Nat.le_of_lt hlt), Nat.add_sub_cancel' (Nat.le_of_lt hlt')]
  · rfl

theorem spells_unclosedEnd {o : Opening} {textStart textFed : Nat} (hφ : StrictMono φ)
    (hzero : φ 0 = 0) (htext : φ textFed = textStart) (hstop : φ fed = start) (atLineEnd : Bool) :
    (unclosedEnd o atLineEnd textStart start).Spells φ (unclosedEnd o atLineEnd textFed fed) where
  stop := hstop.symm
  pieces := by
    have hend : (Piece.bare .interpolatedEnd fed 0).spell φ = .bare .interpolatedEnd start 0 :=
      Piece.spell_bare hstop hstop
    rw [unclosedEnd, unclosedEnd, List.map_append, ← spells_textPieces hφ htext hstop,
      List.map_singleton, hend]
  faults := by
    refine .single ?_ hzero hzero
    rw [Opening.unclosedError]
    cases o.raw <;> cases atLineEnd <;> rfl
  features := rfl

theorem spells_closedEnd {o : Opening} {textStart textFed run : Nat} (hφ : StrictMono φ)
    (htext : φ textFed = textStart) (hstart : φ fed = start)
    (h : SpelledFrom φ (start + run) (fed + run) text) :
    (closedEnd o textStart start run text).Spells φ
      (closedEnd o textFed fed run (lineFeeds text)) := by
  have hsuffix : (if o.raw then utf8SuffixLength text else 0) ≤ (restOfLine text).length := by
    split
    · exact utf8SuffixLength_le_restOfLine text
    · exact Nat.zero_le _
  have hstop := h.add_of_le hsuffix
  have hend := hstop
  rw [Nat.add_assoc, Nat.add_assoc] at hend
  rw [closedEnd, closedEnd, utf8SuffixLength_lineFeeds]
  refine ⟨hstop.symm, ?_, .ite (.single rfl hstart h.here) .nil, rfl⟩
  simp only
  rw [List.map_append, ← spells_textPieces hφ htext hstart, List.map_singleton,
    Piece.spell_bare hstart hend]

/-- In a string over several lines, a line end is text, whether it is a CR LF or one character. -/
theorem interpolatedBody_lineEnd {o : Opening} {scan : List Char → Group} {inDirective : Bool}
    {c : Char} (hc : isLineEnd c = true) (textStart start : Nat) (cs : List Char) :
    interpolatedBody o true scan inDirective textStart start (c :: cs) =
      interpolatedBody o true scan inDirective textStart (start + lineEndLength (c :: cs))
        ((c :: cs).drop (lineEndLength (c :: cs))) := by
  have hone {c : Char} (hc : isLineEnd c = true) (start : Nat) (cs : List Char) :
      interpolatedBody o true scan inDirective textStart start (c :: cs) =
        interpolatedBody o true scan inDirective textStart (start + 1) cs := by
    rw [interpolatedBody, beq_of_isLineEnd (d := '"') hc (by decide),
      beq_of_isLineEnd (d := '\\') hc (by decide), beq_of_isLineEnd (d := '\x7b') hc (by decide),
      beq_of_isLineEnd (d := '\x7d') hc (by decide)]
    simp only [Bool.not_true, Bool.and_false, Bool.false_and, Bool.false_eq_true, if_false]
  rw [lineEndLength_cons]
  split
  · next hpair =>
    obtain ⟨ds, rfl⟩ := List.head?_eq_some_iff.1 hpair.2
    rw [hone hc, hone (by decide)]
    rfl
  · exact hone hc start cs

section Content

variable {scan : List Char → Group} {inDirective : Bool} (hφ : StrictMono φ) (hscan : FedScan scan)

include hφ hscan

/-- A hole that opens on the line behind `length` braces of text. -/
theorem spells_hole_behind {o : Opening} (hopen : 0 < o.braces) (multiLine : Bool) {c : Char}
    {cs : List Char} (hend : isLineEnd c = false) (h : SpelledFrom φ start fed (c :: cs))
    {length : Nat} (hbraces : length + o.braces ≤ (restOfLine (c :: cs)).length)
    (hwhole : Piece.Whole φ
      (hole o multiLine scan inDirective (start + length) ((c :: cs).drop length)).pieces) :
    let part := hole o multiLine scan inDirective (start + length) ((c :: cs).drop length)
    let part' := hole o multiLine scan inDirective (fed + length)
      (lineFeeds ((c :: cs).drop length))
    part.Spells φ part' ∧ start < part.stop ∧
      (lineFeeds cs).drop (part'.stop - fed - 1) = lineFeeds (cs.drop (part.stop - start - 1)) ∧
      SpelledFrom φ part.stop part'.stop (cs.drop (part.stop - start - 1)) := by
  have hbefore : length ≤ (restOfLine (c :: cs)).length := by omega
  have hopens : o.braces ≤ (restOfLine ((c :: cs).drop length)).length := by
    rw [restOfLine_drop hbefore, List.length_drop]
    omega
  have hpart := spells_hole hφ hscan hopens multiLine (h.drop_of_le hbefore) hwhole
  intro part part'
  have hstart : start + length < part.stop := lt_stop_hole hopen multiLine inDirective _ _
  have hfed : fed + length < part'.stop := lt_stop_hole hopen multiLine inDirective _ _
  replace hpart : part.Spells φ part' := hpart
  clear_value part part'
  obtain ⟨hlength, hnext⟩ := h.drop_to hpart.stop (by omega)
  obtain ⟨hdrop, -⟩ := h.advance hend (by omega) hlength
  have hbehind := drop_sub_one (show 0 < part.stop - start by omega) c cs
  exact ⟨hpart, by omega, hdrop, hbehind ▸ hnext⟩

theorem spells_interpolatedBody {o : Opening} (hopen : 0 < o.braces)
    (hplain : o.raw = false → o.braces = 1) (hzero : φ 0 = 0) (multiLine : Bool)
    {textStart textFed : Nat} (htext : φ textFed = textStart) (h : SpelledFrom φ start fed text)
    (hwhole : Piece.Whole φ
      (interpolatedBody o multiLine scan inDirective textStart start text).pieces) :
    (interpolatedBody o multiLine scan inDirective textStart start text).Spells φ
      (interpolatedBody o multiLine scan inDirective textFed fed (lineFeeds text)) := by
  induction hlength : text.length using Nat.strongRecOn
    generalizing textStart textFed start fed text with
  | ind length ih =>
    cases text with
    | nil =>
      rw [lineFeeds, interpolatedBody, interpolatedBody]
      exact spells_unclosedEnd hφ hzero htext h.here false
    | cons c cs =>
      rw [List.length_cons] at hlength
      cases hend : isLineEnd c with
      | true =>
        have hfed := (isLineEnd_lineFeed c).trans hend
        have hpos := length_lineEnd_pos c cs
        cases multiLine with
        | false =>
          rw [lineFeeds_cons, interpolatedBody, interpolatedBody, hend, hfed]
          exact spells_unclosedEnd hφ hzero htext h.here true
        | true =>
          rw [interpolatedBody_lineEnd hend] at hwhole ⊢
          rw [lineFeeds_cons, interpolatedBody_lineEnd hfed, lineEndLength_lineFeed]
          refine ih _ ?_ htext h.lineEnd hwhole rfl
          rw [List.length_drop, List.length_cons]
          omega
      | false =>
        -- the text goes on `m` characters further on, on the line
        have hgoes {m : Nat} (hpos : 0 < m) (hm : m ≤ (restOfLine (c :: cs)).length)
            (hwhole : Piece.Whole φ (interpolatedBody o multiLine scan inDirective textStart
              (start + m) (cs.drop (m - 1))).pieces) :
            (interpolatedBody o multiLine scan inDirective textStart (start + m)
              (cs.drop (m - 1))).Spells φ
              (interpolatedBody o multiLine scan inDirective textFed (fed + m)
                ((lineFeeds cs).drop (m - 1))) := by
          obtain ⟨hdrop, hrest⟩ := h.advance hend hpos (spelledLength_of_le hm)
          rw [hdrop]
          refine ih _ ?_ htext hrest hwhole rfl
          rw [List.length_drop]
          omega
        have hrunLength {d : Char} (hd : d ∉ partings) (hc : c = d) :
            runLength d (lineFeeds cs) = runLength d cs ∧
              runLength d cs + 1 ≤ (restOfLine (c :: cs)).length := by
          subst hc
          rw [restOfLine_cons hend]
          exact ⟨runLength_lineFeeds hd cs, Nat.succ_le_succ (runLength_le_restOfLine hend cs)⟩
        have hone := restOfLine_pos hend cs
        rw [lineFeeds_cons_of_not_isLineEnd hend]
        rw [interpolatedBody, hend] at hwhole
        rw [interpolatedBody, interpolatedBody, hend, beq_head?_lineFeeds (by decide),
          escape_lineFeeds]
        simp only [Bool.false_and, Bool.false_eq_true, if_false] at hwhole ⊢
        split
        · next hquote =>
          rw [if_pos hquote] at hwhole
          obtain ⟨hsame, hle⟩ := hrunLength (d := '"') (by decide) (beq_iff_eq.1 hquote)
          rw [hsame]
          split
          · next hdoubled =>
            rw [if_pos hdoubled] at hwhole
            refine hgoes (m := 2) Nat.two_pos ?_ hwhole
            obtain ⟨ds, rfl⟩ :=
              List.head?_eq_some_iff.1 (beq_iff_eq.1 (Bool.and_eq_true_iff.1 hdoubled).2)
            rw [restOfLine_cons hend, restOfLine_cons (by decide)]
            exact Nat.le_add_left 2 _
          · next hdoubled =>
            rw [if_neg hdoubled] at hwhole
            have hrun : 0 < (if o.raw = true then runLength '"' cs + 1 else 1) ∧
                (if o.raw = true then runLength '"' cs + 1 else 1) ≤
                  (restOfLine (c :: cs)).length := by
              split
              · exact ⟨Nat.succ_pos _, hle⟩
              · exact ⟨Nat.one_pos, hone⟩
            generalize (if o.raw = true then runLength '"' cs + 1 else 1) = run at hrun hwhole ⊢
            split
            · obtain ⟨hdrop, hrest⟩ := h.advance hend hrun.1 (spelledLength_of_le hrun.2)
              rw [hdrop]
              exact spells_closedEnd hφ htext h.here hrest
            · next hshort =>
              rw [if_neg hshort] at hwhole
              exact hgoes hrun.1 hrun.2 hwhole
        · next hquote =>
          rw [if_neg hquote] at hwhole
          split
          · next hescape =>
            rw [if_pos hescape] at hwhole
            rw [Bool.and_assoc, Bool.and_eq_true, beq_iff_eq] at hescape
            obtain rfl := hescape.1
            have hle := length_escape_le_restOfLine cs
            exact (hgoes (length_escape_pos cs) hle hwhole).after_faults
              (Escape.spells_faults h.here (h.add_of_le hle)) _
          · next hescape =>
            rw [if_neg hescape] at hwhole
            split
            · next hbrace =>
              rw [if_pos hbrace] at hwhole
              obtain ⟨hsame, hle⟩ := hrunLength (d := '\x7b') (by decide) (beq_iff_eq.1 hbrace)
              rw [hsame]
              cases hrole : o.braceRole (runLength '\x7b' cs + 1) with
              | text length =>
                rw [hrole] at hwhole
                exact hgoes (length_braceRole_pos (Nat.succ_pos _) (.inl hrole))
                  (Nat.le_trans (le_of_braceRole (.inl hrole)) hle) hwhole
              | tooMany length =>
                rw [hrole] at hwhole
                exact (hgoes (length_braceRole_pos (Nat.succ_pos _) (.inr hrole))
                  (Nat.le_trans (le_of_braceRole (.inr hrole)) hle) hwhole).after_faults
                    (.single rfl h.here h.here) []
              | hole length =>
                rw [hrole] at hwhole
                have hadd := add_braces_of_braceRole hplain hrole (Nat.succ_pos _)
                have hbefore : length ≤ (restOfLine (c :: cs)).length := by omega
                obtain ⟨hpieces, hlater⟩ := List.forall_mem_append.1 hwhole
                obtain ⟨hpart, hlt, hdrop, hnext⟩ := spells_hole_behind hφ hscan hopen multiLine
                  hend h (by omega) (List.forall_mem_append.1 hpieces).2
                simp only at hlater ⊢
                rw [← lineFeeds_cons_of_not_isLineEnd hend, drop_lineFeeds_of_le hbefore, hdrop,
                  ← hpart.features]
                refine (ih _ ?_ hpart.stop.symm hnext hlater rfl).after ?_ hpart.faults _
                · rw [List.length_drop]
                  omega
                · rw [List.map_append, hpart.pieces,
                    ← spells_textPieces hφ htext (h.add_of_le hbefore)]
            · next hbrace =>
              rw [if_neg hbrace] at hwhole
              split
              · next hclose =>
                rw [if_pos hclose] at hwhole
                obtain ⟨hsame, hle⟩ := hrunLength (d := '\x7d') (by decide) (beq_iff_eq.1 hclose)
                rw [hsame]
                split
                · next hraw =>
                  rw [if_pos hraw] at hwhole
                  exact hgoes (Nat.succ_pos _) hle hwhole
                · next hraw =>
                  rw [if_neg hraw] at hwhole
                  split
                  · next htwo =>
                    rw [if_pos htwo] at hwhole
                    exact hgoes (m := 2) Nat.two_pos (Nat.le_trans htwo hle) hwhole
                  · next htwo =>
                    rw [if_neg htwo] at hwhole
                    exact (hgoes Nat.one_pos hone hwhole).after_faults
                      (.single rfl h.here h.here) []
              · next hclose =>
                rw [if_neg hclose] at hwhole
                exact hgoes Nat.one_pos hone hwhole

end Content

/-! ### Groups -/

theorem Opens.isLineEnd_eq_false {characters : List Char} {braces : Nat}
    (h : Opens characters braces) : ∀ c ∈ characters, isLineEnd c = false := by
  have hrun (n : Nat) {d : Char} (hd : isLineEnd d = false) :
      ∀ c ∈ List.replicate n d, isLineEnd c = false :=
    fun c hc ↦ List.eq_of_mem_replicate hc ▸ hd
  have hquote : ∀ c ∈ ['"'], isLineEnd c = false := List.forall_mem_singleton.2 (by decide)
  cases h with
  | regular => exact List.forall_mem_append.2 ⟨hrun _ (by decide), hquote⟩
  | verbatim =>
    exact List.forall_mem_append.2
      ⟨hrun _ (by decide), List.forall_mem_cons.2 ⟨by decide, hquote⟩⟩
  | atFirst =>
    exact List.forall_mem_cons.2
      ⟨by decide, List.forall_mem_append.2 ⟨hrun _ (by decide), hquote⟩⟩
  | raw => exact List.forall_mem_append.2 ⟨hrun _ (by decide), hrun _ (by decide)⟩

/-- An interpolated string opens within its line. -/
theorem length_opening?_le {o : Opening} (h : opening? text = some o) :
    o.length ≤ (restOfLine text).length := by
  obtain ⟨characters, rest, rfl, hlength, hopens, -⟩ := opens_of_opening? h
  rw [← hlength]
  exact length_le_restOfLine_of_prefix (List.prefix_append _ _) hopens.isLineEnd_eq_false

theorem spells_interpolatedGroup {scan : List Char → Group} (hscan : FedScan scan) {o : Opening}
    (ho : opening? text = some o) (inDirective : Bool)
    (hwhole : Piece.Whole (spelledLength text) (interpolatedGroup o scan inDirective text).pieces) :
    (interpolatedGroup o scan inDirective text).Spells (spelledLength text)
      (interpolatedGroup o scan inDirective (lineFeeds text)) := by
  obtain ⟨-, -, -, -, -, hplain⟩ := opens_of_opening? ho
  have hopen := length_opening?_le ho
  have hself := spelledLength_of_le hopen
  have hcontent := (SpelledFrom.refl text).drop_of_le hopen
  rw [Nat.zero_add] at hcontent
  simp only [interpolatedGroup, drop_lineFeeds_of_le hopen, restOfLineIsBlank_lineFeeds]
    at hwhole ⊢
  generalize (if o.raw = true then restOfLineIsBlank (text.drop o.length) else o.verbatim) =
    multiLine at hwhole ⊢
  have hbody := spells_interpolatedBody (strictMono_spelledLength text) hscan (braces_pos ho) hplain
    (spelledLength_zero text) multiLine hself hcontent (List.forall_mem_cons.1 hwhole).2
  refine ⟨hbody.stop, ?_, hbody.faults⟩
  simp only
  rw [List.map_cons, ← hbody.pieces, ← hbody.features, Piece.spell]
  simp only [Nat.zero_add, hself, spelledLength_zero, Nat.sub_zero]

theorem spells_givingUp (text : List Char) :
    (givingUp text).Spells (spelledLength text) (givingUp (lineFeeds text)) := by
  have hzero := spelledLength_zero text
  have hstop : spelledLength text (0 + (lineFeeds text).length) = 0 + text.length := by
    rw [Nat.zero_add, Nat.zero_add, spelledLength_length]
  refine ⟨(spelledLength_length text).symm, ?_, .single rfl hzero hzero⟩
  simp only [givingUp, List.map_singleton, Piece.spell_bare hzero hstop]

/-- What opens a text and what opens the text with line feeds is read the same. -/
theorem fedScan_scanGroup (inDirective : Bool) (room : Nat) :
    FedScan (scanGroup inDirective room) := by
  have hpos (room : Nat) (c : Char) (cs : List Char) :
      0 < (scanGroup inDirective room (c :: cs)).length :=
    length_scanGroup_pos inDirective room (List.cons_ne_nil c cs)
  have hlexeme {text : List Char}
      (hwhole : Piece.Whole (spelledLength text) (plainLexeme text).toGroup.pieces) :
      (plainLexeme text).toGroup.Spells (spelledLength text)
        (plainLexeme (lineFeeds text)).toGroup := by
    have hstop := hwhole _ List.mem_cons_self
    rw [Lexeme.piece, Nat.zero_add] at hstop
    obtain ⟨hkind, hlength, hname, hfeatures, hfaults⟩ := spells_plainLexeme text fun _ ↦ hstop
    refine ⟨hlength, ?_, hfaults⟩
    rw [Lexeme.toGroup, Lexeme.toGroup, List.map_singleton, Lexeme.piece, Lexeme.piece, Piece.spell,
      hkind, hlength, hname, hfeatures]
    simp only [Nat.zero_add, spelledLength_zero, Nat.sub_zero]
  induction room with
  | zero =>
    refine ⟨hpos 0, fun text hwhole ↦ ?_⟩
    rw [scanGroup] at hwhole
    rw [scanGroup, scanGroup, opening?_lineFeeds]
    split
    · next ho =>
      rw [ho] at hwhole
      exact hlexeme hwhole
    · exact spells_givingUp text
  | succ room ih =>
    refine ⟨hpos (room + 1), fun text hwhole ↦ ?_⟩
    rw [scanGroup] at hwhole
    rw [scanGroup, scanGroup, opening?_lineFeeds]
    split
    · next ho =>
      rw [ho] at hwhole
      exact hlexeme hwhole
    · next o ho =>
      rw [ho] at hwhole
      exact spells_interpolatedGroup ih ho inDirective hwhole

/-- The opening of a directive line ends with the line at the latest, so it keeps its place. -/
theorem spells_directiveOpening (cs : List Char) :
    (directiveOpening ('#' :: cs)).Spells (spelledLength ('#' :: cs))
      (directiveOpening (lineFeeds ('#' :: cs))) := by
  have hle := length_directiveOpening_le cs
  rw [directiveOpening_lineFeeds rfl]
  refine ⟨(spelledLength_of_le hle).symm, ?_, ?_⟩
  · refine ((List.map_congr_left fun p hp ↦ ?_).trans (List.map_id _)).symm
    have hstop := (covers_directiveOpening ('#' :: cs)).tiled.le_of_mem p hp
    rw [Piece.spell, spelledLength_of_le (Nat.le_trans hstop hle),
      spelledLength_of_le (Nat.le_trans (Nat.le_add_right _ _) (Nat.le_trans hstop hle)),
      Nat.add_sub_cancel_left, id_eq]
  · rw [faults_directiveOpening]
    exact .nil

end CSharpCheck
