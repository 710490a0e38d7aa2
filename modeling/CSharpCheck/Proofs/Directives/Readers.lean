import CSharpCheck.Proofs.Scanning.Spellings

/-!
# Readers of rendered text

The steps in which a reader of active text goes through words, lines of words and directive lines,
with what each step contributes.
-/

namespace CSharpCheck

/-! ### Steps -/

namespace ActiveReader

/-- In some steps, none of which breaks the reading off, the reader contributes the tokens and the
findings. -/
inductive Advances (script : Bool) :
    ActiveReader → List Token → List Finding → ActiveReader → Prop where
  | refl (r : ActiveReader) : Advances script r [] [] r
  | step {r next last : ActiveReader} {reading : Reading} {chunk : Chunk} {ts : List Token}
      {fs : List Finding} : r.source.read = some reading →
      r.take script reading = (chunk, next) → chunk.breakdown = none →
      Advances script next ts fs last →
      Advances script r (chunk.tokens ++ ts) (chunk.findings ++ fs) last

variable {script : Bool} {r next last : ActiveReader} {ts us : List Token} {fs gs : List Finding}

theorem Advances.trans (h : Advances script r ts fs next) (h' : Advances script next us gs last) :
    Advances script r (ts ++ us) (fs ++ gs) last := by
  induction h with
  | refl => exact h'
  | step hread htake hbreak _ ih =>
    rw [List.append_assoc, List.append_assoc]
    exact .step hread htake hbreak (ih h')

theorem state_take (script : Bool) (r : ActiveReader) (reading : Reading) :
    (r.take script reading).1.state = (r.take script reading).2.state := by
  unfold take
  split
  · rfl
  · split
    · rfl
    · split
      · rfl
      · split <;> rfl

theorem Advances.of_finished (h : Advances script r ts fs last)
    (hfinished : r.source.finished = true) : ts = [] ∧ fs = [] ∧ last = r := by
  cases h with
  | refl => exact ⟨rfl, rfl, rfl⟩
  | step hread => simp [TokenSource.read, hfinished] at hread

/-- What a reader contributes up to the end of the text, in as many steps as it needs. -/
theorem Advances.chunksUpTo_eq (h : Advances script r ts fs last)
    (hlast : last.source.finished = true) (hfirst : r.source.finished = false) {limit : Nat}
    (hlimit : r.source.stepsLeft ≤ limit) :
    (r.chunksUpTo script limit).flatMap (·.tokens) = ts ∧
      (r.chunksUpTo script limit).flatMap (·.findings) = fs ∧
      (∀ c ∈ r.chunksUpTo script limit, c.breakdown = none) ∧
      (r.chunksUpTo script limit).getLast?.map (·.state) = some last.state := by
  induction h generalizing limit with
  | refl => simp [hfirst] at hlast
  | @step r next last reading chunk ts fs hread htake hbreak hrest ih =>
    have hsteps := stepsLeft_source_take script hread
    have hstate := r.state_take script reading
    rw [htake] at hsteps hstate
    replace hsteps : next.source.stepsLeft < r.source.stepsLeft := hsteps
    replace hstate : chunk.state = next.state := hstate
    cases limit with
    | zero => omega
    | succ limit =>
      rw [chunksUpTo, hread]
      simp only [htake, hbreak, Option.isSome_none, Bool.false_eq_true, if_false,
        List.flatMap_cons, List.forall_mem_cons, true_and]
      cases hend : next.source.finished with
      | true =>
        obtain ⟨rfl, rfl, rfl⟩ := hrest.of_finished hend
        simp [chunksUpTo_of_finished hend, hstate]
      | false =>
        obtain ⟨htokens, hfindings, hbreaks, hlastState⟩ :=
          ih hlast hend (Nat.le_of_lt_succ (Nat.lt_of_lt_of_le hsteps hlimit))
        refine ⟨by rw [htokens], by rw [hfindings], hbreaks, ?_⟩
        obtain ⟨c, hc, hcstate⟩ := Option.map_eq_some_iff.1 hlastState
        rw [List.getLast?_cons, hc]
        exact congrArg some hcstate

end ActiveReader

/-! ### Words -/

/-- A word. -/
structure Word (inDirective : Bool) where
  chars : List Char
  pieces : List Piece
  isWord : IsWord inDirective chars pieces

/-- The text of a line of words, with single spaces between them. -/
def Word.line (ws : List (Word false)) : List Char := [' '].intercalate (ws.map (·.chars))

/-- The tokens of a line of words. -/
def Word.tokens (p : Position) (atLineStart : Bool) : List (Word false) → List Token
  | [] => []
  | w :: ws =>
    wordTokens p atLineStart w.chars w.pieces ++ tokens (p.right (w.chars.length + 1)) false ws

namespace Cursor.Before

variable {inDirective used : Bool} {cs : List Char} {p : Position} {c : Cursor}

theorem afterSpace (h : c.Before inDirective (' ' :: cs) p used) :
    c.Before inDirective cs (p.right 1) used := by
  induction h with
  | here =>
    refine .space rfl ?_
    rw [advance_one rfl]
    exact .here
  | space hc _ ih => exact .space hc ih
  | lineFeed hin hc _ ih => exact .lineFeed hin hc ih

theorem afterLineFeed (h : c.Before false ('\n' :: cs) p used) :
    c.Before false cs p.below false := by
  induction h with
  | here =>
    refine .lineFeed rfl rfl ?_
    have hadvance : (⟨'\n' :: cs, p, used⟩ : Cursor).advance 1 =
        ⟨cs, p.below, false⟩ := by
      simp [advance, positionAt, Position.after, Position.step_lineFeed, Position.after_zero,
        Position.below]
    rw [hadvance]
    exact .here
  | space hc _ ih => exact .space hc ih
  | lineFeed hin hc _ ih => exact .lineFeed hin hc ih

end Cursor.Before

/-! ### Words of code -/

/-- The first token of a word belongs to no directive and does not end the text. -/
theorem Spells.exists_wordTokens {inDirective : Bool} {chars rest : List Char}
    {pieces : List Piece} (h : Spells inDirective chars pieces rest) (p : Position)
    (atLineStart : Bool) : ∃ t ts, wordTokens p atLineStart chars pieces = t :: ts ∧
      t.kind ≠ .directiveEnd ∧ t.kind ≠ .directiveStart ∧ t.kind ≠ .endOfFile := by
  have hne : chars ++ rest ≠ [] := List.append_ne_nil_of_left_ne_nil h.ne_nil rest
  obtain ⟨q, qs, hpieces, hkind⟩ := exists_piece_scanGroup inDirective maxOpenHoles hne
  rw [h.scan_eq] at hpieces
  replace hpieces : pieces = q :: qs := hpieces
  refine ⟨_, _, by rw [wordTokens, hpieces, Cursor.tokens], ?_, ?_, ?_⟩
  all_goals
    intro heq
    replace heq : q.kind = _ := heq
    rw [heq] at hkind
    rcases hkind with hkind | hkind <;> contradiction

namespace ActiveReader

variable (script : Bool) {r : ActiveReader} {rest : List Char} {p : Position} {used : Bool}
  {state : DirectiveState}

/-- Between two lines or two words of code, the reader is before what is left of the text. -/
structure At (r : ActiveReader) (rest : List Char) (p : Position) (used : Bool)
    (state : DirectiveState) : Prop where
  line : r.line = []
  state : r.state = state
  inDirective : r.source.inDirective = false
  finished : r.source.finished = false
  before : r.source.cursor.Before false rest p used

theorem At.afterSpace (h : r.At (' ' :: rest) p used state) : r.At rest (p.right 1) used state :=
  { h with before := h.before.afterSpace }

theorem At.afterLineFeed (h : r.At ('\n' :: rest) p used state) :
    r.At rest p.below false state :=
  { h with before := h.before.afterLineFeed }

theorem take_code {reading : Reading} {t : Token} {ts : List Token} (hline : r.line = [])
    (htokens : reading.tokens = t :: ts) (hend : t.kind ≠ .directiveEnd)
    (hstart : t.kind ≠ .directiveStart) (hfile : t.kind ≠ .endOfFile) :
    r.take script reading =
      (⟨reading.tokens, reading.findings, [], { r.state with seenToken := true }, none⟩,
        ⟨reading.source, { r.state with seenToken := true }, []⟩) := by
  unfold take
  rw [htokens]
  simp only
  rw [if_neg hend, if_neg (by simp [hstart, hline]), if_neg hfile]

/-- A word of code contributes its tokens. -/
theorem At.word {chars : List Char} {pieces : List Piece}
    (h : r.At (chars ++ rest) p used state) (hword : Spells false chars pieces rest) :
    ∃ next, Advances script r (wordTokens p (!used) chars pieces) [] next ∧
      next.At rest (p.right chars.length) true { state with seenToken := true } := by
  have hbefore : r.source.cursor.Before r.source.inDirective (chars ++ rest) p used :=
    h.inDirective ▸ h.before
  have hread := TokenSource.read_word h.finished hbefore (h.inDirective ▸ hword)
  obtain ⟨t, ts, htokens, hend, hstart, hfile⟩ := hword.exists_wordTokens p (!used)
  have hadvances := Advances.step hread
    (take_code script h.line htokens hend hstart hfile) rfl (.refl _)
  rw [List.append_nil, List.append_nil] at hadvances
  refine ⟨_, hadvances, ?_⟩
  exact
    { line := rfl
      state := by rw [h.state]
      inDirective := h.inDirective
      finished := rfl
      before := .here }

theorem take_endOfFile {reading : Reading} {t : Token} (hline : r.line = [])
    (htokens : reading.tokens = [t]) (hfile : t.kind = .endOfFile) :
    r.take script reading =
      (⟨[t], reading.findings ++ openBlockFindings r.state.blocks t, [], r.state, none⟩,
        { r with source := reading.source }) := by
  unfold take
  rw [htokens]
  simp only
  rw [if_neg (by simp [hfile]), if_neg (by simp [hfile, hline]), if_pos hfile]

/-- At the end of the text, the end is all that is contributed if no block is open. -/
theorem At.endOfFile (h : r.At [] p used state) (hblocks : state.blocks = []) :
    ∃ next, Advances script r [⟨.endOfFile, "", none, .point p, !used, []⟩] [] next ∧
      next.source.finished = true ∧ next.state = state := by
  have hread := TokenSource.read_endOfFile h.finished h.inDirective h.before
  have hadvances := Advances.step hread (take_endOfFile script h.line rfl rfl) rfl (.refl _)
  have hnone (t : Token) : openBlockFindings r.state.blocks t = [] := by
    rw [h.state, hblocks]
    rfl
  rw [hnone] at hadvances
  exact ⟨_, hadvances, rfl, h.state⟩

/-- A line of words contributes the tokens of the words, if the last of them is a word in front of
what follows. -/
theorem At.words (ws : List (Word false)) (h : r.At (Word.line ws ++ rest) p used state)
    (hlast : ∀ w ∈ ws.getLast?, Spells false w.chars w.pieces rest) :
    ∃ next, Advances script r (Word.tokens p (!used) ws) [] next ∧
      next.At rest (p.right (Word.line ws).length) (used || !ws.isEmpty)
        { state with seenToken := state.seenToken || !ws.isEmpty } := by
  induction ws generalizing r p used state with
  | nil =>
    refine ⟨r, .refl r, ?_⟩
    simpa [Word.line] using h
  | cons w ws ih =>
    cases ws with
    | nil =>
      have hline : Word.line [w] = w.chars := by simp [Word.line, List.intercalate]
      rw [hline] at h
      obtain ⟨next, hadvances, hnext⟩ := h.word script (hlast w rfl)
      refine ⟨next, ?_, ?_⟩
      · simpa [Word.tokens] using hadvances
      · simpa [hline] using hnext
    | cons v ws =>
      have hline : Word.line (w :: v :: ws) = w.chars ++ ' ' :: Word.line (v :: ws) := by
        simp [Word.line, List.intercalate]
      rw [hline, List.append_assoc, List.cons_append] at h
      have hspace : Separated (' ' :: (Word.line (v :: ws) ++ rest)) := ⟨_, .inl rfl⟩
      obtain ⟨mid, hfirst, hmid⟩ := h.word script (w.isWord _ hspace)
      obtain ⟨next, hrest', hnext⟩ := ih hmid.afterSpace (by simpa using hlast)
      refine ⟨next, ?_, ?_⟩
      · have hadvances := hfirst.trans hrest'
        rw [Position.right_right] at hadvances
        exact hadvances
      · rw [Position.right_right, Position.right_right] at hnext
        have hlength : w.chars.length + (1 + (Word.line (v :: ws)).length) =
            (Word.line (w :: v :: ws)).length := by
          simp [hline]
          omega
        rw [hlength] at hnext
        simpa using hnext

end ActiveReader

/-! ### Excluded lines -/

/-- Whether the line does not open with a hash. -/
def Unhashed (line : List Char) : Prop := (line.dropWhile isBlank).head? ≠ some '#'

instance : DecidablePred Unhashed := fun _ ↦ inferInstanceAs (Decidable (_ ≠ _))

theorem excludedLength_lineFeed (cs : List Char) :
    excludedLength ('\n' :: cs) = linesToHash ('\n' :: cs) := by
  simp [excludedLength, restOfLine, isLineEnd]

theorem linesToHash_unhashed {line : List Char} (hline : Unhashed line)
    (honeLine : ∀ c ∈ line, isLineEnd c = false) (rest : List Char) :
    linesToHash ('\n' :: (line ++ '\n' :: rest)) =
      1 + line.length + linesToHash ('\n' :: rest) := by
  have hrestOfLine : restOfLine (line ++ '\n' :: rest) = line := by
    rw [restOfLine, List.takeWhile_append_of_pos (by simpa using honeLine)]
    simp [isLineEnd]
  have hhash : (((line ++ '\n' :: rest).dropWhile isBlank).head? == some '#') = false := by
    rw [List.dropWhile_append]
    split
    · simp [isBlank, isLineEnd]
    · next hne =>
      have hne' : line.dropWhile isBlank ≠ [] := fun hnil ↦ hne (by rw [hnil]; rfl)
      obtain ⟨c, cs, hcons⟩ := List.exists_cons_of_ne_nil hne'
      rw [Unhashed, hcons] at hline
      simpa [hcons] using hline
  rw [linesToHash]
  simp [lineEndLength, hhash, hrestOfLine]

/-! ### Directive lines -/

/-- The hash of a directive line that starts at the position. -/
def hashToken (p : Position) : Token := ⟨.directiveStart, "#", none, ⟨p, p.right 1⟩, true, []⟩

/-- The name of a directive at the position. -/
def directiveToken (p : Position) (name : List Char) : Token :=
  ⟨nameKind name, String.ofList name, some (String.ofList name), ⟨p, p.right name.length⟩, false, []⟩

/-- The end of a directive line at the position. -/
def directiveEndToken (p : Position) : Token := ⟨.directiveEnd, "", none, .point p, false, []⟩

/-- The text of the words behind the name of a directive. -/
def Word.arguments (ws : List (Word true)) : List Char := ws.flatMap (' ' :: ·.chars)

/-- The tokens of the words behind the name of a directive. -/
def Word.argumentTokens (p : Position) : List (Word true) → List Token
  | [] => []
  | w :: ws =>
    wordTokens (p.right 1) false w.chars w.pieces ++
      argumentTokens (p.right (1 + w.chars.length)) ws

/-- A name opens a directive. Free text follows some names, but not at the end of the line. -/
theorem directiveOpening_name {name rest : List Char} (h : IsName name) (hrest : Separated rest)
    (hmessage : messageDirectives.contains (String.ofList name) = true → ∃ cs, rest = '\n' :: cs) :
    directiveOpening ('#' :: (name ++ rest)) =
      ⟨1 + name.length, [.bare .directiveStart 0 1, (namePiece false name).shift 1], []⟩ := by
  obtain ⟨hpiece, -⟩ := h.nameLexeme_eq false hrest.endsWord
  have hlength : (nameLexeme false (name ++ rest)).length = name.length := by
    have heq := congrArg Piece.length hpiece
    exact heq.trans (Nat.zero_add _)
  have hindent : indentLength (name ++ rest) = 0 := by
    obtain ⟨c, ds, rfl, hstarts⟩ := h.exists_eq_cons
    have hc := continuesName_of_startsName hstarts
    have hspace := ne_of_continuesName (d := ' ') hc (by decide)
    have htab := ne_of_continuesName (d := '\t') hc (by decide)
    simp [indentLength, hspace, htab]
  have hhead : ((name ++ rest).head? == some '!') = false ∧
      (name ++ rest).head?.any startsName = true := by
    obtain ⟨c, ds, rfl, hstarts⟩ := h.exists_eq_cons
    have hc := continuesName_of_startsName hstarts
    simp [hstarts, ne_of_continuesName (d := '!') hc (by decide)]
  have htake : (name ++ rest).take name.length = name := List.take_left
  have hpiece' : (nameLexeme false (name ++ rest)).piece = namePiece false name := hpiece
  have hdrop : (name ++ rest).drop name.length = rest := List.drop_left
  unfold directiveOpening
  simp only [List.drop_succ_cons, List.drop_zero, hhead.1, Bool.false_eq_true, if_false, hindent,
    Nat.add_zero, hhead.2, if_true, hlength, hpiece', htake]
  split
  · next hmsg =>
    obtain ⟨cs, rfl⟩ := hmessage hmsg
    have hdropAll : ('#' :: (name ++ '\n' :: cs)).drop (1 + name.length) = '\n' :: cs := by
      rw [Nat.add_comm, List.drop_succ_cons, List.drop_left]
    have hnoIndent : indentLength ('\n' :: cs) = 0 := by simp [indentLength]
    have hnone : messagePiece (1 + name.length) ('\n' :: cs) =
        ⟨.directiveMessage, 1 + name.length, 0, some "", []⟩ := by
      simp [messagePiece, restOfLine, isLineEnd, trimEnd]
    simp [hdropAll, hnoIndent, hnone]
  · rfl

namespace ActiveReader

variable (script : Bool) {r : ActiveReader} {ts : List Token} {rest : List Char} {p : Position}
  {state : DirectiveState}

/-- In a directive line, the reader has gathered the tokens and is before what is left of the
text. -/
structure InLine (r : ActiveReader) (ts : List Token) (rest : List Char) (p : Position)
    (state : DirectiveState) : Prop where
  line : r.line.reverse = ts
  ne_nil : ts ≠ []
  state : r.state = state
  inDirective : r.source.inDirective = true
  finished : r.source.finished = false
  before : r.source.cursor.Before true rest p true

theorem tokens_opening (name rest : List Char) (honeLine : ∀ c ∈ name, isLineEnd c = false)
    (p : Position) :
    (⟨'#' :: (name ++ rest), p, false⟩ : Cursor).tokens
        [.bare .directiveStart 0 1, (namePiece false name).shift 1] =
      [hashToken p, directiveToken (p.right 1) name] := by
  have hchars : ∀ c ∈ '#' :: name, isLineEnd c = false :=
    List.forall_mem_cons.2 ⟨by decide, honeLine⟩
  have hafter {n : Nat} (hn : n ≤ 1 + name.length) :
      p.after ('#' :: (name ++ rest)) n = p.right n :=
    Position.after_append_of_oneLine hchars p rest (by simpa [Nat.add_comm] using hn)
  have hkind : nameKind name ≠ .directiveMessage := by
    unfold nameKind
    split <;> simp
  simp only [Cursor.tokens, List.map_cons, List.map_nil, Cursor.token, Cursor.positionAt, Piece.bare,
    Piece.shift, namePiece, hashToken, directiveToken, Bool.false_eq_true, if_false, Nat.zero_add,
    Nat.add_zero, hkind, Bool.not_false, List.drop_zero, List.drop_succ_cons, List.take_left,
    hafter (Nat.zero_le _), hafter (Nat.le_add_right 1 name.length), hafter (Nat.le_refl _),
    Position.right_zero, Position.right_right]
  rfl

/-- The hash and the name of a directive. -/
theorem At.opening {name : List Char} (h : r.At ('#' :: (name ++ rest)) p false state)
    (hname : IsName name) (hrest : Separated rest)
    (hmessage : messageDirectives.contains (String.ofList name) = true → ∃ cs, rest = '\n' :: cs) :
    ∃ next, Advances script r [] [] next ∧
      next.InLine [hashToken p, directiveToken (p.right 1) name] rest (p.right (1 + name.length))
        state := by
  have honeLine : ∀ c ∈ name, isLineEnd c = false := fun c hc ↦
    not_isLineEnd_of_continuesName (hname.continues c hc)
  have hread := TokenSource.read_opening h.finished h.inDirective h.before
    (directiveOpening_name hname hrest hmessage) rfl
  rw [tokens_opening name rest honeLine] at hread
  have hadvances := Advances.step hread
    (take_line script (.inr rfl) rfl (by simp [hashToken])) rfl (.refl _)
  refine ⟨_, hadvances, ?_⟩
  have hchars : ∀ c ∈ '#' :: name, isLineEnd c = false :=
    List.forall_mem_cons.2 ⟨by decide, honeLine⟩
  have hafter : p.after ('#' :: (name ++ rest)) (1 + name.length) = p.right (1 + name.length) :=
    Position.after_append_of_oneLine hchars p rest (by simp [Nat.add_comm])
  have hdrop : ('#' :: (name ++ rest)).drop (1 + name.length) = rest := by
    rw [Nat.add_comm, List.drop_succ_cons, List.drop_left]
  exact
    { line := by simp [h.line]
      ne_nil := by simp
      state := h.state
      inDirective := rfl
      finished := rfl
      before := by
        simp only [hafter, hdrop]
        exact .here }

/-- A word of a directive line is gathered. -/
theorem InLine.word {chars : List Char} {pieces : List Piece}
    (h : r.InLine ts (' ' :: (chars ++ rest)) p state) (hword : Spells true chars pieces rest) :
    ∃ next, Advances script r [] [] next ∧
      next.InLine (ts ++ wordTokens (p.right 1) false chars pieces) rest
        (p.right (1 + chars.length)) state := by
  have hbefore : r.source.cursor.Before r.source.inDirective (chars ++ rest) (p.right 1) true := by
    rw [h.inDirective]
    exact h.before.afterSpace
  have hread := TokenSource.read_word h.finished hbefore (h.inDirective ▸ hword)
  obtain ⟨t, us, htokens, hend, -, -⟩ := hword.exists_wordTokens (p.right 1) false
  have hline : r.line ≠ [] := by
    intro hnil
    have := h.line
    simp only [hnil, List.reverse_nil] at this
    exact h.ne_nil this.symm
  have hadvances := Advances.step hread
    (take_line script (.inl hline) htokens hend) rfl (.refl _)
  refine ⟨_, hadvances, ?_⟩
  exact
    { line := by simp [h.line]
      ne_nil := by simp [h.ne_nil]
      state := h.state
      inDirective := h.inDirective
      finished := rfl
      before := by
        rw [Position.right_right]
        exact .here }

/-- The words behind the name of a directive are gathered up to the end of the line. -/
theorem InLine.words (ws : List (Word true))
    (h : r.InLine ts (Word.arguments ws ++ '\n' :: rest) p state) :
    ∃ next, Advances script r [] [] next ∧
      next.InLine (ts ++ Word.argumentTokens p ws) ('\n' :: rest)
        (p.right (Word.arguments ws).length) state := by
  induction ws generalizing r ts p with
  | nil =>
    refine ⟨r, .refl r, ?_⟩
    simpa [Word.arguments, Word.argumentTokens] using h
  | cons w ws ih =>
    have harguments : Word.arguments (w :: ws) = ' ' :: (w.chars ++ Word.arguments ws) := by
      simp [Word.arguments]
    rw [harguments, List.cons_append, List.append_assoc] at h
    have hseparated : Separated (Word.arguments ws ++ '\n' :: rest) := by
      cases ws with
      | nil => exact ⟨rest, .inr rfl⟩
      | cons v ws => exact ⟨_, .inl rfl⟩
    obtain ⟨mid, hfirst, hmid⟩ := h.word script (w.isWord _ hseparated)
    obtain ⟨next, hrest, hnext⟩ := ih hmid
    refine ⟨next, hfirst.trans hrest, ?_⟩
    rw [Position.right_right, List.append_assoc] at hnext
    have hlength : 1 + w.chars.length + (Word.arguments ws).length =
        (Word.arguments (w :: ws)).length := by
      rw [harguments, List.length_cons, List.length_append]
      omega
    rw [hlength] at hnext
    exact hnext

/-! ### The ends of directive lines -/

/-- Behind a directive that leaves the text inactive, the reader is at the next line that opens with
a hash, if what is left of the text starts at the position. -/
structure Skipping (r : ActiveReader) (rest : List Char) (p : Position) (state : DirectiveState) :
    Prop where
  line : r.line = []
  state : r.state = state
  inDirective : r.source.inDirective = false
  finished : r.source.finished = false
  skipped : ∃ s : TokenSource, s.cursor.rest = '\n' :: rest ∧
    s.cursor.positionAt 1 = p ∧ r.source.cursor = s.skipExcluded.cursor

theorem take_directiveEnd {reading : Reading} {t : Token} {line : DirectiveLine}
    (htokens : reading.tokens = [t]) (hend : t.kind = .directiveEnd)
    (hline : r.lineUpTo t = some line) :
    r.take script reading =
      (⟨[], reading.findings ++ (r.state.process script line).findings,
          (r.state.process script line).remarks, (r.state.process script line).state,
          r.state.breakdown? line⟩,
        ⟨if (r.state.process script line).state.active then reading.source
          else reading.source.skipExcluded, (r.state.process script line).state, []⟩) := by
  unfold take
  rw [htokens]
  simp only
  rw [if_pos hend, endLine, hline]
  rfl

/-- At the end of its line a directive takes effect. -/
theorem InLine.done {hash : Token} {body : List Token} {effect : Effect}
    (h : r.InLine (hash :: body) ('\n' :: rest) p state)
    (heffect : state.process script ⟨hash, body, directiveEndToken p⟩ = effect)
    (hbreak : state.breakdown? ⟨hash, body, directiveEndToken p⟩ = none) :
    ∃ next, Advances script r [] effect.findings next ∧
      if effect.state.active then next.At rest p.below false effect.state
      else next.Skipping rest p.below effect.state := by
  have hread := TokenSource.read_directiveEnd h.finished h.inDirective h.before
  have hline : r.lineUpTo (directiveEndToken p) = some ⟨hash, body, directiveEndToken p⟩ := by
    simp only [lineUpTo, h.line]
  have hadvances := Advances.step hread (take_directiveEnd script rfl rfl hline)
    (by rw [h.state]; exact hbreak) (.refl _)
  rw [h.state, heffect] at hadvances
  simp only [List.append_nil, List.nil_append] at hadvances
  refine ⟨_, hadvances, ?_⟩
  cases hactive : effect.state.active with
  | true =>
    simp only [if_true]
    exact
      { line := rfl
        state := rfl
        inDirective := rfl
        finished := rfl
        before := Cursor.Before.here.afterLineFeed }
  | false =>
    simp only [Bool.false_eq_true, if_false]
    exact
      { line := rfl
        state := rfl
        inDirective := rfl
        finished := rfl
        skipped := by
          refine ⟨_, rfl, ?_, rfl⟩
          simp [Cursor.positionAt, Position.after, Position.step_lineFeed, Position.after_zero] }

/-- Behind excluded text the next line that opens with a hash is read. -/
theorem Skipping.at_hash (h : r.Skipping ('#' :: rest) p state) :
    r.At ('#' :: rest) p false state where
  line := h.line
  state := h.state
  inDirective := h.inDirective
  finished := h.finished
  before := by
    obtain ⟨s, hrest, hposition, hcursor⟩ := h.skipped
    have hlength : linesToHash ('\n' :: '#' :: rest) = 1 := by
      rw [linesToHash]
      simp [lineEndLength, isBlank, isSpace, isLineEnd, inRanges]
    rw [hcursor]
    simp only [TokenSource.skipExcluded, hrest, excludedLength_lineFeed, hlength, Cursor.advance,
      hposition, List.drop_succ_cons, List.drop_zero]
    exact .here

/-- A line that does not open with a hash is skipped. -/
theorem Skipping.line_excluded {line : List Char}
    (h : r.Skipping (line ++ '\n' :: rest) p state) (hline : Unhashed line)
    (honeLine : ∀ c ∈ line, isLineEnd c = false) :
    r.Skipping rest (p.right line.length).below state where
  line := h.line
  state := h.state
  inDirective := h.inDirective
  finished := h.finished
  skipped := by
    obtain ⟨s, hrest, hposition, hcursor⟩ := h.skipped
    have hlength := linesToHash_unhashed hline honeLine rest
    have hmoved : s.cursor.positionAt (1 + line.length) = p.right line.length := by
      rw [← Cursor.positionAt_add, Cursor.positionAt, Cursor.advance, hrest, hposition]
      exact Position.after_append_of_oneLine honeLine p _ (Nat.le_refl _)
    have hdrop : ('\n' :: (line ++ '\n' :: rest)).drop (1 + line.length) = '\n' :: rest := by
      rw [Nat.add_comm, List.drop_succ_cons, List.drop_left]
    refine ⟨⟨s.cursor.advance (1 + line.length), s.inDirective, s.finished⟩, ?_, ?_, ?_⟩
    · rw [Cursor.rest_advance, hrest, hdrop]
    · rw [Cursor.positionAt, Cursor.rest_advance, hrest, hdrop]
      replace hmoved : (s.cursor.advance (1 + line.length)).position = p.right line.length := hmoved
      simp [hmoved, Position.after, Position.step_lineFeed, Position.after_zero]
    · have hrest' : (s.cursor.advance (1 + line.length)).rest = '\n' :: rest := by
        rw [Cursor.rest_advance, hrest, hdrop]
      rw [hcursor, TokenSource.skipExcluded, TokenSource.skipExcluded]
      simp only [hrest, hrest', excludedLength_lineFeed, hlength]
      rw [Cursor.advance, Cursor.advance, Cursor.positionAt_add, Cursor.rest_advance,
        List.drop_drop]

end ActiveReader

end CSharpCheck
