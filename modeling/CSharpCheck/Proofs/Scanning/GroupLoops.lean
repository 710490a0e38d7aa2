import CSharpCheck.Proofs.Scanning.GroupLocality
import CSharpCheck.Proofs.Scanning.Loops

/-!
# Groups without a bound

The loops over the tokens of a hole and over the content of an interpolated string, and the scans
that are made of them. A round of either may run other loops: the tokens of a hole are found by the
scan itself, with room for one hole less.
-/

namespace CSharpCheck

open Unbounded (Agrees Loop)

/-! ### Holes -/

/-- A hole around its tokens, where the text starts with the braces that open the hole. -/
def closeHole (o : Opening) (multiLine : Bool) (start : Nat) (text : List Char) (tokens : Part) :
    Part :=
  let inside := start + o.braces
  let crossed := ((text.drop o.braces).take (tokens.stop - inside)).any isLineEnd
  let afterTokens := text.drop (tokens.stop - start)
  let format := formatLength multiLine afterTokens
  let close := tokens.stop + format
  let afterFormat := afterTokens.drop format
  let run := (runLength '\x7d' afterFormat).min o.braces
  { stop := close + run
    pieces := .bare .holeStart start o.braces :: tokens.pieces ++
      (if format = 0 then [] else [.bare .holeFormat tokens.stop format]) ++
      [.bare .holeEnd close run]
    faults := tokens.faults ++
      if run = 0 ∧ afterFormat ≠ [] then [⟨.closeBraceExpected, close, close⟩] else []
    features := if crossed && !multiLine then [.newlinesInInterpolations] else [] }

theorem Part.after_after (p : Part) (pieces pieces' : List Piece) (faults faults' : List Fault)
    (features features' : List Feature) :
    (p.after pieces faults features).after pieces' faults' features' =
      p.after (pieces' ++ pieces) (faults' ++ faults) (features' ++ features) := by
  simp [after]

namespace Unbounded

/-- The tokens of a hole in front of a round: the brackets that are open, the pieces and the
faults. -/
structure HoleContent where
  depth : Nat
  pieces : List Piece
  faults : List Fault

/-- A round over the tokens of a hole: it takes a gap and, unless the hole ends, a group. -/
noncomputable def holeRound (scan : List Char →. Group) (inDirective : Bool) :
    Loop HoleContent →. Part ⊕ Loop HoleContent := fun l ↦ do
  let items ← gap inDirective l.rest
  let faults := l.found.faults ++ gapFaults l.place items
  let here := l.place + gapLength items
  let text := l.rest.drop (gapLength items)
  if text = [] ∨ (l.found.depth = 0 ∧ endsHole text) then
    pure (.inl ⟨here, l.found.pieces, faults, []⟩)
  else do
    let group ← scan text
    pure (.inr (l.move (gapLength items + group.length)
      ⟨bracketDepth l.found.depth group.pieces,
        l.found.pieces ++ group.pieces.map (·.shift here),
        faults ++ group.faults.map (·.shift here)⟩))

noncomputable def holeTokens (scan : List Char →. Group) (inDirective : Bool) (depth start : Nat) :
    List Char →. Part := fun text ↦
  run (holeRound scan inDirective) ⟨⟨depth, [], []⟩, start, text⟩

noncomputable def hole (o : Opening) (multiLine : Bool) (scan : List Char →. Group)
    (inDirective : Bool) (start : Nat) : List Char →. Part := fun text ↦ do
  let tokens ← holeTokens scan inDirective 0 (start + o.braces) (text.drop o.braces)
  pure (closeHole o multiLine start text tokens)

/-- The content of an interpolated string in front of a round: where the current text has begun,
and the pieces, faults and features so far. -/
structure StringContent where
  textStart : Nat
  pieces : List Piece
  faults : List Fault
  features : List Feature

/-- The content with more at its end. -/
def StringContent.add (k : StringContent) (pieces : List Piece) (faults : List Fault)
    (features : List Feature) : StringContent :=
  ⟨k.textStart, k.pieces ++ pieces, k.faults ++ faults, k.features ++ features⟩

/-- The part that the content makes with what follows it. -/
def StringContent.before (k : StringContent) (p : Part) : Part :=
  p.after k.pieces k.faults k.features

theorem StringContent.before_after (k : StringContent) (p : Part) (pieces : List Piece)
    (faults : List Fault) (features : List Feature) :
    k.before (p.after pieces faults features) = (k.add pieces faults features).before p :=
  p.after_after pieces k.pieces faults k.faults features k.features

/-- A round over an interpolated string: it takes a character, an escape, a run of quotes or braces
or a hole. -/
noncomputable def contentRound (o : Opening) (multiLine : Bool) (scan : List Char →. Group)
    (inDirective : Bool) : Loop StringContent →. Part ⊕ Loop StringContent := fun l ↦
  match l.rest with
  | [] => pure (.inl (l.found.before (unclosedEnd o false l.found.textStart l.place)))
  | c :: cs =>
    if isLineEnd c && !multiLine then
      pure (.inl (l.found.before (unclosedEnd o true l.found.textStart l.place)))
    else if c == '"' then
      if o.verbatim && cs.head? == some '"' then pure (.inr (l.move 2 l.found))
      else
        let run := if o.raw then runLength '"' l.rest else 1
        if o.quotes ≤ run then
          pure (.inl (l.found.before
            (closedEnd o l.found.textStart l.place run (l.rest.drop run))))
        else pure (.inr (l.move run l.found))
    else if c == '\\' && !o.verbatim && !o.raw then
      let e := escape cs
      pure (.inr (l.move e.length (l.found.add [] (e.faults l.place) e.features)))
    else if c == '\x7b' then
      match o.braceRole (runLength '\x7b' l.rest) with
      | .text length => pure (.inr (l.move length l.found))
      | .tooMany length =>
        pure (.inr (l.move length
          (l.found.add [] [⟨.rawTooManyOpenBraces, l.place, l.place⟩] [])))
      | .hole length => do
        let holeStart := l.place + length
        let part ← hole o multiLine scan inDirective holeStart (l.rest.drop length)
        let pieces := textPieces l.found.textStart holeStart ++ part.pieces
        pure (.inr (l.move (part.stop - l.place)
          { l.found.add pieces part.faults part.features with textStart := part.stop }))
    else if c == '\x7d' then
      let run := runLength '\x7d' l.rest
      if o.raw then pure (.inr (l.move run l.found))
      else if 2 ≤ run then pure (.inr (l.move 2 l.found))
      else
        pure (.inr (l.move 1 (l.found.add [] [⟨.unescapedCloseBrace, l.place, l.place⟩] [])))
    else pure (.inr (l.move 1 l.found))

noncomputable def interpolatedBody (o : Opening) (multiLine : Bool) (scan : List Char →. Group)
    (inDirective : Bool) (textStart start : Nat) : List Char →. Part := fun text ↦
  run (contentRound o multiLine scan inDirective) ⟨⟨textStart, [], [], []⟩, start, text⟩

end Unbounded

section Content

variable {unboundedScan : List Char →. Group} {scan : List Char → Group}
  (hscan : ∀ text, unboundedScan text = Part.some (scan text))
  (hpos : ∀ text, text ≠ [] → 0 < (scan text).length)

include hscan hpos

/-- Every round over the tokens of a hole ends and agrees with the recursion on its text. -/
theorem exists_holeRound (inDirective : Bool) (l : Loop Unbounded.HoleContent) :
    ∃ outcome, Unbounded.holeRound unboundedScan inDirective l = Part.some outcome ∧
      Agrees Loop.left
        (fun l ↦ (holeTokens scan inDirective l.found.depth l.place l.rest).after
          l.found.pieces l.found.faults []) l outcome := by
  obtain ⟨⟨depth, pieces, faults⟩, place, rest⟩ := l
  simp only [Unbounded.holeRound, unbounded_gap, hscan, Part.bind_eq_bind, Part.bind_some]
  cases hrest : rest.drop (gapLength (gap inDirective rest)) with
  | nil =>
    rw [if_pos (.inl rfl)]
    refine ⟨_, rfl, ?_⟩
    have htokens : holeTokens scan inDirective depth place rest =
        ⟨place + gapLength (gap inDirective rest), [],
          gapFaults place (gap inDirective rest), []⟩ := by
      rw [holeTokens]
      split
      · rfl
      · next hcons =>
        rw [hrest] at hcons
        contradiction
    simp [Agrees, htokens, Part.after]
  | cons c cs =>
    have htokens : holeTokens scan inDirective depth place rest = _ := holeTokens_of_drop hrest
    by_cases hend : depth = 0 ∧ endsHole (c :: cs) = true
    · rw [if_pos (.inr hend)]
      refine ⟨_, rfl, ?_⟩
      simp only [if_pos hend] at htokens
      simp [Agrees, htokens, Part.after]
    · have hgoes : ¬(c :: cs = [] ∨ depth = 0 ∧ endsHole (c :: cs) = true) := by
        rintro (hnil | hend')
        · contradiction
        · exact hend hend'
      -- The gap may be empty, but the group behind it is not.
      have hgroup := hpos (c :: cs) (List.cons_ne_nil c cs)
      have hne : rest ≠ [] := by
        rintro rfl
        rw [List.drop_nil] at hrest
        contradiction
      rw [if_neg hgoes]
      refine ⟨_, rfl, Loop.agrees_move (Nat.add_pos_right _ hgroup) hne ?_⟩
      simp only [if_neg hend] at htokens
      simp only [Loop.found_move, Loop.place_move, Loop.rest_move, htokens, Part.after_after]
      rw [← List.drop_drop, hrest, drop_sub_one hgroup c]
      simp [Nat.add_assoc]

theorem unbounded_holeTokens (inDirective : Bool) (depth start : Nat) (text : List Char) :
    Unbounded.holeTokens unboundedScan inDirective depth start text =
      Part.some (holeTokens scan inDirective depth start text) :=
  Unbounded.run_eq_some _ _ (exists_holeRound hscan hpos inDirective)
    ⟨⟨depth, [], []⟩, start, text⟩

theorem unbounded_hole (o : Opening) (multiLine inDirective : Bool) (start : Nat)
    (text : List Char) :
    Unbounded.hole o multiLine unboundedScan inDirective start text =
      Part.some (hole o multiLine scan inDirective start text) := by
  rw [Unbounded.hole, unbounded_holeTokens hscan hpos]
  exact Part.bind_some _ _

/-- Every round over an interpolated string ends and agrees with the recursion on its text. -/
theorem exists_contentRound {o : Opening} (ho : 0 < o.braces) (multiLine inDirective : Bool)
    (l : Loop Unbounded.StringContent) :
    ∃ outcome, Unbounded.contentRound o multiLine unboundedScan inDirective l =
        Part.some outcome ∧
      Agrees Loop.left
        (fun l ↦ l.found.before
          (interpolatedBody o multiLine scan inDirective l.found.textStart l.place l.rest))
        l outcome := by
  obtain ⟨found, place, text⟩ := l
  have hquotes (cs : List Char) : 0 < if o.raw then runLength '"' cs + 1 else 1 := by
    split <;> omega
  simp only [Unbounded.contentRound, unbounded_hole hscan hpos, Part.bind_eq_bind, Part.bind_some]
  fun_cases interpolatedBody o multiLine scan inDirective found.textStart place text with
  | case1 =>
    refine ⟨_, rfl, ?_⟩
    simp [Agrees, interpolatedBody]
  | case2 c cs hline =>
    simp only [if_pos hline]
    refine ⟨_, rfl, ?_⟩
    simp [Agrees, interpolatedBody, hline]
  | case3 c cs hline hquote hpair =>
    simp only [if_neg hline, if_pos hquote, if_pos hpair]
    refine ⟨_, rfl, Loop.agrees_move Nat.zero_lt_two (List.cons_ne_nil c cs) ?_⟩
    simp [interpolatedBody, hline, hquote, hpair]
  | case4 c cs hline hquote hpair run hclose =>
    obtain rfl := beq_iff_eq.1 hquote
    have hrun : 0 < run := hquotes cs
    simp only [if_neg hline, if_pos hquote, if_neg hpair, runLength_cons_self]
    rw [if_pos hclose, ← drop_sub_one hrun]
    refine ⟨_, rfl, ?_⟩
    show _ = Unbounded.StringContent.before found _
    rw [interpolatedBody, if_neg hline, if_pos hquote, if_neg hpair]
    exact congrArg found.before (if_pos hclose).symm
  | case5 c cs hline hquote hpair run hopen =>
    obtain rfl := beq_iff_eq.1 hquote
    have hrun : 0 < run := hquotes cs
    simp only [if_neg hline, if_pos hquote, if_neg hpair, runLength_cons_self]
    rw [if_neg hopen]
    refine ⟨_, rfl, Loop.agrees_move hrun (List.cons_ne_nil _ cs) ?_⟩
    simp only [Loop.found_move, Loop.place_move, Loop.rest_move]
    conv_rhs => rw [interpolatedBody, if_neg hline, if_pos hquote, if_neg hpair]
    rw [← drop_sub_one hrun]
    exact congrArg found.before (if_neg hopen).symm
  | case6 c cs hline hquote hescape e =>
    simp only [if_neg hline, if_neg hquote, if_pos hescape]
    refine ⟨_, rfl, Loop.agrees_move (length_escape_pos cs) (List.cons_ne_nil c cs) ?_⟩
    simp only [Loop.found_move, Loop.place_move, Loop.rest_move]
    conv_rhs => rw [interpolatedBody, if_neg hline, if_neg hquote, if_pos hescape]
    rw [Unbounded.StringContent.before_after, drop_sub_one (length_escape_pos cs) c]
    rfl
  | case7 c cs hline hquote hescape hbrace length hrole =>
    obtain rfl := beq_iff_eq.1 hbrace
    have hlength := length_braceRole_pos (Nat.succ_pos _) (.inl hrole)
    simp only [if_neg hline, if_neg hquote, if_neg hescape, if_pos hbrace, runLength_cons_self,
      hrole]
    refine ⟨_, rfl, Loop.agrees_move hlength (List.cons_ne_nil _ cs) ?_⟩
    simp only [Loop.found_move, Loop.place_move, Loop.rest_move]
    conv_rhs => rw [interpolatedBody, if_neg hline, if_neg hquote, if_neg hescape, if_pos hbrace]
    simp only [hrole, drop_sub_one hlength '\x7b']
  | case8 c cs hline hquote hescape hbrace length hrole =>
    obtain rfl := beq_iff_eq.1 hbrace
    have hlength := length_braceRole_pos (Nat.succ_pos _) (.inr hrole)
    simp only [if_neg hline, if_neg hquote, if_neg hescape, if_pos hbrace, runLength_cons_self,
      hrole]
    refine ⟨_, rfl, Loop.agrees_move hlength (List.cons_ne_nil _ cs) ?_⟩
    simp only [Loop.found_move, Loop.place_move, Loop.rest_move]
    conv_rhs => rw [interpolatedBody, if_neg hline, if_neg hquote, if_neg hescape, if_pos hbrace]
    simp only [hrole, drop_sub_one hlength '\x7b', Unbounded.StringContent.before_after]
    rfl
  | case9 c cs hline hquote hescape hbrace length hrole holeStart =>
    obtain rfl := beq_iff_eq.1 hbrace
    simp only [if_neg hline, if_neg hquote, if_neg hescape, if_pos hbrace, runLength_cons_self,
      hrole]
    have hlt : holeStart <
        (hole o multiLine scan inDirective holeStart (('\x7b' :: cs).drop length)).stop :=
      lt_stop_hole ho multiLine inDirective holeStart _
    have hstart : place ≤ holeStart := Nat.le_add_right place length
    have htaken : 0 <
        (hole o multiLine scan inDirective holeStart (('\x7b' :: cs).drop length)).stop - place :=
      Nat.sub_pos_of_lt (Nat.lt_of_le_of_lt hstart hlt)
    refine ⟨_, rfl, Loop.agrees_move htaken (List.cons_ne_nil _ cs) ?_⟩
    simp only [Loop.found_move, Loop.place_move, Loop.rest_move]
    conv_rhs => rw [interpolatedBody, if_neg hline, if_neg hquote, if_neg hescape, if_pos hbrace]
    simp only [hrole, Unbounded.StringContent.before_after]
    rw [drop_sub_one htaken, Nat.add_sub_cancel' (Nat.le_of_lt (Nat.lt_of_le_of_lt hstart hlt))]
    rfl
  | case10 c cs hline hquote hescape hopen hbrace run hraw =>
    obtain rfl := beq_iff_eq.1 hbrace
    simp only [if_neg hline, if_neg hquote, if_neg hescape, if_neg hopen, if_pos hbrace,
      runLength_cons_self, if_pos hraw]
    refine ⟨_, rfl, Loop.agrees_move (Nat.succ_pos _) (List.cons_ne_nil _ cs) ?_⟩
    simp [interpolatedBody, hline, hraw]
  | case11 c cs hline hquote hescape hopen hbrace run hraw hpair =>
    obtain rfl := beq_iff_eq.1 hbrace
    simp only [if_neg hline, if_neg hquote, if_neg hescape, if_neg hopen, if_pos hbrace,
      runLength_cons_self, if_neg hraw]
    rw [if_pos hpair]
    refine ⟨_, rfl, Loop.agrees_move Nat.zero_lt_two (List.cons_ne_nil _ cs) ?_⟩
    simp only [Loop.found_move, Loop.place_move, Loop.rest_move]
    conv_rhs =>
      rw [interpolatedBody, if_neg hline, if_neg hquote, if_neg hescape, if_neg hopen,
        if_pos hbrace, if_neg hraw]
    exact congrArg found.before (if_pos hpair).symm
  | case12 c cs hline hquote hescape hopen hbrace run hraw hsingle =>
    obtain rfl := beq_iff_eq.1 hbrace
    simp only [if_neg hline, if_neg hquote, if_neg hescape, if_neg hopen, if_pos hbrace,
      runLength_cons_self, if_neg hraw]
    rw [if_neg hsingle]
    refine ⟨_, rfl, Loop.agrees_move Nat.zero_lt_one (List.cons_ne_nil _ cs) ?_⟩
    simp only [Loop.found_move, Loop.place_move, Loop.rest_move]
    conv_rhs =>
      rw [interpolatedBody, if_neg hline, if_neg hquote, if_neg hescape, if_neg hopen,
        if_pos hbrace, if_neg hraw]
    rw [← Unbounded.StringContent.before_after]
    exact congrArg found.before (if_neg hsingle).symm
  | case13 c cs hline hquote hescape hopen hbrace =>
    simp only [if_neg hline, if_neg hquote, if_neg hescape, if_neg hopen, if_neg hbrace]
    refine ⟨_, rfl, Loop.agrees_move Nat.zero_lt_one (List.cons_ne_nil c cs) ?_⟩
    simp only [Loop.found_move, Loop.place_move, Loop.rest_move]
    conv_rhs =>
      rw [interpolatedBody, if_neg hline, if_neg hquote, if_neg hescape, if_neg hopen,
        if_neg hbrace]
    rfl

theorem unbounded_interpolatedBody {o : Opening} (ho : 0 < o.braces)
    (multiLine inDirective : Bool) (textStart start : Nat) (text : List Char) :
    Unbounded.interpolatedBody o multiLine unboundedScan inDirective textStart start text =
      Part.some (interpolatedBody o multiLine scan inDirective textStart start text) :=
  Unbounded.run_eq_some _ _ (exists_contentRound hscan hpos ho multiLine inDirective)
    ⟨⟨textStart, [], [], []⟩, start, text⟩

end Content

/-! ### All scans -/

/-- The group of an interpolated string with its opening and the rest of it. -/
def Part.withOpening (body : Part) (o : Opening) : Group :=
  let start : Piece :=
    ⟨.interpolatedStart, 0, o.length, none, Feature.listed (o.features ++ body.features)⟩
  ⟨body.stop, start :: body.pieces, body.faults⟩

namespace Unbounded

noncomputable def interpolatedGroup (o : Opening) (scan : List Char →. Group)
    (inDirective : Bool) : List Char →. Group := fun text ↦ do
  let content := text.drop o.length
  let multiLine := if o.raw then restOfLineIsBlank content else o.verbatim
  let body ← interpolatedBody o multiLine scan inDirective o.length o.length content
  pure (body.withOpening o)

noncomputable def scanGroup (inDirective : Bool) (room : Nat) : List Char →. Group := fun text ↦
  match opening? text with
  | none => do
    let lexeme ← plainLexeme text
    pure lexeme.toGroup
  | some o =>
    match room with
    | 0 => pure (givingUp text)
    | room + 1 => interpolatedGroup o (scanGroup inDirective room) inDirective text

end Unbounded

/-- The scan at any depth of holes, its loops run without a bound, finds what the recursion on the
text finds. -/
theorem unbounded_scanGroup (inDirective : Bool) (room : Nat) (text : List Char) :
    Unbounded.scanGroup inDirective room text = Part.some (scanGroup inDirective room text) := by
  induction room generalizing text with
  | zero =>
    rw [Unbounded.scanGroup, scanGroup]
    cases opening? text with
    | none =>
      simp only [unbounded_plainLexeme]
      exact Part.bind_some _ _
    | some o => rfl
  | succ room ih =>
    rw [Unbounded.scanGroup, scanGroup]
    cases hopening : opening? text with
    | none =>
      simp only [unbounded_plainLexeme]
      exact Part.bind_some _ _
    | some o =>
      simp only [Unbounded.interpolatedGroup]
      rw [unbounded_interpolatedBody ih (fun _ ↦ length_scanGroup_pos inDirective room)
        (braces_pos hopening)]
      exact Part.bind_some _ _

/-! ### Directive lines -/

/-- The opening of a directive line whose name, at `start`, is the word. -/
def namedOpening (text : List Char) (start : Nat) (word : Lexeme) : Group :=
  let hash := Piece.bare .directiveStart 0 1
  let name := word.piece.shift start
  let stop := start + word.length
  if messageDirectives.contains (String.ofList ((text.drop start).take word.length)) then
    let messageStart := stop + indentLength (text.drop stop)
    let message := messagePiece messageStart (text.drop messageStart)
    ⟨messageStart + message.length,
      [hash, name] ++ if message.name == some "" then [] else [message], []⟩
  else ⟨stop, [hash, name], []⟩

namespace Unbounded

noncomputable def directiveOpening : List Char →. Group := fun text ↦
  let hash := Piece.bare .directiveStart 0 1
  let rest := text.drop 1
  if rest.head? == some '!' then
    let message := messagePiece 1 rest
    pure ⟨1 + message.length, [hash, message], []⟩
  else
    let start := 1 + indentLength rest
    if (text.drop start).head?.any startsName then do
      let word ← nameLexeme false (text.drop start)
      pure (namedOpening text start word)
    else pure ⟨start, [hash], []⟩

end Unbounded

theorem unbounded_directiveOpening (text : List Char) :
    Unbounded.directiveOpening text = Part.some (directiveOpening text) := by
  simp only [Unbounded.directiveOpening, unbounded_nameLexeme, directiveOpening]
  split
  · rfl
  · split
    · exact Part.bind_some _ _
    · rfl

end CSharpCheck
