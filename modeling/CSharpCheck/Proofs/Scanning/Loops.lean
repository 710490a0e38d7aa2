import Mathlib.Data.PFun
import CSharpCheck.Proofs.Scanning.LineStarts
import CSharpCheck.Proofs.Scanning.Skipping
import CSharpCheck.Proofs.Scanning.Tilings

/-!
# Loops without a bound

A recursion on the text that is left ends because it is one. The loops here take as many characters
as a round of the scanner says, and that may be none: nothing but the rounds themselves makes them
end, and a loop that stands still has no answer. The loops of the scanners for gaps, single tokens
and excluded text are written in this way, and shown to answer what the recursion says. A scanner
and its form with such loops have the same name, as `gap` and `Unbounded.gap` have.

A run over characters that pass a test goes on by one character at a time and needs no loop.
-/

namespace CSharpCheck

namespace Unbounded

section Run

variable {σ β : Type}

/-- What rounds come to that are repeated until one of them gives an answer. -/
noncomputable def run (round : σ →. β ⊕ σ) : σ →. β := PFun.fix round

/-- A loop that stands still never gives an answer. -/
theorem run_eq_none_of_stands {round : σ →. β ⊕ σ} {s : σ} (h : round s = Part.some (.inr s)) :
    run round s = Part.none := by
  apply Part.eq_none_iff.2
  intro b hb
  -- An answer comes after finitely many rounds, and none of them leads away from `s`.
  have hnever (t : σ) (ht : b ∈ run round t) : t ≠ s := by
    refine PFun.fixInduction' (C := fun t ↦ t ≠ s) ht ?_ ?_
    · rintro t hstop rfl
      rw [h] at hstop
      cases Part.mem_some_iff.1 hstop
    · rintro t u - hmove ih rfl
      rw [h] at hmove
      exact ih (Sum.inr.inj (Part.mem_some_iff.1 hmove))
  exact hnever s hb rfl

/-- The outcome of a round agrees with the answer that is expected of the loop: it is that answer,
or less is left for the rounds that follow and the same answer is expected of them. -/
def Agrees (left : σ → Nat) (answer : σ → β) (s : σ) : β ⊕ σ → Prop
  | .inl b => b = answer s
  | .inr t => left t < left s ∧ answer t = answer s

/-- A loop all of whose rounds agree with an answer gives this answer. -/
theorem run_eq_some {round : σ →. β ⊕ σ} (left : σ → Nat) (answer : σ → β)
    (hround : ∀ s, ∃ outcome, round s = Part.some outcome ∧ Agrees left answer s outcome) (s : σ) :
    run round s = Part.some (answer s) := by
  induction hleft : left s using Nat.strongRecOn generalizing s with
  | ind n ih =>
    obtain ⟨outcome, houtcome, hagrees⟩ := hround s
    have hmem : outcome ∈ round s := by
      rw [houtcome]
      exact Part.mem_some outcome
    cases outcome with
    | inl b =>
      obtain rfl : b = answer s := hagrees
      exact Part.eq_some_iff.2 (PFun.fix_stop hmem)
    | inr t =>
      obtain ⟨hlt, hanswer⟩ := hagrees
      rw [run, PFun.fix_fwd_eq hmem, ← hanswer]
      exact ih (left t) (hleft ▸ hlt) t rfl

/-- What rounds come to that run no loop themselves. -/
noncomputable def runPlain (round : σ → β ⊕ σ) : σ →. β := run fun s ↦ Part.some (round s)

end Run

/-- A loop over a text in front of a round: what has been found, the place that has been reached
and the text that is left. -/
structure Loop (σ : Type) where
  found : σ
  place : Nat
  rest : List Char

namespace Loop

variable {σ β : Type}

/-- The loop `count` characters further on, which may be where it is. -/
def move (l : Loop σ) (count : Nat) (found : σ) : Loop σ :=
  ⟨found, l.place + count, l.rest.drop count⟩

@[simp] theorem found_move (l : Loop σ) (count : Nat) (found : σ) :
    (l.move count found).found = found := rfl

@[simp] theorem place_move (l : Loop σ) (count : Nat) (found : σ) :
    (l.move count found).place = l.place + count := rfl

@[simp] theorem rest_move (l : Loop σ) (count : Nat) (found : σ) :
    (l.move count found).rest = l.rest.drop count := rfl

/-- The number of characters that are left. -/
def left (l : Loop σ) : Nat := l.rest.length

/-- A move behind at least one more character agrees when the answer stays the same. -/
theorem agrees_move {answer : Loop σ → β} {l : Loop σ} {count : Nat} {found : σ}
    (hpos : 0 < count) (hrest : l.rest ≠ []) (h : answer (l.move count found) = answer l) :
    Agrees left answer l (.inr (l.move count found)) := by
  refine ⟨?_, h⟩
  have hlength : 0 < l.rest.length := List.length_pos_iff.2 hrest
  simp only [left, rest_move, List.length_drop]
  omega

theorem runPlain_eq_some {round : Loop σ → β ⊕ Loop σ} (answer : Loop σ → β)
    (hround : ∀ l, Agrees left answer l (round l)) (l : Loop σ) :
    runPlain round l = Part.some (answer l) :=
  run_eq_some left answer (fun l ↦ ⟨round l, rfl, hround l⟩) l

end Loop

end Unbounded

open Unbounded (Agrees Loop)

/-! ### Gaps -/

namespace Unbounded

/-- A round over a gap: it takes one element. -/
def gapRound (inDirective : Bool) (l : Loop (List GapItem)) :
    List GapItem ⊕ Loop (List GapItem) :=
  match gapItem? inDirective l.rest with
  | none => .inl l.found
  | some item => .inr (l.move item.length (l.found ++ [item]))

noncomputable def gap (inDirective : Bool) : List Char →. List GapItem := fun text ↦
  runPlain (gapRound inDirective) ⟨[], 0, text⟩

end Unbounded

theorem ne_nil_of_gapItem? {inDirective : Bool} {text : List Char} {item : GapItem}
    (h : gapItem? inDirective text = some item) : text ≠ [] := by
  rintro rfl
  contradiction

theorem agrees_gapRound (inDirective : Bool) (l : Loop (List GapItem)) :
    Agrees Loop.left (fun l ↦ l.found ++ gap inDirective l.rest) l
      (Unbounded.gapRound inDirective l) := by
  unfold Unbounded.gapRound
  split
  · next hnone =>
    show l.found = l.found ++ gap inDirective l.rest
    rw [gap, hnone, List.append_nil]
  · next item hitem =>
    have hrest := ne_nil_of_gapItem? hitem
    apply Loop.agrees_move item.length_pos hrest
    simp only [Loop.found_move, Loop.rest_move]
    conv_rhs => rw [gap, hitem]
    simp [hrest]

theorem unbounded_gap (inDirective : Bool) (text : List Char) :
    Unbounded.gap inDirective text = Part.some (gap inDirective text) :=
  Loop.runPlain_eq_some _ (agrees_gapRound inDirective) ⟨[], 0, text⟩

/-! ### Names -/

/-- The name or reserved word that has the characters. -/
def Lexeme.ofName (verbatim : Bool) (chars : List (Char × Nat)) : Lexeme :=
  let name := String.ofList (chars.map (·.1))
  let length := chars.foldr (fun c rest ↦ c.2 + rest) (if verbatim then 1 else 0)
  let kind :=
    if verbatim || chars.any (1 < ·.2) then .identifier
    else
      match Keyword.ofText? name with
      | some word => .keyword word
      | none => .identifier
  ⟨kind, length, some name, [], []⟩

namespace Unbounded

/-- A round over a name: it takes one character, however it is spelled. -/
def nameRound (l : Loop (List (Char × Nat))) : List (Char × Nat) ⊕ Loop (List (Char × Nat)) :=
  match nameChar? l.rest with
  | some (c, n) => if continuesName c then .inr (l.move n (l.found ++ [(c, n)])) else .inl l.found
  | none => .inl l.found

noncomputable def nameChars : List Char →. List (Char × Nat) := fun text ↦
  runPlain nameRound ⟨[], 0, text⟩

noncomputable def nameLexeme (verbatim : Bool) : List Char →. Lexeme := fun text ↦ do
  let chars ← nameChars (if verbatim then text.drop 1 else text)
  pure (.ofName verbatim chars)

end Unbounded

theorem nameChars_cons (c : Char) (cs : List Char) : nameChars (c :: cs) =
    match nameChar? (c :: cs) with
    | some (d, n) => if continuesName d then (d, n) :: nameChars ((c :: cs).drop n) else []
    | none => [] := by
  rw [nameChars]
  cases hchar : nameChar? (c :: cs) with
  | none => rfl
  | some char => simp only [drop_sub_one (length_nameChar?_pos hchar) c]

theorem agrees_nameRound (l : Loop (List (Char × Nat))) :
    Agrees Loop.left (fun l ↦ l.found ++ nameChars l.rest) l (Unbounded.nameRound l) := by
  obtain ⟨found, place, _ | ⟨c, cs⟩⟩ := l
  · simp [Unbounded.nameRound, nameChar?, Agrees, nameChars]
  · simp only [Unbounded.nameRound]
    split
    · next d n hchar =>
      split
      · next hcontinues =>
        apply Loop.agrees_move (length_nameChar?_pos hchar) (List.cons_ne_nil c cs)
        simp [nameChars_cons, hchar, hcontinues]
      · next hends => simp [Agrees, nameChars_cons, hchar, hends]
    · next hnone => simp [Agrees, nameChars_cons, hnone]

theorem unbounded_nameChars (text : List Char) :
    Unbounded.nameChars text = Part.some (nameChars text) :=
  Loop.runPlain_eq_some _ agrees_nameRound ⟨[], 0, text⟩

theorem unbounded_nameLexeme (verbatim : Bool) (text : List Char) :
    Unbounded.nameLexeme verbatim text = Part.some (nameLexeme verbatim text) := by
  rw [Unbounded.nameLexeme, unbounded_nameChars]
  exact Part.bind_some _ _

/-! ### Strings and characters -/

/-- The body with what was found in front of it. -/
def Body.behind (b : Body) (found : List Feature × List Fault) : Body :=
  { b with features := found.1 ++ b.features, faults := found.2 ++ b.faults }

theorem Body.behind_afterEscape (b : Body) (e : Escape) (start : Nat)
    (found : List Feature × List Fault) : (b.afterEscape e start).behind found =
      b.behind (found.1 ++ e.features, found.2 ++ e.faults start) := by
  simp [behind, afterEscape]

namespace Unbounded

/-- A round over a regular string: it takes a character or an escape. -/
def stringRound (l : Loop (List Feature × List Fault)) :
    Body ⊕ Loop (List Feature × List Fault) :=
  match l.rest with
  | [] => .inl (Body.behind ⟨l.place, false, [], []⟩ l.found)
  | c :: cs =>
    if isLineEnd c then .inl (Body.behind ⟨l.place, false, [], []⟩ l.found)
    else if c == '"' then .inl (Body.behind ⟨l.place + 1, true, [], []⟩ l.found)
    else if c == '\\' then
      let e := escape cs
      .inr (l.move e.length (l.found.1 ++ e.features, l.found.2 ++ e.faults l.place))
    else .inr (l.move 1 l.found)

noncomputable def stringBody (start : Nat) : List Char →. Body := fun text ↦
  runPlain stringRound ⟨([], []), start, text⟩

noncomputable def regularString : List Char →. Lexeme := fun text ↦ do
  let body ← stringBody 1 (text.drop 1)
  pure (if body.closed then stringLexeme text body.stop body.features body.faults
    else openStringLexeme body.stop body.features (body.faults ++ [⟨.newlineInConstant, 0, 0⟩]))

/-- A round over a verbatim string: it takes a character or two quotes. -/
def verbatimRound (l : Loop Unit) : Body ⊕ Loop Unit :=
  match l.rest with
  | [] => .inl ⟨l.place, false, [], []⟩
  | '"' :: '"' :: _ => .inr (l.move 2 ())
  | '"' :: _ => .inl ⟨l.place + 1, true, [], []⟩
  | _ :: _ => .inr (l.move 1 ())

noncomputable def verbatimBody (start : Nat) : List Char →. Body := fun text ↦
  runPlain verbatimRound ⟨(), start, text⟩

noncomputable def verbatimString : List Char →. Lexeme := fun text ↦ do
  let body ← verbatimBody 2 (text.drop 2)
  pure (if body.closed then stringLexeme text body.stop [] []
    else openStringLexeme body.stop [] [⟨.unterminatedString, 0, 0⟩])

/-- A round over what is too much in a character literal: it takes a character, and the one behind
a backslash along with it. -/
def overlongRound (l : Loop Unit) : Nat ⊕ Loop Unit :=
  match l.rest with
  | [] => .inl l.place
  | ['\\'] => .inr (l.move 1 ())
  | '\\' :: _ :: _ => .inr (l.move 2 ())
  | c :: _ => if c == '\'' || isLineEnd c then .inl l.place else .inr (l.move 1 ())

noncomputable def overlongStop (start : Nat) : List Char →. Nat := fun text ↦
  runPlain overlongRound ⟨(), start, text⟩

end Unbounded

theorem agrees_stringRound (l : Loop (List Feature × List Fault)) :
    Agrees Loop.left (fun l ↦ (stringBody l.place l.rest).behind l.found) l
      (Unbounded.stringRound l) := by
  obtain ⟨found, place, _ | ⟨c, cs⟩⟩ := l
  · simp [Unbounded.stringRound, Agrees, stringBody]
  · simp only [Unbounded.stringRound]
    split
    · next hline => simp [Agrees, stringBody, hline]
    · next hline =>
      split
      · next hquote => simp [Agrees, stringBody, hline, hquote]
      · next hquote =>
        split
        · next hescape =>
          apply Loop.agrees_move (length_escape_pos cs) (List.cons_ne_nil c cs)
          simp only [Loop.found_move, Loop.place_move, Loop.rest_move]
          rw [← drop_sub_one (length_escape_pos cs) c]
          simp [stringBody, hline, hquote, hescape, Body.behind_afterEscape]
        · next hescape =>
          apply Loop.agrees_move Nat.zero_lt_one (List.cons_ne_nil c cs)
          simp [stringBody, hline, hquote, hescape]

theorem unbounded_stringBody (start : Nat) (text : List Char) :
    Unbounded.stringBody start text = Part.some (stringBody start text) :=
  Loop.runPlain_eq_some _ agrees_stringRound ⟨([], []), start, text⟩

theorem unbounded_regularString (text : List Char) :
    Unbounded.regularString text = Part.some (regularString text) := by
  rw [Unbounded.regularString, unbounded_stringBody]
  exact Part.bind_some _ _

theorem agrees_verbatimRound (l : Loop Unit) :
    Agrees Loop.left (fun l ↦ verbatimBody l.place l.rest) l (Unbounded.verbatimRound l) := by
  obtain ⟨⟨⟩, place, rest⟩ := l
  simp only [Unbounded.verbatimRound]
  split
  · exact rfl
  · exact Loop.agrees_move Nat.zero_lt_two (List.cons_ne_nil _ _) rfl
  · next cs hsingle =>
    show (⟨place + 1, true, [], []⟩ : Body) = verbatimBody place ('"' :: cs)
    rw [verbatimBody]
    exact hsingle
  · next c cs hpair hquote =>
    apply Loop.agrees_move Nat.zero_lt_one (List.cons_ne_nil c cs)
    show verbatimBody (place + 1) cs = verbatimBody place (c :: cs)
    rw [verbatimBody]
    · exact hpair
    · exact hquote

theorem unbounded_verbatimBody (start : Nat) (text : List Char) :
    Unbounded.verbatimBody start text = Part.some (verbatimBody start text) :=
  Loop.runPlain_eq_some _ agrees_verbatimRound ⟨(), start, text⟩

theorem unbounded_verbatimString (text : List Char) :
    Unbounded.verbatimString text = Part.some (verbatimString text) := by
  rw [Unbounded.verbatimString, unbounded_verbatimBody]
  exact Part.bind_some _ _

theorem agrees_overlongRound (l : Loop Unit) :
    Agrees Loop.left (fun l ↦ l.place + overlongLength l.rest) l (Unbounded.overlongRound l) := by
  obtain ⟨⟨⟩, place, rest⟩ := l
  simp only [Unbounded.overlongRound]
  split
  · exact rfl
  · exact Loop.agrees_move Nat.zero_lt_one (List.cons_ne_nil _ _) rfl
  · next d cs =>
    apply Loop.agrees_move Nat.zero_lt_two (List.cons_ne_nil _ _)
    show place + 2 + overlongLength cs = place + overlongLength ('\\' :: d :: cs)
    rw [overlongLength]
    omega
  · next c cs hlast hpair =>
    split
    · next hend =>
      show place = place + overlongLength (c :: cs)
      rw [overlongLength, if_pos hend]
      · rfl
      · exact hlast
      · exact hpair
    · next hend =>
      apply Loop.agrees_move Nat.zero_lt_one (List.cons_ne_nil _ _)
      show place + 1 + overlongLength cs = place + overlongLength (c :: cs)
      rw [overlongLength, if_neg hend]
      · omega
      · exact hlast
      · exact hpair

theorem unbounded_overlongStop (start : Nat) (text : List Char) :
    Unbounded.overlongStop start text = Part.some (start + overlongLength text) :=
  Loop.runPlain_eq_some _ agrees_overlongRound ⟨(), start, text⟩

/-- The character literal of `length` characters. -/
def characterLexeme (length : Nat) (features : List Feature) (faults : List Fault) : Lexeme :=
  ⟨.characterLiteral, length, none, Feature.listed features, faults⟩

namespace Unbounded

noncomputable def characterLiteral : List Char →. Lexeme := fun text ↦
  match text.drop 1 with
  | [] => pure (characterLexeme 1 [] [⟨.newlineInConstant, 0, 0⟩])
  | c :: cs =>
    if c == '\'' then pure (characterLexeme 2 [] [⟨.emptyCharacter, 0, 2⟩])
    else if isLineEnd c then pure (characterLexeme 1 [] [⟨.newlineInConstant, 0, 0⟩])
    else
      let e : Escape := if c == '\\' then escape cs else ⟨1, true, false⟩
      let rest := cs.drop (e.length - 1)
      let faults := e.faults 1
      if rest.head? == some '\'' then pure (characterLexeme (e.length + 2) e.features faults)
      else do
        let stop ← overlongStop (1 + e.length) rest
        pure (if (text.drop stop).head? == some '\'' then
          characterLexeme (stop + 1) e.features (faults ++ [⟨.tooManyCharacters, 0, stop + 1⟩])
        else characterLexeme stop e.features (faults ++ [⟨.newlineInConstant, 0, 0⟩]))

end Unbounded

theorem unbounded_characterLiteral (text : List Char) :
    Unbounded.characterLiteral text = Part.some (characterLiteral text) := by
  simp only [Unbounded.characterLiteral, unbounded_overlongStop, characterLiteral]
  cases text.drop 1 with
  | nil => rfl
  | cons c cs =>
    by_cases hempty : (c == '\'') = true
    · simp only [hempty, if_true]
      rfl
    · by_cases hline : isLineEnd c = true
      · simp only [hempty, hline, if_true]
        rfl
      · simp only [hempty, hline, Bool.false_eq_true, if_false]
        generalize (if (c == '\\') = true then escape cs else ⟨1, true, false⟩ : Escape) = e
        by_cases hclosed : ((cs.drop (e.length - 1)).head? == some '\'') = true
        · simp only [hclosed, if_true]
          rfl
        · simp only [hclosed, Bool.false_eq_true, if_false]
          exact Part.bind_some _ _

/-! ### Raw strings -/

namespace Unbounded

/-- A round over a raw string on one line: it takes a run of quotes or another character. -/
def rawLineRound (quotes : Nat) (l : Loop Unit) : Body ⊕ Loop Unit :=
  match l.rest with
  | [] => .inl ⟨l.place, false, [], []⟩
  | c :: _ =>
    if isLineEnd c then .inl ⟨l.place, false, [], []⟩
    else if c == '"' then
      let run := runLength '"' l.rest
      if quotes ≤ run then .inl (closeRaw l.place run quotes) else .inr (l.move run ())
    else .inr (l.move 1 ())

noncomputable def rawLineBody (quotes start : Nat) : List Char →. Body := fun text ↦
  runPlain (rawLineRound quotes) ⟨(), start, text⟩

/-- A round over a raw string of several lines: it takes a line end and the line behind it. -/
def rawBlockRound (quotes : Nat) (l : Loop (List (Nat × List Char))) :
    Body ⊕ Loop (List (Nat × List Char)) :=
  match l.rest with
  | [] => .inl ⟨l.place, false, [], []⟩
  | _ :: _ =>
    let lead := lineEndLength l.rest
    let lineStart := l.place + lead
    let line := restOfLine (l.rest.drop lead)
    let indentation := line.takeWhile fun c ↦ c == ' ' || c == '\t'
    let run := runLength '"' (line.drop indentation.length)
    if quotes ≤ run then
      let body := closeRaw (lineStart + indentation.length) run quotes
      .inl { body with faults := body.faults ++ indentationFaults indentation l.found.reverse }
    else
      match quoteRun? quotes line with
      | some offset =>
        let close := lineStart + offset
        let body := closeRaw close (runLength '"' (line.drop offset)) quotes
        .inl { body with faults := ⟨.rawDelimiterNotAlone, close, close⟩ :: body.faults }
      | none => .inr (l.move (lead + line.length) ((lineStart, line) :: l.found))

noncomputable def rawBlockBody (quotes start : Nat) (lines : List (Nat × List Char)) :
    List Char →. Body := fun text ↦
  runPlain (rawBlockRound quotes) ⟨lines, start, text⟩

noncomputable def rawString : List Char →. Lexeme := fun text ↦ do
  let quotes := runLength '"' text
  let rest := text.drop quotes
  let line := restOfLine rest
  let body ←
    if restOfLineIsBlank rest then
      rawBlockBody quotes (quotes + line.length) [] (rest.drop line.length)
    else rawLineBody quotes quotes rest
  pure (if body.closed then stringLexeme text body.stop [.rawStringLiterals] body.faults
    else openStringLexeme body.stop [.rawStringLiterals]
      (body.faults ++ [⟨.unterminatedRawString, 0, 0⟩]))

end Unbounded

theorem agrees_rawLineRound (quotes : Nat) (l : Loop Unit) :
    Agrees Loop.left (fun l ↦ rawLineBody quotes l.place l.rest) l
      (Unbounded.rawLineRound quotes l) := by
  obtain ⟨⟨⟩, place, _ | ⟨c, cs⟩⟩ := l
  · simp [Unbounded.rawLineRound, Agrees, rawLineBody]
  · simp only [Unbounded.rawLineRound]
    split
    · next hline => simp [Agrees, rawLineBody, hline]
    · next hline =>
      split
      · next hquote =>
        obtain rfl := beq_iff_eq.1 hquote
        have hmark := runLength_cons_self '"' cs
        split
        · next hclose =>
          rw [hmark] at hclose
          simp [Agrees, rawLineBody, hline, hclose, hmark]
        · next hopen =>
          rw [hmark] at hopen ⊢
          apply Loop.agrees_move (Nat.succ_pos _) (List.cons_ne_nil '"' cs)
          simp [rawLineBody, hline, hopen]
      · next hquote =>
        apply Loop.agrees_move Nat.zero_lt_one (List.cons_ne_nil c cs)
        simp [rawLineBody, hline, hquote]

theorem unbounded_rawLineBody (quotes start : Nat) (text : List Char) :
    Unbounded.rawLineBody quotes start text = Part.some (rawLineBody quotes start text) :=
  Loop.runPlain_eq_some _ (agrees_rawLineRound quotes) ⟨(), start, text⟩

theorem agrees_rawBlockRound (quotes : Nat) (l : Loop (List (Nat × List Char))) :
    Agrees Loop.left (fun l ↦ rawBlockBody quotes l.place l.found l.rest) l
      (Unbounded.rawBlockRound quotes l) := by
  obtain ⟨found, place, _ | ⟨c, cs⟩⟩ := l
  · simp [Unbounded.rawBlockRound, Agrees, rawBlockBody]
  · have hlead := length_lineEnd_pos c cs
    simp only [Unbounded.rawBlockRound]
    split
    · next hclose =>
      show _ = rawBlockBody quotes place found (c :: cs)
      rw [rawBlockBody, drop_sub_one hlead c, if_pos hclose]
    · next hopen =>
      split
      · next offset hoffset =>
        show _ = rawBlockBody quotes place found (c :: cs)
        simp only [rawBlockBody, drop_sub_one hlead c, if_neg hopen, hoffset]
      · next hnone =>
        apply Loop.agrees_move (Nat.add_pos_left hlead _) (List.cons_ne_nil c cs)
        simp only [Loop.found_move, Loop.place_move, Loop.rest_move]
        conv_rhs => rw [rawBlockBody]
        simp only [drop_sub_one hlead c, if_neg hopen, hnone, List.drop_drop, Nat.add_assoc]

theorem unbounded_rawBlockBody (quotes start : Nat) (lines : List (Nat × List Char))
    (text : List Char) : Unbounded.rawBlockBody quotes start lines text =
      Part.some (rawBlockBody quotes start lines text) :=
  Loop.runPlain_eq_some _ (agrees_rawBlockRound quotes) ⟨lines, start, text⟩

theorem unbounded_rawString (text : List Char) :
    Unbounded.rawString text = Part.some (rawString text) := by
  simp only [Unbounded.rawString, unbounded_rawBlockBody, unbounded_rawLineBody, rawString]
  split
  · exact Part.bind_some _ _
  · exact Part.bind_some _ _

/-! ### All single tokens -/

namespace Unbounded

noncomputable def plainLexeme : List Char →. Lexeme := fun text ↦
  match text with
  | [] => pure (.bare .bad 0)
  | c :: cs =>
    if c == '@' && cs.head? == some '"' then verbatimString text
    else if c == '@' && nameStarts cs then nameLexeme true text
    else if nameStarts text then nameLexeme false text
    else if numberStarts text then pure (number text)
    else if c == '"' then
      if ['"', '"', '"'].isPrefixOf text then rawString text else regularString text
    else if c == '\'' then characterLiteral text
    else if c == '#' then pure (badLexeme .misplacedDirective)
    else
      match symbolAt? text with
      | some s => pure (.bare (.symbol s) s.text.length)
      | none => pure (badLexeme (.unexpectedCharacter c))

end Unbounded

theorem unbounded_plainLexeme (text : List Char) :
    Unbounded.plainLexeme text = Part.some (plainLexeme text) := by
  cases text with
  | nil => rfl
  | cons c cs =>
    simp only [Unbounded.plainLexeme, plainLexeme, unbounded_verbatimString, unbounded_nameLexeme,
      unbounded_rawString, unbounded_regularString, unbounded_characterLiteral, apply_ite Part.some]
    cases symbolAt? (c :: cs) with
    | none => rfl
    | some s => rfl

/-! ### Excluded text -/

namespace Unbounded

/-- A round over excluded text: it takes a line end, and the line behind it unless that opens with
a hash. -/
def excludedRound (l : Loop Unit) : Nat ⊕ Loop Unit :=
  match l.rest with
  | [] => .inl l.place
  | _ :: _ =>
    let lead := lineEndLength l.rest
    let line := l.rest.drop lead
    if hashFirst line then .inl (l.place + lead)
    else .inr (l.move (lead + (restOfLine line).length) ())

noncomputable def excludedLength : List Char →. Nat := fun text ↦
  let length := (restOfLine text).length
  runPlain excludedRound ⟨(), length, text.drop length⟩

end Unbounded

theorem agrees_excludedRound (l : Loop Unit) :
    Agrees Loop.left (fun l ↦ l.place + linesToHash l.rest) l (Unbounded.excludedRound l) := by
  obtain ⟨⟨⟩, place, _ | ⟨c, cs⟩⟩ := l
  · simp [Unbounded.excludedRound, Agrees, linesToHash]
  · have hlead := length_lineEnd_pos c cs
    simp only [Unbounded.excludedRound]
    split
    · next hhash =>
      show _ = place + linesToHash (c :: cs)
      simp only [linesToHash_cons, if_pos hhash]
    · next hhash =>
      apply Loop.agrees_move (Nat.add_pos_left hlead _) (List.cons_ne_nil c cs)
      simp only [Loop.place_move, Loop.rest_move]
      conv_rhs => rw [linesToHash_cons]
      simp only [if_neg hhash, List.drop_drop, Nat.add_assoc]

theorem unbounded_excludedLength (text : List Char) :
    Unbounded.excludedLength text = Part.some (excludedLength text) :=
  Loop.runPlain_eq_some _ agrees_excludedRound
    ⟨(), (restOfLine text).length, text.drop (restOfLine text).length⟩

end CSharpCheck
