import Mathlib.Data.Nat.Find
import CSharpCheck.Proofs.Scanning.Lockstep
import CSharpCheck.Proofs.Scanning.Skipping
import CSharpCheck.Proofs.TruePositions

/-!
# Excluded text has no influence

What stands in excluded text does not matter, as long as its lines end at the same places and none
of them opens with a hash. Two texts that differ there only are read side by side: no scan that
stops in front of excluded text has looked into it, and skipping it takes both readers to the same
place.
-/

namespace CSharpCheck

/-! ### Texts with the same lines -/

/-- The lines of the texts end at the same places, in the same way. -/
structure SameLines (text other : List Char) : Prop where
  length_eq : other.length = text.length
  getElem?_iff (i : Nat) (c : Char) : isLineEnd c = true →
    (other[i]? = some c ↔ text[i]? = some c)

namespace SameLines

variable {text other cs ds : List Char} {c d : Char}

/-- Texts of one length whose characters are pairwise the same or no line ends. -/
theorem of_zip (hlength : other.length = text.length)
    (h : ∀ p ∈ text.zip other, p.1 = p.2 ∨ (isLineEnd p.1 = false ∧ isLineEnd p.2 = false)) :
    SameLines text other := by
  refine ⟨hlength, fun i c hc ↦ ?_⟩
  rcases Nat.lt_or_ge i text.length with hi | hi
  · have hi' : i < other.length := hlength ▸ hi
    rw [List.getElem?_eq_getElem hi, List.getElem?_eq_getElem hi']
    have hmem : (text[i], other[i]) ∈ text.zip other := by
      rw [← List.getElem_zip (h := by rw [List.length_zip]; omega)]
      exact List.getElem_mem _
    rcases h _ hmem with heq | ⟨hnot, hnot'⟩
    · simp only at heq
      rw [heq]
    · simp only at hnot hnot'
      rw [Option.some_inj, Option.some_inj]
      constructor
      · rintro rfl
        rw [hnot'] at hc
        contradiction
      · rintro rfl
        rw [hnot] at hc
        contradiction
  · rw [List.getElem?_eq_none hi, List.getElem?_eq_none (hlength ▸ hi)]

theorem drop (h : SameLines text other) (n : Nat) : SameLines (text.drop n) (other.drop n) where
  length_eq := by rw [List.length_drop, List.length_drop, h.length_eq]
  getElem?_iff i c hc := by rw [List.getElem?_drop, List.getElem?_drop, h.getElem?_iff _ c hc]

theorem nil_of_nil (h : SameLines [] other) : other = [] :=
  List.length_eq_zero_iff.1 h.length_eq

theorem exists_cons (h : SameLines (c :: cs) other) : ∃ d ds, other = d :: ds :=
  List.exists_cons_of_length_eq_add_one h.length_eq

theorem head?_iff (h : SameLines text other) (hc : isLineEnd c = true) :
    other.head? = some c ↔ text.head? = some c := by
  rw [List.head?_eq_getElem?, List.head?_eq_getElem?]
  exact h.getElem?_iff 0 c hc

theorem tail (h : SameLines (c :: cs) (d :: ds)) : SameLines cs ds := h.drop 1

/-- The first characters are the same, or none of them ends a line. -/
theorem head (h : SameLines (c :: cs) (d :: ds)) :
    d = c ∨ (isLineEnd d = false ∧ isLineEnd c = false) := by
  cases hc : isLineEnd c with
  | true => exact .inl (Option.some.inj ((h.head?_iff hc).2 rfl))
  | false =>
    cases hd : isLineEnd d with
    | true =>
      have hcd : c = d := Option.some.inj ((h.head?_iff hd).1 rfl)
      rw [hcd, hd] at hc
      contradiction
    | false => exact .inr ⟨rfl, rfl⟩

theorem isLineEnd_head (h : SameLines (c :: cs) (d :: ds)) : isLineEnd d = isLineEnd c := by
  rcases h.head with rfl | ⟨hd, hc⟩
  · rfl
  · rw [hd, hc]

theorem isLineEnd_head? (h : SameLines text other) :
    other.head?.all isLineEnd = text.head?.all isLineEnd := by
  cases text with
  | nil => rw [h.nil_of_nil]
  | cons c cs =>
    obtain ⟨d, ds, rfl⟩ := h.exists_cons
    exact h.isLineEnd_head

theorem step_eq (h : SameLines (c :: cs) (d :: ds)) (p : Position) :
    p.step d ds.head? = p.step c cs.head? := by
  have hends : Position.endsLine d ds.head? = Position.endsLine c cs.head? := by
    rcases h.head with rfl | ⟨hd, hc⟩
    · have hfeed : (ds.head? == some '\n') = (cs.head? == some '\n') := by
        rw [Bool.eq_iff_iff, beq_iff_eq, beq_iff_eq]
        exact h.tail.head?_iff rfl
      rw [Position.endsLine, Position.endsLine, hfeed]
    · rw [Position.endsLine, Position.endsLine, hd, hc, Bool.false_and, Bool.false_and]
  rw [Position.step, Position.step, hends]

/-- Positions are the same in both texts. -/
theorem after_eq (h : SameLines text other) (p : Position) (n : Nat) :
    p.after other n = p.after text n := by
  induction text generalizing other p n with
  | nil => rw [h.nil_of_nil]
  | cons c cs ih =>
    obtain ⟨d, ds, rfl⟩ := h.exists_cons
    cases n with
    | zero => rfl
    | succ n => rw [Position.after, Position.after, h.step_eq, ih h.tail]

theorem length_restOfLine (h : SameLines text other) :
    (restOfLine other).length = (restOfLine text).length := by
  induction text generalizing other with
  | nil => rw [h.nil_of_nil]
  | cons c cs ih =>
    obtain ⟨d, ds, rfl⟩ := h.exists_cons
    simp only [restOfLine, List.takeWhile_cons, h.isLineEnd_head]
    split
    · exact congrArg (· + 1) (ih h.tail)
    · rfl

theorem lineEndLength_eq (h : SameLines text other) :
    lineEndLength other = lineEndLength text := by
  cases text with
  | nil => rw [h.nil_of_nil]
  | cons c cs =>
    obtain ⟨d, ds, rfl⟩ := h.exists_cons
    rw [lineEndLength_cons, lineEndLength_cons]
    have hpair : (d = '\r' ∧ ds.head? = some '\n') ↔ (c = '\r' ∧ cs.head? = some '\n') := by
      have hreturn := h.head?_iff (c := '\r') rfl
      rw [List.head?_cons, List.head?_cons, Option.some_inj, Option.some_inj] at hreturn
      rw [hreturn, h.tail.head?_iff rfl]
    simp only [hpair]

/-- Texts that are the same up to a line end. -/
theorem sameUpTo {n : Nat} (h : SameLines text other) (hsame : ∀ i < n, other[i]? = text[i]?)
    (hc : text[n]? = some c) (hend : isLineEnd c = true) : SameUpTo .lineEnd n text other := by
  induction n generalizing text other with
  | zero =>
    rw [← List.head?_eq_getElem?] at hc
    obtain ⟨cs, rfl⟩ := List.head?_eq_some_iff.1 hc
    obtain ⟨ds, rfl⟩ := List.head?_eq_some_iff.1 ((h.head?_iff hend).2 hc)
    exact .atLineEnd hend
  | succ n ih =>
    cases text with
    | nil => contradiction
    | cons d cs =>
      obtain ⟨e, ds, rfl⟩ := h.exists_cons
      obtain rfl : e = d := Option.some.inj (hsame 0 (Nat.succ_pos n))
      exact .cons e (ih h.tail (fun i hi ↦ hsame (i + 1) (Nat.succ_lt_succ hi)) hc)

end SameLines

/-! ### Lines that open with a hash -/

/-- The character at the place is a hash with nothing but blanks before it on its line. -/
def HashOpensLine (text : List Char) (place : Nat) : Prop :=
  ∃ before blanks rest, text = before ++ (blanks ++ '#' :: rest) ∧
    place = before.length + blanks.length ∧ before.getLast?.all isLineEnd = true ∧
    ∀ c ∈ blanks, isBlank c = true

theorem HashOpensLine.getElem?_eq {text : List Char} {place : Nat} (h : HashOpensLine text place) :
    text[place]? = some '#' := by
  obtain ⟨before, blanks, rest, rfl, rfl, -⟩ := h
  simp

/-- Behind a line end, a line that opens with a hash is one of the whole text. -/
theorem HashOpensLine.of_drop {text : List Char} {n place : Nat}
    (h : HashOpensLine (text.drop n) place) (hstart : (text.drop n).head?.all isLineEnd = true) :
    HashOpensLine text (n + place) := by
  obtain ⟨before, blanks, rest, hdrop, rfl, hlast, hblanks⟩ := h
  have hne : before ≠ [] := by
    rintro rfl
    rw [hdrop, List.nil_append] at hstart
    cases blanks with
    | nil => contradiction
    | cons c blanks =>
      have hc := hblanks c List.mem_cons_self
      simp only [List.cons_append, List.head?_cons, Option.all_some] at hstart
      rw [isBlank_of_isLineEnd hstart] at hc
      contradiction
  have hlength := congrArg List.length hdrop
  simp only [List.length_drop, List.length_append, List.length_cons] at hlength
  refine ⟨text.take n ++ before, blanks, rest, ?_, ?_, ?_, hblanks⟩
  · rw [List.append_assoc, ← hdrop, List.take_append_drop]
  · rw [List.length_append, List.length_take]
    omega
  · rwa [List.getLast?_append_of_ne_nil _ hne]

theorem exists_of_hashFirst {text : List Char} (h : hashFirst text = true) :
    ∃ blanks rest, text = blanks ++ '#' :: rest ∧ ∀ c ∈ blanks, isBlank c = true := by
  obtain ⟨rest, hrest⟩ := List.head?_eq_some_iff.1 (beq_iff_eq.1 h)
  refine ⟨text.takeWhile isBlank, rest, ?_, fun c ↦ List.all_eq_true.1 List.all_takeWhile c⟩
  rw [← hrest, List.takeWhile_append_dropWhile]

theorem isLineEnd_getLast?_take {c : Char} (hc : isLineEnd c = true) (cs : List Char) :
    ((c :: cs).take (lineEndLength (c :: cs))).getLast?.all isLineEnd = true := by
  rw [lineEndLength_cons]
  split
  · next hpair =>
    obtain ⟨ds, rfl⟩ := List.head?_eq_some_iff.1 hpair.2
    rfl
  · simpa using hc

/-- A hash that opens the line behind a line end opens a line of the text. -/
theorem hashOpensLine_of_hashFirst {c : Char} {cs : List Char} (hc : isLineEnd c = true)
    (h : hashFirst ((c :: cs).drop (lineEndLength (c :: cs))) = true) :
    ∃ n < (restOfLine ((c :: cs).drop (lineEndLength (c :: cs)))).length,
      HashOpensLine (c :: cs) (lineEndLength (c :: cs) + n) := by
  obtain ⟨blanks, rest, hdrop, hblanks⟩ := exists_of_hashFirst h
  refine ⟨blanks.length, ?_, (c :: cs).take (lineEndLength (c :: cs)), blanks, rest, ?_, ?_,
    isLineEnd_getLast?_take hc cs, hblanks⟩
  · have honeLine : ∀ d ∈ blanks, (!isLineEnd d) = true := fun d hd ↦ by
      have hblank := hblanks d hd
      simp only [isBlank, Bool.and_eq_true] at hblank
      exact hblank.1
    rw [hdrop, restOfLine, List.takeWhile_append_of_pos honeLine]
    simp [isLineEnd]
  · rw [← hdrop, List.take_append_drop]
  · rw [List.length_take, Nat.min_eq_left (length_lineEnd_le c cs)]

/-- Where the line behind the excluded lines of a text is the same, and none of these lines opens
with a hash in the other text, the same number of characters is excluded there. -/
theorem linesToHash_eq {text other : List Char} (h : SameLines text other)
    (hstart : text.head?.all isLineEnd = true)
    (hhash : ∀ place < linesToHash text, ¬HashOpensLine other place)
    (hline : restOfLine (other.drop (linesToHash text)) =
      restOfLine (text.drop (linesToHash text))) :
    linesToHash other = linesToHash text := by
  induction hlength : text.length using Nat.strongRecOn generalizing text other with
  | ind length ih =>
    cases text with
    | nil => rw [h.nil_of_nil]
    | cons c cs =>
      obtain ⟨d, ds, rfl⟩ := h.exists_cons
      have hpos := length_lineEnd_pos c cs
      have hd : isLineEnd d = true := h.isLineEnd_head.trans hstart
      have hfirst := @hashOpensLine_of_hashFirst _ ds hd
      rw [linesToHash_cons] at hhash hline ⊢
      rw [h.lineEndLength_eq] at hfirst
      rw [linesToHash_cons, h.lineEndLength_eq]
      generalize lineEndLength (c :: cs) = lead at hpos hhash hline hfirst ⊢
      have hrest := h.drop lead
      cases hopen : hashFirst ((c :: cs).drop lead) with
      | true =>
        simp only [hopen, if_true] at hline ⊢
        rw [← hashFirst_restOfLine, hline, hashFirst_restOfLine, if_pos hopen]
      | false =>
        simp only [hopen, Bool.false_eq_true, if_false] at hhash hline ⊢
        have hother : ¬hashFirst ((d :: ds).drop lead) = true := fun hopen' ↦ by
          obtain ⟨n, hn, hplace⟩ := hfirst hopen'
          rw [hrest.length_restOfLine] at hn
          exact hhash _ (by omega) hplace
        have hend := isLineEnd_head_drop_restOfLine ((c :: cs).drop lead)
        have hend' := isLineEnd_head_drop_restOfLine ((d :: ds).drop lead)
        rw [hrest.length_restOfLine] at hend'
        rw [if_neg hother, hrest.length_restOfLine]
        generalize (restOfLine ((c :: cs).drop lead)).length = len at hhash hline hend hend' ⊢
        rw [List.drop_drop] at hend hend' hhash ⊢
        rw [List.drop_drop] at hline ⊢
        rw [List.length_cons] at hlength
        rw [ih _ (by rw [List.length_drop, List.length_cons]; omega) (h.drop (lead + len)) hend
          (fun place hplace hopens ↦ hhash _ (by omega) (hopens.of_drop hend'))
          (by rwa [List.drop_drop, List.drop_drop]) rfl]

/-! ### Reading on another text -/

/-- The reader at the same place of another text. -/
def ActiveReader.on (other : List Char) (r : ActiveReader) : ActiveReader :=
  { r with source := r.source.on other }

variable {c : Cursor} {text other : List Char}

theorem Cursor.In.positionAt_on (h : c.In text) (hlines : SameLines text other) (n : Nat) :
    (c.on other).positionAt n = c.positionAt n := by
  rw [Cursor.positionAt, Cursor.positionAt, h.rest]
  exact (hlines.drop _).after_eq _ n

theorem Cursor.In.advance_on (h : c.In text) (hlines : SameLines text other) (n : Nat) :
    (c.on other).advance n = (c.advance n).on other := by
  have hrest : (c.on other).rest.drop n = other.drop (c.positionAt n).offset := by
    change (other.drop c.position.offset).drop n = _
    rw [List.drop_drop, h.offset_positionAt]
    rcases Nat.le_total (c.position.offset + n) text.length with hle | hle
    · rw [Nat.min_eq_left hle]
    · rw [Nat.min_eq_right hle, List.drop_eq_nil_of_le (hlines.length_eq ▸ hle),
        List.drop_eq_nil_of_le (Nat.le_of_eq hlines.length_eq)]
  rw [Cursor.advance, h.positionAt_on hlines, hrest]
  rfl

/-! ### Skipping on another text -/

/-- A line is the same where its characters are. -/
theorem SameLines.restOfLine_eq {text other : List Char} (h : SameLines text other)
    (hsame : ∀ i < (restOfLine text).length, other[i]? = text[i]?) :
    restOfLine other = restOfLine text := by
  rw [restOfLine_eq_take text, restOfLine_eq_take other, h.length_restOfLine]
  refine List.ext_getElem? fun i ↦ ?_
  rw [List.getElem?_take, List.getElem?_take]
  split
  · next hi => exact hsame i hi
  · rfl

namespace ActiveReader

/-- Where the text is that the next reading steps skip, at most `limit` of them: from which place
to which. A step that skips nothing has an empty stretch. -/
def skippedUpTo (script : Bool) : (limit : Nat) → ActiveReader → List (Nat × Nat)
  | 0, _ => []
  | limit + 1, r =>
    match r.source.read with
    | none => []
    | some reading =>
      let (chunk, next) := r.take script reading
      (reading.source.cursor.position.offset, next.source.cursor.position.offset) ::
        if chunk.breakdown.isSome then [] else skippedUpTo script limit next

/-- Whether the character at the place is skipped in the next reading steps. -/
def Skips (script : Bool) (limit : Nat) (r : ActiveReader) (place : Nat) : Prop :=
  ∃ stretch ∈ r.skippedUpTo script limit, stretch.1 ≤ place ∧ place < stretch.2

instance (script : Bool) (limit : Nat) (r : ActiveReader) : DecidablePred (r.Skips script limit) :=
  fun place ↦ inferInstanceAs (Decidable (∃ stretch ∈ r.skippedUpTo script limit,
    stretch.1 ≤ place ∧ place < stretch.2))

variable {script : Bool} {r : ActiveReader} {reading : Reading} {text other : List Char}

theorem not_skips_zero (place : Nat) : ¬r.Skips script 0 place := by
  rintro ⟨stretch, hmem, -⟩
  contradiction

theorem skips_succ {limit place : Nat} (h : r.source.read = some reading) :
    r.Skips script (limit + 1) place ↔
      (reading.source.cursor.position.offset ≤ place ∧
        place < (r.take script reading).2.source.cursor.position.offset) ∨
      ((r.take script reading).1.breakdown.isSome = false ∧
        (r.take script reading).2.Skips script limit place) := by
  simp only [Skips, skippedUpTo, h, List.exists_mem_cons_iff]
  cases (r.take script reading).1.breakdown.isSome <;> simp

theorem endLine_on (script : Bool) (r : ActiveReader) (reading : Reading) (stop : Token)
    (hskip : (r.endLine script reading stop).2.source = reading.source.skipExcluded →
      (reading.source.on other).skipExcluded = reading.source.skipExcluded.on other) :
    (r.on other).endLine script (reading.on other) stop =
      ((r.endLine script reading stop).1, (r.endLine script reading stop).2.on other) := by
  have heffect : (r.on other).lineEffect script stop = r.lineEffect script stop := rfl
  rw [endLine_eq] at hskip
  rw [endLine_eq, endLine_eq, heffect]
  cases hactive : (r.lineEffect script stop).state.active with
  | true =>
    simp only [hactive, if_true]
    rfl
  | false =>
    simp only [hactive, Bool.false_eq_true, if_false] at hskip ⊢
    change (_, (⟨(reading.source.on other).skipExcluded, _, _⟩ : ActiveReader)) = _
    rw [hskip trivial]
    rfl

/-- Taking the same step in both texts is the same, if what it skips is. -/
theorem take_on (script : Bool) (r : ActiveReader) (reading : Reading)
    (hskip : ∀ t ts, reading.tokens = t :: ts → t.kind = .directiveEnd →
      (r.take script reading).2.source = reading.source.skipExcluded →
      (reading.source.on other).skipExcluded = reading.source.skipExcluded.on other) :
    (r.on other).take script (reading.on other) =
      ((r.take script reading).1, (r.take script reading).2.on other) := by
  have htokens : (reading.on other).tokens = reading.tokens := rfl
  unfold take at hskip ⊢
  rw [htokens]
  split
  · rfl
  · next t ts heq =>
    replace hskip := hskip t ts heq
    rw [heq] at hskip
    simp only at hskip
    split
    · next hkind =>
      rw [if_pos hkind] at hskip
      exact endLine_on script r reading t (hskip hkind)
    · have hline : (r.on other).line = r.line := rfl
      rw [hline]
      split
      · rfl
      · split <;> rfl

theorem source_take_in (script : Bool) (hreading : reading.source.cursor.In text) :
    (r.take script reading).2.source.cursor.In text ∧ reading.source.cursor.position.offset ≤
      (r.take script reading).2.source.cursor.position.offset := by
  rcases source_take_eq script r reading with hsource | ⟨-, hsource⟩
  · rw [hsource]
    exact ⟨hreading, Nat.le_refl _⟩
  · rw [hsource, TokenSource.offset_skipExcluded hreading]
    have hle := hreading.position.2
    exact ⟨TokenSource.in_skipExcluded hreading, by omega⟩

/-- Skipped text starts with a line end that the reader has not passed yet. -/
theorem Skips.exists_lineEnd {limit place : Nat} (hr : r.source.cursor.In text)
    (h : r.Skips script limit place) :
    ∃ reading, r.source.read = some reading ∧ ∃ start ≤ place,
      reading.source.cursor.position.offset ≤ start ∧ r.Skips script limit start ∧
        ∃ c, text[start]? = some c ∧ isLineEnd c = true := by
  induction limit generalizing r with
  | zero => exact absurd h (not_skips_zero place)
  | succ limit ih =>
    cases hread : r.source.read with
    | none =>
      obtain ⟨stretch, hmem, -⟩ := h
      rw [skippedUpTo, hread] at hmem
      contradiction
    | some reading =>
      have hreading := (TokenSource.in_of_read hr hread).source
      obtain ⟨hnext, hle⟩ := source_take_in (r := r) script hreading
      refine ⟨reading, rfl, ?_⟩
      rcases (skips_succ hread).1 h with ⟨hstart, hstop⟩ | ⟨hgoes, hskips⟩
      · -- the stretch is not empty, so that a directive line has ended
        rcases source_take_eq script r reading with hsource | ⟨hends, hsource⟩
        · rw [hsource] at hstop
          omega
        · have hend := (TokenSource.isLineEnd_head_of_endsDirective hread hends).2
          have hlength := hnext.position.2
          rw [hreading.rest, List.head?_drop, List.getElem?_eq_getElem (by omega)] at hend
          exact ⟨_, hstart, Nat.le_refl _, (skips_succ hread).2 (.inl ⟨Nat.le_refl _, by omega⟩),
            _, List.getElem?_eq_getElem (by omega), hend⟩
      · obtain ⟨reading', hread', start, hstart, hle', hskips', hend⟩ := ih hnext hskips
        have hle'' := TokenSource.offset_le_of_read hread'
        exact ⟨start, hstart, by omega, (skips_succ hread).2 (.inr ⟨hgoes, hskips'⟩), hend⟩

/-- No line ends within the rest of a line. -/
theorem not_lineEnd_of_lt_restOfLine {c : Char} {n i : Nat}
    (hi : i < (restOfLine (text.drop n)).length) (hc : text[n + i]? = some c) :
    isLineEnd c = false := by
  have hprefix : (restOfLine (text.drop n))[i]? = some c := by
    rw [restOfLine_eq_take, List.getElem?_take_of_lt hi, List.getElem?_drop, hc]
  exact isLineEnd_of_mem_restOfLine (List.mem_of_getElem? hprefix)

/-- In both texts the same number of characters is skipped after a directive line. -/
theorem excludedLength_on {limit : Nat} (hreading : reading.source.cursor.In text)
    (hlines : SameLines text other) (hread : r.source.read = some reading)
    (hend : reading.source.cursor.rest.head?.all isLineEnd = true)
    (hskip : (r.take script reading).2.source = reading.source.skipExcluded)
    (hsame : ∀ place, reading.source.cursor.position.offset ≤ place →
      ¬r.Skips script (limit + 1) place → other[place]? = text[place]?)
    (hhash : ∀ place, r.Skips script (limit + 1) place → ¬HashOpensLine other place) :
    excludedLength (reading.source.on other).cursor.rest =
      excludedLength reading.source.cursor.rest := by
  have hrest : (reading.source.on other).cursor.rest =
      other.drop reading.source.cursor.position.offset := rfl
  have hdrop := hlines.drop reading.source.cursor.position.offset
  have hnext := (source_take_in (r := r) script hreading).1
  have hoffset := TokenSource.offset_skipExcluded hreading
  have hle := linesToHash_le reading.source.cursor.rest
  have hplace := hreading.position.2
  rw [excludedLength_of_lineEnd hend] at hoffset
  rw [hreading.rest] at hend hle hoffset ⊢
  rw [List.length_drop] at hle
  rw [← hskip, Nat.min_eq_left (by omega)] at hoffset
  have hend' := hdrop.isLineEnd_head?.trans hend
  rw [hrest, excludedLength_of_lineEnd hend, excludedLength_of_lineEnd hend']
  refine linesToHash_eq hdrop hend (fun n hn hopens ↦ ?_) ?_
  · exact hhash _ ((skips_succ hread).2 (.inl ⟨Nat.le_add_right _ n, by omega⟩))
      (hopens.of_drop hend')
  · rw [List.drop_drop, List.drop_drop, ← hoffset]
    refine (hlines.drop _).restOfLine_eq fun i hi ↦ ?_
    rw [List.getElem?_drop, List.getElem?_drop]
    refine hsame _ (by omega) fun hskips ↦ ?_
    rcases (skips_succ hread).1 hskips with ⟨-, hstop⟩ | ⟨-, hskips⟩
    · omega
    · obtain ⟨reading', hread', place, hplace, hle', -, c, hc, hlineEnd⟩ :=
        hskips.exists_lineEnd hnext
      have hle'' := TokenSource.offset_le_of_read hread'
      obtain ⟨j, rfl⟩ := Nat.exists_eq_add_of_le (hle''.trans hle')
      rw [not_lineEnd_of_lt_restOfLine (by omega) hc] at hlineEnd
      contradiction

theorem chunksUpTo_on {limit : Nat} (hr : r.source.cursor.In text) (hlines : SameLines text other)
    (hsame : ∀ place, r.source.cursor.position.offset ≤ place →
      ¬r.Skips script limit place → other[place]? = text[place]?)
    (hhash : ∀ place, r.Skips script limit place → ¬HashOpensLine other place) :
    (r.on other).chunksUpTo script limit = r.chunksUpTo script limit := by
  induction limit generalizing r with
  | zero => rfl
  | succ limit ih =>
    by_cases hskips : ∃ place, r.Skips script (limit + 1) place
    · obtain ⟨place, hplace, hleast⟩ : ∃ place, r.Skips script (limit + 1) place ∧
          ∀ n < place, ¬r.Skips script (limit + 1) n := by
        classical exact ⟨Nat.find hskips, Nat.find_spec hskips, fun n ↦ Nat.find_min hskips⟩
      obtain ⟨reading, hread, start, hstart, hle, hskips', c, hc, hend⟩ :=
        hplace.exists_lineEnd hr
      obtain rfl : start = place := by
        by_contra hne
        exact hleast start (by omega) hskips'
      have hreading := (TokenSource.in_of_read hr hread).source
      have hgoes := TokenSource.offset_le_of_read hread
      obtain ⟨n, rfl⟩ := Nat.exists_eq_add_of_le (hgoes.trans hle)
      have hsameUpTo : SameUpTo .lineEnd n r.source.cursor.rest
          (r.on other).source.cursor.rest := by
        rw [hr.rest]
        refine (hlines.drop _).sameUpTo (fun i hi ↦ ?_) (by rwa [List.getElem?_drop]) hend
        rw [List.getElem?_drop, List.getElem?_drop]
        exact hsame _ (by omega) (hleast _ (by omega))
      have hread' : (r.on other).source.read = some (reading.on other) :=
        TokenSource.read_on hsameUpTo hread hle nofun
      have htake := @take_on other script r reading fun t ts htokens ht hskip ↦ by
        refine TokenSource.skipExcluded_on ?_ (hreading.advance_on hlines _)
        exact excludedLength_on hreading hlines hread
          (TokenSource.isLineEnd_head_of_endsDirective hread ⟨t, ts, htokens, ht⟩).2 hskip
          (fun place hplace ↦ hsame place (hgoes.trans hplace)) hhash
      obtain ⟨hnext, hon⟩ := source_take_in (r := r) script hreading
      rw [chunksUpTo, chunksUpTo, hread', hread]
      simp only [htake]
      split
      · rfl
      · next hwhole =>
        rw [Bool.not_eq_true] at hwhole
        rw [ih hnext (fun place hplace hnot ↦ ?_) fun place hskip ↦
          hhash place ((skips_succ hread).2 (.inr ⟨hwhole, hskip⟩))]
        refine hsame place (by omega) fun hskip ↦ ?_
        rcases (skips_succ hread).1 hskip with ⟨-, hlt⟩ | ⟨-, hskip⟩
        · omega
        · exact hnot hskip
    · have hrest : r.on other = r := by
        have hsame' : other.drop r.source.cursor.position.offset = r.source.cursor.rest := by
          rw [hr.rest]
          refine List.ext_getElem? fun i ↦ ?_
          rw [List.getElem?_drop, List.getElem?_drop]
          exact hsame _ (Nat.le_add_right _ _) fun hskip ↦ hskips ⟨_, hskip⟩
        rw [on, TokenSource.on, Cursor.on, hsame']
      rw [hrest]

end ActiveReader

/-- Whether the character of the text at the place is excluded: whether it is skipped in one of the
steps in which the active text is read. -/
def Excluded (script : Bool) (symbols : List String) (text : List Char) (place : Nat) : Prop :=
  (ActiveReader.ofText text symbols).Skips script (TokenSource.ofText text).stepsLeft place

instance (script : Bool) (symbols : List String) (text : List Char) :
    DecidablePred (Excluded script symbols text) :=
  fun place ↦ inferInstanceAs
    (Decidable ((ActiveReader.ofText text symbols).Skips script (TokenSource.ofText text).stepsLeft
      place))

/-- Excluded text has no influence: a text whose lines end at the same places, that differs in
excluded characters only, and in which no hash opens a line there has the same active text, step by
step, and the same outcome. -/
theorem validate_excluded (o : Options) {text other : List Char} (hlines : SameLines text other)
    (hsame : ∀ place, ¬Excluded o.script o.symbols text place → other[place]? = text[place]?)
    (hhash : ∀ place, Excluded o.script o.symbols text place → ¬HashOpensLine other place) :
    activeText o.script o.symbols other = activeText o.script o.symbols text ∧
      validate o other = validate o text := by
  have hactive : activeText o.script o.symbols other = activeText o.script o.symbols text := by
    have hon : (ActiveReader.ofText text o.symbols).on other = .ofText other o.symbols := rfl
    have hsteps : (TokenSource.ofText other).stepsLeft = (TokenSource.ofText text).stepsLeft := by
      change 2 * other.length + 0 + 1 = 2 * text.length + 0 + 1
      rw [hlines.length_eq]
    change (ActiveReader.ofText other o.symbols).chunksUpTo _ (TokenSource.ofText other).stepsLeft =
      (ActiveReader.ofText text o.symbols).chunksUpTo _ (TokenSource.ofText text).stepsLeft
    rw [hsteps, ← hon]
    exact ActiveReader.chunksUpTo_on (Cursor.in_ofText text) hlines (fun place _ ↦ hsame place)
      hhash
  refine ⟨hactive, ?_⟩
  rw [validate, validate, Survey.ofText, Survey.ofText, hactive]

/-- A text whose second line is excluded. -/
def secondLineExcluded (line : String) : List Char :=
  ("#if A\n" ++ line ++ "\n#endif\nclass C \x7b \x7d").toList

/-- A string, a comment and a brace that open in excluded text are not read. -/
theorem validate_excluded_open :
    activeText false [] (secondLineExcluded "\"/*\x7b") =
        activeText false [] (secondLineExcluded "abcd") ∧
      validate ⟨.default, false, [], []⟩ (secondLineExcluded "\"/*\x7b") =
        validate ⟨.default, false, [], []⟩ (secondLineExcluded "abcd") := by
  refine validate_excluded ⟨.default, false, [], []⟩
    (.of_zip (by decide +kernel) (by decide +kernel)) (fun place hplace ↦ ?_)
    (fun place hplace hopens ↦ ?_)
  · rcases Nat.lt_or_ge place 30 with hlt | hge
    · have hall : ∀ n < 30, ¬Excluded false [] (secondLineExcluded "abcd") n →
          (secondLineExcluded "\"/*\x7b")[n]? = (secondLineExcluded "abcd")[n]? := by
        decide +kernel
      exact hall place hlt hplace
    · rw [List.getElem?_eq_none (hge.trans' (by decide +kernel)),
        List.getElem?_eq_none (hge.trans' (by decide +kernel))]
  · have hall : ∀ n < 30, Excluded false [] (secondLineExcluded "abcd") n →
        (secondLineExcluded "\"/*\x7b")[n]? ≠ some '#' := by
      decide +kernel
    have hhash := hopens.getElem?_eq
    exact hall place ((List.getElem?_eq_some_iff.1 hhash).1.trans_le (by decide +kernel)) hplace
      hhash

end CSharpCheck
