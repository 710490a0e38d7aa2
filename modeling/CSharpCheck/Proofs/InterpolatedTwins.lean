import CSharpCheck.Proofs.Scanning.Literals

/-!
# Strings and their interpolated twins

A dollar in front of a string without braces makes an interpolated string without holes. Both are
scanned by rules of their own, which agree about faults and about where the string ends, with one
exception: over several lines, a raw string has to close on a line of its own and its lines have to
be indented, and its interpolated twin does not.
-/

namespace CSharpCheck

variable {scan : List Char → Group} {inDirective multiLine : Bool} {n start textStart : Nat}
  {text : List Char}

/-- No hole opens in the text and none closes. -/
def HoleFree (text : List Char) : Prop := ∀ c ∈ text, c ≠ '\x7b' ∧ c ≠ '\x7d'

instance (text : List Char) : Decidable (HoleFree text) :=
  List.decidableBAll _ text

namespace HoleFree

variable {c : Char} {cs : List Char}

theorem ne_openBrace (h : HoleFree (c :: cs)) : (c == '\x7b') = false :=
  beq_eq_false_iff_ne.2 (h c List.mem_cons_self).1

theorem ne_closeBrace (h : HoleFree (c :: cs)) : (c == '\x7d') = false :=
  beq_eq_false_iff_ne.2 (h c List.mem_cons_self).2

theorem tail (h : HoleFree (c :: cs)) : HoleFree cs := fun d hd ↦ h d (List.mem_cons_of_mem c hd)

theorem drop (h : HoleFree text) (k : Nat) : HoleFree (text.drop k) :=
  fun c hc ↦ h c (List.mem_of_mem_drop hc)

end HoleFree

/-- The content of an interpolated string, one character further on, is judged like the body of its
twin: it ends at the same place with or without a fault, or it is not closed either. -/
structure Part.Twin (p : Part) (b : Body) : Prop where
  faults : b.closed = true → (p.faults = [] ↔ b.faults = [])
  stop : b.closed = true → p.stop = b.stop + 1
  unclosed : b.closed = false → p.faults ≠ []

/-! ### Regular and verbatim strings -/

/-- The opening of a regular interpolated string. -/
def Opening.regular : Opening := ⟨2, false, false, false, 1, 1⟩

/-- The opening of a verbatim interpolated string with the dollar in front. -/
def Opening.verbatimDollar : Opening := ⟨3, true, false, false, 1, 1⟩

/-- Without braces, a round over the content of an interpolated string knows line ends, quotes and
backslashes only. -/
theorem interpolatedBody_cons {o : Opening} {c : Char} {cs : List Char} (h : HoleFree (c :: cs)) :
    interpolatedBody o multiLine scan inDirective textStart start (c :: cs) =
      if isLineEnd c && !multiLine then unclosedEnd o true textStart start
      else if c == '"' then
        if o.verbatim && cs.head? == some '"' then
          interpolatedBody o multiLine scan inDirective textStart (start + 2) (cs.drop 1)
        else
          let run := if o.raw then runLength '"' cs + 1 else 1
          if o.quotes ≤ run then closedEnd o textStart start run (cs.drop (run - 1))
          else
            interpolatedBody o multiLine scan inDirective textStart (start + run)
              (cs.drop (run - 1))
      else if c == '\\' && !o.verbatim && !o.raw then
        (interpolatedBody o multiLine scan inDirective textStart (start + (escape cs).length)
          (cs.drop ((escape cs).length - 1))).after [] ((escape cs).faults start)
            (escape cs).features
      else interpolatedBody o multiLine scan inDirective textStart (start + 1) cs := by
  rw [interpolatedBody, h.ne_openBrace, h.ne_closeBrace]
  rfl

theorem twin_unclosedEnd (o : Opening) (atLineEnd : Bool) :
    (unclosedEnd o atLineEnd textStart (start + 1)).Twin ⟨start, false, [], []⟩ := by
  constructor
  · intro h
    contradiction
  · intro h
    contradiction
  · exact fun _ ↦ List.cons_ne_nil _ _

theorem Part.Twin.afterEscape {p : Part} {b : Body} (h : p.Twin b) (e : Escape) (start : Nat) :
    (p.after [] (e.faults (start + 1)) e.features).Twin (b.afterEscape e start) := by
  have hfaults : e.faults (start + 1) = [] ↔ e.faults start = [] := by
    rw [Escape.faults, Escape.faults]
    split
    · exact Iff.rfl
    · simp
  constructor
  · intro hclosed
    simp only [Part.after, Body.afterEscape, List.append_eq_nil_iff, hfaults, h.faults hclosed]
  · exact h.stop
  · intro hclosed hnil
    exact h.unclosed hclosed (List.append_eq_nil_iff.1 hnil).2

theorem twin_stringBody (h : HoleFree text) :
    (interpolatedBody .regular false scan inDirective textStart (start + 1) text).Twin
      (stringBody start text) := by
  fun_induction stringBody start text with
  | case1 start =>
    rw [interpolatedBody]
    exact twin_unclosedEnd _ _
  | case2 start c cs hc =>
    rw [interpolatedBody_cons h, if_pos (by simp [hc])]
    exact twin_unclosedEnd _ _
  | case3 start c cs hc hquote =>
    rw [interpolatedBody_cons h, if_neg (by simp [hc]), if_pos hquote]
    constructor
    · exact fun _ ↦ Iff.rfl
    · exact fun _ ↦ rfl
    · intro hopen
      contradiction
  | case4 start c cs hc hquote hescape e ih =>
    rw [interpolatedBody_cons h, if_neg (by simp [hc]), if_neg hquote,
      if_pos (by simp [hescape, Opening.regular])]
    rw [Nat.add_right_comm]
    exact (ih (h.tail.drop _)).afterEscape e start
  | case5 start c cs hc hquote hescape ih =>
    rw [interpolatedBody_cons h, if_neg (by simp [hc]), if_neg hquote, if_neg (by simp [hescape])]
    exact ih h.tail

theorem twin_verbatimBody (h : HoleFree text) :
    (interpolatedBody .verbatimDollar true scan inDirective textStart (start + 1) text).Twin
      (verbatimBody start text) := by
  fun_induction verbatimBody start text with
  | case1 start =>
    rw [interpolatedBody]
    exact twin_unclosedEnd _ _
  | case2 start cs ih =>
    rw [interpolatedBody_cons h, if_neg (by simp), if_pos (by rfl), if_pos (by rfl)]
    exact ih h.tail.tail
  | case3 start cs hsingle =>
    have hhead : (cs.head? == some '"') = false := by
      rw [beq_eq_false_iff_ne]
      intro hquote
      cases cs with
      | nil => cases hquote
      | cons c cs =>
        obtain rfl : c = '"' := Option.some.inj hquote
        exact hsingle cs rfl
    rw [interpolatedBody_cons h, if_neg (by simp), if_pos (by rfl), if_neg (by simp [hhead])]
    constructor
    · exact fun _ ↦ Iff.rfl
    · exact fun _ ↦ rfl
    · intro hopen
      contradiction
  | case4 start c cs hdouble hquote ih =>
    have hc : (c == '"') = false := beq_eq_false_iff_ne.2 hquote
    rw [interpolatedBody_cons h, if_neg (by simp), if_neg (by simp [hc]),
      if_neg (by simp [Opening.verbatimDollar])]
    exact ih h.tail

/-! ### Raw strings -/

/-- The opening of a raw interpolated string with one dollar. -/
def Opening.rawDollar (n : Nat) : Opening := ⟨1 + n, false, true, false, n, 1⟩

/-- The part of a text in which a raw string with one dollar looks for its closing quotes. -/
def searched (multiLine : Bool) (text : List Char) : List Char :=
  if multiLine then text else restOfLine text

theorem searched_cons {c : Char} (hc : (isLineEnd c && !multiLine) = false) (cs : List Char) :
    searched multiLine (c :: cs) = c :: searched multiLine cs := by
  cases multiLine with
  | true => rfl
  | false =>
    have hend : isLineEnd c = false := by simpa using hc
    simp [searched, restOfLine, hend]

theorem searched_quoteMarks_append (m : Nat) (rest : List Char) :
    searched multiLine (quoteMarks m ++ rest) = quoteMarks m ++ searched multiLine rest := by
  cases multiLine with
  | true => rfl
  | false => exact restOfLine_quoteMarks_append m rest

theorem head?_searched_ne {rest : List Char} (hrest : rest.head? ≠ some '"') :
    (searched multiLine rest).head? ≠ some '"' := by
  cases multiLine with
  | true => exact hrest
  | false => exact head?_restOfLine_ne hrest

/-- How the content of a raw interpolated string ends, where the first run of enough quotes is
looked for: with that run, which may have too many quotes, or without closing. -/
structure Part.EndsAt (p : Part) (n start : Nat) (text : List Char) (found : Option Nat) :
    Prop where
  unclosed : found = none → p.faults ≠ []
  faults : ∀ k, found = some k → (p.faults = [] ↔ runLength '"' (text.drop k) ≤ n)
  stop : ∀ k, found = some k → p.stop = start + k + runLength '"' (text.drop k) +
    utf8SuffixLength (text.drop (k + runLength '"' (text.drop k)))

theorem Part.EndsAt.skip {p : Part} {m : Nat} {found : Option Nat}
    (h : p.EndsAt n (start + m) (text.drop m) found) :
    p.EndsAt n start text (found.map (· + m)) := by
  have hdrop (k : Nat) : (text.drop m).drop k = text.drop (k + m) := by
    rw [List.drop_drop, Nat.add_comm]
  constructor
  · intro hnone
    exact h.unclosed (Option.map_eq_none_iff.1 hnone)
  · intro k hk
    obtain ⟨k, hfound, rfl⟩ := Option.map_eq_some_iff.1 hk
    rw [h.faults k hfound, hdrop]
  · intro k hk
    obtain ⟨k, hfound, rfl⟩ := Option.map_eq_some_iff.1 hk
    rw [h.stop k hfound, hdrop, hdrop, Nat.add_right_comm k]
    omega

theorem endsAt_unclosedEnd (o : Opening) (atLineEnd : Bool) :
    (unclosedEnd o atLineEnd textStart start).EndsAt n start text none := by
  constructor
  · exact fun _ ↦ List.cons_ne_nil _ _
  · intro k hk
    contradiction
  · intro k hk
    contradiction

theorem endsAt_closedEnd {run : Nat} (hrun : runLength '"' text = run) :
    (closedEnd (.rawDollar n) textStart start run (text.drop run)).EndsAt n start text
      (some 0) := by
  constructor
  · intro hnone
    contradiction
  · intro k hk
    cases hk
    rw [List.drop_zero, hrun, closedEnd]
    by_cases hmany : n < run
    · simp [Opening.rawDollar, hmany]
    · simp [Opening.rawDollar, hmany, Nat.not_lt.1 hmany]
  · intro k hk
    cases hk
    simp [closedEnd, Opening.rawDollar, hrun]

/-- A round over the content of a raw string with one dollar. -/
theorem interpolatedBody_rawDollar_cons {c : Char} {cs : List Char} (h : HoleFree (c :: cs)) :
    interpolatedBody (.rawDollar n) multiLine scan inDirective textStart start (c :: cs) =
      if isLineEnd c && !multiLine then unclosedEnd (.rawDollar n) true textStart start
      else if c = '"' then
        let run := runLength '"' (c :: cs)
        if n ≤ run then closedEnd (.rawDollar n) textStart start run ((c :: cs).drop run)
        else interpolatedBody (.rawDollar n) multiLine scan inDirective textStart (start + run)
          ((c :: cs).drop run)
      else interpolatedBody (.rawDollar n) multiLine scan inDirective textStart (start + 1) cs := by
  rw [interpolatedBody_cons h]
  by_cases hquote : c = '"'
  · subst hquote
    rw [runLength_cons, if_pos rfl]
    rfl
  · simp [hquote, Opening.rawDollar]

/-- The content of a raw string with one dollar ends at the first run of enough quotes. -/
theorem endsAt_interpolatedBody (hn : 0 < n) (h : HoleFree text) :
    (interpolatedBody (.rawDollar n) multiLine scan inDirective textStart start text).EndsAt n start
      text (quoteRun? n (searched multiLine text)) := by
  induction hlength : text.length using Nat.strongRecOn generalizing start text with
  | ind length ih =>
  cases text with
  | nil =>
    have hnone : quoteRun? n (searched multiLine []) = none := by cases multiLine <;> rfl
    rw [interpolatedBody, hnone]
    exact endsAt_unclosedEnd _ _
  | cons c cs =>
    rw [interpolatedBody_rawDollar_cons h]
    by_cases hend : (isLineEnd c && !multiLine) = true
    · have hsearched : searched multiLine (c :: cs) = [] := by
        rw [Bool.and_eq_true, Bool.not_eq_true'] at hend
        simp [searched, restOfLine, hend.1, hend.2]
      rw [if_pos hend, hsearched]
      exact endsAt_unclosedEnd _ _
    · rw [if_neg hend]
      by_cases hquote : c = '"'
      · obtain ⟨rest, htext, hrest⟩ := exists_quoteMarks (c :: cs)
        have hpos : 0 < runLength '"' (c :: cs) := by
          rw [runLength_cons, if_pos hquote]
          exact Nat.succ_pos _
        rw [if_pos hquote]
        generalize hrun : runLength '"' (c :: cs) = run at htext hpos
        have hdrop : (c :: cs).drop run = rest := by
          rw [htext, List.drop_left' (length_quoteMarks run)]
        by_cases hclose : n ≤ run
        · have hfound : quoteRun? n (searched multiLine (c :: cs)) = some 0 := by
            rw [htext, searched_quoteMarks_append]
            apply quoteRun?_eq_some_zero hn
            exact (prefix_quoteMarks hclose).trans (List.prefix_append _ _)
          simp only [if_pos hclose, hfound]
          exact endsAt_closedEnd hrun
        · have hfound : quoteRun? n (searched multiLine (c :: cs)) =
              (quoteRun? n (searched multiLine rest)).map (· + run) := by
            rw [htext, searched_quoteMarks_append,
              quoteRun?_quoteMarks_append (Nat.lt_of_not_le hclose) (head?_searched_ne hrest)]
          simp only [if_neg hclose, hfound]
          apply Part.EndsAt.skip
          rw [hdrop]
          refine ih _ ?_ ?_ rfl
          · rw [← hlength, ← hdrop, List.length_drop, List.length_cons]
            omega
          · exact hdrop ▸ h.drop run
      · have hshort : ¬n ≤ runLength '"' (c :: searched multiLine cs) := by
          rw [runLength_cons, if_neg hquote]
          exact Nat.not_le.2 hn
        rw [if_neg hquote, searched_cons (Bool.eq_false_iff.2 hend), quoteRun?_cons, if_neg hshort]
        apply Part.EndsAt.skip (m := 1)
        refine ih _ ?_ h.tail rfl
        rw [← hlength]
        exact Nat.lt_succ_self _

/-! ### Where a block closes -/

/-- The first run of `n` quotes stands on a line of its own, behind blank space that every line
before it starts with unless it is white space. -/
def LaidOut (n : Nat) (text : List Char) : Prop :=
  ∃ blank lines indentation rest content, text = lines ++ (indentation ++ quoteMarks n ++ rest) ∧
    (∀ c ∈ blank, isBlank c = true) ∧
    Joined (blank :: content) lines (indentation ++ quoteMarks n ++ rest) ∧
    ClosesBlock n content indentation

/-- A run of quotes does not reach over another character. -/
theorem not_infix_append_cons {a b : List Char} {c : Char} (hc : c ≠ '"')
    (ha : ¬quoteMarks n <:+: a) (hb : ¬quoteMarks n <:+: b) : ¬quoteMarks n <:+: a ++ c :: b := by
  have hsplit (front : List Char) : front ++ c :: b = front ++ [c] ++ b := by simp
  have hstep {front : List Char} (hfront : ¬quoteMarks n <+: front) :
      ¬quoteMarks n <+: front ++ c :: b := by
    rw [hsplit]
    apply not_prefix_append (by simp) (by simpa using hc)
    intro hleads
    rcases List.prefix_concat_iff.1 hleads with hall | hleads
    · exact hc (mem_quoteMarks (hall ▸ List.mem_append_right _ (List.mem_singleton_self c)))
    · exact hfront hleads
  induction a with
  | nil =>
    rw [List.nil_append, List.infix_cons_iff, not_or]
    exact ⟨hstep fun hleads ↦ ha hleads.isInfix, hb⟩
  | cons d a ih =>
    rw [List.infix_cons_iff, not_or] at ha
    rw [List.cons_append, List.infix_cons_iff, not_or]
    exact ⟨hstep ha.1, ih ha.2⟩

theorem LineBreak.ne_quote {lineEnd rest : List Char} (h : LineBreak lineEnd rest) :
    ∀ c ∈ lineEnd, c ≠ '"' := by
  cases h with
  | pair => simp
  | single hc =>
    intro d hd hquote
    rw [List.mem_singleton.1 hd] at hquote
    rw [hquote] at hc
    exact absurd hc (by decide)

/-- A run of quotes does not reach over the end of a line. -/
theorem Joined.not_infix {lines : List (List Char)} {characters rest tail : List Char}
    (h : Joined lines characters rest) (hlines : ∀ line ∈ lines, ¬quoteMarks n <:+: line)
    (htail : ¬quoteMarks n <:+: tail) : ¬quoteMarks n <:+: characters ++ tail := by
  have hbreak {lineEnd rest : List Char} (h : LineBreak lineEnd rest) {a b : List Char}
      (ha : ¬quoteMarks n <:+: a) (hb : ¬quoteMarks n <:+: b) :
      ¬quoteMarks n <:+: a ++ lineEnd ++ b := by
    have hne := h.ne_quote
    cases h with
    | pair =>
      rw [List.append_assoc]
      exact not_infix_append_cons (by decide) ha
        (not_infix_append_cons (a := []) (by decide)
          (fun hnil ↦ ha (hnil.trans List.nil_infix)) hb)
    | single hc =>
      rw [List.append_assoc]
      exact not_infix_append_cons (hne _ List.mem_cons_self) ha hb
  induction h with
  | nil => exact htail
  | cons hplain hend hjoined ih =>
    rw [List.append_assoc]
    exact hbreak hend (hlines _ List.mem_cons_self)
      (ih fun line hline ↦ hlines line (List.mem_cons_of_mem _ hline))

theorem Joined.getLast?_ne {lines : List (List Char)} {characters rest : List Char}
    (h : Joined lines characters rest) : characters.getLast? ≠ some '"' := by
  induction h with
  | nil => simp
  | @cons line lineEnd characters rest lines hplain hbreak hjoined ih =>
    intro hquote
    rw [List.getLast?_append, Option.or_eq_some_iff] at hquote
    rcases hquote with hquote | ⟨-, hquote⟩
    · exact ih hquote
    · have hne : lineEnd ≠ [] := List.ne_nil_of_length_pos hbreak.length_pos
      rw [List.getLast?_append, List.getLast?_eq_some_getLast hne, Option.some_or] at hquote
      exact hbreak.ne_quote _ (List.getLast_mem hne) (Option.some.inj hquote)

/-- The closing line of a block is found by its quotes. -/
theorem quoteRun?_block {blank lines indentation rest : List Char} {content : List (List Char)}
    (hn : 0 < n) (hblank : ∀ c ∈ blank, isBlank c = true)
    (hjoined : Joined (blank :: content) lines (indentation ++ quoteMarks n ++ rest))
    (hcloses : ClosesBlock n content indentation) :
    quoteRun? n (lines ++ (indentation ++ quoteMarks n ++ rest)) =
      some (lines.length + indentation.length) := by
  have hfree {line : List Char} (hline : '"' ∉ line) : ¬quoteMarks n <:+: line := by
    intro hinside
    apply hline
    apply hinside.subset
    exact List.mem_replicate.2 ⟨Nat.ne_of_gt hn, rfl⟩
  have hindentation : '"' ∉ indentation := by
    intro hquote
    rcases hcloses.blank _ hquote with h | h
    · contradiction
    · contradiction
  have hlines : ∀ line ∈ blank :: content, ¬quoteMarks n <:+: line := by
    intro line hline
    rcases List.mem_cons.1 hline with rfl | hline
    · apply hfree
      intro hquote
      have hquoteBlank : isBlank '"' = true := hblank _ hquote
      exact absurd hquoteBlank (by decide)
    · exact hcloses.first line hline
  have hlast : (lines ++ indentation).getLast? ≠ some '"' := by
    intro hquote
    rw [List.getLast?_append, Option.or_eq_some_iff] at hquote
    rcases hquote with hquote | ⟨-, hquote⟩
    · exact hindentation (List.mem_of_getLast? hquote)
    · exact hjoined.getLast?_ne hquote
  have htext : lines ++ (indentation ++ quoteMarks n ++ rest) =
      lines ++ indentation ++ (quoteMarks n ++ rest) := by
    simp only [List.append_assoc]
  rw [htext, quoteRun?_append hn (hjoined.not_infix hlines (hfree hindentation)) hlast,
    List.length_append]

/-! ### Raw strings and their twins -/

/-- In a raw string by the rules, the closing quotes are the first run of enough quotes. -/
theorem IsRawString.exists_found {characters rest : List Char} (hn : 0 < n)
    (hrules : IsRawString n characters rest) (htext : characters ++ rest = quoteMarks n ++ text) :
    ∃ k, quoteRun? n (searched (restOfLineIsBlank text) text) = some k ∧
      text.drop k = quoteMarks n ++ rest ∧ rest.head? ≠ some '"' ∧
      characters.length = n + k + n ∧ (restOfLineIsBlank text = true → LaidOut n text) := by
  cases hrules with
  | @onLine content _ hcontent hfirst hlast hrest =>
    obtain rfl : text = content ++ (quoteMarks n ++ rest) := by
      simpa only [List.append_assoc, List.append_cancel_left_eq, eq_comm] using htext
    refine ⟨content.length, ?_, List.drop_left, hrest, ?_, ?_⟩
    · rw [not_restOfLineIsBlank hn hcontent]
      show quoteRun? n (restOfLine _) = _
      rw [restOfLine_append hcontent, restOfLine_quoteMarks_append,
        quoteRun?_append hn hfirst hlast]
    · simp [length_quoteMarks, Nat.add_assoc]
    · rw [not_restOfLineIsBlank hn hcontent]
      exact fun h ↦ absurd h Bool.false_ne_true
  | @overLines blank lines indentation _ content hblank hjoined hcloses hrest =>
    obtain rfl : text = lines ++ (indentation ++ quoteMarks n ++ rest) := by
      simpa only [List.append_assoc, List.append_cancel_left_eq, eq_comm] using htext
    refine ⟨lines.length + indentation.length, ?_, ?_, hrest, ?_, ?_⟩
    · rw [hjoined.restOfLineIsBlank hblank]
      exact quoteRun?_block hn hblank hjoined hcloses
    · rw [← List.drop_drop, List.drop_left, List.append_assoc, List.drop_left]
    · simp [length_quoteMarks, Nat.add_assoc]
    · exact fun _ ↦ ⟨blank, lines, indentation, rest, content, rfl, hblank, hjoined, hcloses⟩

/-- Behind its opening quotes a raw string is closed without a fault exactly when its twin is, and
over several lines it has to be laid out, too. -/
theorem rawString_twin (hn : 0 < n) (hexact : text.head? ≠ some '"') (h : HoleFree text) :
    let plain := rawString (quoteMarks n ++ text)
    let twin := interpolatedBody (.rawDollar n) (restOfLineIsBlank text) scan inDirective (1 + n)
      (1 + n) text
    (plain.faults = [] ↔ twin.faults = [] ∧ (restOfLineIsBlank text = true → LaidOut n text)) ∧
      (plain.faults = [] → twin.stop = plain.length + 1) := by
  intro plain twin
  have hends : twin.EndsAt n (1 + n) text (quoteRun? n (searched (restOfLineIsBlank text) text)) :=
    endsAt_interpolatedBody hn h
  refine ⟨⟨?_, ?_⟩, ?_⟩
  · intro hfaults
    obtain ⟨characters, rest, htext, hrules⟩ := (rawString_faults_iff hn hexact).1 hfaults
    obtain ⟨k, hfound, hdrop, hrest, -, hlaid⟩ := hrules.exists_found hn htext
    refine ⟨(hends.faults k hfound).2 ?_, hlaid⟩
    exact Nat.le_of_eq (by rw [hdrop, runLength_quoteMarks hrest])
  · intro ⟨hfaults, hlaid⟩
    apply (rawString_faults_iff hn hexact).2
    cases hblank : restOfLineIsBlank text with
    | true =>
      obtain ⟨blank, lines, indentation, rest, content, rfl, hblank', hjoined, hcloses⟩ :=
        hlaid hblank
      have hfound := quoteRun?_block hn hblank' hjoined hcloses
      rw [hblank] at hends
      have hrun := (hends.faults _ hfound).1 hfaults
      rw [← List.drop_drop, List.drop_left, List.append_assoc, List.drop_left] at hrun
      refine ⟨_, rest, ?_, .overLines hblank' hjoined hcloses (head?_ne_of_runLength_le hrun)⟩
      simp only [List.append_assoc]
    | false =>
      rw [hblank] at hends
      cases hfound : quoteRun? n (restOfLine text) with
      | none => exact absurd hfaults (hends.unclosed hfound)
      | some k => exact exists_onLine hn hfound ((hends.faults k hfound).1 hfaults)
  · intro hfaults
    obtain ⟨characters, rest, htext, hrules⟩ := (rawString_faults_iff hn hexact).1 hfaults
    obtain ⟨k, hfound, hdrop, hrest, hlength, -⟩ := hrules.exists_found hn htext
    have hrun : runLength '"' (text.drop k) = n := by rw [hdrop, runLength_quoteMarks hrest]
    have hbehind : text.drop (k + n) = rest := by
      rw [← List.drop_drop, hdrop, List.drop_left' (length_quoteMarks n)]
    show twin.stop = (rawString (quoteMarks n ++ text)).length + 1
    rw [hends.stop k hfound, hrun, hbehind, hrules.rawString_eq hn htext hexact]
    simp only [stringLexeme, List.drop_left]
    rw [hlength]
    omega

/-! ### Twins in a text -/

/-- The scan of a literal and that of its twin, where nothing but the literal counts: without a
fault in both or in none, and then with the same end unless the literal has a suffix. -/
structure Group.Twin (twin plain : Group) : Prop where
  faults : plain.faults = [] ↔ twin.faults = []
  length : plain.faults = [] →
    (∀ p ∈ plain.pieces, Feature.utf8StringLiterals ∉ p.features) →
      twin.length = plain.length + 1

theorem stringLexeme_length {stop : Nat} {features : List Feature} {faults : List Fault}
    (h : Feature.utf8StringLiterals ∉ (stringLexeme text stop features faults).features) :
    (stringLexeme text stop features faults).length = stop := by
  by_cases hsuffix : utf8SuffixLength (text.drop stop) = 0
  · rw [stringLexeme, hsuffix]
    rfl
  · exfalso
    apply h
    simp [stringLexeme, hsuffix, Feature.listed, Feature.lexical]

theorem scanGroup_regular {cs : List Char} (hshort : runLength '"' ('"' :: cs) < 3) (room : Nat) :
    scanGroup inDirective room ('"' :: cs) = (regularString ('"' :: cs)).toGroup := by
  have hopening : opening? ('"' :: cs) = none := by simp [opening?, runLength]
  have hregular : ['"', '"', '"'].isPrefixOf ('"' :: cs) = false := by
    rw [Bool.eq_false_iff, ne_eq, List.isPrefixOf_iff_prefix]
    exact fun hleads ↦ Nat.not_le.2 hshort (le_runLength_iff (n := 3).2 hleads)
  rw [scanGroup, hopening]
  simp only [plainLexeme_quote, hregular, Bool.false_eq_true, if_false]

theorem scanGroup_verbatim (cs : List Char) (room : Nat) :
    scanGroup inDirective room ('@' :: '"' :: cs) =
      (verbatimString ('@' :: '"' :: cs)).toGroup := by
  have hopening : opening? ('@' :: '"' :: cs) = none := by simp [opening?, runLength]
  rw [scanGroup, hopening]
  simp [plainLexeme]

theorem scanGroup_of_opening {o : Opening} {text : List Char} (hopening : opening? text = some o)
    (room : Nat) : scanGroup inDirective (room + 1) text =
      interpolatedGroup o (scanGroup inDirective room) inDirective text := by
  rw [scanGroup, hopening]

theorem opening?_dollar_quote {cs : List Char} (hrun : runLength '"' ('"' :: cs) = n) :
    opening? ('$' :: '"' :: cs) = some (if 3 ≤ n then .rawDollar n else .regular) := by
  have hdollars : runLength '$' ('$' :: '"' :: cs) = 1 := by simp [runLength]
  have hpos : n ≠ 0 := by
    rw [← hrun, runLength_cons, if_pos rfl]
    exact Nat.succ_ne_zero _
  by_cases hraw : 3 ≤ n
  · simp [opening?, hdollars, hrun, hpos, hraw, Opening.rawDollar]
  · simp [opening?, hdollars, hrun, hpos, hraw, Opening.regular]

theorem opening?_dollar_verbatim (cs : List Char) :
    opening? ('$' :: '@' :: '"' :: cs) = some .verbatimDollar := by
  simp [opening?, runLength, Opening.verbatimDollar]

theorem verbatimBody_calm (start : Nat) (text : List Char) :
    (verbatimBody start text).features = [] ∧ (verbatimBody start text).faults = [] := by
  fun_induction verbatimBody start text with
  | case1 => exact ⟨rfl, rfl⟩
  | case2 start cs ih => exact ih
  | case3 => exact ⟨rfl, rfl⟩
  | case4 start c cs _ _ ih => exact ih

/-- What is said about a body and its twin holds of the literal and its twin. -/
theorem twin_of_body {text : List Char} {b : Body} {part : Part} {l : Lexeme} {g : Group}
    {error : LexicalError} (hpart : part.Twin b) (hl : l =
      if b.closed = true then stringLexeme text b.stop b.features b.faults
      else openStringLexeme b.stop b.features (b.faults ++ [⟨error, 0, 0⟩]))
    (hfaults : g.faults = part.faults) (hlength : g.length = part.stop) : g.Twin l.toGroup := by
  by_cases hclosed : b.closed = true
  · rw [if_pos hclosed] at hl
    subst hl
    constructor
    · rw [hfaults]
      exact (hpart.faults hclosed).symm
    · intro _ hfeatures
      rw [hlength, hpart.stop hclosed]
      have hstop : (stringLexeme text b.stop b.features b.faults).length = b.stop :=
        stringLexeme_length (hfeatures _ List.mem_cons_self)
      exact congrArg (· + 1) hstop.symm
  · rw [if_neg hclosed] at hl
    subst hl
    constructor
    · rw [hfaults]
      exact ⟨fun h ↦ absurd (List.append_eq_nil_iff.1 h).2 (List.cons_ne_nil _ _),
        fun h ↦ absurd h (hpart.unclosed (Bool.eq_false_iff.2 hclosed))⟩
    · exact fun h ↦ absurd (List.append_eq_nil_iff.1 h).2 (List.cons_ne_nil _ _)

theorem twin_regular {cs : List Char} (h : HoleFree cs) (hshort : runLength '"' ('"' :: cs) < 3)
    (room plainRoom : Nat) : (scanGroup inDirective (room + 1) ('$' :: '"' :: cs)).Twin
      (scanGroup inDirective plainRoom ('"' :: cs)) := by
  rw [scanGroup_regular hshort,
    scanGroup_of_opening ((opening?_dollar_quote rfl).trans
      (congrArg some (if_neg (Nat.not_le.2 hshort))))]
  have hbody : (interpolatedBody .regular false (scanGroup inDirective room) inDirective 2 2
      cs).Twin (stringBody 1 cs) := twin_stringBody h
  exact twin_of_body hbody rfl rfl rfl

theorem twin_verbatim {cs : List Char} (h : HoleFree cs) (room plainRoom : Nat) :
    (scanGroup inDirective (room + 1) ('$' :: '@' :: '"' :: cs)).Twin
      (scanGroup inDirective plainRoom ('@' :: '"' :: cs)) := by
  rw [scanGroup_verbatim, scanGroup_of_opening (opening?_dollar_verbatim cs)]
  have hbody : (interpolatedBody .verbatimDollar true (scanGroup inDirective room) inDirective 3 3
      cs).Twin (verbatimBody 2 cs) := twin_verbatimBody h
  have hstring : verbatimString ('@' :: '"' :: cs) =
      if (verbatimBody 2 cs).closed = true then
        stringLexeme ('@' :: '"' :: cs) (verbatimBody 2 cs).stop (verbatimBody 2 cs).features
          (verbatimBody 2 cs).faults
      else openStringLexeme (verbatimBody 2 cs).stop (verbatimBody 2 cs).features
        ((verbatimBody 2 cs).faults ++ [⟨.unterminatedString, 0, 0⟩]) := by
    obtain ⟨hfeatures, hfaults⟩ := verbatimBody_calm 2 cs
    rw [hfeatures, hfaults]
    rfl
  exact twin_of_body hbody hstring rfl rfl

/-- A raw string and its twin are judged alike but for the layout of a block. -/
theorem twin_raw (hn : 3 ≤ n) (hexact : text.head? ≠ some '"') (h : HoleFree text)
    (room plainRoom : Nat) :
    let plain := scanGroup inDirective plainRoom (quoteMarks n ++ text)
    let twin := scanGroup inDirective (room + 1) ('$' :: (quoteMarks n ++ text))
    (plain.faults = [] ↔ twin.faults = [] ∧ (restOfLineIsBlank text = true → LaidOut n text)) ∧
      (plain.faults = [] → twin.length = plain.length + 1) := by
  have hopening : opening? ('$' :: (quoteMarks n ++ text)) = some (.rawDollar n) := by
    have hrun := runLength_quoteMarks (n := n) hexact
    obtain ⟨m, rfl⟩ := Nat.exists_eq_add_of_le' hn
    exact (opening?_dollar_quote hrun).trans (congrArg some (if_pos hn))
  have hcontent : ('$' :: (quoteMarks n ++ text)).drop (1 + n) = text := by
    rw [Nat.add_comm, List.drop_succ_cons, List.drop_left' (length_quoteMarks n)]
  have hgroup (scan : List Char → Group) :
      let body := interpolatedBody (.rawDollar n) (restOfLineIsBlank text) scan inDirective (1 + n)
        (1 + n) text
      let group := interpolatedGroup (.rawDollar n) scan inDirective ('$' :: (quoteMarks n ++ text))
      group.faults = body.faults ∧ group.length = body.stop := by
    simp only [interpolatedGroup]
    rw [show (Opening.rawDollar n).length = 1 + n from rfl, hcontent]
    exact ⟨rfl, rfl⟩
  intro plain twin
  obtain ⟨hfaults, hlength⟩ := hgroup (scanGroup inDirective room)
  have hplain : plain = (rawString (quoteMarks n ++ text)).toGroup :=
    scanGroup_quoteMarks hn inDirective plainRoom
  have htwin : twin = interpolatedGroup (.rawDollar n) (scanGroup inDirective room) inDirective
    ('$' :: (quoteMarks n ++ text)) := scanGroup_of_opening hopening room
  rw [hplain, htwin, hfaults, hlength]
  exact rawString_twin (Nat.lt_of_lt_of_le (by decide) hn) hexact h

/-- Where three quotes or more open a block, it is laid out. -/
def BlocksLaidOut (literal : List Char) : Prop :=
  ∀ n text, 3 ≤ n → literal = quoteMarks n ++ text → text.head? ≠ some '"' →
    restOfLineIsBlank text = true → LaidOut n text

theorem blocksLaidOut_of_short {literal : List Char} (hshort : runLength '"' literal < 3) :
    BlocksLaidOut literal := by
  intro n text hn hliteral hexact
  rw [hliteral, runLength_quoteMarks hexact] at hshort
  exact absurd hshort (Nat.not_lt.2 hn)

theorem blocksLaidOut_iff (hn : 3 ≤ n) (hexact : text.head? ≠ some '"') :
    BlocksLaidOut (quoteMarks n ++ text) ↔ (restOfLineIsBlank text = true → LaidOut n text) := by
  constructor
  · intro h
    exact h n text hn rfl hexact
  · intro h m other _ hliteral hother
    have hm : m = n := by
      have hrun : runLength '"' (quoteMarks m ++ other) = m := runLength_quoteMarks hother
      rw [← hrun, ← hliteral, runLength_quoteMarks hexact]
    rw [hm, List.append_cancel_left_eq] at hliteral
    rwa [hm, ← hliteral]

/-- The scans of a literal and of its twin. -/
theorem twin_scanGroup {literal : List Char} (hfree : HoleFree literal)
    (hstart : ['"'] <+: literal ∨ ['@', '"'] <+: literal) (room plainRoom : Nat) :
    let plain := scanGroup inDirective plainRoom literal
    let twin := scanGroup inDirective (room + 1) ('$' :: literal)
    (plain.faults = [] ↔ twin.faults = [] ∧ BlocksLaidOut literal) ∧
      (plain.faults = [] → (∀ p ∈ plain.pieces, Feature.utf8StringLiterals ∉ p.features) →
        twin.length = plain.length + 1) := by
  have hjudged {plain twin : Group} (h : twin.Twin plain) (hblocks : BlocksLaidOut literal) :
      (plain.faults = [] ↔ twin.faults = [] ∧ BlocksLaidOut literal) ∧
        (plain.faults = [] → (∀ p ∈ plain.pieces, Feature.utf8StringLiterals ∉ p.features) →
          twin.length = plain.length + 1) :=
    ⟨h.faults.trans (and_iff_left hblocks).symm, h.length⟩
  rcases hstart with ⟨cs, rfl⟩ | ⟨cs, rfl⟩
  · by_cases hshort : runLength '"' (['"'] ++ cs) < 3
    · exact hjudged (twin_regular hfree.tail hshort room plainRoom) (blocksLaidOut_of_short hshort)
    · obtain ⟨text, hliteral, hexact⟩ := exists_quoteMarks (['"'] ++ cs)
      generalize runLength '"' (['"'] ++ cs) = n at hshort hliteral
      have hn : 3 ≤ n := Nat.not_lt.1 hshort
      rw [hliteral] at hfree ⊢
      have htext : HoleFree text := fun c hc ↦ hfree c (List.mem_append_right _ hc)
      rw [blocksLaidOut_iff hn hexact]
      refine ⟨(twin_raw hn hexact htext room plainRoom).1, ?_⟩
      exact fun hfaults _ ↦ (twin_raw hn hexact htext room plainRoom).2 hfaults
  · exact hjudged (twin_verbatim hfree.tail.tail room plainRoom)
      (blocksLaidOut_of_short (by simp [runLength]))

/-- A text that starts with a string without braces, and the same text with a dollar in front:
a fault is found in the string or in its twin exactly when one is found in the other, but for the
layout of a block, which the twin does not need. Without a fault they end at the same place. -/
theorem twins_agree {literal : List Char} (hfree : HoleFree literal)
    (hstart : ['"'] <+: literal ∨ ['@', '"'] <+: literal) :
    ∃ r r', (TokenSource.ofText literal).read = some r ∧
      (TokenSource.ofText ('$' :: literal)).read = some r' ∧
      (r.findings = [] ↔ r'.findings = [] ∧ BlocksLaidOut literal) ∧
      (r.findings = [] → (∀ t ∈ r.tokens, Feature.utf8StringLiterals ∉ t.features) →
        r'.source.cursor.rest = r.source.cursor.rest) := by
  have hgap : gap false literal = [] := by
    rcases hstart with ⟨cs, rfl⟩ | ⟨cs, rfl⟩
    all_goals
      rw [gap]
      rfl
  have hgapTwin : gap false ('$' :: literal) = [] := by
    rw [gap]
    rfl
  have hhead : literal.head?.any (· != '#') = true := by
    rcases hstart with ⟨cs, rfl⟩ | ⟨cs, rfl⟩
    · rfl
    · rfl
  obtain ⟨r, hr, htokens, hfindings, hrest⟩ :=
    @TokenSource.read_of_gap_nil (.ofText literal) rfl rfl hgap hhead
  obtain ⟨r', hr', -, hfindings', hrest'⟩ :=
    @TokenSource.read_of_gap_nil (.ofText ('$' :: literal)) rfl rfl hgapTwin rfl
  refine ⟨r, r', hr, hr', ?_, ?_⟩
  · rw [hfindings, hfindings', List.map_eq_nil_iff, List.map_eq_nil_iff, upToGivingUp_eq_nil_iff,
      upToGivingUp_eq_nil_iff]
    exact (twin_scanGroup hfree hstart 63 maxOpenHoles).1
  · intro hclean hsuffix
    rw [hfindings, List.map_eq_nil_iff, upToGivingUp_eq_nil_iff] at hclean
    have hpieces : ∀ p ∈ (scanGroup false maxOpenHoles literal).pieces,
        Feature.utf8StringLiterals ∉ p.features := by
      intro p hp
      obtain ⟨t, ht, hfeatures⟩ := (TokenSource.ofText literal).cursor.exists_token_of_mem hp
      rw [← hfeatures]
      exact hsuffix t (htokens ▸ ht)
    have hlength : (scanGroup false maxOpenHoles ('$' :: literal)).length =
        (scanGroup false maxOpenHoles literal).length + 1 :=
      (twin_scanGroup hfree hstart 63 maxOpenHoles).2 hclean hpieces
    rw [hrest, hrest']
    show ('$' :: literal).drop (scanGroup false maxOpenHoles ('$' :: literal)).length = _
    rw [hlength]
    rfl

theorem twins_agree_block :
    let literal := "\"\"\"\n  a\n  \"\"\" ;".toList
    HoleFree literal ∧ (['"'] <+: literal ∨ ['@', '"'] <+: literal) ∧
      ∃ r r', (TokenSource.ofText literal).read = some r ∧
        (TokenSource.ofText ('$' :: literal)).read = some r' ∧ r.findings = [] ∧
        r'.findings = [] ∧ r'.source.cursor.rest = r.source.cursor.rest := by
  have hfree : HoleFree "\"\"\"\n  a\n  \"\"\" ;".toList := by decide +kernel
  have hstart : ['"'] <+: "\"\"\"\n  a\n  \"\"\" ;".toList ∨
      ['@', '"'] <+: "\"\"\"\n  a\n  \"\"\" ;".toList := .inl (by decide +kernel)
  refine ⟨hfree, hstart, ?_⟩
  obtain ⟨r, r', hr, hr', hfaults, hrest⟩ := twins_agree hfree hstart
  have hread : ∀ r ∈ (TokenSource.ofText "\"\"\"\n  a\n  \"\"\" ;".toList).read,
      r.findings = [] ∧ ∀ t ∈ r.tokens, Feature.utf8StringLiterals ∉ t.features := by
    decide +kernel
  obtain ⟨hclean, hsuffix⟩ := hread r hr
  exact ⟨r, r', hr, hr', hclean, (hfaults.1 hclean).1, hrest hclean hsuffix⟩

/-- A block whose quotes close it on a line with content: the string is at fault, its twin is
not. -/
theorem not_twins_agree_block :
    ¬∀ literal, HoleFree literal → (['"'] <+: literal ∨ ['@', '"'] <+: literal) →
      ∀ r r', (TokenSource.ofText literal).read = some r →
        (TokenSource.ofText ('$' :: literal)).read = some r' →
          (r.findings = [] ↔ r'.findings = []) := by
  intro h
  have hplain : (TokenSource.ofText "\"\"\"\n  a\"\"\" ;".toList).read.map (·.findings) =
      some [⟨.lexical .rawDelimiterNotAlone, ⟨⟨2, 4, 7⟩, ⟨2, 4, 7⟩⟩⟩] := by decide +kernel
  have htwin : (TokenSource.ofText ('$' :: "\"\"\"\n  a\"\"\" ;".toList)).read.map
      (·.findings) = some [] := by decide +kernel
  obtain ⟨r, hr, hfindings⟩ := Option.map_eq_some_iff.1 hplain
  obtain ⟨r', hr', hfindings'⟩ := Option.map_eq_some_iff.1 htwin
  have hclean := (h _ (by decide +kernel) (.inl (by decide +kernel)) r r' hr hr').2 hfindings'
  exact List.cons_ne_nil _ _ (hfindings.symm.trans hclean)

end CSharpCheck
