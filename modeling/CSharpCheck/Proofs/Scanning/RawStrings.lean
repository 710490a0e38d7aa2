import CSharpCheck.Proofs.Scanning.Locality

/-!
# The rules of raw strings

What a raw string is, said about its text and not about the scan: where its opening line ends, which
run of quotes closes it, and how the lines in between start. The scanner finds no fault in a raw
string exactly when the text has that form.
-/

namespace CSharpCheck

/-- A run of `n` quotes. -/
def quoteMarks (n : Nat) : List Char := List.replicate n '"'

/-- The characters end a line in front of `rest`: CR LF, or one character, which is not the CR of a
CR LF pair. -/
inductive LineBreak : (characters rest : List Char) → Prop where
  | pair {rest : List Char} : LineBreak ['\r', '\n'] rest
  | single {c : Char} {rest : List Char} : isLineEnd c = true →
      (c = '\r' → rest.head? ≠ some '\n') → LineBreak [c] rest

/-- In front of `rest`, the characters are the lines, each with the line end behind it. -/
inductive Joined : (lines : List (List Char)) → (characters rest : List Char) → Prop where
  | nil {rest : List Char} : Joined [] [] rest
  | cons {line lineEnd characters rest : List Char} {lines : List (List Char)} :
      (∀ c ∈ line, isLineEnd c = false) → LineBreak lineEnd (characters ++ rest) →
      Joined lines characters rest → Joined (line :: lines) (line ++ lineEnd ++ characters) rest

/-- A content line of a raw string fits its indentation: it is white space only, or it starts with
the indentation. -/
def Indented (indentation line : List Char) : Prop :=
  (∀ c ∈ line, isSpace c = true) ∨ indentation <+: line

/-- The closing line of a raw string, which starts with `indentation` and `n` quotes, fits the
content lines before it. -/
structure ClosesBlock (n : Nat) (content : List (List Char)) (indentation : List Char) : Prop where
  /-- It is the first line with `n` quotes in a row. -/
  first : ∀ line ∈ content, ¬quoteMarks n <:+: line
  blank : ∀ c ∈ indentation, c = ' ' ∨ c = '\t'
  indented : ∀ line ∈ content, Indented indentation line

/-- In front of `rest`, the characters are a raw string with `n` quotes at either end, from the
first opening quote to the last closing one. There are no more closing quotes than `n`. -/
inductive IsRawString (n : Nat) : (characters rest : List Char) → Prop where
  /-- On one line, up to the first run of at least `n` quotes. -/
  | onLine {content rest : List Char} : (∀ c ∈ content, isLineEnd c = false) →
      ¬quoteMarks n <:+: content → content.getLast? ≠ some '"' → rest.head? ≠ some '"' →
      IsRawString n (quoteMarks n ++ content ++ quoteMarks n) rest
  /-- Over several lines, with nothing but blanks behind the opening quotes. -/
  | overLines {blank lines indentation rest : List Char} {content : List (List Char)} :
      (∀ c ∈ blank, isBlank c = true) →
      Joined (blank :: content) lines (indentation ++ quoteMarks n ++ rest) →
      ClosesBlock n content indentation → rest.head? ≠ some '"' →
      IsRawString n (quoteMarks n ++ lines ++ indentation ++ quoteMarks n) rest

/-! ### Runs of quotes -/

theorem mem_quoteMarks {c : Char} {n : Nat} (h : c ∈ quoteMarks n) : c = '"' :=
  List.eq_of_mem_replicate h

theorem length_quoteMarks (n : Nat) : (quoteMarks n).length = n := List.length_replicate

theorem runLength_cons (c : Char) (cs : List Char) :
    runLength '"' (c :: cs) = if c = '"' then runLength '"' cs + 1 else 0 := by
  by_cases hc : c = '"'
  · simp [runLength, hc]
  · simp [runLength, hc]

theorem prefix_quoteMarks {m n : Nat} (h : m ≤ n) : quoteMarks m <+: quoteMarks n := by
  obtain ⟨k, rfl⟩ := Nat.exists_eq_add_of_le h
  exact ⟨quoteMarks k, List.replicate_append_replicate⟩

theorem le_runLength_iff {n : Nat} {text : List Char} :
    n ≤ runLength '"' text ↔ quoteMarks n <+: text := by
  induction text generalizing n with
  | nil => simp [runLength, quoteMarks]
  | cons c cs ih =>
    cases n with
    | zero => simp [quoteMarks]
    | succ n =>
      rw [quoteMarks, List.replicate_succ, List.cons_prefix_cons, runLength_cons]
      by_cases hc : c = '"'
      · simpa [hc, quoteMarks] using ih
      · simp [hc, Ne.symm hc]

theorem runLength_quoteMarks {n : Nat} {rest : List Char} (hrest : rest.head? ≠ some '"') :
    runLength '"' (quoteMarks n ++ rest) = n := by
  induction n with
  | zero =>
    cases rest with
    | nil => rfl
    | cons c cs =>
      have hc : c ≠ '"' := by simpa using hrest
      exact (runLength_cons c cs).trans (if_neg hc)
  | succ n ih =>
    show runLength '"' ('"' :: (quoteMarks n ++ rest)) = n + 1
    rw [runLength_cons, if_pos rfl, ih]

theorem head?_ne_of_runLength_le {n : Nat} {rest : List Char}
    (h : runLength '"' (quoteMarks n ++ rest) ≤ n) : rest.head? ≠ some '"' := by
  intro hquote
  cases rest with
  | nil => contradiction
  | cons c cs =>
    cases hquote
    have hlonger : quoteMarks (n + 1) <+: quoteMarks n ++ '"' :: cs := by
      refine ⟨cs, ?_⟩
      rw [quoteMarks, List.replicate_succ', List.append_assoc]
      rfl
    exact absurd (le_runLength_iff.2 hlonger) (Nat.not_le.2 (Nat.lt_succ_of_le h))

/-- A text is the quotes at its beginning and what follows them. -/
theorem exists_quoteMarks (text : List Char) :
    ∃ rest, text = quoteMarks (runLength '"' text) ++ rest ∧ rest.head? ≠ some '"' := by
  induction text with
  | nil => exact ⟨[], rfl, by simp⟩
  | cons c cs ih =>
    by_cases hc : c = '"'
    · obtain ⟨rest, hcs, hrest⟩ := ih
      refine ⟨rest, ?_, hrest⟩
      rw [runLength_cons, if_pos hc, hc]
      exact congrArg _ hcs
    · refine ⟨c :: cs, ?_, by simpa using hc⟩
      rw [runLength_cons, if_neg hc]
      rfl

/-- A run of quotes does not begin in a text that ends with another character and go on behind
it. -/
theorem not_prefix_append {n : Nat} {content rest : List Char} (hne : content ≠ [])
    (hlast : content.getLast? ≠ some '"') (h : ¬quoteMarks n <+: content) :
    ¬quoteMarks n <+: content ++ rest := by
  intro hleads
  rcases List.prefix_or_prefix_of_prefix hleads (List.prefix_append content rest) with hn | hcontent
  · exact h hn
  · apply hlast
    rw [List.getLast?_eq_some_getLast hne]
    exact congrArg some (mem_quoteMarks (hcontent.subset (List.getLast_mem hne)))

/-! ### The first long run of a line -/

theorem quoteRun?_cons (n : Nat) (c : Char) (cs : List Char) : quoteRun? n (c :: cs) =
    if n ≤ runLength '"' (c :: cs) then some 0 else (quoteRun? n cs).map (· + 1) := rfl

theorem quoteRun?_eq_none_iff {n : Nat} (hn : 0 < n) {line : List Char} :
    quoteRun? n line = none ↔ ¬quoteMarks n <:+: line := by
  induction line with
  | nil =>
    have hne : quoteMarks n ≠ [] := List.ne_nil_of_length_pos (by rwa [length_quoteMarks])
    simp [quoteRun?, hne]
  | cons c cs ih =>
    rw [quoteRun?_cons, List.infix_cons_iff, ← le_runLength_iff, not_or]
    by_cases hrun : n ≤ runLength '"' (c :: cs)
    · simp [hrun]
    · simp [hrun, ih]

theorem quoteRun?_eq_some_zero {n : Nat} (hn : 0 < n) {line : List Char}
    (h : quoteMarks n <+: line) : quoteRun? n line = some 0 := by
  cases line with
  | nil =>
    rw [← le_runLength_iff] at h
    exact absurd (Nat.lt_of_lt_of_le hn h) (Nat.lt_irrefl 0)
  | cons c cs => rw [quoteRun?_cons, if_pos (le_runLength_iff.2 h)]

/-- A run is found at the first place where it can begin. -/
theorem quoteRun?_append {n : Nat} (hn : 0 < n) {content rest : List Char}
    (hcontent : ¬quoteMarks n <:+: content) (hlast : content.getLast? ≠ some '"') :
    quoteRun? n (content ++ (quoteMarks n ++ rest)) = some content.length := by
  induction content with
  | nil => exact quoteRun?_eq_some_zero hn (List.prefix_append _ _)
  | cons c cs ih =>
    rw [List.infix_cons_iff, not_or] at hcontent
    have hleads : ¬quoteMarks n <+: c :: cs ++ (quoteMarks n ++ rest) :=
      not_prefix_append (List.cons_ne_nil c cs) hlast hcontent.1
    rw [List.cons_append] at hleads ⊢
    rw [quoteRun?_cons, if_neg (mt le_runLength_iff.1 hleads), ih hcontent.2 ?_]
    · rfl
    · intro hcs
      apply hlast
      rw [List.getLast?_cons, hcs]
      rfl

theorem exists_of_quoteRun? {n k : Nat} (hn : 0 < n) {line : List Char}
    (h : quoteRun? n line = some k) : ∃ content rest, line = content ++ (quoteMarks n ++ rest) ∧
      content.length = k ∧ ¬quoteMarks n <:+: content ∧ content.getLast? ≠ some '"' := by
  induction line generalizing k with
  | nil => contradiction
  | cons c cs ih =>
    rw [quoteRun?_cons] at h
    by_cases hrun : n ≤ runLength '"' (c :: cs)
    · rw [if_pos hrun] at h
      cases h
      obtain ⟨rest, hrest⟩ := le_runLength_iff.1 hrun
      have hnone : quoteRun? n [] = none := rfl
      exact ⟨[], rest, hrest.symm, rfl, (quoteRun?_eq_none_iff hn).1 hnone, by simp⟩
    · rw [if_neg hrun] at h
      obtain ⟨k, hk, rfl⟩ := Option.map_eq_some_iff.1 h
      obtain ⟨content, rest, rfl, rfl, hcontent, hlast⟩ := ih hk
      rw [le_runLength_iff] at hrun
      refine ⟨c :: content, rest, rfl, rfl, ?_, ?_⟩
      · rw [List.infix_cons_iff, not_or]
        exact ⟨fun hleads ↦ hrun (hleads.trans (List.prefix_append (c :: content) _)), hcontent⟩
      · intro hquote
        cases content with
        | nil =>
          cases hquote
          apply hrun
          refine ⟨'"' :: rest, ?_⟩
          show quoteMarks n ++ (['"'] ++ rest) = (['"'] ++ quoteMarks n) ++ rest
          rw [← List.append_assoc, quoteMarks, ← List.replicate_succ', List.replicate_succ]
          rfl
        | cons d content => exact hlast (by simpa using hquote)

/-! ### Lines -/

theorem restOfLine_append {line rest : List Char} (hline : ∀ c ∈ line, isLineEnd c = false) :
    restOfLine (line ++ rest) = line ++ restOfLine rest := by
  induction line with
  | nil => rfl
  | cons c cs ih =>
    have hcs := ih fun d hd ↦ hline d (List.mem_cons_of_mem c hd)
    simp only [restOfLine] at hcs ⊢
    simp [hline c List.mem_cons_self, hcs]

theorem restOfLine_quoteMarks_append (n : Nat) (rest : List Char) :
    restOfLine (quoteMarks n ++ rest) = quoteMarks n ++ restOfLine rest := by
  apply restOfLine_append
  intro c hc
  rw [mem_quoteMarks hc]
  rfl

/-- A text is its first line and what follows. -/
theorem exists_restOfLine (text : List Char) : ∃ line rest, text = line ++ rest ∧
    restOfLine text = line ∧ (∀ c ∈ line, isLineEnd c = false) ∧
      rest.head?.all isLineEnd = true := by
  obtain ⟨rest, hrest⟩ : restOfLine text <+: text := List.takeWhile_prefix _
  refine ⟨restOfLine text, rest, hrest.symm, rfl, fun c hc ↦ isLineEnd_of_mem_restOfLine hc, ?_⟩
  have hdrop : (restOfLine text ++ rest).drop (restOfLine text).length = rest := List.drop_left
  rw [← hdrop, hrest]
  exact isLineEnd_head_drop_restOfLine text

theorem head?_restOfLine_ne {rest : List Char} (hrest : rest.head? ≠ some '"') :
    (restOfLine rest).head? ≠ some '"' := by
  cases rest with
  | nil => exact hrest
  | cons c cs =>
    cases hc : isLineEnd c with
    | true => simp [restOfLine, hc]
    | false => simpa [restOfLine, hc] using hrest

namespace LineBreak

variable {lineEnd rest : List Char}

theorem restOfLine_eq (h : LineBreak lineEnd rest) : restOfLine (lineEnd ++ rest) = [] := by
  cases h with
  | pair => rfl
  | single hc => simp [restOfLine, hc]

theorem lineEndLength_eq (h : LineBreak lineEnd rest) :
    lineEndLength (lineEnd ++ rest) = lineEnd.length := by
  cases h with
  | pair => rfl
  | @single c _ hc hpair =>
    show lineEndLength (c :: rest) = 1
    rw [lineEndLength_cons, if_neg fun h ↦ hpair h.1 h.2]

theorem length_pos (h : LineBreak lineEnd rest) : 0 < lineEnd.length := by
  cases h with
  | pair => exact Nat.zero_lt_succ 1
  | single => exact Nat.zero_lt_one

/-- Where a line ends, a line end is in front of the rest. -/
theorem exists_of_isLineEnd {c : Char} (hc : isLineEnd c = true) (cs : List Char) :
    ∃ lineEnd rest, c :: cs = lineEnd ++ rest ∧ LineBreak lineEnd rest := by
  by_cases hpair : c = '\r' ∧ cs.head? = some '\n'
  · obtain ⟨rfl, hhead⟩ := hpair
    cases cs with
    | nil => contradiction
    | cons d ds =>
      cases hhead
      exact ⟨['\r', '\n'], ds, rfl, .pair⟩
  · exact ⟨[c], cs, rfl, .single hc fun hcr hhead ↦ hpair ⟨hcr, hhead⟩⟩

end LineBreak

/-- A shorter run in front is skipped. -/
theorem quoteRun?_quoteMarks_append {m n : Nat} (hm : m < n) {line : List Char}
    (hline : line.head? ≠ some '"') :
    quoteRun? n (quoteMarks m ++ line) = (quoteRun? n line).map (· + m) := by
  induction m with
  | zero => exact Option.map_id'.symm
  | succ m ih =>
    have hrun : runLength '"' ('"' :: (quoteMarks m ++ line)) = m + 1 :=
      runLength_quoteMarks (n := m + 1) hline
    show quoteRun? n ('"' :: (quoteMarks m ++ line)) = _
    rw [quoteRun?_cons, hrun, if_neg (Nat.not_le.2 hm), ih (Nat.lt_of_succ_lt hm), Option.map_map]
    rfl

/-- A line end in front of lines is an empty line. -/
theorem Joined.behind {lineEnd characters rest : List Char} {lines : List (List Char)}
    (h : Joined lines characters rest) (hbreak : LineBreak lineEnd (characters ++ rest)) :
    Joined ([] :: lines) (lineEnd ++ characters) rest :=
  @Joined.cons [] _ _ _ _ (fun _ hc ↦ absurd hc List.not_mem_nil) hbreak h

/-- The first line may be longer. -/
theorem Joined.prepend {line characters rest : List Char} {lines : List (List Char)}
    (h : Joined ([] :: lines) characters rest) (hline : ∀ c ∈ line, isLineEnd c = false) :
    Joined (line :: lines) (line ++ characters) rest := by
  cases h with
  | cons _ hbreak hlines =>
    rw [List.nil_append, ← List.append_assoc]
    exact .cons hline hbreak hlines

namespace ClosesBlock

variable {n : Nat} {line indentation : List Char} {content : List (List Char)}

theorem cons (h : ClosesBlock n content indentation) (hfirst : ¬quoteMarks n <:+: line)
    (hline : Indented indentation line) : ClosesBlock n (line :: content) indentation := by
  constructor
  · intro l hl
    rcases List.mem_cons.1 hl with rfl | hl
    · exact hfirst
    · exact h.first l hl
  · exact h.blank
  · intro l hl
    rcases List.mem_cons.1 hl with rfl | hl
    · exact hline
    · exact h.indented l hl

theorem tail (h : ClosesBlock n (line :: content) indentation) :
    ClosesBlock n content indentation :=
  ⟨fun l hl ↦ h.first l (List.mem_cons_of_mem line hl), h.blank,
    fun l hl ↦ h.indented l (List.mem_cons_of_mem line hl)⟩

end ClosesBlock

/-! ### Bodies on one line -/

/-- On one line, a body ends at the first run of enough quotes. -/
theorem rawLineBody_eq {n : Nat} (hn : 0 < n) (start : Nat) (text : List Char) :
    rawLineBody n start text =
      (quoteRun? n (restOfLine text)).elim ⟨start + (restOfLine text).length, false, [], []⟩
        fun k ↦ closeRaw (start + k) (runLength '"' (text.drop k)) n := by
  fun_induction rawLineBody n start text with
  | case1 => rfl
  | case2 start c cs hc =>
    rw [restOfLine_lineEnd hc]
    rfl
  | case3 start c cs hc hquote run hrun =>
    obtain rfl : c = '"' := beq_iff_eq.1 hquote
    have hfirst : n ≤ runLength '"' (restOfLine ('"' :: cs)) := by
      rwa [runLength_restOfLine rfl, runLength_cons, if_pos rfl]
    have hline : restOfLine ('"' :: cs) = '"' :: restOfLine cs := restOfLine_quoteMarks_append 1 cs
    rw [hline] at hfirst ⊢
    rw [quoteRun?_cons, if_pos hfirst]
    show closeRaw start run n = closeRaw start (runLength '"' ('"' :: cs)) n
    rw [runLength_cons, if_pos rfl]
  | case4 start c cs hc hquote run hrun ih =>
    obtain rfl : c = '"' := beq_iff_eq.1 hquote
    obtain ⟨rest, htext, hrest⟩ := exists_quoteMarks ('"' :: cs)
    have hlength : runLength '"' ('"' :: cs) = run := by rw [runLength_cons, if_pos rfl]
    rw [hlength] at htext
    have hdrop : cs.drop (run - 1) = rest := by
      show ('"' :: cs).drop run = rest
      rw [htext, List.drop_left' (length_quoteMarks run)]
    rw [ih, hdrop, htext, restOfLine_quoteMarks_append,
      quoteRun?_quoteMarks_append (Nat.lt_of_not_le hrun) (head?_restOfLine_ne hrest)]
    cases quoteRun? n (restOfLine rest) with
    | none => simp [length_quoteMarks, Nat.add_assoc]
    | some k =>
      have hsplit : (quoteMarks run ++ rest).drop (k + run) = rest.drop k := by
        rw [Nat.add_comm, ← List.drop_drop, List.drop_left' (length_quoteMarks run)]
      simp [hsplit, Nat.add_comm, Nat.add_left_comm]
  | case5 start c cs hc hquote ih =>
    have hc' : c ≠ '"' := by simpa using hquote
    have hshort : ¬n ≤ runLength '"' (c :: restOfLine cs) := by
      simp [runLength, hc']
      omega
    rw [ih, restOfLine_cons (Bool.eq_false_iff.2 hc), quoteRun?_cons, if_neg hshort]
    cases quoteRun? n (restOfLine cs) with
    | none => simp [Nat.add_comm, Nat.add_left_comm]
    | some k => simp [Nat.add_comm, Nat.add_left_comm]

/-! ### Bodies over several lines -/

theorem any_isSpace_iff {line : List Char} :
    (line.any (!isSpace ·)) = false ↔ ∀ c ∈ line, isSpace c = true := by
  simp

/-- No line is at fault when all fit the indentation. -/
theorem indentationFaults_eq_nil_iff {indentation : List Char} {lines : List (Nat × List Char)} :
    indentationFaults indentation lines = [] ↔ ∀ p ∈ lines, Indented indentation p.2 := by
  have hfits : ∀ p : Nat × List Char,
      (p.2.any (!isSpace ·) && !indentation.isPrefixOf p.2) = false ↔ Indented indentation p.2 := by
    intro p
    rw [Bool.and_eq_false_iff, any_isSpace_iff, Bool.not_eq_false', List.isPrefixOf_iff_prefix]
    rfl
  rw [indentationFaults]
  split
  · next start line hfind =>
    have hmem := List.mem_of_find?_eq_some hfind
    have hfault := List.find?_some hfind
    simp only [List.cons_ne_nil, false_iff, not_forall]
    refine ⟨(start, line), hmem, fun hline ↦ ?_⟩
    exact Bool.eq_false_iff.1 ((hfits (start, line)).2 hline) hfault
  · next hfind =>
    rw [List.find?_eq_none] at hfind
    simp only [true_iff]
    intro p hp
    exact (hfits p).1 (Bool.eq_false_iff.2 (hfind p hp))

/-- One round over the lines of a raw string, from a line end on. -/
theorem rawBlockBody_lineBreak {lineEnd text : List Char} (h : LineBreak lineEnd text)
    (n start : Nat) (lines : List (Nat × List Char)) :
    rawBlockBody n start lines (lineEnd ++ text) =
      let line := restOfLine text
      let indentation := line.takeWhile fun c ↦ c == ' ' || c == '\t'
      let here := start + lineEnd.length
      if n ≤ runLength '"' (line.drop indentation.length) then
        let body := closeRaw (here + indentation.length)
          (runLength '"' (line.drop indentation.length)) n
        { body with faults := body.faults ++ indentationFaults indentation lines.reverse }
      else
        (quoteRun? n line).elim
          (rawBlockBody n (here + line.length) ((here, line) :: lines) (text.drop line.length))
          fun offset ↦
            let close := here + offset
            let body := closeRaw close (runLength '"' (line.drop offset)) n
            { body with faults := ⟨.rawDelimiterNotAlone, close, close⟩ :: body.faults } := by
  have hlead := h.lineEndLength_eq
  have hne : lineEnd ≠ [] := List.ne_nil_of_length_pos h.length_pos
  obtain ⟨c, cs, hcs⟩ := List.exists_cons_of_ne_nil hne
  have hdrop : (cs ++ text).drop (lineEnd.length - 1) = text := by
    rw [hcs]
    exact List.drop_left
  rw [hcs, List.cons_append] at hlead ⊢
  rw [rawBlockBody]
  simp only [hlead]
  rw [← hcs, hdrop]
  cases quoteRun? n (restOfLine text) with
  | none => rfl
  | some offset => rfl

/-- The indentation of a line whose quotes follow. -/
theorem takeWhile_indentation {indentation rest : List Char} {n : Nat} (hn : 0 < n)
    (h : ∀ c ∈ indentation, c = ' ' ∨ c = '\t') :
    (indentation ++ (quoteMarks n ++ rest)).takeWhile (fun c ↦ c == ' ' || c == '\t') =
      indentation := by
  rw [List.takeWhile_append_of_pos (by simpa using h)]
  cases n with
  | zero => contradiction
  | succ n => exact List.append_nil indentation

theorem rawBlockBody_closingLine {n start : Nat} (hn : 0 < n) {before : List (Nat × List Char)}
    {lineEnd indentation rest : List Char}
    (hbreak : LineBreak lineEnd (indentation ++ quoteMarks n ++ rest))
    (hindentation : ∀ c ∈ indentation, c = ' ' ∨ c = '\t') (hrest : rest.head? ≠ some '"') :
    rawBlockBody n start before (lineEnd ++ (indentation ++ quoteMarks n ++ rest)) =
      ⟨start + lineEnd.length + indentation.length + n, true, [],
        indentationFaults indentation before.reverse⟩ := by
  have hline : restOfLine (indentation ++ quoteMarks n ++ rest) =
      indentation ++ (quoteMarks n ++ restOfLine rest) := by
    rw [List.append_assoc, restOfLine_append, restOfLine_quoteMarks_append]
    intro c hc
    rcases hindentation c hc with rfl | rfl
    · rfl
    · rfl
  rw [rawBlockBody_lineBreak hbreak, hline]
  simp only [takeWhile_indentation hn hindentation, List.drop_left,
    runLength_quoteMarks (head?_restOfLine_ne hrest), Nat.le_refl, if_true, closeRaw,
    Nat.lt_irrefl, if_false, List.nil_append]

/-- A line without enough quotes is content. -/
theorem rawBlockBody_contentLine {n start : Nat} (hn : 0 < n) {before : List (Nat × List Char)}
    {lineEnd text : List Char} (hbreak : LineBreak lineEnd text)
    (hline : ¬quoteMarks n <:+: restOfLine text) :
    rawBlockBody n start before (lineEnd ++ text) =
      rawBlockBody n (start + lineEnd.length + (restOfLine text).length)
        ((start + lineEnd.length, restOfLine text) :: before)
        (text.drop (restOfLine text).length) := by
  have hrun : ∀ k, ¬n ≤ runLength '"' ((restOfLine text).drop k) := by
    intro k hk
    exact hline ((le_runLength_iff.1 hk).isInfix.trans (List.drop_suffix k _).isInfix)
  rw [rawBlockBody_lineBreak hbreak]
  simp only [hrun, if_false, (quoteRun?_eq_none_iff hn).2 hline, Option.elim_none]

/-- The body of a block by the rules ends behind its closing quotes. -/
theorem rawBlockBody_of_closesBlock {n start : Nat} (hn : 0 < n)
    {before : List (Nat × List Char)} {content : List (List Char)}
    {lines indentation rest : List Char}
    (hjoined : Joined ([] :: content) lines (indentation ++ quoteMarks n ++ rest))
    (hcloses : ClosesBlock n content indentation) (hrest : rest.head? ≠ some '"')
    (hbefore : ∀ p ∈ before, Indented indentation p.2) :
    rawBlockBody n start before (lines ++ (indentation ++ quoteMarks n ++ rest)) =
      ⟨start + lines.length + indentation.length + n, true, [], []⟩ := by
  induction content generalizing lines start before with
  | nil =>
    cases hjoined with
    | @cons _ lineEnd _ _ _ _ hbreak hnil =>
      cases hnil
      have hfaults : indentationFaults indentation before.reverse = [] :=
        indentationFaults_eq_nil_iff.2 fun p hp ↦ hbefore p (List.mem_reverse.1 hp)
      rw [List.nil_append] at hbreak
      rw [List.nil_append, List.append_nil,
        rawBlockBody_closingLine hn hbreak hcloses.blank hrest, hfaults]
  | cons line content ih =>
    cases hjoined with
    | @cons _ lineEnd _ _ _ _ hbreak hcons =>
      cases hcons with
      | @cons _ nextEnd tail _ _ hline hnext hjoined =>
        have hfirstLine :
            restOfLine (line ++ nextEnd ++ tail ++ (indentation ++ quoteMarks n ++ rest)) =
              line := by
          rw [List.append_assoc, List.append_assoc, restOfLine_append hline, hnext.restOfLine_eq,
            List.append_nil]
        have hfirst : ¬quoteMarks n <:+: line := hcloses.first line List.mem_cons_self
        have hdrop : (line ++ nextEnd ++ tail ++ (indentation ++ quoteMarks n ++ rest)).drop
            line.length = nextEnd ++ tail ++ (indentation ++ quoteMarks n ++ rest) := by
          rw [List.append_assoc line, List.append_assoc line, List.drop_left]
        have hnextLines : Joined ([] :: content) (nextEnd ++ tail)
            (indentation ++ quoteMarks n ++ rest) := hjoined.behind hnext
        have hbefore' : ∀ p ∈ (start + lineEnd.length, line) :: before,
            Indented indentation p.2 := by
          intro p hp
          rcases List.mem_cons.1 hp with rfl | hp
          · exact hcloses.indented line List.mem_cons_self
          · exact hbefore p hp
        rw [List.nil_append, List.append_assoc,
          rawBlockBody_contentLine hn hbreak (hfirstLine.symm ▸ hfirst), hfirstLine, hdrop,
          ih hnextLines hcloses.tail hbefore']
        simp [Nat.add_assoc]

theorem head?_append_ne {rest following : List Char} (hrest : rest.head? ≠ some '"')
    (hfollowing : following.head?.all isLineEnd = true) : (rest ++ following).head? ≠ some '"' := by
  intro hquote
  cases rest with
  | nil =>
    rw [List.nil_append] at hquote
    rw [hquote] at hfollowing
    contradiction
  | cons c cs => exact hrest hquote

/-- The line on which a body ends without a fault starts with the closing quotes. -/
theorem exists_closingLine {n start : Nat} (hn : 0 < n) {before : List (Nat × List Char)}
    {lineEnd line following : List Char} (hbreak : LineBreak lineEnd (line ++ following))
    (hline : restOfLine (line ++ following) = line)
    (hfollowing : following.head?.all isLineEnd = true) (hinside : quoteMarks n <:+: line)
    (hfaults : (rawBlockBody n start before (lineEnd ++ (line ++ following))).faults = []) :
    ∃ indentation rest, line ++ following = indentation ++ quoteMarks n ++ rest ∧
      ClosesBlock n [] indentation ∧ rest.head? ≠ some '"' ∧
      ∀ p ∈ before, Indented indentation p.2 := by
  rw [rawBlockBody_lineBreak hbreak, hline] at hfaults
  simp only at hfaults
  generalize hindentation : line.takeWhile (fun c ↦ c == ' ' || c == '\t') = indentation at hfaults
  obtain ⟨more, rfl⟩ : indentation <+: line := hindentation ▸ List.takeWhile_prefix _
  obtain ⟨rest, hmore, hrest⟩ := exists_quoteMarks more
  have hblank : ∀ c ∈ indentation, c = ' ' ∨ c = '\t' := by
    intro c hc
    rw [← hindentation] at hc
    simpa using List.all_eq_true.1 List.all_takeWhile c hc
  split at hfaults
  · next hrun =>
    rw [List.drop_left] at hrun hfaults
    obtain ⟨hmany, hindented⟩ := List.append_eq_nil_iff.1 hfaults
    rcases Nat.lt_or_eq_of_le hrun with hlonger | hexact
    · simp [closeRaw, hlonger] at hmany
    · rw [← hexact] at hmore
      refine ⟨indentation, rest ++ following, ?_, ?_, head?_append_ne hrest hfollowing, ?_⟩
      · rw [hmore]
        simp only [List.append_assoc]
      · constructor
        · exact fun _ h ↦ absurd h List.not_mem_nil
        · exact hblank
        · exact fun _ h ↦ absurd h List.not_mem_nil
      · intro p hp
        exact indentationFaults_eq_nil_iff.1 hindented p (List.mem_reverse.2 hp)
  · cases hfound : quoteRun? n (indentation ++ more) with
    | none => exact absurd hinside ((quoteRun?_eq_none_iff hn).1 hfound)
    | some offset =>
      rw [hfound, Option.elim_some] at hfaults
      exact absurd hfaults (List.cons_ne_nil _ _)

/-- A body over several lines that ends without a fault is a block by the rules. -/
theorem exists_closesBlock {n start : Nat} (hn : 0 < n) {before : List (Nat × List Char)}
    {text : List Char} (htext : text.head?.all isLineEnd = true)
    (hclosed : (rawBlockBody n start before text).closed = true)
    (hfaults : (rawBlockBody n start before text).faults = []) :
    ∃ content lines indentation rest, text = lines ++ (indentation ++ quoteMarks n ++ rest) ∧
      Joined ([] :: content) lines (indentation ++ quoteMarks n ++ rest) ∧
      ClosesBlock n content indentation ∧ rest.head? ≠ some '"' ∧
      ∀ p ∈ before, Indented indentation p.2 := by
  induction hlength : text.length using Nat.strongRecOn generalizing start before text with
  | ind length ih =>
  cases text with
  | nil =>
    rw [rawBlockBody] at hclosed
    contradiction
  | cons c cs =>
    obtain ⟨lineEnd, text, hcs, hbreak⟩ := LineBreak.exists_of_isLineEnd (c := c) htext cs
    rw [hcs] at hclosed hfaults hlength ⊢
    obtain ⟨line, following, rfl, hline, hplain, hend⟩ := exists_restOfLine text
    by_cases hinside : quoteMarks n <:+: line
    · obtain ⟨indentation, rest, hclosing, hcloses, hrest, hbefore⟩ :=
        exists_closingLine hn hbreak hline hend hinside hfaults
      rw [hclosing] at hbreak ⊢
      refine ⟨[], lineEnd, indentation, rest, rfl, ?_, hcloses, hrest, hbefore⟩
      rw [← List.append_nil lineEnd]
      exact Joined.nil.behind hbreak
    · rw [rawBlockBody_contentLine hn hbreak (hline.symm ▸ hinside), hline, List.drop_left]
        at hclosed hfaults
      have hshorter : following.length < length := by
        have hpos := hbreak.length_pos
        rw [← hlength, List.length_append, List.length_append]
        omega
      obtain ⟨content, lines, indentation, rest, rfl, hjoined, hcloses, hrest, hbefore⟩ :=
        ih _ hshorter hend hclosed hfaults rfl
      refine ⟨line :: content, lineEnd ++ (line ++ lines), indentation, rest, ?_, ?_, ?_, hrest, ?_⟩
      · simp only [List.append_assoc]
      · rw [← List.append_assoc] at hbreak
        exact (hjoined.prepend hplain).behind hbreak
      · exact hcloses.cons hinside (hbefore _ List.mem_cons_self)
      · exact fun p hp ↦ hbefore p (List.mem_cons_of_mem _ hp)

/-! ### Whole raw strings -/

section Whole

variable {n : Nat} {characters rest text : List Char}

/-- The body of a raw string behind its `n` opening quotes. -/
def rawBody (n : Nat) (text : List Char) : Body :=
  if restOfLineIsBlank text then
    rawBlockBody n (n + (restOfLine text).length) [] (text.drop (restOfLine text).length)
  else rawLineBody n n text

theorem rawString_quoteMarks (hexact : text.head? ≠ some '"') : rawString (quoteMarks n ++ text) =
    if (rawBody n text).closed = true then
      stringLexeme (quoteMarks n ++ text) (rawBody n text).stop [.rawStringLiterals]
        (rawBody n text).faults
    else openStringLexeme (rawBody n text).stop [.rawStringLiterals]
      ((rawBody n text).faults ++ [⟨.unterminatedRawString, 0, 0⟩]) := by
  have hdrop : (quoteMarks n ++ text).drop n = text := List.drop_left' (length_quoteMarks n)
  simp only [rawString, runLength_quoteMarks hexact, hdrop, rawBody]
  rfl

/-- The opening line is not blank when the closing quotes are on it. -/
theorem not_restOfLineIsBlank {content : List Char} (hn : 0 < n)
    (hcontent : ∀ c ∈ content, isLineEnd c = false) :
    restOfLineIsBlank (content ++ (quoteMarks n ++ rest)) = false := by
  have hquote : isBlank '"' = false := by decide
  rw [restOfLineIsBlank, restOfLine_append hcontent, restOfLine_quoteMarks_append]
  simp [quoteMarks, hquote, Nat.ne_of_gt hn]

theorem rawBody_onLine {content : List Char} (hn : 0 < n)
    (hcontent : ∀ c ∈ content, isLineEnd c = false) (hfirst : ¬quoteMarks n <:+: content)
    (hlast : content.getLast? ≠ some '"') (hrest : rest.head? ≠ some '"') :
    rawBody n (content ++ (quoteMarks n ++ rest)) = ⟨n + content.length + n, true, [], []⟩ := by
  rw [rawBody, not_restOfLineIsBlank hn hcontent, if_neg Bool.false_ne_true, rawLineBody_eq hn,
    restOfLine_append hcontent, restOfLine_quoteMarks_append, quoteRun?_append hn hfirst hlast]
  simp [closeRaw, runLength_quoteMarks hrest]

/-- The opening line ends at the first line end. -/
theorem Joined.restOfLine_eq {line lines : List Char} {content : List (List Char)}
    (h : Joined (line :: content) lines rest) : restOfLine (lines ++ rest) = line := by
  cases h with
  | cons hplain hbreak _ =>
    rw [List.append_assoc, List.append_assoc, restOfLine_append hplain, hbreak.restOfLine_eq,
      List.append_nil]

theorem Joined.restOfLineIsBlank {blank lines : List Char} {content : List (List Char)}
    (h : Joined (blank :: content) lines rest) (hblank : ∀ c ∈ blank, isBlank c = true) :
    restOfLineIsBlank (lines ++ rest) = true := by
  rw [CSharpCheck.restOfLineIsBlank, h.restOfLine_eq]
  exact List.all_eq_true.2 hblank

theorem rawBody_overLines {blank lines indentation : List Char} {content : List (List Char)}
    (hn : 0 < n) (hblank : ∀ c ∈ blank, isBlank c = true)
    (hjoined : Joined (blank :: content) lines (indentation ++ quoteMarks n ++ rest))
    (hcloses : ClosesBlock n content indentation) (hrest : rest.head? ≠ some '"') :
    rawBody n (lines ++ (indentation ++ quoteMarks n ++ rest)) =
      ⟨n + lines.length + indentation.length + n, true, [], []⟩ := by
  rw [rawBody, if_pos (hjoined.restOfLineIsBlank hblank), hjoined.restOfLine_eq]
  cases hjoined with
  | @cons _ lineEnd tail _ _ hplain hbreak hjoined =>
    have hdrop : (blank ++ lineEnd ++ tail ++ (indentation ++ quoteMarks n ++ rest)).drop
        blank.length = lineEnd ++ tail ++ (indentation ++ quoteMarks n ++ rest) := by
      rw [List.append_assoc blank, List.append_assoc blank, List.drop_left]
    have hlines : Joined ([] :: content) (lineEnd ++ tail) (indentation ++ quoteMarks n ++ rest) :=
      hjoined.behind hbreak
    rw [hdrop, rawBlockBody_of_closesBlock hn hlines hcloses hrest]
    · simp [Nat.add_assoc]
    · exact fun _ h ↦ absurd h List.not_mem_nil

/-- The body of a raw string by the rules ends at its closing quotes. -/
theorem IsRawString.rawBody_eq (hn : 0 < n) (h : IsRawString n characters rest)
    (htext : characters ++ rest = quoteMarks n ++ text) :
    rawBody n text = ⟨characters.length, true, [], []⟩ := by
  cases h with
  | @onLine content _ hcontent hfirst hlast hrest =>
    obtain rfl : text = content ++ (quoteMarks n ++ rest) := by
      simpa only [List.append_assoc, List.append_cancel_left_eq, eq_comm] using htext
    rw [rawBody_onLine hn hcontent hfirst hlast hrest]
    simp [length_quoteMarks, Nat.add_assoc]
  | @overLines blank lines indentation _ content hblank hjoined hcloses hrest =>
    obtain rfl : text = lines ++ (indentation ++ quoteMarks n ++ rest) := by
      simpa only [List.append_assoc, List.append_cancel_left_eq, eq_comm] using htext
    rw [rawBody_overLines hn hblank hjoined hcloses hrest]
    simp [length_quoteMarks, Nat.add_assoc]

/-- A run of just `n` quotes, the first one that is long enough, closes a raw string on its line. -/
theorem exists_onLine {k : Nat} (hn : 0 < n) (hfound : quoteRun? n (restOfLine text) = some k)
    (hrun : runLength '"' (text.drop k) ≤ n) :
    ∃ characters rest, characters ++ rest = quoteMarks n ++ text ∧
      IsRawString n characters rest := by
  obtain ⟨line, following, rfl, hline, hplain, -⟩ := exists_restOfLine text
  rw [hline] at hfound
  obtain ⟨content, more, rfl, rfl, hfirst, hlast⟩ := exists_of_quoteRun? hn hfound
  rw [List.append_assoc, List.drop_left, List.append_assoc] at hrun
  have hcontent : ∀ c ∈ content, isLineEnd c = false :=
    fun c hc ↦ hplain c (List.mem_append_left _ hc)
  refine ⟨_, more ++ following, ?_, .onLine hcontent hfirst hlast (head?_ne_of_runLength_le hrun)⟩
  simp only [List.append_assoc]

/-- A body that ends without a fault belongs to a raw string by the rules. -/
theorem exists_isRawString (hn : 0 < n) (hclosed : (rawBody n text).closed = true)
    (hfaults : (rawBody n text).faults = []) :
    ∃ characters rest, characters ++ rest = quoteMarks n ++ text ∧
      IsRawString n characters rest := by
  rw [rawBody] at hclosed hfaults
  by_cases hblank : restOfLineIsBlank text = true
  · obtain ⟨line, following, rfl, hline, hplain, hend⟩ := exists_restOfLine text
    rw [if_pos hblank, hline, List.drop_left] at hclosed hfaults
    obtain ⟨content, lines, indentation, rest, rfl, hjoined, hcloses, hrest, -⟩ :=
      exists_closesBlock hn hend hclosed hfaults
    rw [restOfLineIsBlank, hline, List.all_eq_true] at hblank
    refine ⟨_, rest, ?_, .overLines hblank (hjoined.prepend hplain) hcloses hrest⟩
    simp only [List.append_assoc]
  · rw [if_neg hblank, rawLineBody_eq hn] at hclosed hfaults
    cases hfound : quoteRun? n (restOfLine text) with
    | none =>
      rw [hfound] at hclosed
      contradiction
    | some k =>
      rw [hfound] at hfaults
      apply exists_onLine hn hfound
      refine Nat.not_lt.1 fun hlonger ↦ ?_
      simp [closeRaw, hlonger] at hfaults

/-- Without a fault, a raw string is one by the rules, and the other way round. -/
theorem rawString_faults_iff (hn : 0 < n) (hexact : text.head? ≠ some '"') :
    (rawString (quoteMarks n ++ text)).faults = [] ↔
      ∃ characters rest, characters ++ rest = quoteMarks n ++ text ∧
        IsRawString n characters rest := by
  rw [rawString_quoteMarks hexact]
  constructor
  · intro hfaults
    by_cases hclosed : (rawBody n text).closed = true
    · rw [if_pos hclosed] at hfaults
      exact exists_isRawString hn hclosed hfaults
    · rw [if_neg hclosed] at hfaults
      exact absurd (List.append_eq_nil_iff.1 hfaults).2 (List.cons_ne_nil _ _)
  · intro ⟨characters, rest, htext, hrules⟩
    rw [hrules.rawBody_eq hn htext]
    rfl

/-- A raw string by the rules is scanned as one token, with its suffix. -/
theorem IsRawString.rawString_eq (hn : 0 < n) (h : IsRawString n characters rest)
    (htext : characters ++ rest = quoteMarks n ++ text) (hexact : text.head? ≠ some '"') :
    rawString (quoteMarks n ++ text) =
      stringLexeme (characters ++ rest) characters.length [.rawStringLiterals] [] := by
  rw [rawString_quoteMarks hexact, h.rawBody_eq hn htext, htext]
  rfl

end Whole

end CSharpCheck
