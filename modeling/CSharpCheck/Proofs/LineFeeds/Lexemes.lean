import CSharpCheck.Proofs.LineFeeds.Words
import CSharpCheck.Proofs.Scanning.ClosingQuotes
import CSharpCheck.Proofs.Scanning.Faults

/-!
# Single tokens of a text with line feeds

A single token that does not stop inside of a CR LF spells a single token of the text with line
feeds: the same, up to its length and the places of its faults. Only a character literal with too
much in it can stop inside of a CR LF, and a CR that fits nowhere.
-/

namespace CSharpCheck

/-- The error with LF for a CR that it shows. -/
def LexicalError.lineFed : LexicalError → LexicalError
  | .unexpectedCharacter c => .unexpectedCharacter (lineFeed c)
  | e => e

namespace Fault

/-- The fault with LF for a CR that it shows. -/
def lineFed (f : Fault) : Fault := ⟨f.error.lineFed, f.start, f.stop⟩

/-- The fault with its places moved. -/
def spell (φ : Nat → Nat) (f : Fault) : Fault := ⟨f.error, φ f.start, φ f.stop⟩

/-- The faults `fs` are those of a text where `fs'` are those of the text with line feeds. -/
def Spells (φ : Nat → Nat) (fs fs' : List Fault) : Prop :=
  fs.map lineFed = fs'.map (spell φ)

namespace Spells

variable {φ : Nat → Nat} {fs fs' gs gs' : List Fault}

theorem nil : Spells φ [] [] := rfl

theorem single {error : LexicalError} {start fed stop fedStop : Nat}
    (herror : error.lineFed = error) (hstart : φ fed = start) (hstop : φ fedStop = stop) :
    Spells φ [⟨error, start, stop⟩] [⟨error, fed, fedStop⟩] := by
  rw [Spells, List.map_singleton, List.map_singleton, lineFed, herror, spell, hstart, hstop]

theorem append (hfs : Spells φ fs fs') (hgs : Spells φ gs gs') :
    Spells φ (fs ++ gs) (fs' ++ gs') := by
  rw [Spells, List.map_append, List.map_append, hfs, hgs]

theorem ite {p : Prop} [Decidable p] (hfs : Spells φ fs fs') (hgs : Spells φ gs gs') :
    Spells φ (if p then fs else gs) (if p then fs' else gs') := by
  split
  · exact hfs
  · exact hgs

end Spells

end Fault

/-- The body `b` is one of a text where `b'` is one of the text with line feeds. -/
structure Body.Spells (φ : Nat → Nat) (b b' : Body) : Prop where
  stop : b.stop = φ b'.stop
  closed : b.closed = b'.closed
  features : b.features = b'.features
  faults : Fault.Spells φ b.faults b'.faults

/-- The lexeme `l` is one of a text where `l'` is one of the text with line feeds. -/
structure Lexeme.Spells (φ : Nat → Nat) (l l' : Lexeme) : Prop where
  kind : l.kind = l'.kind
  length : l.length = φ l'.length
  name : l.name = l'.name
  features : l.features = l'.features
  faults : Fault.Spells φ l.faults l'.faults

variable {φ : Nat → Nat} {start fed : Nat} {text : List Char}

/-! ### Strings -/

namespace SpelledFrom

variable {c : Char} {cs : List Char}

/-- Behind a character that ends no line. -/
theorem tail (h : SpelledFrom φ start fed (c :: cs)) (hc : isLineEnd c = false) :
    SpelledFrom φ (start + 1) (fed + 1) cs :=
  h.drop_of_le (n := 1) (by rw [restOfLine_cons hc]; exact Nat.le_add_left 1 _)

/-- Behind a line end. -/
theorem lineEnd (h : SpelledFrom φ start fed (c :: cs)) :
    SpelledFrom φ (start + lineEndLength (c :: cs)) (fed + 1)
      ((c :: cs).drop (lineEndLength (c :: cs))) := by
  have hdrop := h.drop 1
  rwa [spelledLength_cons, spelledLength_zero, Nat.add_zero] at hdrop

/-- Behind characters that spell `m` characters of the text with line feeds. -/
theorem advance (h : SpelledFrom φ start fed (c :: cs)) (hc : isLineEnd c = false) {m n : Nat}
    (hm : 0 < m) (hn : spelledLength (c :: cs) m = n) :
    (lineFeeds cs).drop (m - 1) = lineFeeds (cs.drop (n - 1)) ∧
      SpelledFrom φ (start + n) (fed + m) (cs.drop (n - 1)) := by
  subst hn
  have hpos : 0 < spelledLength (c :: cs) m := by
    rw [← spelledLength_zero (c :: cs)]
    exact strictMono_spelledLength _ hm
  rw [drop_sub_one hpos c, drop_sub_one hm c, ← lineFeeds_cons_of_not_isLineEnd hc,
    drop_lineFeeds]
  exact ⟨rfl, h.drop m⟩

/-- Up to the end of the line nothing moves. -/
theorem add_of_le (h : SpelledFrom φ start fed text) {n : Nat} (hn : n ≤ (restOfLine text).length) :
    φ (fed + n) = start + n := by
  rw [h, spelledLength_of_le hn]

end SpelledFrom

/-- An escape ends with its line at the latest. -/
theorem length_escape_le_restOfLine (cs : List Char) :
    (escape cs).length ≤ (restOfLine ('\\' :: cs)).length := by
  cases hend : cs.head?.all isLineEnd with
  | true =>
    rw [length_escape_of_lineEnd hend, restOfLine_cons (by decide)]
    exact Nat.le_add_left 1 _
  | false =>
    cases cs with
    | nil => contradiction
    | cons c cs =>
      rw [(quoteEnd_escape (show isHexDigit '"' = false by decide) hend cs).2]
      exact Nat.le_add_right _ _

theorem Escape.spells_faults {e : Escape} (hstart : φ fed = start)
    (hstop : φ (fed + e.length) = start + e.length) :
    Fault.Spells φ (e.faults start) (e.faults fed) :=
  .ite .nil (.single rfl hstart hstop)

theorem Body.Spells.afterEscape {b b' : Body} (h : b.Spells φ b') {e : Escape}
    (hstart : φ fed = start) (hstop : φ (fed + e.length) = start + e.length) :
    (b.afterEscape e start).Spells φ (b'.afterEscape e fed) where
  stop := h.stop
  closed := h.closed
  features := congrArg (e.features ++ ·) h.features
  faults := (e.spells_faults hstart hstop).append h.faults

theorem spells_stringBody (h : SpelledFrom φ start fed text) :
    (stringBody start text).Spells φ (stringBody fed (lineFeeds text)) := by
  fun_induction stringBody start text generalizing fed with
  | case1 start =>
    rw [lineFeeds, stringBody]
    exact ⟨h.here.symm, rfl, rfl, .nil⟩
  | case2 start c cs hend =>
    rw [lineFeeds_cons, stringBody, if_pos (by rw [isLineEnd_lineFeed, hend])]
    exact ⟨h.here.symm, rfl, rfl, .nil⟩
  | case3 start c cs hend hquote =>
    rw [Bool.not_eq_true] at hend
    rw [lineFeeds_cons_of_not_isLineEnd hend, stringBody, if_neg (by simp [hend]), if_pos hquote]
    exact ⟨(h.tail hend).here.symm, rfl, rfl, .nil⟩
  | case4 start c cs hend hquote hescape e =>
    rename_i ih
    rw [Bool.not_eq_true] at hend
    obtain rfl := beq_iff_eq.1 hescape
    have hlength := length_escape_le_restOfLine cs
    have hpos := length_escape_pos cs
    rw [lineFeeds_cons_of_not_isLineEnd hend, stringBody, if_neg (by simp [hend]), if_neg hquote,
      if_pos hescape, escape_lineFeeds]
    obtain ⟨hdrop, hrest⟩ := h.advance hend hpos (spelledLength_of_le hlength)
    simp only [hdrop]
    exact (ih hrest).afterEscape h.here (h.add_of_le hlength)
  | case5 start c cs hend hquote hescape ih =>
    rw [Bool.not_eq_true] at hend
    rw [lineFeeds_cons_of_not_isLineEnd hend, stringBody, if_neg (by simp [hend]), if_neg hquote,
      if_neg hescape]
    exact ih (h.tail hend)

/-- A verbatim string goes on behind every character but a quote. -/
theorem verbatimBody_of_ne {c : Char} (hc : c ≠ '"') (start : Nat) (cs : List Char) :
    verbatimBody start (c :: cs) = verbatimBody (start + 1) cs := by
  rw [verbatimBody]
  · exact fun _ h ↦ absurd h hc
  · exact hc

/-- A verbatim string goes on behind a CR LF, too. -/
theorem verbatimBody_lineEnd {c : Char} (hc : c ≠ '"') (start : Nat) (cs : List Char) :
    verbatimBody start (c :: cs) = verbatimBody (start + lineEndLength (c :: cs))
      ((c :: cs).drop (lineEndLength (c :: cs))) := by
  rw [lineEndLength_cons]
  split
  · next hpair =>
    obtain ⟨ds, rfl⟩ := List.head?_eq_some_iff.1 hpair.2
    rw [verbatimBody_of_ne hc, verbatimBody_of_ne (by decide)]
    rfl
  · rw [verbatimBody_of_ne hc]
    rfl

theorem spells_verbatimBody (h : SpelledFrom φ start fed text) :
    (verbatimBody start text).Spells φ (verbatimBody fed (lineFeeds text)) := by
  induction hlength : text.length using Nat.strongRecOn generalizing start fed text with
  | ind length ih =>
    cases text with
    | nil => exact ⟨h.here.symm, rfl, rfl, .nil⟩
    | cons c cs =>
      rw [List.length_cons] at hlength
      by_cases hquote : c = '"'
      · subst hquote
        have htail := h.tail (by decide)
        rw [lineFeeds_cons_of_not_isLineEnd (by decide)]
        cases cs with
        | nil => exact ⟨htail.here.symm, rfl, rfl, .nil⟩
        | cons d ds =>
          by_cases hdoubled : d = '"'
          · subst hdoubled
            rw [lineFeeds_cons_of_not_isLineEnd (by decide)]
            show (verbatimBody (start + 2) ds).Spells φ (verbatimBody (fed + 2) (lineFeeds ds))
            refine ih ds.length ?_ (htail.tail (by decide)) rfl
            rw [← hlength, List.length_cons]
            omega
          · have hfed : lineFeed d ≠ '"' := fun hd ↦ hdoubled ((lineFeed_eq_iff (by decide)).1 hd)
            rw [lineFeeds_cons, verbatimBody, verbatimBody]
            · exact ⟨htail.here.symm, rfl, rfl, .nil⟩
            · exact fun rest hrest ↦ hfed (List.cons.inj hrest).1
            · exact fun rest hrest ↦ hdoubled (List.cons.inj hrest).1
      · have hpos := length_lineEnd_pos c cs
        have hfed : lineFeed c ≠ '"' := fun hc ↦ hquote ((lineFeed_eq_iff (by decide)).1 hc)
        rw [verbatimBody_lineEnd hquote, lineFeeds_cons, verbatimBody_of_ne hfed]
        refine ih _ ?_ h.lineEnd rfl
        rw [List.length_drop, List.length_cons]
        omega

/-- A string that is not closed has one more fault, and one that is closed may have a suffix. -/
theorem spells_string {closed : Bool} {stop stop' : Nat} {features features' : List Feature}
    {faults faults' : List Fault} {error : LexicalError}
    (hstop : spelledLength text stop' = stop) (herror : error.lineFed = error)
    (hfaults : Fault.Spells (spelledLength text) faults faults') :
    (if closed = true then stringLexeme text stop features faults
        else openStringLexeme stop features' (faults ++ [⟨error, 0, 0⟩])).Spells
      (spelledLength text)
      (if closed = true then stringLexeme (lineFeeds text) stop' features faults'
        else openStringLexeme stop' features' (faults' ++ [⟨error, 0, 0⟩])) := by
  subst hstop
  split
  · have hsuffix : utf8SuffixLength ((lineFeeds text).drop stop') =
        utf8SuffixLength (text.drop (spelledLength text stop')) := by
      rw [drop_lineFeeds, utf8SuffixLength_lineFeeds]
    rw [stringLexeme, stringLexeme, hsuffix]
    refine ⟨rfl, ?_, rfl, rfl, hfaults⟩
    simp only
    rw [spelledLength_add, spelledLength_of_le (utf8SuffixLength_le_restOfLine _)]
  · have hzero := spelledLength_zero text
    exact ⟨rfl, rfl, rfl, rfl, hfaults.append (.single herror hzero hzero)⟩

theorem spells_regularString (cs : List Char) :
    (regularString ('"' :: cs)).Spells (spelledLength ('"' :: cs))
      (regularString (lineFeeds ('"' :: cs))) := by
  have hbody := spells_stringBody ((SpelledFrom.refl ('"' :: cs)).tail (by decide))
  have hdrop : (lineFeeds ('"' :: cs)).drop 1 = lineFeeds cs := by
    rw [lineFeeds_cons_of_not_isLineEnd (by decide)]
    rfl
  rw [regularString, regularString, hdrop]
  simp only [List.drop_succ_cons, List.drop_zero]
  rw [Nat.zero_add] at hbody
  rw [hbody.closed, hbody.features]
  exact spells_string hbody.stop.symm rfl hbody.faults

theorem spells_verbatimString (cs : List Char) :
    (verbatimString ('@' :: '"' :: cs)).Spells (spelledLength ('@' :: '"' :: cs))
      (verbatimString (lineFeeds ('@' :: '"' :: cs))) := by
  have hbody := spells_verbatimBody
    (((SpelledFrom.refl ('@' :: '"' :: cs)).tail (by decide)).tail (by decide))
  have hdrop : (lineFeeds ('@' :: '"' :: cs)).drop 2 = lineFeeds cs := by
    rw [lineFeeds_cons_of_not_isLineEnd (by decide), lineFeeds_cons_of_not_isLineEnd (by decide)]
    rfl
  rw [verbatimString, verbatimString, hdrop]
  simp only [List.drop_succ_cons, List.drop_zero]
  rw [hbody.closed]
  exact spells_string hbody.stop.symm rfl .nil

/-! ### Raw strings -/

theorem runLength_le_restOfLine {c : Char} (hc : isLineEnd c = false) (text : List Char) :
    runLength c text ≤ (restOfLine text).length :=
  length_takeWhile_le_restOfLine (fun d hd ↦ by rwa [beq_iff_eq.1 hd]) text

theorem spells_closeRaw {run quotes : Nat} (hstart : φ fed = start)
    (hstop : φ (fed + run) = start + run) :
    (closeRaw start run quotes).Spells φ (closeRaw fed run quotes) where
  stop := hstop.symm
  closed := rfl
  features := rfl
  faults := .ite (.single rfl hstart hstop) .nil

theorem spells_rawLineBody {quotes : Nat} (h : SpelledFrom φ start fed text) :
    (rawLineBody quotes start text).Spells φ (rawLineBody quotes fed (lineFeeds text)) := by
  fun_induction rawLineBody quotes start text generalizing fed with
  | case1 start =>
    rw [lineFeeds, rawLineBody]
    exact ⟨h.here.symm, rfl, rfl, .nil⟩
  | case2 start c cs hend =>
    rw [lineFeeds_cons, rawLineBody, if_pos (by rw [isLineEnd_lineFeed, hend])]
    exact ⟨h.here.symm, rfl, rfl, .nil⟩
  | case3 start c cs hend hquote run =>
    rename_i hrun
    rw [Bool.not_eq_true] at hend
    obtain rfl := beq_iff_eq.1 hquote
    have hle : run ≤ (restOfLine ('"' :: cs)).length := by
      rw [restOfLine_cons hend]
      exact Nat.succ_le_succ (runLength_le_restOfLine hend cs)
    rw [lineFeeds_cons_of_not_isLineEnd hend, rawLineBody, if_neg (by simp [hend]), if_pos hquote,
      runLength_lineFeeds (by decide)]
    simp only
    rw [if_pos hrun]
    exact spells_closeRaw h.here (h.add_of_le hle)
  | case4 start c cs hend hquote run hrun =>
    rename_i ih
    rw [Bool.not_eq_true] at hend
    obtain rfl := beq_iff_eq.1 hquote
    have hle : run ≤ (restOfLine ('"' :: cs)).length := by
      rw [restOfLine_cons hend]
      exact Nat.succ_le_succ (runLength_le_restOfLine hend cs)
    obtain ⟨hdrop, hrest⟩ := h.advance hend (Nat.succ_pos _) (spelledLength_of_le hle)
    rw [lineFeeds_cons_of_not_isLineEnd hend, rawLineBody, if_neg (by simp [hend]), if_pos hquote,
      runLength_lineFeeds (by decide)]
    simp only
    rw [if_neg hrun, hdrop]
    exact ih hrest
  | case5 start c cs hend hquote ih =>
    rw [Bool.not_eq_true] at hend
    rw [lineFeeds_cons_of_not_isLineEnd hend, rawLineBody, if_neg (by simp [hend]), if_neg hquote]
    exact ih (h.tail hend)

theorem spells_indentationFaults (indentation : List Char) (lines : List (Nat × List Char)) :
    Fault.Spells φ (indentationFaults indentation (lines.map (Prod.map φ id)))
      (indentationFaults indentation lines) := by
  rw [indentationFaults, indentationFaults, List.find?_map]
  simp only [Function.comp_def, Prod.map_snd, id_eq]
  cases List.find? _ lines with
  | none => exact .nil
  | some line => exact .single rfl rfl rfl

theorem spells_rawBlockBody {quotes : Nat} (lines : List (Nat × List Char))
    (h : SpelledFrom φ start fed text) :
    (rawBlockBody quotes start (lines.map (Prod.map φ id)) text).Spells φ
      (rawBlockBody quotes fed lines (lineFeeds text)) := by
  induction hlength : text.length using Nat.strongRecOn generalizing start fed lines text with
  | ind length ih =>
    cases text with
    | nil =>
      rw [lineFeeds, rawBlockBody, rawBlockBody]
      exact ⟨h.here.symm, rfl, rfl, .nil⟩
    | cons c cs =>
      have hpos := length_lineEnd_pos c cs
      have hrest := h.lineEnd
      rw [List.length_cons] at hlength
      have hshorter : ((c :: cs).drop (lineEndLength (c :: cs))).length < length := by
        rw [List.length_drop, List.length_cons]
        omega
      rw [lineFeeds_cons, rawBlockBody, rawBlockBody, drop_sub_one hpos c]
      simp only [lineEndLength_lineFeed]
      generalize lineEndLength (c :: cs) = lead at hpos hrest hshorter ⊢
      generalize (c :: cs).drop lead = rest at hrest hshorter ⊢
      simp only [Nat.sub_self, List.drop_zero, restOfLine_lineFeeds]
      have hclose {k : Nat} (hk : k ≤ (restOfLine rest).length) :
          (closeRaw (start + lead + k) (runLength '"' ((restOfLine rest).drop k)) quotes).Spells φ
            (closeRaw (fed + 1 + k) (runLength '"' ((restOfLine rest).drop k)) quotes) := by
        have hrun : runLength '"' ((restOfLine rest).drop k) ≤ ((restOfLine rest).drop k).length :=
          (List.takeWhile_prefix _).length_le
        rw [List.length_drop] at hrun
        have hstop := hrest.add_of_le (Nat.add_le_of_le_sub' hk hrun)
        rw [← Nat.add_assoc, ← Nat.add_assoc] at hstop
        exact spells_closeRaw (hrest.add_of_le hk) hstop
      split
      · have hbody := hclose (List.takeWhile_prefix fun c ↦ c == ' ' || c == '\t').length_le
        refine ⟨hbody.stop, hbody.closed, hbody.features, hbody.faults.append ?_⟩
        rw [← List.map_reverse]
        exact spells_indentationFaults _ _
      · cases hfound : quoteRun? quotes (restOfLine rest) with
        | some k =>
          have hk := quoteRun?_le hfound
          have hbody := hclose hk
          have hplace := hrest.add_of_le hk
          exact ⟨hbody.stop, hbody.closed, hbody.features,
            Fault.Spells.append (.single rfl hplace hplace) hbody.faults⟩
        | none =>
          simp only
          rw [drop_lineFeeds_of_le (Nat.le_refl _)]
          have hlines : (start + lead, restOfLine rest) :: lines.map (Prod.map φ id) =
              ((fed + 1, restOfLine rest) :: lines).map (Prod.map φ id) := by
            rw [List.map_cons, Prod.map_apply, hrest.here, id_eq]
          rw [hlines]
          refine ih _ ?_ _ (hrest.drop_of_le (Nat.le_refl _)) rfl
          rw [List.length_drop]
          omega

theorem restOfLineIsBlank_lineFeeds (text : List Char) :
    restOfLineIsBlank (lineFeeds text) = restOfLineIsBlank text := by
  rw [restOfLineIsBlank, restOfLine_lineFeeds, restOfLineIsBlank]

theorem spells_rawString (text : List Char) :
    (rawString text).Spells (spelledLength text) (rawString (lineFeeds text)) := by
  have hquotes := runLength_le_restOfLine (c := '"') (by decide) text
  have hrest := (SpelledFrom.refl text).drop_of_le hquotes
  have hline := (SpelledFrom.refl text).drop_of_le
    (add_le_restOfLine hquotes (Nat.le_refl _))
  rw [rawString, rawString, runLength_lineFeeds (by decide), drop_lineFeeds_of_le hquotes]
  simp only [restOfLineIsBlank_lineFeeds, restOfLine_lineFeeds]
  generalize runLength '"' text = quotes at hquotes hrest hline ⊢
  rw [drop_lineFeeds_of_le (Nat.le_refl _)]
  rw [Nat.zero_add] at hrest hline
  have hbody : (if restOfLineIsBlank (text.drop quotes) = true then
        rawBlockBody quotes (quotes + (restOfLine (text.drop quotes)).length) []
          ((text.drop quotes).drop (restOfLine (text.drop quotes)).length)
      else rawLineBody quotes quotes (text.drop quotes)).Spells (spelledLength text)
      (if restOfLineIsBlank (text.drop quotes) = true then
        rawBlockBody quotes (quotes + (restOfLine (text.drop quotes)).length) []
          (lineFeeds ((text.drop quotes).drop (restOfLine (text.drop quotes)).length))
      else rawLineBody quotes quotes (lineFeeds (text.drop quotes))) := by
    split
    · rw [List.drop_drop]
      exact spells_rawBlockBody [] hline
    · exact spells_rawLineBody hrest
  rw [hbody.closed]
  exact spells_string hbody.stop.symm rfl hbody.faults

/-! ### Character literals -/

/-- A character literal with too much in it may stop inside of a CR LF, behind a backslash. -/
theorem overlongLength_lineFeeds (hφ : StrictMono φ) (h : SpelledFrom φ start fed text)
    (hstop : start + overlongLength text ∈ Set.range φ) :
    φ (fed + overlongLength (lineFeeds text)) = start + overlongLength text := by
  induction hlength : text.length using Nat.strongRecOn generalizing start fed text with
  | ind length ih =>
    cases text with
    | nil => exact h.here
    | cons c cs =>
      rw [List.length_cons] at hlength
      by_cases hbackslash : c = '\\'
      · subst hbackslash
        have htail := h.tail (by decide)
        rw [lineFeeds_cons_of_not_isLineEnd (by decide)]
        cases cs with
        | nil => exact htail.here
        | cons d ds =>
          by_cases hpair : d = '\r' ∧ ds.head? = some '\n'
          · obtain ⟨rfl, hhead⟩ := hpair
            obtain ⟨es, rfl⟩ := List.head?_eq_some_iff.1 hhead
            -- it stops behind the CR, which is no place of the text with line feeds
            obtain ⟨k, hk⟩ := hstop
            have hbefore : fed + 1 < k := by
              rw [← hφ.lt_iff_lt, htail.here, hk]
              exact Nat.lt_add_one (start + 1)
            have hbehind : k < fed + 1 + 1 := by
              rw [← hφ.lt_iff_lt, htail.lineEnd.here, hk]
              exact Nat.lt_add_one (start + 2)
            omega
          · have hrest := htail.lineEnd
            rw [lineEndLength_cons, if_neg hpair] at hrest
            rw [overlongLength, ← Nat.add_assoc] at hstop
            rw [lineFeeds_cons_of_not_pair hpair, overlongLength, overlongLength, ← Nat.add_assoc,
              ← Nat.add_assoc]
            refine ih ds.length ?_ hrest hstop rfl
            rw [← hlength, List.length_cons]
            omega
      · have hfed : lineFeed c ≠ '\\' := fun hc ↦ hbackslash ((lineFeed_eq_iff (by decide)).1 hc)
        rw [overlongLength_of_ne hbackslash] at hstop ⊢
        rw [lineFeeds_cons, overlongLength_of_ne hfed, lineFeed_beq (by decide),
          isLineEnd_lineFeed]
        split
        · exact h.here
        · next hgoes =>
          rw [if_neg hgoes, ← Nat.add_assoc] at hstop
          rw [Bool.not_eq_true, Bool.or_eq_false_iff] at hgoes
          rw [lineEndLength_of_not_isLineEnd hgoes.2, List.drop_succ_cons, List.drop_zero, ← Nat.add_assoc, ← Nat.add_assoc]
          exact ih cs.length (hlength ▸ Nat.lt_add_one _) (h.tail hgoes.2) hstop rfl

theorem leadEscape_lineFeeds (c : Char) (cs : List Char) :
    leadEscape c (lineFeeds cs) = leadEscape c cs := by
  rw [leadEscape, escape_lineFeeds, leadEscape]

theorem length_leadEscape_le {c : Char} (hc : isLineEnd c = false) (cs : List Char) :
    (leadEscape c cs).length ≤ (restOfLine (c :: cs)).length := by
  unfold leadEscape
  split
  · next hbackslash =>
    rw [beq_iff_eq.1 hbackslash]
    exact length_escape_le_restOfLine cs
  · rw [restOfLine_cons hc]
    exact Nat.le_add_left 1 _

theorem spells_characterTail (hφ : StrictMono φ) (hzero : φ 0 = 0) {e : Escape}
    (h : SpelledFrom φ (1 + e.length) (1 + e.length) text)
    (hstop : (characterTail e text).1 ∈ Set.range φ) :
    φ (characterTail e (lineFeeds text)).1 = (characterTail e text).1 ∧
      Fault.Spells φ (characterTail e text).2 (characterTail e (lineFeeds text)).2 := by
  unfold characterTail at hstop ⊢
  rw [beq_head?_lineFeeds (by decide)]
  split
  · next hfirst =>
    obtain ⟨cs, rfl⟩ := List.head?_eq_some_iff.1 (beq_iff_eq.1 hfirst)
    refine ⟨?_, .nil⟩
    have hclosed := (h.tail (by decide)).here
    rwa [Nat.add_comm 1, Nat.add_assoc] at hclosed
  · next hfirst =>
    rw [if_neg hfirst] at hstop
    simp only at hstop ⊢
    have hplace : 1 + e.length + overlongLength text ∈ Set.range φ := by
      split at hstop
      · next hclosed =>
        refine h.add_mem_range (mem_range_spelledLength fun hpair ↦ ?_)
        rw [List.head?_drop, hpair.2] at hclosed
        contradiction
      · exact hstop
    have hover := overlongLength_lineFeeds hφ h hplace
    have hspelled : spelledLength text (overlongLength (lineFeeds text)) = overlongLength text := by
      rw [h] at hover
      exact Nat.add_left_cancel hover
    have hrest := h.drop (overlongLength (lineFeeds text))
    rw [hspelled] at hrest
    rw [drop_lineFeeds, hspelled, beq_head?_lineFeeds (by decide)]
    split
    · next hclosed =>
      obtain ⟨cs, hcs⟩ := List.head?_eq_some_iff.1 (beq_iff_eq.1 hclosed)
      rw [hcs] at hrest
      have hend := (hrest.tail (by decide)).here
      exact ⟨hend, .single rfl hzero hend⟩
    · exact ⟨hover, .single rfl hzero hzero⟩

theorem spells_characterLiteral (cs : List Char)
    (hstop : (characterLiteral ('\'' :: cs)).length ∈ Set.range (spelledLength ('\'' :: cs))) :
    (characterLiteral ('\'' :: cs)).Spells (spelledLength ('\'' :: cs))
      (characterLiteral (lineFeeds ('\'' :: cs))) := by
  have hzero := spelledLength_zero ('\'' :: cs)
  have hquote := (SpelledFrom.refl ('\'' :: cs)).tail (by decide)
  have hone : spelledLength ('\'' :: cs) 1 = 1 := hquote.here
  rw [lineFeeds_cons_of_not_isLineEnd (by decide)]
  cases cs with
  | nil => exact ⟨rfl, rfl, rfl, rfl, rfl⟩
  | cons c cs =>
    by_cases hempty : c = '\''
    · subst hempty
      rw [lineFeeds_cons_of_not_isLineEnd (by decide)]
      have htwo := (hquote.tail (by decide)).here
      exact ⟨rfl, htwo.symm, rfl, rfl, .single rfl hzero htwo⟩
    · cases hend : isLineEnd c with
      | true =>
        rw [characterLiteral_of_lineEnd ((all_head?_lineFeeds (c :: cs)).trans hend),
          characterLiteral_of_lineEnd (show (c :: cs).head?.all isLineEnd = true from hend)]
        exact ⟨rfl, hone.symm, rfl, rfl, .single rfl hzero hzero⟩
      | false =>
        have hlength := length_leadEscape_le hend cs
        obtain ⟨hdrop, hrest⟩ := hquote.advance hend (length_leadEscape_pos c cs)
          (spelledLength_of_le hlength)
        rw [characterLiteral_cons hempty hend] at hstop
        rw [lineFeeds_cons_of_not_isLineEnd hend, characterLiteral_cons hempty hend,
          characterLiteral_cons hempty hend, leadEscape_lineFeeds]
        simp only [hdrop] at hstop ⊢
        obtain ⟨htail, hfaults⟩ :=
          spells_characterTail (strictMono_spelledLength _) hzero hrest hstop
        refine ⟨rfl, htail.symm, rfl, rfl, .append (Escape.spells_faults hone ?_) hfaults⟩
        exact hquote.add_of_le hlength

/-! ### All single tokens -/

/-- A lexeme that is the same in both texts, on the first line. -/
theorem Lexeme.spells_self {l : Lexeme} (hlength : l.length ≤ (restOfLine text).length)
    (hlocal : Fault.Local l.length l.faults) (hfed : ∀ f ∈ l.faults, f.error.lineFed = f.error) :
    l.Spells (spelledLength text) l where
  kind := rfl
  length := (spelledLength_of_le hlength).symm
  name := rfl
  features := rfl
  faults := List.map_congr_left fun f hf ↦ by
    obtain ⟨⟨hstart, hstop⟩, -⟩ := hlocal f hf
    rw [Fault.lineFed, hfed f hf, Fault.spell, spelledLength_of_le (by omega),
      spelledLength_of_le (by omega)]

theorem lineFed_number (text : List Char) :
    ∀ f ∈ (number text).faults, f.error.lineFed = f.error := by
  have hnumber (length : Nat) (error : Option LexicalError) (features : List Feature)
      (he : ∀ e ∈ error, e.lineFed = e) :
      ∀ f ∈ (numberLexeme length error features).faults, f.error.lineFed = f.error := by
    cases error with
    | none => exact List.forall_mem_nil _
    | some e => exact List.forall_mem_singleton.2 (he e rfl)
  have hprefixed (binary : Bool) :
      ∀ f ∈ (prefixedNumber binary text).faults, f.error.lineFed = f.error := by
    refine hnumber _ _ _ ?_
    generalize (endsWithDigit _ && _) = valid
    cases valid <;> rintro e ⟨⟩
    rfl
  have hdecimal : ∀ f ∈ (decimalNumber text).faults, f.error.lineFed = f.error := by
    refine hnumber _ _ _ ?_
    split
    · rintro e ⟨⟩
      rfl
    · split <;> rintro e ⟨⟩
      rfl
  unfold number
  split
  · split
    · exact hprefixed false
    · split
      · exact hprefixed true
      · exact hdecimal
  · exact hdecimal

/-- A bad token of one character, unless that is the CR of a CR LF. -/
theorem spells_badLexeme {error error' : LexicalError} (herror : error.lineFed = error')
    (hone : spelledLength text 1 = 1) :
    (badLexeme error).Spells (spelledLength text) (badLexeme error') := by
  subst herror
  refine ⟨rfl, hone.symm, rfl, rfl, ?_⟩
  rw [badLexeme, badLexeme, Fault.Spells, List.map_singleton, List.map_singleton, Fault.spell,
    spelledLength_zero]
  rfl

/-- No token starts with a line end. -/
theorem plainLexeme_of_isLineEnd {c : Char} (hc : isLineEnd c = true) (cs : List Char) :
    plainLexeme (c :: cs) = badLexeme (.unexpectedCharacter c) := by
  have hname : nameStarts (c :: cs) = false :=
    nameStarts_of_mem_partings (mem_partings_of_isLineEnd hc) cs
  have hnumber : numberStarts (c :: cs) = false := by
    rw [numberStarts]
    · exact false_of_mem_partings (by decide) (mem_partings_of_isLineEnd hc)
    · rintro rfl
      contradiction
  have hsymbol : symbolAt? (c :: cs) = none := by
    by_contra hsome
    obtain ⟨s, hs⟩ := Option.ne_none_iff_exists'.1 hsome
    have hlength := length_le_of_symbolAt? hs
    rw [restOfLine_lineEnd hc] at hlength
    exact Nat.not_lt_zero _ (Nat.lt_of_lt_of_le (length_text_pos s) hlength)
  simp only [plainLexeme, beq_of_isLineEnd (d := '@') hc (by decide),
    beq_of_isLineEnd (d := '"') hc (by decide), beq_of_isLineEnd (d := '\'') hc (by decide),
    beq_of_isLineEnd (d := '#') hc (by decide), hname, hnumber, hsymbol, Bool.false_and,
    Bool.false_eq_true, if_false]

theorem spells_plainLexeme (text : List Char)
    (hstop : (plainLexeme text).kind = .characterLiteral ∨ (plainLexeme text).kind = .bad →
      (plainLexeme text).length ∈ Set.range (spelledLength text)) :
    (plainLexeme text).Spells (spelledLength text) (plainLexeme (lineFeeds text)) := by
  cases text with
  | nil => exact ⟨rfl, rfl, rfl, rfl, .nil⟩
  | cons c cs =>
    cases hend : isLineEnd c with
    | true =>
      rw [plainLexeme_of_isLineEnd hend] at hstop ⊢
      rw [lineFeeds_cons, plainLexeme_of_isLineEnd ((isLineEnd_lineFeed c).trans hend)]
      refine spells_badLexeme rfl ?_
      obtain ⟨k, hk⟩ := hstop (.inr rfl)
      have hpos := lt_spelledLength_one (c :: cs)
      have hle : spelledLength (c :: cs) 1 ≤ spelledLength (c :: cs) k := by
        rw [(strictMono_spelledLength _).le_iff_le, Nat.one_le_iff_ne_zero]
        rintro rfl
        rw [spelledLength_zero] at hk
        contradiction
      rw [hk] at hle
      exact Nat.le_antisymm hle hpos
    | false =>
      have hone : spelledLength (c :: cs) 1 = 1 := spelledLength_of_le (restOfLine_pos hend cs)
      have hcons := lineFeeds_cons_of_not_isLineEnd hend cs
      have hself {l : Lexeme} (hl : l.faults = [])
          (hlength : l.length ≤ (restOfLine (c :: cs)).length) :
          l.Spells (spelledLength (c :: cs)) l :=
        l.spells_self hlength (hl ▸ .nil) (hl ▸ List.forall_mem_nil _)
      have hquotes := isPrefixOf_lineFeeds
        (show ['"', '"', '"'].all (· ∉ partings) = true by decide) (c :: cs)
      have hname := nameStarts_lineFeeds (c :: cs)
      have hnumber := numberStarts_lineFeeds (c :: cs)
      have hsymbol := symbolAt?_lineFeeds hend cs
      rw [hcons] at hquotes hname hnumber hsymbol
      rw [hcons, plainLexeme, plainLexeme, beq_head?_lineFeeds (by decide), nameStarts_lineFeeds,
        hquotes, hname, hnumber, hsymbol, ← hcons]
      rw [plainLexeme] at hstop
      split
      · next hverbatim =>
        rw [Bool.and_eq_true, beq_iff_eq, beq_iff_eq] at hverbatim
        obtain ⟨rfl, hquote⟩ := hverbatim
        obtain ⟨ds, rfl⟩ := List.head?_eq_some_iff.1 hquote
        exact spells_verbatimString ds
      · next hverbatim =>
        rw [if_neg hverbatim] at hstop
        split
        · rw [verbatimName_lineFeeds hend]
          exact hself rfl (length_verbatimName_le hend cs)
        · next hat =>
          rw [if_neg hat] at hstop
          split
          · rw [nameLexeme_lineFeeds]
            exact hself rfl (length_nameLexeme_le _)
          · next hname =>
            rw [if_neg hname] at hstop
            split
            · rw [number_lineFeeds hend]
              exact Lexeme.spells_self (length_number_le _) (local_number _) (lineFed_number _)
            · next hnumber =>
              rw [if_neg hnumber] at hstop
              split
              · next hquote =>
                obtain rfl := beq_iff_eq.1 hquote
                split
                · exact spells_rawString _
                · exact spells_regularString cs
              · next hquote =>
                rw [if_neg hquote] at hstop
                split
                · next hcharacter =>
                  rw [if_pos hcharacter] at hstop
                  obtain rfl := beq_iff_eq.1 hcharacter
                  exact spells_characterLiteral cs (hstop (.inl (kind_characterLiteral _)))
                · split
                  · exact spells_badLexeme rfl hone
                  · cases hfound : symbolAt? (c :: cs) with
                    | some s => exact hself rfl (length_le_of_symbolAt? hfound)
                    | none =>
                      refine spells_badLexeme ?_ hone
                      rw [LexicalError.lineFed, lineFeed_of_not_isLineEnd hend]

/-- Only a character literal and a token that fits nowhere can stop inside of a CR LF. -/
theorem kind_of_partsPair {text : List Char} (h : PartsPair text (plainLexeme text).length) :
    (plainLexeme text).kind = .characterLiteral ∨ (plainLexeme text).kind = .bad := by
  by_contra hkind
  have hspells := spells_plainLexeme text fun hother ↦ absurd hother hkind
  exact mem_range_spelledLength_iff.1 ⟨_, hspells.length.symm⟩ h

end CSharpCheck
