import CSharpCheck.Proofs.LineFeeds.Words
import CSharpCheck.Proofs.Relocation.Runs

/-!
# Messages about a text with line feeds

A message shows what it quotes from the text. About the text with line feeds it is the same message
with line feeds, since nothing else in a message ends a line.
-/

namespace CSharpCheck

/-! ### Line feeds in texts -/

theorem notMem_of_ends_no_line {text : List Char} (h : ∀ c ∈ text, isLineEnd c = false) :
    '\r' ∉ text :=
  fun hmem ↦ Bool.false_ne_true (h _ hmem).symm

/-- Where there is no line end before, none is in front of what follows. -/
theorem lineFeeds_append_left {before : List Char} (hbefore : ∀ c ∈ before, isLineEnd c = false)
    (text : List Char) : lineFeeds (before ++ text) = before ++ lineFeeds text := by
  induction before with
  | nil => rfl
  | cons c cs ih =>
    obtain ⟨hc, hcs⟩ := List.forall_mem_cons.1 hbefore
    rw [List.cons_append, lineFeeds_cons_of_not_isLineEnd hc, ih hcs]
    rfl

/-- What ends no line is in no pair with the line end in front of it. -/
theorem lineFeeds_append_right {after : List Char} (hafter : ∀ c ∈ after, isLineEnd c = false)
    (text : List Char) : lineFeeds (text ++ after) = lineFeeds text ++ after := by
  induction text using lineFeeds_induction with
  | nil => exact lineFeeds_eq_self (notMem_of_ends_no_line hafter)
  | cons c cs ih =>
    have hlead : lineEndLength (c :: (cs ++ after)) = lineEndLength (c :: cs) := by
      have hhead : (cs ++ after).head? = some '\n' ↔ cs.head? = some '\n' := by
        cases cs with
        | nil =>
          rw [List.nil_append]
          refine iff_of_false (fun hhead ↦ ?_) (by simp)
          exact Bool.false_ne_true (hafter _ (List.mem_of_mem_head? hhead)).symm
        | cons d ds => exact Iff.rfl
      rw [lineEndLength_cons, lineEndLength_cons]
      simp only [hhead]
    have hle := length_lineEnd_le c cs
    rw [List.cons_append, lineFeeds_cons, hlead, ← List.cons_append,
      List.drop_append_of_le_length hle, ih, lineFeeds_cons]
    rfl

theorem lineFeeds_singleton (c : Char) : lineFeeds [c] = [lineFeed c] :=
  lineFeeds_cons_of_not_pair fun hpair ↦ by cases hpair.2

theorem trimEnd_cons (c : Char) (cs : List Char) : trimEnd (c :: cs) =
    if trimEnd cs = [] then if isSpace c then [] else [c] else c :: trimEnd cs := by
  rw [trimEnd, trimEnd, List.reverse_cons, List.dropWhile_append]
  simp only [List.isEmpty_iff, List.reverse_eq_nil_iff]
  split
  · rw [List.dropWhile_cons]
    split <;> rfl
  · rw [List.reverse_append]
    rfl

theorem head?_trimEnd {cs : List Char} (h : trimEnd cs ≠ []) : (trimEnd cs).head? = cs.head? := by
  cases cs with
  | nil => exact absurd rfl h
  | cons c cs =>
    rw [trimEnd_cons] at h ⊢
    split
    · next hends =>
      rw [if_pos hends] at h
      split
      · next hspace => simp [hspace] at h
      · rfl
    · rfl

/-- LF is white space where CR is. -/
theorem trimEnd_lineFeeds (text : List Char) :
    trimEnd (lineFeeds text) = lineFeeds (trimEnd text) := by
  induction text using lineFeeds_induction with
  | nil => rfl
  | cons c cs ih =>
    rw [lineFeeds_cons, trimEnd_cons, ih, trimEnd_cons c,
      apply_lineFeed (f := isSpace) (by decide) c, lineEndLength_cons]
    simp only [lineFeeds_eq_nil_iff]
    split
    · next hpair =>
      obtain ⟨rfl, hhead⟩ := hpair
      obtain ⟨ds, rfl⟩ := List.head?_eq_some_iff.1 hhead
      have hcr : isSpace '\r' = true := by decide
      have hlf : isSpace '\n' = true := by decide
      rw [List.drop_succ_cons, List.drop_succ_cons, List.drop_zero, trimEnd_cons, hcr, hlf]
      by_cases hends : trimEnd ds = []
      · simp only [hends, if_true, lineFeeds]
      · simp only [hends, if_false, reduceCtorEq, lineFeeds, lineFeed, if_true]
    · next hpair =>
      rw [List.drop_succ_cons, List.drop_zero]
      split
      · split
        · rfl
        · exact (lineFeeds_singleton c).symm
      · next hgoes =>
        refine (lineFeeds_cons_of_not_pair fun hpair' ↦ hpair ⟨hpair'.1, ?_⟩).symm
        rw [← hpair'.2, head?_trimEnd hgoes]

/-- The text with LF for every CR LF and for every other CR. -/
def withLineFeeds (text : String) : String := String.ofList (lineFeeds text.toList)

/-- A text becomes a word only if it is that word before. -/
theorem withLineFeeds_eq_iff {text word : String} (hword : OneLine word) :
    withLineFeeds text = word ↔ text = word := by
  constructor
  · rintro rfl
    have hany : text.toList.any isLineEnd = false := by
      rw [← any_isLineEnd_lineFeeds, List.any_eq_false]
      simpa [OneLine, withLineFeeds] using hword
    have hnone : ∀ c ∈ text.toList, isLineEnd c = false := by simpa using hany
    rw [withLineFeeds, lineFeeds_eq_self (notMem_of_ends_no_line hnone), String.ofList_toList]
  · rintro rfl
    rw [withLineFeeds, lineFeeds_eq_self (notMem_of_ends_no_line hword), String.ofList_toList]

theorem withLineFeeds_quoting {before after : String} (hbefore : OneLine before)
    (hafter : OneLine after) (text : String) :
    withLineFeeds (before ++ text ++ after) = before ++ withLineFeeds text ++ after := by
  simp only [withLineFeeds, String.toList_append, lineFeeds_append_right hafter,
    lineFeeds_append_left hbefore, String.ofList_append, String.ofList_toList]

/-! ### Rewriting -/

/-- The relocation of what is found in a text that makes the texts those of the text with line
feeds. -/
def Relocation.feedingLines : Relocation where
  place := id
  text := withLineFeeds
  offset := id
  offset_place _ := rfl
  line_place _ := rfl
  strictMono := strictMono_id
  text_eq_iff := withLineFeeds_eq_iff

theorem withLineFeeds_toString (c : Char) : withLineFeeds c.toString = (lineFeed c).toString := by
  rw [Char.toString_eq_singleton, Char.toString_eq_singleton, withLineFeeds,
    String.toList_singleton, lineFeeds_singleton]
  rfl

theorem Relocation.char_feedingLines (c : Char) : feedingLines.char c = lineFeed c :=
  feedingLines.char_of_text (withLineFeeds_toString c)

/-! ### What messages consist of -/

theorem oneLine_ofList {cs : List Char} (h : cs.any isLineEnd = false) :
    OneLine (String.ofList cs) := by
  rw [OneLine, String.toList_ofList]
  simpa using h

theorem OneLine.append {before after : String} (hbefore : OneLine before) (hafter : OneLine after) :
    OneLine (before ++ after) := by
  rw [OneLine, String.toList_append]
  exact List.forall_mem_append.2 ⟨hbefore, hafter⟩

theorem oneLine_title (f : Feature) : OneLine f.title := by
  cases f <;> exact oneLine_ofList (by decide)

theorem oneLine_display (v : Version) : OneLine v.display := by
  cases v <;> exact oneLine_ofList (by decide)

theorem Gate.oneLine_message (g : Gate) (f : Feature) : OneLine (g.message f) := by
  unfold message
  split
  · refine (((OneLine.append ?_ (oneLine_title f)).append ?_).append ?_) <;>
      exact oneLine_ofList (by decide)
  · refine ((((((OneLine.append ?_ (oneLine_title f)).append ?_).append
      (oneLine_display _)).append ?_).append (oneLine_display _)).append ?_) <;>
      exact oneLine_ofList (by decide)

/-! ### Messages -/

/-- A message that ends no line stays. -/
theorem eq_withLineFeeds {word : String} (hword : OneLine word) : word = withLineFeeds word :=
  ((withLineFeeds_eq_iff hword).2 rfl).symm

theorem LexicalError.message_relocate (e : LexicalError) :
    (e.relocate .feedingLines).message = withLineFeeds e.message := by
  have hfixed {e : LexicalError} (hsame : e.relocate .feedingLines = e) (h : OneLine e.message) :
      (e.relocate .feedingLines).message = withLineFeeds e.message := by
    rw [hsame]
    exact eq_withLineFeeds h
  cases e with
  | unexpectedCharacter c =>
    have hchar := (congrArg Char.toString (Relocation.char_feedingLines c)).trans
      (withLineFeeds_toString c).symm
    exact (congrArg ("Unexpected character '" ++ · ++ "'") hchar).trans
      (withLineFeeds_quoting (oneLine_ofList (by decide)) (oneLine_ofList (by decide)) _).symm
  | rawTooManyQuotes | rawTooManyOpenBraces =>
    exact hfixed rfl ((oneLine_ofList (by decide)).append (oneLine_ofList (by decide)))
  | _ => exact hfixed rfl (oneLine_ofList (by decide))

theorem DirectiveProblem.message_relocate (p : DirectiveProblem) :
    (p.relocate .feedingLines).message = withLineFeeds p.message := by
  have hfixed {p : DirectiveProblem} (hsame : p.relocate .feedingLines = p)
      (h : OneLine p.message) :
      (p.relocate .feedingLines).message = withLineFeeds p.message := by
    rw [hsame]
    exact eq_withLineFeeds h
  cases p with
  | errorText | warningText | scriptOnly | scriptAfterToken =>
    exact (withLineFeeds_quoting (oneLine_ofList (by decide)) (oneLine_ofList (by decide)) _).symm
  | _ => exact hfixed rfl (oneLine_ofList (by decide))

theorem GrammarError.message_relocate (e : GrammarError) :
    (e.relocate .feedingLines).message = withLineFeeds e.message := by
  have hfixed {e : GrammarError} (hsame : e.relocate .feedingLines = e) (h : OneLine e.message) :
      (e.relocate .feedingLines).message = withLineFeeds e.message := by
    rw [hsame]
    exact eq_withLineFeeds h
  cases e with
  | wordExpected | invalidTerm | invalidMember =>
    exact (withLineFeeds_quoting (oneLine_ofList (by decide)) (oneLine_ofList (by decide)) _).symm
  | expected s =>
    cases s with
    | semicolon | closeParen | closeBrace | openBrace =>
      exact hfixed rfl (oneLine_ofList (by decide))
    | _ =>
      refine hfixed rfl (OneLine.append (OneLine.append ?_ ?_) ?_) <;>
        exact oneLine_ofList (by decide)
  | usingAfterElements =>
    exact hfixed rfl ((oneLine_ofList (by decide)).append (oneLine_ofList (by decide)))
  | _ => exact hfixed rfl (oneLine_ofList (by decide))

/-- Whatever a finding is about, its message shows the rewritten text as it showed the text. -/
theorem Relocation.restates_feedingLines (cause : Cause) : feedingLines.Restates cause := by
  intro gate span
  cases cause with
  | lexical e =>
    have hcode : (e.relocate feedingLines).code = e.code := by cases e <;> rfl
    simp only [Cause.relocate, Gate.diagnose, Option.map_some, e.message_relocate, hcode]
    rfl
  | directive p =>
    have hcode : (p.relocate feedingLines).code = p.code := by cases p <;> rfl
    have hseverity : (p.relocate feedingLines).severity = p.severity := by cases p <;> rfl
    simp only [Cause.relocate, Gate.diagnose, Option.map_some, p.message_relocate, hcode, hseverity]
    rfl
  | grammar e =>
    have hcode : (e.relocate feedingLines).code = e.code := by cases e <;> rfl
    simp only [Cause.relocate, Gate.diagnose, Option.map_some, e.message_relocate, hcode]
    rfl
  | use f =>
    simp only [Cause.relocate, Gate.diagnose, Gate.check]
    split
    · rfl
    · rw [Option.map_some]
      change _ = some (⟨_, _, withLineFeeds (gate.message f), _, _⟩ : Diagnostic)
      rw [← eq_withLineFeeds (gate.oneLine_message f)]

end CSharpCheck
