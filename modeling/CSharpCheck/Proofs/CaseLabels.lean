import CSharpCheck.Proofs.Core.LabelPrograms
import CSharpCheck.Proofs.Reading.Sessions

/-!
# Constants in case labels

A switch over a constant is accepted exactly if the constant does not go on behind something that is
a pattern by itself. Behind parentheses and behind a lone underscore the label must end, although
both may begin a longer constant.
-/

namespace CSharpCheck

theorem Single.IsPlain.mono {symbols more : List Symbol} {s : Single} (h : s.IsPlain symbols)
    (hsymbols : ∀ x ∈ symbols, x ∈ more) : s.IsPlain more :=
  ⟨fun x hx ↦ hsymbols x (h.symbol x hx), h.ordinary, h.ne_bad⟩

namespace Core

/-! ### The tokens of a switch -/

/-- The tokens of plain words are plain where the features of single tokens may be used. -/
theorem plain_of_singles {symbols : List Symbol} {ss : List Single} {ts : Ahead}
    {allowed : Feature → Prop} (h : List.Forall₂ Single.IsToken ss ts) (hapart : Apart ts)
    (hss : ∀ s ∈ ss, s.IsPlain symbols) (harrow : .fatArrow ∉ symbols) (hless : .less ∉ symbols)
    (hlexical : ∀ f ∈ Feature.lexical, allowed f) : Plain allowed ts where
  ordinary t ht word hword := by
    obtain ⟨s, hs, hst⟩ := exists_of_mem_forall₂ h ht
    have hordinary (hkind : s.kind = .identifier) := (hss s hs).ordinary hkind word hword
    rw [Bool.eq_false_iff]
    simp only [Token.isContextual, Token.isIdentifier, hst.kind, hst.text, ne_eq, Bool.and_eq_true,
      beq_iff_eq, not_and]
    exact hordinary
  arrow t ht hkind := by
    obtain ⟨s, hs, hst⟩ := exists_of_mem_forall₂ h ht
    exact harrow ((hss s hs).symbol _ (hst.kind ▸ hkind))
  apart t u us hus := (List.isChain_cons_cons.1 (hapart.suffix hus)).1
  features t ht f hf := by
    obtain ⟨s, -, hst⟩ := exists_of_mem_forall₂ h ht
    exact hlexical f ((s.reads []).mem_lexical (hst.features ▸ hf))
  less t ht hkind := by
    obtain ⟨s, hs, hst⟩ := exists_of_mem_forall₂ h ht
    exact absurd ((hss s hs).symbol _ (hst.kind ▸ hkind)) hless

/-- The symbols in a switch over a label. -/
def switchSymbols : List Symbol := [.openBrace, .closeBrace, .colon, .semicolon] ++ labelSymbols

theorem Label.isPlain_programWords (e : Label) : ∀ s ∈ e.programWords, s.IsPlain switchSymbols := by
  have hsymbol {s : Symbol} (hs : s ∈ switchSymbols) : (symbolSingle s).IsPlain switchSymbols :=
    isPlain_symbolSingle hs
  have hwords : ∀ s ∈ e.words, s.IsPlain switchSymbols := fun s hs ↦
    (e.isPlain_words s hs).mono fun x hx ↦ List.mem_append_right _ hx
  simp only [programWords, List.forall_mem_append, List.forall_mem_cons, Name.isPlain_single,
    isPlain_wordSingle, true_and]
  simp only [hsymbol (show Symbol.openBrace ∈ switchSymbols by decide),
    hsymbol (show Symbol.closeBrace ∈ switchSymbols by decide),
    hsymbol (show Symbol.openParen ∈ switchSymbols by decide),
    hsymbol (show Symbol.closeParen ∈ switchSymbols by decide),
    hsymbol (show Symbol.colon ∈ switchSymbols by decide),
    hsymbol (show Symbol.semicolon ∈ switchSymbols by decide), true_and]
  exact ⟨by simp, hwords, by simp⟩

/-- The closing brace at the end of a switch is read at the end of the text, too. -/
theorem Label.closes_programWords (e : Label) : Single.Closes e.programWords := by
  intro s hs
  rw [programWords, List.getLast?_append, List.getLast?_append] at hs
  obtain rfl : symbolSingle .closeBrace = s := Option.some.inj hs
  exact .of_isFullWord (Symbol.isFullWord_text (s := .closeBrace) rfl false)

/-! ### Sessions -/

/-- A switch over a label at the default version is accepted exactly if the label is read as a
whole, unless it is too deeply nested for the parser. -/
theorem validate_programText_label (e : Label) (script : Bool) (symbols features : List String) :
    ∃ v, validate ⟨.default, script, symbols, features⟩ e.programText = .ok v ∧
      v.version = .v14 ∧
      (e.depth ≤ 46 ∨ (∀ d ∈ v.diagnostics, d.code ≠ GrammarError.code .tooComplex) →
        (v.diagnostics = [] ↔ e.isWhole = true)) := by
  let o : Options := ⟨.default, script, symbols, features⟩
  have hallows {f : Feature} (hf : f.since ≤ .v14) : o.gate.allows f = true :=
    Gate.allows_of_since_le hf
  have hlexical : ∀ f ∈ Feature.lexical, o.gate.allows f = true := fun f hf ↦ by
    have hall : ∀ f ∈ Feature.lexical, f.since ≤ .v14 := by decide
    exact hallows (hall f hf)
  have hreads (ts : Ahead) (htokens : List.Forall₂ Single.IsToken e.programWords ts)
      (hapart : Apart ts) (room : Nat) (hroom : 2 * e.depth + 8 ≤ room) :
      (Rule.unitElements false).Reads
        (grammarRules.terms ⟨(o.gate.allows · = true), (· = o.script), ¬e.isWhole = true⟩ ts.length
          room []) (fun _ _ ↦ e.isWhole = true) ts := by
    let C : Setting := ⟨⟨(o.gate.allows · = true), (· = o.script), ¬e.isWhole = true⟩, true,
      fun _ ↦ hallows (by decide), ts.length⟩
    have hpassage : C.Passage e.programWords ts [] :=
      ⟨⟨ts, (List.append_nil ts).symm, htokens⟩,
        plain_of_singles htokens hapart e.isPlain_programWords (by decide) (by decide) hlexical,
        Nat.le_refl _⟩
    have hpatterns : C.HasPatterns := ⟨rfl, hallows (by decide), hallows (by decide)⟩
    exact (hpassage.reads_program hpatterns hroom fun hwhole ↦ by simp [C, hwhole]).later
      fun _ _ _ hend ↦ hend.2
  obtain ⟨v, hv, hversion, hiff⟩ := validate_line (o := o) e.closes_programWords
    (fun s hs ↦ (e.isPlain_programWords s hs).ne_bad) hreads
  refine ⟨v, hv, hversion, fun hnested ↦ hiff (hnested.imp_left fun hdepth ↦ ?_)⟩
  rw [maxNesting]
  omega

/-- Parentheses around a name that are added to. -/
def Label.sumOfParentheses (n : Name) : Label :=
  .operation (.operand (.primary (.parentheses (.operand (.primary (.name n)))))) .add rfl
    (.primary (.name n))

/-- A constant that goes on behind parentheses is rejected. -/
theorem not_validate_programText_label :
    ¬∀ e : Label, e.depth ≤ 46 →
      validate ⟨.default, false, [], []⟩ e.programText = .ok ⟨.v14, []⟩ := by
  intro h
  let e := Label.sumOfParentheses subjectName
  have haccepted := h e (by decide)
  rw [validate_eq_ok (by decide +kernel)] at haccepted
  have hnone := congrArg Validation.diagnostics (Except.ok.inj haccepted)
  obtain ⟨d, hd⟩ := List.exists_mem_of_ne_nil
    ((Gate.ofChoice .default []).diagnostics (Survey.ofText false [] e.programText).findings)
    (by decide +kernel)
  exact List.ne_nil_of_mem (Diagnostics.mem_sorted.2 hd) hnone

end Core

end CSharpCheck
