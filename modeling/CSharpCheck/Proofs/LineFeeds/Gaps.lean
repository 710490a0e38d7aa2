import CSharpCheck.Proofs.LineFeeds.Lexemes

/-!
# Gaps of a text with line feeds

A gap of a text spells a gap of the text with line feeds, element by element. A line end is one
element, whether it is a CR LF or a single character, and so is a comment that goes on over it.
-/

namespace CSharpCheck

variable {φ : Nat → Nat} {start fed : Nat} {text : List Char}

/-! ### Elements of gaps -/

/-- The elements of gaps are of the same kind. -/
inductive GapItem.Alike : (item item' : GapItem) → Prop
  | blank : Alike .blank .blank
  | lineEnd (pair pair' : Bool) : Alike (.lineEnd pair) (.lineEnd pair')
  | lineComment (extra extra' : Nat) : Alike (.lineComment extra) (.lineComment extra')
  | blockComment (extra extra' : Nat) : Alike (.blockComment extra) (.blockComment extra')
  | openComment (extra extra' : Nat) : Alike (.openComment extra) (.openComment extra')

/-- The gap `items` is one of the text where `items'` is one of the text with line feeds. -/
inductive GapSpells : (text : List Char) → (items items' : List GapItem) → Prop
  | nil (text : List Char) : GapSpells text [] []
  | cons {text : List Char} {item item' : GapItem} {items items' : List GapItem} :
      item.Alike item' → spelledLength text item'.length = item.length →
      GapSpells (text.drop item.length) items items' →
      GapSpells text (item :: items) (item' :: items')

/-- A sign of two characters that a text does not start with is none in the text with line feeds. -/
theorem lineFeeds_not_sign {c d e : Char} {cs : List Char}
    (hchars : isLineEnd d = false ∧ isLineEnd e = false)
    (hsign : ∀ rest, c = d → cs = e :: rest → False) : ∀ rest, lineFeed c = d →
      lineFeeds ((c :: cs).drop (lineEndLength (c :: cs))) = e :: rest → False := by
  intro rest hc hcs
  obtain rfl := (lineFeed_eq_iff hchars.1).1 hc
  rw [lineEndLength_of_not_isLineEnd hchars.1] at hcs
  have hhead := beq_head?_lineFeeds hchars.2 cs
  rw [List.drop_succ_cons, List.drop_zero] at hcs
  rw [hcs, List.head?_cons, beq_self_eq_true, eq_comm, beq_iff_eq] at hhead
  obtain ⟨ds, rfl⟩ := List.head?_eq_some_iff.1 hhead
  exact hsign ds rfl rfl

/-- A block comment goes on behind every character that does not end it, a CR LF, too. -/
theorem blockCommentLength?_cons {c : Char} {cs : List Char}
    (hc : ∀ rest, c = '*' → cs = '/' :: rest → False) :
    blockCommentLength? (c :: cs) =
      (blockCommentLength? ((c :: cs).drop (lineEndLength (c :: cs)))).map
        (· + lineEndLength (c :: cs)) := by
  rw [lineEndLength_cons]
  split
  · next hpair =>
    obtain ⟨rfl, hhead⟩ := hpair
    obtain ⟨ds, rfl⟩ := List.head?_eq_some_iff.1 hhead
    rw [blockCommentLength?, blockCommentLength?, Option.map_map]
    · rfl
    · exact fun _ h ↦ absurd h (by decide)
    · exact hc
  · rw [blockCommentLength?]
    · rfl
    · exact hc

theorem blockCommentLength?_lineFeeds (text : List Char) :
    (blockCommentLength? (lineFeeds text)).map (spelledLength text) = blockCommentLength? text := by
  induction text using lineFeeds_induction with
  | nil => rfl
  | cons c cs ih =>
    by_cases hend : ∃ rest, c = '*' ∧ cs = '/' :: rest
    · obtain ⟨rest, rfl, rfl⟩ := hend
      rw [lineFeeds_cons_of_not_isLineEnd (by decide), lineFeeds_cons_of_not_isLineEnd (by decide),
        blockCommentLength?, blockCommentLength?, Option.map_some, spelledLength_of_le]
      rw [restOfLine_cons (by decide), restOfLine_cons (by decide)]
      exact Nat.le_add_left 2 _
    · have hgoes : ∀ rest, c = '*' → cs = '/' :: rest → False :=
        fun rest hc hcs ↦ hend ⟨rest, hc, hcs⟩
      rw [lineFeeds_cons, blockCommentLength?_cons hgoes, ← ih, blockCommentLength?,
        Option.map_map, Option.map_map]
      · congr 1
        funext n
        exact (spelledLength_cons c cs n).trans (Nat.add_comm _ _)
      · exact lineFeeds_not_sign (by decide) hgoes

theorem gapItem?_lineFeeds (inDirective : Bool) (text : List Char) :
    (gapItem? inDirective text = none ∧ gapItem? inDirective (lineFeeds text) = none) ∨
      ∃ item item', gapItem? inDirective text = some item ∧
        gapItem? inDirective (lineFeeds text) = some item' ∧ item.Alike item' ∧
          spelledLength text item'.length = item.length := by
  have hsign {c : Char} (hc : isLineEnd c = false) (cs : List Char) :
      lineFeeds ('/' :: c :: cs) = '/' :: c :: lineFeeds cs := by
    rw [lineFeeds_cons_of_not_isLineEnd (by decide), lineFeeds_cons_of_not_isLineEnd hc]
  have hbehind {c : Char} (hc : isLineEnd c = false) (cs : List Char) (n : Nat) :
      spelledLength ('/' :: c :: cs) (n + 2) = spelledLength cs n + 2 := by
    rw [spelledLength_cons, lineEndLength_of_not_isLineEnd (by decide), List.drop_succ_cons,
      List.drop_zero, spelledLength_cons, lineEndLength_of_not_isLineEnd hc, List.drop_succ_cons,
      List.drop_zero]
    omega
  fun_cases gapItem? inDirective text with
  | case1 => exact .inl ⟨rfl, rfl⟩
  | case2 cs =>
    rw [hsign (by decide), gapItem?, restOfLine_lineFeeds]
    refine .inr ⟨_, _, rfl, rfl, .lineComment _ _, ?_⟩
    exact (hbehind (by decide) cs _).trans (congrArg (· + 2) (spelledLength_of_le (Nat.le_refl _)))
  | case3 cs extra hextra =>
    rw [← blockCommentLength?_lineFeeds, Option.map_eq_some_iff] at hextra
    obtain ⟨extra', hextra', rfl⟩ := hextra
    rw [hsign (by decide), gapItem?, hextra']
    exact .inr ⟨_, _, rfl, rfl, .blockComment _ _, hbehind (by decide) cs extra'⟩
  | case4 cs hopen =>
    rw [← blockCommentLength?_lineFeeds, Option.map_eq_none_iff] at hopen
    rw [hsign (by decide), gapItem?, hopen]
    refine .inr ⟨_, _, rfl, rfl, .openComment _ _, ?_⟩
    exact (hbehind (by decide) cs _).trans (congrArg (· + 2) (spelledLength_length cs))
  | case5 c cs hline hblock hend hin =>
    rw [lineFeeds_cons, gapItem?, if_pos ((isLineEnd_lineFeed c).trans hend), if_pos hin]
    · exact .inl ⟨rfl, rfl⟩
    · exact lineFeeds_not_sign (by decide) hline
    · exact lineFeeds_not_sign (by decide) hblock
  | case6 c cs hline hblock hend hin =>
    rw [lineFeeds_cons, gapItem?, if_pos ((isLineEnd_lineFeed c).trans hend), if_neg hin]
    · refine .inr ⟨_, _, rfl, rfl, .lineEnd _ _, ?_⟩
      rw [lineFeed_beq_cr, Bool.false_and, GapItem.length, GapItem.length,
        if_neg Bool.false_ne_true, spelledLength_cons, spelledLength_zero, Nat.add_zero, lineEndLength_cons]
      simp only [Bool.and_eq_true, beq_iff_eq]
    · exact lineFeeds_not_sign (by decide) hline
    · exact lineFeeds_not_sign (by decide) hblock
  | case7 c cs hline hblock hend hblank =>
    rw [Bool.not_eq_true] at hend
    rw [lineFeeds_cons, gapItem?, if_neg (by simp [isLineEnd_lineFeed, hend]),
      if_pos (by rw [lineFeed_of_not_isLineEnd hend, hblank])]
    · refine .inr ⟨_, _, rfl, rfl, .blank, spelledLength_of_le (restOfLine_pos hend cs)⟩
    · exact lineFeeds_not_sign (by decide) hline
    · exact lineFeeds_not_sign (by decide) hblock
  | case8 c cs hline hblock hend hblank =>
    rw [Bool.not_eq_true] at hend
    rw [lineFeeds_cons, gapItem?, if_neg (by simp [isLineEnd_lineFeed, hend]),
      if_neg (by rw [lineFeed_of_not_isLineEnd hend]; exact hblank)]
    · exact .inl ⟨rfl, rfl⟩
    · exact lineFeeds_not_sign (by decide) hline
    · exact lineFeeds_not_sign (by decide) hblock

/-! ### Whole gaps -/

/-- The gap at the beginning of the text. -/
theorem gapSpells_gap (inDirective : Bool) (text : List Char) :
    GapSpells text (gap inDirective text) (gap inDirective (lineFeeds text)) := by
  induction hlength : text.length using Nat.strongRecOn generalizing text with
  | ind length ih =>
    rw [gap, gap]
    rcases gapItem?_lineFeeds inDirective text with
      ⟨hnone, hnone'⟩ | ⟨item, item', hitem, hitem', halike, hspelled⟩
    · rw [hnone, hnone']
      exact .nil text
    · rw [hitem, hitem']
      cases text with
      | nil => cases hitem
      | cons c cs =>
        have hpos := item.length_pos
        rw [List.length_cons] at hlength
        simp only
        rw [if_neg (List.cons_ne_nil _ _),
          if_neg (lineFeeds_eq_nil_iff.not.2 (List.cons_ne_nil _ _)), drop_lineFeeds, hspelled]
        refine .cons halike hspelled (ih _ ?_ _ rfl)
        rw [List.length_drop, List.length_cons]
        omega

namespace GapSpells

variable {items items' : List GapItem}

theorem length (h : GapSpells text items items') :
    spelledLength text (gapLength items') = gapLength items := by
  induction h with
  | nil => exact spelledLength_zero _
  | cons _ hspelled _ ih =>
    simp only [gapLength, List.foldr_cons] at ih ⊢
    rw [spelledLength_add, hspelled, ih]

theorem faults (h : GapSpells text items items') (hplace : SpelledFrom φ start fed text) :
    Fault.Spells φ (gapFaults start items) (gapFaults fed items') := by
  induction h generalizing start fed with
  | nil => exact .nil
  | @cons text item item' items items' halike hspelled _ ih =>
    have hrest := hplace.drop item'.length
    rw [hspelled] at hrest
    cases halike with
    | openComment => exact Fault.Spells.append (.single rfl hplace.here hplace.here) (ih hrest)
    | _ => exact ih hrest

end GapSpells

end CSharpCheck
