import CSharpCheck.Grammar.Pattern
import CSharpCheck.Proofs.Reading.Expressions

/-!
# Patterns keep the brackets
-/

namespace CSharpCheck

namespace Ahead

theorem isPlain_of_isDesignation {ts : Ahead} (h : ts.isDesignation = true) : ts.IsPlain := by
  rw [isDesignation, Bool.and_eq_true] at h
  exact isPlain_of_isIdentifier h.1

theorem isContextual_of_isPatternWord {ts : Ahead} {word : String}
    (h : ts.isPatternWord word = true) : ts.isContextual word = true := by
  rw [isPatternWord, Bool.and_eq_true] at h
  exact h.1

end Ahead

namespace Rule

variable {s : Spot}

theorem keeps_designation : designation.Keeps :=
  (keeps_acceptIf fun _ ↦ Ahead.isPlain_of_isDesignation).bind fun _ ↦ keeps_pure ()

theorem keeps_varDesignation : (call .varDesignation Pure.pure).Keeps :=
  fun open_ _ ↦ takesAt_call trivial fun _ ↦ keeps_pure () open_

theorem keeps_subpattern (count : SubpatternCount) : (subpattern count).Keeps := by
  refine .ask fun s ↦ .guarded (keeps_pattern.bind fun _ ↦ keeps_pure _) fun hs hrest ↦ ?_
  rw [Bool.and_eq_true] at hs
  exact (keepsAt_skip_two (Ahead.isPlain_of_isIdentifier hs.1)
    (Ahead.isPlain_of_is hs.2 rfl) hs.1 hs.2).bind fun _ ↦ hrest

theorem keepsAt_subpatterns (h : s.ahead.is .openParen = true) : subpatterns.KeepsAt s := by
  intro open_
  have hclose (count : SubpatternCount) :
      (need .closeParen >>= fun _ ↦ Pure.pure count).Takes (.paren :: open_) fun _ ↦ open_ :=
    (takes_need .closeParen open_).bind fun _ ↦ keeps_pure count open_
  refine (takesAt_skipToken h).bind fun _ t _ ↦ (Takes.bind (keeps_ask _ _) fun b ↦
    .ite (fun _ ↦ ?_) fun _ ↦ ?_) t
  · exact Takes.bind (keeps_pure _ _) fun _ ↦ hclose _
  · exact Takes.bind (keeps_commaSeparatedWith keeps_subpattern _) fun _ ↦ hclose _

theorem keeps_propertyName : propertyName.Keeps := by
  refine .ifAsk (fun s hs ↦ quiet_here.keepsAt_bind fun start ↦ ?_) (keeps_pure ())
  rw [Bool.and_eq_true] at hs
  refine (keepsAt_skipToken (Ahead.isPlain_of_isIdentifier hs.1)).bind fun _ ↦
    (keeps_ask _).bind fun _ ↦ .guarded (keeps_need rfl) fun hrest ↦
      (keeps_whileAhead (fun t ht ↦ ?_) fun t ht ↦ ?_).bind fun _ ↦
        (quiet_requireAt _ _).keeps.bind fun _ ↦ hrest
  · exact (keepsAt_skipToken (Ahead.isPlain_of_is ht rfl)).bind fun _ ↦ keeps_needIdentifier
  · exact (movesAt_skipToken (Ahead.ne_nil_of_any ht)).bind_left _

theorem keepsAt_propertyPattern (h : s.ahead.is .openBrace = true) : propertyPattern.KeepsAt s :=
  fun open_ ↦ (takesAt_skipToken h).bind fun _ t _ ↦
    (Takes.bind (keeps_commaSeparatedUpTo (keeps_propertyName.bind fun _ ↦
      keeps_pattern.bind fun _ ↦ keeps_pure ()) _) fun _ ↦ takes_need .closeBrace open_) t

theorem keeps_optionalPropertyPattern : optionalPropertyPattern.Keeps :=
  .ifAsk (fun _ ↦ keepsAt_propertyPattern) (keeps_pure ())

theorem keepsAt_listPattern (h : s.ahead.is .openBracket = true) : listPattern.KeepsAt s := by
  have keeps_ignored : (pattern >>= fun _ ↦ Pure.pure ()).Keeps :=
    keeps_pattern.bind fun _ ↦ keeps_pure ()
  refine fun open_ ↦ (takesAt_takeFeature h).bind fun _ t _ ↦
    (Takes.bind (keeps_commaSeparatedUpTo ?_ _) fun _ ↦
      (takes_need .closeBracket open_).bind fun _ ↦ keeps_designation open_) t
  exact (keeps_accept rfl).bind fun _ ↦ .ite
    ((keeps_ask _).bind fun _ ↦ .ite (keeps_pure ()) keeps_ignored) keeps_ignored

theorem keepsAt_parenthesizedPattern (h : s.ahead.is .openParen = true) :
    parenthesizedPattern.KeepsAt s := by
  refine quiet_here.keepsAt_bind fun start ↦ (keepsAt_subpatterns h).bind fun count ↦
    .ite (.ite (keeps_pure _) ?_) ?_
  · exact (quiet_requireAt _ _).keeps.bind fun _ ↦ keeps_pure _
  · exact (quiet_requireAt _ _).keeps.bind fun _ ↦ keeps_optionalPropertyPattern.bind fun _ ↦
      keeps_designation.bind fun _ ↦ keeps_pure _

/-- A pattern that begins with a type which has been seen ahead. -/
theorem keepsAt_typedPattern {length : Nat} (h : (s.ahead.typeScan true).stop = some length) :
    (typedPattern length).KeepsAt s := by
  have keeps_patternType : (type true >>= fun _ ↦ Pure.pure ()).Keeps :=
    (keeps_type true).bind fun _ ↦ keeps_pure ()
  refine .look fun hs _ ↦ .ite (fun hname ↦ ?_) fun _ ↦ .ite (fun _ ↦ ?_) fun _ ↦
    .ite (fun _ ↦ ?_) fun _ ↦ (keeps_pure none).at s
  · refine (quiet_requireHere _).keepsAt_bind fun _ open_ ↦ .ignoredType h fun t ht ↦ ?_
    refine ((keepsAt_skipToken ?_).bind fun _ ↦ keeps_pure _) open_
    rw [ht]
    exact Ahead.isPlain_of_isDesignation hname
  · have keeps_rest : (optionalPropertyPattern >>= fun _ ↦ designation >>= fun _ ↦
        Pure.pure (some PatternKind.other)).Keeps :=
      keeps_optionalPropertyPattern.bind fun _ ↦ keeps_designation.bind fun _ ↦ keeps_pure _
    exact (quiet_requireHere _).keepsAt_bind fun _ ↦ (keeps_patternType.at s).bind fun _ ↦
      .ifAsk (fun t ht ↦ (keepsAt_subpatterns ht).bind fun _ ↦ keeps_rest) keeps_rest
  · exact (keeps_patternType.at s).bind fun _ ↦ keeps_pure _

theorem keeps_constantPattern : constantPattern.Keeps :=
  .look fun s _ _ ↦ ((keeps_binary _).at s).bind fun _ ↦ quiet_here.keeps.bind fun _ ↦
    keeps_pure _

theorem keeps_primaryPattern : primaryPattern.Keeps := by
  refine .look fun s _ _ ↦ .ite (fun h ↦ ?_) fun _ ↦ .ite keepsAt_parenthesizedPattern fun _ ↦
    .ite (fun h ↦ ?_) fun _ ↦ .ite (fun h ↦ ?_) fun _ ↦ .ite (fun h ↦ ?_) fun _ ↦
      .ite (fun h ↦ ?_) fun _ ↦ ?_
  · exact (keepsAt_takeFeature (Ahead.isPlain_of_isOneOf h (by decide))).bind fun _ ↦
      (keeps_binary _).bind fun _ ↦ keeps_pure _
  · exact (quiet_requireHere _).keepsAt_bind fun _ ↦ (keepsAt_propertyPattern h).bind fun _ ↦
      keeps_designation.bind fun _ ↦ keeps_pure _
  · exact (keepsAt_listPattern h).bind fun _ ↦ keeps_pure _
  · rw [Bool.and_eq_true] at h
    exact (keepsAt_takeFeature (Ahead.isPlain_of_isContextual h.1)).bind fun _ ↦
      keeps_varDesignation.bind fun _ ↦ keeps_pure _
  · rw [Bool.and_eq_true] at h
    exact (keepsAt_skipToken (Ahead.isPlain_of_isContextual h.1)).bind fun _ ↦ keeps_pure _
  · dsimp only
    split
    · exact keeps_constantPattern.at s
    · next length hlength =>
      refine (keepsAt_typedPattern hlength).bind fun kind ↦ ?_
      cases kind with
      | none => exact keeps_constantPattern
      | some kind => exact keeps_pure _

theorem keeps_notPattern : notPattern.Keeps := by
  refine Keeps.bind (keeps_loop (fun _ ↦ .ifAsk (fun s hs ↦ ?_) (keeps_pure _))
    (fun _ s ↦ .ask (.ite (fun hs ↦ ?_) fun _ ↦ movesAt_pure (by simp))) fun _ ↦
      keeps_pure _) fun negated ↦ keeps_primaryPattern.bind fun kind ↦ ?_
  · exact (keepsAt_takeFeature (Ahead.isPlain_of_isContextual
      (Ahead.isContextual_of_isPatternWord hs))).bind fun _ ↦ keeps_pure _
  · exact (movesAt_takeFeature (Ahead.ne_nil_of_any
      (Ahead.isContextual_of_isPatternWord hs))).bind_left _
  · exact keeps_pure _

theorem keeps_joinedPatterns (word : String) {item : Rule (Option PatternKind)}
    (h : item.Keeps) : (joinedPatterns word item).Keeps := by
  refine h.bind fun _ ↦ keeps_loop (fun _ ↦ .ifAsk (fun s hs ↦ ?_) (keeps_pure _))
    (fun _ s ↦ .ask (.ite (fun hs ↦ ?_) fun _ ↦ movesAt_pure (by simp))) fun _ ↦ keeps_pure _
  · exact (keepsAt_takeFeature (Ahead.isPlain_of_isContextual
      (Ahead.isContextual_of_isPatternWord hs))).bind fun _ ↦ h.bind fun _ ↦ keeps_pure _
  · exact (movesAt_takeFeature (Ahead.ne_nil_of_any
      (Ahead.isContextual_of_isPatternWord hs))).bind_left _

theorem keeps_patternRule : patternRule.Keeps :=
  keeps_joinedPatterns "or" (keeps_joinedPatterns "and" keeps_notPattern)

theorem keeps_varDesignationRule : varDesignationRule.Keeps := by
  refine fun open_ ↦ .ifAccept ?_ (keeps_needIdentifier open_)
  exact Takes.bind (keeps_ask _ _) fun _ ↦ .ite (fun _ ↦ takes_need .closeParen open_) fun _ ↦
    (keeps_commaSeparated keeps_varDesignation _).bind fun _ ↦ takes_need .closeParen open_

end Rule

end CSharpCheck
