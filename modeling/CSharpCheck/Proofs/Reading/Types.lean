import CSharpCheck.Proofs.Reading.TypeScans

/-!
# Names, types, attributes and parameters keep the brackets

The rules that declarations, statements and expressions have in common.
-/

namespace CSharpCheck.Rule

variable {α : Type} {s : Spot}

theorem keeps_type (inExpression : Bool) : (type inExpression).Keeps := by
  refine .look fun s hs _ ↦ ?_
  dsimp only
  split
  · exact (keeps_errorHere (by simp)).at s |>.bind fun _ ↦ keeps_pure false
  · next length hstop =>
    refine (quiet_requireUses _ _).keepsAt_bind fun _ ↦ .bind ?_ fun _ ↦ keeps_pure true
    exact keepsAt_skip_of_legible hs (Ahead.regular_take_typeScan hstop)

theorem keeps_needType : needType.Keeps := (keeps_type false).bind fun _ ↦ keeps_pure ()

/-- Where a type has been seen ahead, what comes after it is read next. -/
theorem TakesAt.type {inExpression : Bool} {stop : Nat} {f : Bool → Rule α} {before : Brackets}
    {after : α → Brackets} (hstop : (s.ahead.typeScan inExpression).stop = some stop)
    (h : ∀ t : Spot, t.ahead = s.ahead.drop stop → (f true).TakesAt t before after) :
    (Rule.type inExpression >>= f).TakesAt s before after := by
  intro hs
  rw [ensures_bind, Rule.type]
  intro hlegible _
  dsimp only
  rw [hstop, ensures_bind]
  refine quiet_requireUses _ _ s _ fun _ ↦ ?_
  rw [ensures_bind]
  have hskip : (skip stop).KeepsAt s := keepsAt_skip_of_legible hlegible
    (Ahead.regular_take_typeScan hstop)
  exact ⟨(hskip before hs).1, h _ rfl (hskip before hs).2⟩

theorem TakesAt.ignoredType {inExpression : Bool} {stop : Nat} {f : Unit → Rule α}
    {before : Brackets} {after : α → Brackets}
    (hstop : (s.ahead.typeScan inExpression).stop = some stop)
    (h : ∀ t : Spot, t.ahead = s.ahead.drop stop → (f ()).TakesAt t before after) :
    ((Rule.type inExpression >>= fun _ ↦ Pure.pure ()) >>= f).TakesAt s before after := by
  intro hs
  have htype := TakesAt.type (f := fun _ ↦ f ()) hstop h hs
  rw [ensures_bind] at htype
  rw [ensures_bind, ensures_bind]
  exact htype

/-- A declaration that has been seen ahead: a type, and a name that is read next. -/
theorem KeepsAt.declared {r : Rule α}
    (h : ∃ stop, s.ahead.typeEnd = some stop ∧ Ahead.isIdentifier (s.ahead.drop stop) = true)
    (hr : ∀ t : Spot, t.ahead.IsPlain → r.KeepsAt t) :
    (Rule.needType >>= fun _ ↦ r).KeepsAt s := by
  obtain ⟨stop, hstop, hname⟩ := h
  refine fun open_ ↦ .ignoredType hstop fun t ht ↦ hr t ?_ open_
  rw [ht]
  exact Ahead.isPlain_of_isIdentifier hname

private theorem argumentScan_stop {ts : Ahead} {stop : Nat}
    (h : ts.expressionArgumentsEnd = some stop) : ts.argumentScan.stop = some stop := by
  simp only [Ahead.expressionArgumentsEnd] at h
  split at h
  · contradiction
  · next stop' hstop =>
    split at h
    · rw [← h]
      exact hstop
    · contradiction

theorem keeps_genericSuffix : genericSuffix.Keeps := by
  refine .look fun s hs _ ↦ .ite (fun hless ↦ ?_) fun _ ↦ (keeps_pure ()).at s
  dsimp only
  split
  · exact (keeps_pure ()).at s
  · next length hstop =>
    refine (quiet_requireUses _ _).keepsAt_bind fun _ ↦ ?_
    exact keepsAt_skip_of_legible hs
      (Ahead.regular_take_argumentScan hless (argumentScan_stop hstop))

theorem keeps_namePart : namePart.Keeps :=
  keeps_expectIdentifier.bind fun _ ↦ .ite keeps_genericSuffix (keeps_pure ())

theorem keeps_dottedName : dottedName.Keeps := by
  refine keeps_needIdentifier.bind fun _ ↦ keeps_whileAhead (fun s hs ↦ ?_) fun s hs ↦ ?_
  · exact (keepsAt_skipToken (Ahead.isPlain_of_isOneOf hs (by decide))).bind fun _ ↦
      keeps_needIdentifier
  · exact (movesAt_skipToken (Ahead.ne_nil_of_any hs)).bind_left _

theorem keeps_attributeArguments : attributeArguments.Keeps := by
  refine fun open_ ↦ .ifAccept (.ifAccept (keeps_pure () _) ?_) (keeps_pure () _)
  refine (keeps_commaSeparated (.ifAsk (fun s hs ↦ ?_) keeps_expression) _).bind fun _ ↦
    takes_need .closeParen open_
  rw [Bool.and_eq_true] at hs
  exact (keepsAt_skip_two (Ahead.isPlain_of_isIdentifier hs.1)
    (Ahead.isPlain_of_isOneOf hs.2 (by decide)) hs.1 hs.2).bind fun _ ↦ keeps_expression

theorem keeps_attributeItem : attributeItem.Keeps := by
  refine .look fun s hs _ ↦ ?_
  dsimp only
  split
  · exact keeps_needIdentifier.at s
  · next length hstop =>
    have hskip : (skip length).KeepsAt s := keepsAt_skip_of_legible hs
      (Ahead.regular_take_nameScan hstop)
    split
    · exact (quiet_requireAt _ _).keepsAt_bind fun _ ↦ (quiet_requireUses _ _).keepsAt_bind
        fun _ ↦ hskip.bind fun _ ↦ keeps_attributeArguments
    · exact (quiet_pure _).keepsAt_bind fun _ ↦ (quiet_requireUses _ _).keepsAt_bind
        fun _ ↦ hskip.bind fun _ ↦ keeps_attributeArguments

theorem keepsAt_attributeSection (h : s.ahead.is .openBracket = true) :
    attributeSection.KeepsAt s := by
  intro open_
  refine (takesAt_skipToken h).bind fun _ t _ ↦ TakesAt.bind (KeepsAt.look (fun _ _ ↦ ?_) _)
    fun target u _ ↦ (Takes.bind (keeps_repeating ?_ ?_ _) fun _ ↦
      (takes_need .closeBracket open_).bind fun _ ↦ keeps_pure target open_) u
  · -- The target, if there is one.
    dsimp only
    split
    · next target colon rest hahead =>
      refine .ite (fun htarget ↦ ?_) fun _ ↦ (keeps_pure none).at t
      rw [Bool.and_eq_true, Bool.or_eq_true] at htarget
      refine (keepsAt_skip ?_).bind fun _ ↦ keeps_pure _
      rw [hahead]
      exact .cons (htarget.1.elim Token.isPlain_of_isIdentifier Token.isPlain_of_isKeyword)
        (.cons (Token.isPlain_of_is htarget.2 rfl) (.zero _))
    · exact (keeps_pure none).at t
  · exact keeps_attributeItem.bind fun _ ↦ (keeps_accept rfl).bind fun _ ↦
      .ite ((keeps_ask _).bind fun _ ↦ keeps_pure _) (keeps_pure _)
  · refine fun s ↦ .bind_right fun _ t _ _ ↦ (moves_accept .comma t).bind fun b u _ hb _ ↦ ?_
    rw [if_neg hb]
    exact movesAt_pure Bool.false_ne_true

theorem movesAt_attributeSection (h : s.ahead.is .openBracket = true) :
    attributeSection.MovesAt s fun _ ↦ True :=
  (movesAt_skipToken (Ahead.ne_nil_of_any h)).bind_left _

theorem keeps_attributeSections : attributeSections.Keeps :=
  keeps_whileAhead (fun _ hs ↦ (keepsAt_attributeSection hs).bind fun _ ↦ keeps_pure ())
    fun _ hs ↦ (movesAt_attributeSection hs).bind_left _

private theorem parameterModifier?_eq_some {ts : Ahead} {t : Token}
    (h : parameterModifier? ts = some t) : ts ≠ [] ∧ ts.IsPlain := by
  unfold parameterModifier? at h
  split at h
  · contradiction
  · next u rest =>
    refine ⟨List.cons_ne_nil u rest, fun v hv ↦ ?_⟩
    cases hv
    dsimp only at h
    split at h
    · next hmodifier =>
      rw [Bool.or_eq_true, Bool.and_eq_true] at hmodifier
      exact hmodifier.elim Token.isPlain_of_isWordOf fun hscoped ↦
        Token.isPlain_of_isContextual hscoped.1
    · contradiction

theorem keeps_parameterModifiers : parameterModifiers.Keeps := by
  refine keeps_loop (fun modifiers ↦ .look fun s _ _ ↦ ?_)
    (fun modifiers s ↦ .look fun _ ↦ ?_) fun _ ↦ keeps_pure _
  · dsimp only
    split
    · exact (keeps_pure _).at s
    · next t ht =>
      have hskip := (keepsAt_skipToken (parameterModifier?_eq_some ht).2).bind fun _ ↦
        keeps_pure (Round.again (modifiers ++ [⟨s.index, t⟩]))
      split
      · exact (quiet_requireHere _).keepsAt_bind fun _ ↦ hskip
      · exact (quiet_pure _).keepsAt_bind fun _ ↦ hskip
  · dsimp only
    split
    · exact movesAt_pure (by simp)
    · next t ht =>
      have hskip (u : Spot) (hu : s.Precedes u) (hindex : s.index = u.index) :=
        (movesAt_skipToken (hu.ahead_eq hindex.symm ▸ (parameterModifier?_eq_some ht).1)).bind_left
          (f := fun _ ↦ Pure.pure (Round.again (modifiers ++ [(⟨s.index, t⟩ : Placed)])))
          fun outcome ↦ ∃ state', outcome = .again state'
      split
      · exact .bind_right fun _ ↦ hskip
      · exact .bind_right fun _ ↦ hskip

theorem keeps_defaultValue (f : Feature) : (defaultValue f).Keeps :=
  .ifAsk (fun _ hs ↦ (keepsAt_takeFeature (Ahead.isPlain_of_is hs rfl)).bind fun _ ↦
    keeps_expression) (keeps_pure ())

theorem keeps_parameterList {opening closing : Symbol} (hopening : opening.closes = [])
    (hmatch : opening.opens = closing.closes) (hclosing : closing.opens = []) :
    (parameterList opening closing).Keeps := by
  refine .ifExpect hopening fun open_ ↦ ?_
  rw [hmatch]
  refine .ifAccept ?_ ((keeps_commaSeparated ?_ _).bind fun _ ↦ ?_)
  · rw [hclosing]
    exact keeps_pure () open_
  · exact keeps_attributeSections.bind fun _ ↦ keeps_parameterModifiers.bind fun _ ↦
      (keeps_type false).bind fun _ ↦ .ite
        (keeps_needIdentifier.bind fun _ ↦ keeps_defaultValue _) (keeps_defaultValue _)
  · have hneed := takes_need closing open_
    rw [hclosing] at hneed
    exact hneed

theorem keeps_parameters : parameters.Keeps := keeps_parameterList rfl rfl rfl

theorem keepsAt_typeParameters (h : s.ahead.is .less = true) : typeParameters.KeepsAt s := by
  refine (keepsAt_takeFeature (Ahead.isPlain_of_is h rfl)).bind fun _ ↦
    (keeps_commaSeparated ?_).bind fun _ ↦ keeps_need rfl
  exact keeps_attributeSections.bind fun _ ↦ .ifAsk (fun _ hs ↦
    (keepsAt_takeFeature (Ahead.isPlain_of_isWordOf hs)).bind fun _ ↦ keeps_needIdentifier)
    keeps_needIdentifier

theorem keeps_optionalTypeParameters : optionalTypeParameters.Keeps :=
  .ifAsk (fun _ ↦ keepsAt_typeParameters) (keeps_pure ())

theorem keeps_typeConstraint : typeConstraint.Keeps := by
  refine (keeps_acceptWord _).bind fun _ ↦ .ite (keeps_allow rfl) ?_
  refine (keeps_acceptWord _).bind fun _ ↦ .ite (keeps_pure ()) ?_
  refine (keeps_acceptWord _).bind fun _ ↦ .ite (fun open_ ↦ ?_) ?_
  · exact (takes_need .openParen open_).bind fun _ ↦ takes_need .closeParen open_
  refine (keeps_acceptWord _).bind fun _ ↦ .ite (keeps_pure ()) ?_
  refine .ifAsk (fun s hs ↦ ?_) keeps_needType
  exact (keepsAt_takeFeature (Ahead.isPlain_of_isContextual hs)).bind fun _ ↦
    (keeps_needWord _).bind fun _ ↦ keeps_needWord _

theorem keeps_constraintClauses : constraintClauses.Keeps := by
  refine keeps_whileAhead (fun s hs ↦ ?_) fun s hs ↦ ?_
  · rw [Bool.and_eq_true, Bool.and_eq_true] at hs
    refine (keepsAt_skip ?_).bind fun _ ↦ keeps_commaSeparated keeps_typeConstraint
    have hcolon : Ahead.is s.ahead.tail.tail .colon = true := by
      rw [Ahead.tail, Ahead.tail, List.drop_drop]
      exact hs.2
    exact (Ahead.isPlain_of_isContextual hs.1.1).balanced (Ahead.ne_nil_of_any hs.1.1)
      ((Ahead.isPlain_of_isIdentifier hs.1.2).balanced (Ahead.ne_nil_of_any hs.1.2)
        ((Ahead.isPlain_of_is hcolon rfl).balanced (Ahead.ne_nil_of_any hcolon) (.zero _)))
  · rw [Bool.and_eq_true, Bool.and_eq_true] at hs
    exact (movesAt_skip (by decide) (Ahead.ne_nil_of_any hs.1.1)).bind_left _

end CSharpCheck.Rule
