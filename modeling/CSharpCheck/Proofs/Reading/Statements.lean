import CSharpCheck.Grammar.Statement
import CSharpCheck.Proofs.Reading.Patterns

/-!
# Statements keep the brackets
-/

namespace CSharpCheck

namespace Ahead

theorem isPlain_of_isLocalModifier {ts : Ahead} (h : ts.isLocalModifier = true) : ts.IsPlain := by
  rw [isLocalModifier, Bool.or_eq_true, Bool.and_eq_true, Bool.or_eq_true] at h
  rcases h with h | ⟨h | h, -⟩
  · exact isPlain_of_isWordOf h
  · exact isPlain_of_isContextual h
  · exact isPlain_of_isContextual h

theorem is_colon_of_isSwitchLabel {ts : Ahead} (h : ts.isSwitchLabel = true)
    (hdefault : ts.isWord .defaultWord = true) : ts.tail.is .colon = true := by
  rw [isSwitchLabel, Bool.or_eq_true, Bool.and_eq_true] at h
  rcases h with hcase | h
  · obtain ⟨t, rest, rfl, ht⟩ := exists_of_any hcase
    have hkind : t.kind = .keyword .defaultWord := by
      simpa [isWord, Token.isWord] using hdefault
    have hkind' : t.kind = .keyword .caseWord := by simpa [Token.isWord] using ht
    simp [hkind] at hkind'
  · exact h.2

theorem ne_nil_of_isSwitchLabel {ts : Ahead} (h : ts.isSwitchLabel = true) : ts ≠ [] := by
  rintro rfl
  simp [isSwitchLabel, isWord] at h

theorem exists_typeEnd_of_isTypedRange {ts : Ahead} (h : ts.isTypedRange = true) :
    ∃ stop, ts.typeEnd = some stop ∧ Ahead.isIdentifier (ts.drop stop) = true := by
  unfold isTypedRange at h
  split at h
  · contradiction
  · next stop hstop =>
    rw [Bool.and_eq_true] at h
    exact ⟨stop, hstop, h.1⟩

end Ahead

namespace Rule

variable {s : Spot}

/-! ### Declarations among statements -/

theorem keeps_localModifierList : localModifierList.Keeps := by
  refine keeps_loop (fun modifiers ↦ .look fun s _ _ ↦ ?_)
    (fun modifiers s ↦ .look fun _ ↦ ?_) fun _ ↦ keeps_pure _
  · dsimp only
    split
    · exact (keeps_pure _).at s
    · next t rest hahead =>
      refine .ite (fun h ↦ ?_) fun _ ↦ (keeps_pure _).at s
      have hskip := (keepsAt_skipToken (Ahead.isPlain_of_isLocalModifier h)).bind fun _ ↦
        keeps_pure (Round.again (modifiers ++ [⟨s.index, t⟩]))
      split
      · exact (quiet_requireHere _).keepsAt_bind fun _ ↦ hskip
      · exact (quiet_pure _).keepsAt_bind fun _ ↦ hskip
  · dsimp only
    split
    · exact movesAt_pure (by simp)
    · next t rest hahead =>
      refine .ite (fun _ ↦ ?_) fun _ ↦ movesAt_pure (by simp)
      have hskip (u : Spot) (hu : s.Precedes u) (hindex : s.index = u.index) :=
        (movesAt_skipToken (hu.ahead_eq hindex.symm ▸ hahead ▸ List.cons_ne_nil t rest)).bind_left
          (f := fun _ ↦ Pure.pure (Round.again (modifiers ++ [(⟨s.index, t⟩ : Placed)])))
          fun outcome ↦ ∃ state', outcome = .again state'
      split
      · exact .bind_right fun _ ↦ hskip
      · exact .bind_right fun _ ↦ hskip

theorem keeps_variableDeclarators : variableDeclarators.Keeps := by
  refine keeps_commaSeparated (keeps_needIdentifier.bind fun _ ↦ (keeps_accept rfl).bind fun _ ↦
    .ite (.ask fun s ↦ .guarded keeps_variableInitializer fun hs hrest ↦ ?_) (keeps_pure ()))
  exact (keepsAt_takeFeature (Ahead.isPlain_of_isWord hs)).bind fun _ ↦ hrest

theorem keeps_localVariables : localVariables.Keeps :=
  keeps_localModifierList.bind fun _ ↦ keeps_needType.bind fun _ ↦ keeps_variableDeclarators

theorem keeps_localDeclaration : localDeclaration.Keeps :=
  keeps_localVariables.bind fun _ ↦ keeps_need rfl

theorem quiet_requireAtWord (k : Keyword) (f : Feature) (modifiers : List Placed) :
    (requireAtWord k f modifiers).Quiet := by
  induction modifiers with
  | nil => exact quiet_pure ()
  | cons m ms ih =>
    rw [requireAtWord]
    split
    · exact ih.require _ _
    · exact ih

theorem keeps_localFunction : localFunction.Keeps :=
  keeps_localModifierList.bind fun _ ↦ (quiet_requireAtWord _ _ _).keeps.bind fun _ ↦
    keeps_needType.bind fun _ ↦ quiet_here.keeps.bind fun _ ↦ keeps_needIdentifier.bind fun _ ↦
      (quiet_requireAt _ _).keeps.bind fun _ ↦ keeps_optionalTypeParameters.bind fun _ ↦
        keeps_parameters.bind fun _ ↦ keeps_constraintClauses.bind fun _ ↦ keeps_body none

/-! ### Statements with bodies -/

theorem keeps_embeddedStatement : embeddedStatement.Keeps :=
  (keeps_ask _).bind fun _ ↦ .guarded keeps_statement fun hrest ↦
    (keeps_errorHere (by simp)).bind fun _ ↦ hrest

theorem keepsAt_ifStatement (h : s.ahead.IsPlain) : ifStatement.KeepsAt s := by
  refine (keepsAt_skipToken h).bind fun _ ↦ keeps_repeating (keeps_condition.bind fun _ ↦
    keeps_embeddedStatement.bind fun _ ↦ (keeps_acceptWord _).bind fun _ ↦ .ite
      ((keeps_acceptWord _).bind fun _ ↦ .ite (keeps_pure true) ?_) (keeps_pure false))
    fun s ↦ .bind_right fun _ t _ _ ↦ .bind_right fun _ u _ _ ↦ ?_
  · exact keeps_embeddedStatement.bind fun _ ↦ keeps_pure false
  · refine (moves_acceptWord .elseWord u).bind fun b v _ hb _ ↦ ?_
    rw [if_neg hb]
    exact movesAt_pure Bool.false_ne_true

theorem keepsAt_guardedStatement (h : s.ahead.IsPlain) : guardedStatement.KeepsAt s :=
  (keepsAt_skipToken h).bind fun _ ↦ keeps_condition.bind fun _ ↦ keeps_embeddedStatement

theorem keepsAt_doStatement (h : s.ahead.IsPlain) : doStatement.KeepsAt s :=
  (keepsAt_skipToken h).bind fun _ ↦ keeps_embeddedStatement.bind fun _ ↦
    (keeps_needWord _).bind fun _ ↦ keeps_condition.bind fun _ ↦ keeps_need rfl

theorem keeps_variablesOr {other : Rule Unit} (h : other.Keeps) : (variablesOr other).Keeps :=
  (keeps_ask _).bind fun _ ↦ .ite keeps_localVariables h

theorem keepsAt_forStatement (h : s.ahead.IsPlain) : forStatement.KeepsAt s := by
  have keeps_expressions := keeps_commaSeparated keeps_expression
  have keeps_next (symbol : Symbol) {r rest : Rule Unit} (hr : r.Keeps) {open_ after : Brackets}
      (hrest : rest.Takes open_ fun _ ↦ after) :
      (Rule.next symbol >>= fun b ↦ if b = true then rest else r >>= fun _ ↦ rest).Takes open_
        fun _ ↦ after :=
    Takes.bind (keeps_ask _ _) fun _ ↦ .ite (fun _ ↦ hrest) fun _ ↦ (hr open_).bind fun _ ↦ hrest
  refine (keepsAt_skipToken h).bind fun _ open_ ↦ (takes_need .openParen open_).bind fun _ ↦
    keeps_next _ (keeps_variablesOr keeps_expressions) ?_
  refine (keeps_need rfl _).bind fun _ ↦ keeps_next _ keeps_expression ?_
  refine (keeps_need rfl _).bind fun _ ↦ keeps_next _ keeps_expressions ?_
  exact (takes_need .closeParen open_).bind fun _ ↦ keeps_embeddedStatement open_

theorem keeps_foreachVariable : foreachVariable.Keeps :=
  (keeps_acceptWord _).bind fun _ ↦ .guarded (.ifAsk (fun _ hs ↦
    .declared (Ahead.exists_typeEnd_of_isTypedRange hs) fun _ ↦ keepsAt_skipToken)
    keeps_expression) fun hrest ↦ (keeps_allowWord _).bind fun _ ↦ hrest

theorem keepsAt_foreachStatement (h : s.ahead.IsPlain) : foreachStatement.KeepsAt s :=
  (keepsAt_skipToken h).bind fun _ open_ ↦ (takes_need .openParen open_).bind fun _ ↦
    (keeps_foreachVariable _).bind fun _ ↦ (keeps_needWord _ _).bind fun _ ↦
      (keeps_expression _).bind fun _ ↦ (takes_need .closeParen open_).bind fun _ ↦
        keeps_embeddedStatement open_

theorem keepsAt_switchLabel (h : s.ahead.isSwitchLabel = true) : switchLabel.KeepsAt s := by
  have keeps_end : (need .colon).Keeps := keeps_need rfl
  refine .ask (.ite (fun hdefault ↦ ?_) fun hdefault ↦ ?_)
  · have hcolon := Ahead.is_colon_of_isSwitchLabel h hdefault
    exact keepsAt_skip_two (Ahead.isPlain_of_isWord hdefault) (Ahead.isPlain_of_is hcolon rfl)
      hdefault hcolon
  · rw [Ahead.isSwitchLabel, Bool.or_eq_true, Bool.and_eq_true] at h
    have hcase := h.resolve_right fun h ↦ hdefault h.1
    refine (keepsAt_skipToken (Ahead.isPlain_of_isWord hcase)).bind fun _ ↦
      quiet_here.keeps.bind fun start ↦ keeps_pattern.bind fun kind ↦
        .guarded (.ask fun t ↦ .guarded keeps_end fun ht hrest ↦ ?_) fun hrest ↦
          (quiet_requireAt _ _).keeps.bind fun _ ↦ hrest
    exact (keepsAt_takeFeature (Ahead.isPlain_of_isContextual ht)).bind fun _ ↦
      keeps_expression.bind fun _ ↦ hrest

theorem movesAt_switchLabel (h : s.ahead ≠ []) : switchLabel.MovesAt s fun _ ↦ True :=
  .ask (.ite (fun _ ↦ movesAt_skip (by decide) h) fun _ ↦ (movesAt_skipToken h).bind_left _)

theorem keepsAt_switchStatement (h : s.ahead.IsPlain) : switchStatement.KeepsAt s := by
  have keeps_sections : (Rule.expect .openBrace >>= fun b ↦ if b = true then
      whileAhead (isBefore .closeBrace) (statementOrRecover (whileAhead (·.isSwitchLabel)
        switchLabel >>= fun _ ↦ statements true)) >>= fun _ ↦ need .closeBrace
      else Pure.pure ()).Keeps := by
    refine .ifExpect rfl fun open_ ↦ (keeps_whileAhead (fun t ht ↦ ?_) (fun t ht ↦ ?_) _).bind
      fun _ ↦ takes_need .closeBrace open_
    · refine keepsAt_statementOrRecover (.bind ?_ fun _ ↦ keeps_statements true)
      exact Keeps.at (keeps_whileAhead (fun _ ↦ keepsAt_switchLabel) fun u hu ↦
        movesAt_switchLabel (Ahead.ne_nil_of_isSwitchLabel hu)) t
    · exact movesAt_statementOrRecover _ (Ahead.ne_nil_of_isBefore ht)
  exact (keepsAt_skipToken h).bind fun _ ↦ (keeps_ask _).bind fun _ ↦
    .ite (keeps_expression.bind fun _ ↦ keeps_sections)
      (keeps_condition.bind fun _ ↦ keeps_sections)

theorem keeps_catchClause : catchClause.Keeps := by
  have keeps_rest : (nextContextual "when" >>= fun b ↦ if b = true then
      takeFeature .exceptionFilter >>= fun _ ↦ condition >>= fun _ ↦ block else block).Keeps := by
    refine .ifAsk (fun s hs ↦ ?_) keeps_block
    exact (keepsAt_takeFeature (Ahead.isPlain_of_isContextual hs)).bind fun _ ↦
      keeps_condition.bind fun _ ↦ keeps_block
  refine fun open_ ↦ .ifAccept ((keeps_needType _).bind fun _ ↦
    (keeps_acceptIf (fun _ ↦ Ahead.isPlain_of_isIdentifier) _).bind fun _ ↦
      (takes_need .closeParen open_).bind fun _ ↦ keeps_rest open_) (keeps_rest open_)

theorem keepsAt_tryStatement (h : s.ahead.IsPlain) : tryStatement.KeepsAt s := by
  refine (keepsAt_skipToken h).bind fun _ ↦ keeps_block.bind fun _ ↦ Keeps.bind
    (keeps_loop (fun _ ↦ (keeps_acceptWord _).bind fun _ ↦ .ite
      (keeps_catchClause.bind fun _ ↦ keeps_pure _) (keeps_pure _)) (fun _ s ↦ ?_)
      fun _ ↦ keeps_pure _) fun caught ↦ (keeps_acceptWord _).bind fun _ ↦ .ite keeps_block
        (.ite (keeps_pure ()) (keeps_errorHere (by simp)))
  exact .ifAcceptIf rfl fun _ _ _ ↦ movesAt_pure (by simp)

theorem keepsAt_usingStatement (h : s.ahead.IsPlain) : usingStatement.KeepsAt s := by
  refine quiet_here.keepsAt_bind fun start ↦ (keepsAt_skipToken h).bind fun _ open_ ↦
    .ifAccept ((keeps_variablesOr keeps_expression _).bind fun _ ↦
      (takes_need .closeParen open_).bind fun _ ↦ keeps_embeddedStatement open_) ?_
  exact (quiet_requireAt _ _).keeps.bind (fun _ ↦ keeps_localDeclaration) open_

theorem keepsAt_fixedStatement (h : s.ahead.IsPlain) : fixedStatement.KeepsAt s :=
  (keepsAt_skipToken h).bind fun _ open_ ↦ (takes_need .openParen open_).bind fun _ ↦
    (keeps_localVariables _).bind fun _ ↦ (takes_need .closeParen open_).bind fun _ ↦
      keeps_embeddedStatement open_

/-! ### Statements without bodies -/

theorem keepsAt_jumpStatement (h : s.ahead.IsPlain) : jumpStatement.KeepsAt s :=
  (keepsAt_skipToken h).bind fun _ ↦ keeps_need rfl

theorem keepsAt_gotoStatement (h : s.ahead.IsPlain) : gotoStatement.KeepsAt s := by
  have keeps_end : (need .semicolon).Keeps := keeps_need rfl
  refine (keepsAt_skipToken h).bind fun _ ↦ (keeps_acceptWord _).bind fun _ ↦
    .ite (keeps_expression.bind fun _ ↦ keeps_end) ((keeps_acceptWord _).bind fun _ ↦
      .ite keeps_end (keeps_needIdentifier.bind fun _ ↦ keeps_end))

theorem keepsAt_returnStatement (h : s.ahead.IsPlain) : returnStatement.KeepsAt s := by
  have keeps_end : (need .semicolon).Keeps := keeps_need rfl
  exact (keepsAt_skipToken h).bind fun _ ↦ (keeps_ask _).bind fun _ ↦
    .ite keeps_end (keeps_expression.bind fun _ ↦ keeps_end)

theorem keepsAt_yieldStatement (h : s.ahead.IsPlain)
    (htail : s.ahead.tail.isWordOf [.returnWord, .breakWord] = true) :
    yieldStatement.KeepsAt s := by
  have keeps_end : (need .semicolon).Keeps := keeps_need rfl
  refine .takeFeature h fun t ht ↦ ?_
  have hplain : t.ahead.IsPlain := ht ▸ Ahead.isPlain_of_isWordOf htail
  exact .acceptIf (fun _ ↦ (keepsAt_skipToken hplain).bind fun _ ↦
    keeps_expression.bind fun _ ↦ keeps_end) fun _ ↦ (keepsAt_skipToken hplain).bind fun _ ↦
      keeps_end

theorem keeps_expressionStatement (topLevel : Bool) : (expressionStatement topLevel).Keeps := by
  refine keeps_expression.bind fun _ ↦ (keeps_accept rfl).bind fun _ ↦ .ite (keeps_pure ())
    (.script fun isScript ↦ ?_)
  exact (keeps_ask _).bind fun _ ↦ .ite (keeps_pure ()) (keeps_need rfl)

theorem keepsAt_wordStatement {k : Keyword} {r : Rule Unit} (hr : wordStatement k = some r)
    (h : s.ahead.IsPlain) : r.KeepsAt s := by
  unfold wordStatement at hr
  split at hr
  all_goals cases hr
  · exact keepsAt_ifStatement h
  · exact keepsAt_guardedStatement h
  · exact keepsAt_guardedStatement h
  · exact keepsAt_doStatement h
  · exact keepsAt_forStatement h
  · exact keepsAt_foreachStatement h
  · exact keepsAt_switchStatement h
  · exact keepsAt_jumpStatement h
  · exact keepsAt_jumpStatement h
  · exact keepsAt_gotoStatement h
  · exact keepsAt_returnStatement h
  · exact keepsAt_returnStatement h
  · exact keepsAt_tryStatement h
  · exact keepsAt_usingStatement h
  · exact keepsAt_fixedStatement h

theorem keepsAt_wordStatementAhead {r : Rule Unit} (hr : wordStatementAhead s.ahead = some r) :
    r.KeepsAt s := by
  unfold wordStatementAhead at hr
  split at hr
  · next k hkind =>
    obtain ⟨t, ht, hkind⟩ := Option.map_eq_some_iff.1 hkind
    refine keepsAt_wordStatement hr fun u hu ↦ ?_
    exact Token.isPlain_of_kind (Option.some.inj (hu.symm.trans ht) ▸ hkind) rfl rfl
  · contradiction

/-- The statements that no reserved word tells. -/
theorem keeps_statementRule (topLevel : Bool) : (statementRule topLevel).Keeps := by
  refine .look fun s _ _ ↦ .ite (fun _ ↦ keeps_block.at s) fun _ ↦ .ite (fun h ↦ ?_) fun _ ↦ ?_
  · exact keepsAt_skipToken (Ahead.isPlain_of_is h rfl)
  dsimp only
  split
  · next r hr => exact keepsAt_wordStatementAhead hr
  refine .ite (fun h ↦ ?_) fun _ ↦ .ite (fun h ↦ ?_) fun _ ↦ .ite (fun h ↦ ?_) fun _ ↦
    .ite (fun h ↦ ?_) fun _ ↦ .ite (fun h ↦ ?_) fun _ ↦ ?_
  · rw [Bool.and_eq_true] at h
    exact (keepsAt_skipToken (Ahead.isPlain_of_isWordOf h.1)).bind fun _ ↦ keeps_block
  · exact (keeps_attributeSections.at s).bind fun _ ↦ keeps_localFunction
  · rw [Bool.and_eq_true] at h
    exact keepsAt_yieldStatement (Ahead.isPlain_of_isContextual h.1) h.2
  · rw [Bool.and_eq_true] at h
    refine .takeFeature (Ahead.isPlain_of_isContextual h.1) fun t ht ↦ ?_
    have hplain : t.ahead.IsPlain := ht ▸ Ahead.isPlain_of_isWordOf h.2
    exact .ask (.ite (fun _ ↦ keepsAt_foreachStatement hplain) fun _ ↦
      keepsAt_usingStatement hplain)
  · exact (keepsAt_skip_label rfl h).bind fun _ ↦ keeps_statement
  · split
    · exact keeps_localFunction.at s
    · exact keeps_localDeclaration.at s
    · exact (keeps_expressionStatement topLevel).at s

end Rule

end CSharpCheck
