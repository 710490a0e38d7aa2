import CSharpCheck.Grammar.CompilationUnit
import CSharpCheck.Proofs.Reading.Declarations
import CSharpCheck.Proofs.Reading.Soundness

/-!
# Compilation units keep the brackets

The rules for namespaces and whole texts, and with them the rules of all nonterminals.
-/

namespace CSharpCheck

theorem Ahead.not_isWord_of_isContextual {ts : Ahead} {word : String} {k : Keyword}
    (h : ts.isContextual word = true) : ¬ts.isWord k = true := by
  obtain ⟨t, rest, rfl, ht⟩ := Ahead.exists_of_any h
  simp_all [Ahead.isWord, Token.isContextual, Token.isWord, Token.isIdentifier]

namespace Rule

variable {s : Spot}

theorem keepsAt_aliasDirective (h : s.ahead.isWord .externWord = true)
    (h' : s.ahead.tail.isContextual "alias" = true) : aliasDirective.KeepsAt s :=
  (quiet_requireHere _).keepsAt_bind fun _ ↦ (keepsAt_skip_two (Ahead.isPlain_of_isWord h)
    (Ahead.isPlain_of_isContextual h') h h').bind fun _ ↦
      keeps_needIdentifier.bind fun _ ↦ keeps_need rfl

theorem keeps_aliasedType : aliasedType.Keeps :=
  .look fun s _ _ ↦ ((keeps_type false).at s).bind fun _ ↦
    .ite (quiet_here.keeps.bind fun _ ↦ .ite (quiet_requireAt _ _).keeps (keeps_pure ()))
      (keeps_pure ())

theorem keeps_usingTarget : usingTarget.Keeps := by
  refine .ifAsk (fun s hs ↦ ?_) ((keeps_allowWord _).bind fun _ ↦ .ifAsk (fun s hs ↦ ?_)
    keeps_needType)
  · exact (keepsAt_takeFeature (Ahead.isPlain_of_isWord hs)).bind fun _ ↦ keeps_needType
  · rw [Bool.and_eq_true] at hs
    exact (keepsAt_skip_two (Ahead.isPlain_of_isIdentifier hs.1)
      (Ahead.isPlain_of_is hs.2 rfl) hs.1 hs.2).bind fun _ ↦ keeps_aliasedType

theorem keepsAt_usingDirective {inNamespace : Bool}
    (h : s.ahead.isUsingDirective inNamespace = true) : usingDirective.KeepsAt s := by
  have hrest (t : Spot) (ht : t.ahead.IsPlain) :
      (skipToken >>= fun _ ↦ usingTarget >>= fun _ ↦ need .semicolon).KeepsAt t :=
    (keepsAt_skipToken ht).bind fun _ ↦ keeps_usingTarget.bind fun _ ↦ keeps_need rfl
  rw [Ahead.isUsingDirective, Bool.or_eq_true, Bool.and_eq_true, Bool.and_eq_true] at h
  refine .ask (.ite (fun hglobal ↦ ?_) fun hglobal ↦ hrest s ?_)
  · refine .takeFeature (Ahead.isPlain_of_isContextual hglobal) fun t ht ↦ hrest t ?_
    rw [ht]
    exact Ahead.isPlain_of_isWord (h.resolve_right fun h ↦
      Ahead.not_isWord_of_isContextual hglobal h.1).2
  · exact Ahead.isPlain_of_isWord (h.resolve_left fun h ↦ hglobal h.1).1

theorem keeps_topLevelStatement (state : UnitState) : (topLevelStatement state).Keeps := by
  refine .script fun isScript ↦ .guarded (.guarded ?_ fun hrest ↦ ?_) fun hrest ↦ ?_
  · exact fun open_ _ ↦ takesAt_call trivial fun _ ↦ keeps_pure _ open_
  · exact (keeps_errorHere (by simp)).bind fun _ ↦ hrest
  · exact (quiet_requireHere _).keeps.bind fun _ ↦ hrest

theorem keeps_unitElement (inNamespace : Bool) (state : UnitState) :
    (unitElement inNamespace state).Keeps := by
  refine .look fun s _ _ ↦ .ite (fun h ↦ ?_) fun _ ↦ .ite (fun h ↦ ?_) fun _ ↦
    .ite (fun h ↦ ?_) fun _ ↦ .ite (fun h ↦ ?_) fun _ ↦ .ite (fun _ open_ ↦ ?_) fun _ ↦
      .ite (fun _ ↦ ?_) fun _ ↦ .ite (fun _ ↦ ?_) fun _ ↦ (keeps_topLevelStatement state).at s
  · rw [Bool.and_eq_true] at h
    exact (keepsAt_aliasDirective h.1 h.2).bind fun _ ↦ keeps_pure _
  · have hdirective (t : Spot) (ht : t.ahead = s.ahead) :
        (usingDirective >>= fun _ ↦ Pure.pure state).KeepsAt t :=
      (keepsAt_usingDirective (ht ▸ h)).bind fun _ ↦ keeps_pure state
    exact .ite (fun _ open_ ↦ .errorHere (by simp) fun t _ _ ht ↦ hdirective t ht open_) fun _ ↦
      hdirective s rfl
  · rw [Ahead.isGlobalAttribute, Bool.and_eq_true, Bool.and_eq_true] at h
    exact (keepsAt_attributeSection h.1.1).bind fun _ ↦ keeps_pure _
  · exact fun open_ ↦ takesAt_call h fun _ ↦ keeps_pure _ open_
  · exact .errorHere (by simp) fun t ht _ _ ↦
      (takesAt_skip_of_failed ht (.inl (Nat.le_refl 1)) _ _).bind fun _ u _ ↦
        keeps_pure state open_ u
  · exact (keeps_member.at s).bind fun _ ↦ keeps_pure _
  · exact (keeps_member.at s).bind fun _ ↦ keeps_pure _

theorem keeps_elementOrRecover (inNamespace : Bool) (state : UnitState) :
    (elementOrRecover inNamespace state).Keeps := by
  refine quiet_here.keeps.bind fun start ↦ (keeps_unitElement inNamespace state).bind fun state' ↦
    quiet_here.keeps.bind fun stop ↦ .ite (fun open_ s ↦ ?_) (keeps_pure state')
  have hrecover (t : Spot) (ht : t.Failed) :
      (recover false).TakesAt t open_ fun _ ↦ open_ :=
    .look fun _ _ ↦ takesAt_skip_of_failed ht (Ahead.recovery_within _ _) _ _
  exact .errorHere (by simp) fun t ht _ _ ↦ (hrecover t ht).bind fun _ u _ ↦ keeps_pure state' open_ u

theorem movesAt_elementOrRecover (inNamespace : Bool) (state : UnitState) (h : s.ahead ≠ []) :
    (elementOrRecover inNamespace state).MovesAt s fun _ ↦ True := by
  refine .here (.bind_right fun state' t hst hindex ↦ .here ?_)
  rw [beq_iff_eq.2 hindex, if_pos rfl]
  refine .bind_right fun _ u htu hindex' ↦ (movesAt_recover ?_ false).bind_left _
  rw [htu.ahead_eq hindex'.symm, hst.ahead_eq hindex.symm]
  exact h

/-- The elements of a compilation unit are read up to the end of the text. -/
theorem ensures_unitElements (inNamespace : Bool) {open_ : Brackets} (hs : s.Holds open_) :
    (unitElements inNamespace).Ensures
      (fun _ t ↦ t.Holds open_ ∧ (inNamespace = false → t.ahead = [])) s := by
  refine ensures_loop (I := fun t ↦ t.Holds open_)
    (J := fun _ t ↦ t.Holds open_ ∧ (inNamespace = false → t.ahead = [])) hs
    (fun state t ht ↦ ensures_ask ?_) (fun state t ↦ .ask (.ite (fun _ ↦ movesAt_pure (by simp))
      fun hbefore ↦ (movesAt_elementOrRecover inNamespace state ?_).bind_left _)) fun _ _ ht ↦ ht
  · split
    · next hstop =>
      refine ⟨ht, fun hinNamespace ↦ ?_⟩
      rw [hinNamespace, Bool.false_and, Bool.or_false] at hstop
      exact List.isEmpty_iff.1 hstop
    · rw [ensures_bind]
      exact (keeps_elementOrRecover inNamespace state open_ t ht).mono fun _ _ hu ↦ hu
  · rintro hnil
    simp [hnil] at hbefore

theorem keeps_unitElements (inNamespace : Bool) : (unitElements inNamespace).Keeps :=
  fun _ _ hs ↦ (ensures_unitElements inNamespace hs).mono fun _ _ ht ↦ ht.1

theorem keeps_namespaceBody : namespaceBody.Keeps :=
  .ifExpect rfl fun open_ ↦ (keeps_unitElements true _).bind fun _ ↦
    (takes_need .closeBrace open_).bind fun _ ↦ keeps_allow rfl open_

theorem keepsAt_namespaceRest (h : s.ahead.IsPlain) : namespaceRest.KeepsAt s :=
  (keepsAt_skipToken h).bind fun _ ↦ keeps_dottedName.bind fun _ ↦
    .ifAsk (fun _ ht ↦ (keepsAt_takeFeature (Ahead.isPlain_of_is ht rfl)).bind fun _ ↦
      keeps_pure true) (keeps_namespaceBody.bind fun _ ↦ keeps_pure false)

theorem keepsAt_namespaceRule (h : s.ahead.IsPlain) : namespaceRule.KeepsAt s := by
  intro open_ hs isScript
  cases isScript with
  | true => exact TakesAt.errorHere (by simp) (fun t _ _ ht ↦ keepsAt_namespaceRest (ht ▸ h) open_) hs
  | false => exact keepsAt_namespaceRest h open_ hs

end Rule

/-- The rules of the grammar pass over brackets that match, unless they report an error. -/
theorem grammarRules_keep : grammarRules.Keep := by
  intro q s hq
  refine Rule.KeepsAt.ensures_leads ?_
  cases q with
  | namespaceDeclaration => exact Rule.keepsAt_namespaceRule (Ahead.isPlain_of_isWord hq)
  | member => exact Rule.keeps_memberRule.at s
  | typeDeclaration modifiers =>
    refine Rule.keepsAt_typeDeclarationRule modifiers fun t ht ↦ ?_
    simpa [Nonterminal.Admits, ht] using hq
  | statement topLevel => exact (Rule.keeps_statementRule topLevel).at s
  | expression => exact Rule.keeps_expressionRule.at s
  | unary => exact Rule.keeps_unaryRule.at s
  | initializer => exact Rule.keeps_initializerRule.at s
  | pattern => exact Rule.keeps_patternRule.at s
  | varDesignation => exact Rule.keeps_varDesignationRule.at s

end CSharpCheck
