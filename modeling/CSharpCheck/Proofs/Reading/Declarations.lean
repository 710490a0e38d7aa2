import CSharpCheck.Grammar.Declaration
import CSharpCheck.Proofs.Reading.Statements

/-!
# Declarations keep the brackets
-/

namespace CSharpCheck

namespace Ahead

theorem isPlain_of_isModifier {ts : Ahead} (h : ts.isModifier = true) : ts.IsPlain := by
  rw [isModifier, Bool.or_eq_true, Bool.and_eq_true] at h
  rcases h with h | ⟨h, -⟩
  · exact isPlain_of_isWordOf h
  · refine isPlain_of_isIdentifier ?_
    obtain ⟨t, rest, rfl, ht⟩ := exists_of_any h
    rw [Bool.and_eq_true] at ht
    simpa [isIdentifier] using ht.1

theorem balanced_modifiers (ts : Ahead) : ts.Balanced ts.modifiers := by
  induction ts with
  | nil => exact .zero []
  | cons t rest ih =>
    rw [modifiers]
    split
    · next h => exact .cons (isPlain_of_isModifier h t rfl) ih
    · exact .zero _

theorem isPlain_of_isTypeKeyword {ts : Ahead} (h : ts.isTypeKeyword = true) : ts.IsPlain := by
  rw [isTypeKeyword, Bool.or_eq_true, Bool.or_eq_true, Bool.and_eq_true, Bool.and_eq_true] at h
  rcases h with (h | ⟨h, -⟩) | ⟨h, -⟩
  · exact isPlain_of_isWordOf h
  · exact isPlain_of_isWord h
  · exact isPlain_of_isContextual h

theorem isPlain_of_isAccessorName {ts : Ahead} {names : List String}
    (h : ts.head?.any (fun t ↦ t.isIdentifier && names.contains t.text) = true) : ts.IsPlain := by
  refine isPlain_of_isIdentifier ?_
  obtain ⟨t, rest, rfl, ht⟩ := exists_of_any h
  rw [Bool.and_eq_true] at ht
  simpa [isIdentifier] using ht.1

theorem toAccessor_le (names : List String) (ts : Ahead) : ts.toAccessor names ≤ ts.length := by
  fun_induction toAccessor names ts with
  | case1 => exact Nat.le_refl 0
  | case2 => exact Nat.zero_le _
  | case3 t rest _ n ih =>
    have hunit : n ≤ (t :: rest).length := unit_le (List.cons_ne_nil t rest) false
    change n + toAccessor names (rest.drop (n - 1)) ≤ rest.length + 1
    rw [List.length_drop] at ih
    rw [List.length_cons] at hunit
    omega

theorem accessorRecovery_within (names : List String) (ts : Ahead) :
    ts.accessorRecovery names ≤ 1 ∨ ts.accessorRecovery names ≤ ts.length := by
  cases ts with
  | nil => simp [accessorRecovery, toAccessor, unit, is]
  | cons t rest =>
    have hunit := unit_le (List.cons_ne_nil t rest) false
    have haccessor := toAccessor_le names ((t :: rest).drop (unit false (t :: rest)))
    rw [List.length_drop] at haccessor
    simp only [accessorRecovery]
    omega

theorem accessorRecovery_pos {ts : Ahead} (h : ts ≠ []) (names : List String) :
    0 < ts.accessorRecovery names :=
  Nat.lt_of_lt_of_le (unit_pos h false) (Nat.le_add_right _ _)

end Ahead

theorem Operator.side_of_isOverloadable {symbol : Symbol}
    (h : (Operator.symbol symbol).isOverloadable = true) : symbol.side = .neither := by
  cases symbol <;> first | rfl | simp [isOverloadable] at h

theorem Operator.side_of_isCompoundAssignment {symbol : Symbol}
    (h : (Operator.symbol symbol).isCompoundAssignment = true) : symbol.side = .neither :=
  side_of_isAssignment (by simp [isAssignment, h])

namespace Rule

variable {s : Spot}

/-! ### Modifiers and names -/

theorem quiet_requireAtPlace (f : Feature) (place : Option Nat) :
    (requireAtPlace f place).Quiet := by
  cases place with
  | none => exact quiet_pure ()
  | some index => exact quiet_requireAt f index

theorem quiet_requireAtText (text : String) (f : Feature) (modifiers : List Placed) :
    (requireAtText text f modifiers).Quiet := by
  induction modifiers with
  | nil => exact quiet_pure ()
  | cons m ms ih =>
    rw [requireAtText]
    split
    · exact ih.require _ _
    · exact ih

theorem quiet_requireModifiers (modifiers : List Placed) : (requireModifiers modifiers).Quiet := by
  induction modifiers with
  | nil => exact quiet_pure ()
  | cons m ms ih =>
    rw [requireModifiers]
    split
    · exact ih.require _ _
    · exact ih

theorem keeps_modifierList : modifierList.Keeps := by
  refine .look fun s _ _ ↦ (keepsAt_skip (Ahead.balanced_modifiers _)).bind fun _ ↦ ?_
  split
  · exact (quiet_requireAt _ _).keeps.bind fun _ ↦ (quiet_requireModifiers _).keeps.bind fun _ ↦
      keeps_pure _
  · exact (keeps_pure ()).bind fun _ ↦ (quiet_requireModifiers _).keeps.bind fun _ ↦
      keeps_pure _

theorem quiet_requireReferences (previous : Option Token) (modifiers : List Placed) :
    (requireReferences previous modifiers).Quiet := by
  induction modifiers generalizing previous with
  | nil => exact quiet_pure ()
  | cons m ms ih =>
    rw [requireReferences]
    split
    · exact (ih _).require _ _
    · split
      · exact (ih _).require _ _
      · exact ih _

/-- What is known where a round of reading a member's name has ended. -/
private def AfterPart (open_ : Brackets) (outcome : Round Bool) (t : Spot) : Prop :=
  t.Holds open_ ∧ (outcome = .stop true → t.ahead.IsPlain)

private theorem ensures_qualifiedPart {open_ : Brackets} (hs : s.Holds open_) :
    qualifiedPart.Ensures (AfterPart open_) s := by
  intro _ _
  dsimp only
  split
  · exact ⟨hs, fun h ↦ by simp at h⟩
  next hdot =>
  rw [Bool.not_eq_true, Bool.not_eq_false'] at hdot
  have hplain : s.ahead.IsPlain := Ahead.isPlain_of_is hdot rfl
  split
  · next hthis =>
    have hskip := keepsAt_skipToken hplain open_ hs
    exact ⟨hskip.1, hskip.2, fun _ ↦ Ahead.isPlain_of_isWord hthis⟩
  split
  · exact ⟨hs, fun h ↦ by simp at h⟩
  next hname =>
  rw [Bool.not_eq_true, Bool.not_eq_false'] at hname
  have hskip := keepsAt_skip_two hplain (Ahead.isPlain_of_isIdentifier hname) hdot hname open_ hs
  exact ⟨hskip.1, hskip.2, fun h ↦ by simp at h⟩

theorem moves_qualifiedPart : qualifiedPart.Moves fun outcome ↦ ∃ b, outcome = .again b := by
  refine fun s ↦ .look fun _ ↦ .ite (fun _ ↦ movesAt_pure (by simp)) fun hdot ↦
    .ite (fun _ ↦ .bind_right fun _ _ _ _ ↦ movesAt_pure (by simp)) fun _ ↦
      .ite (fun _ ↦ movesAt_pure (by simp)) fun _ ↦ (movesAt_skip (by decide) ?_).bind_left _
  rw [Bool.not_eq_true, Bool.not_eq_false'] at hdot
  exact Ahead.ne_nil_of_any hdot

theorem keepsAt_skip_qualifierArguments {length : Nat}
    (h : s.ahead.qualifierArguments = some length) (hs : s.Legible) :
    (skip length).KeepsAt s := by
  unfold Ahead.qualifierArguments at h
  split at h
  · next hless =>
    split at h
    · contradiction
    · next stop hstop =>
      split at h
      · cases h
        exact keepsAt_skip_of_legible hs (Ahead.regular_take_argumentScan hless hstop)
      · contradiction
  · cases h
    exact keepsAt_skip (.zero _)

private theorem ensures_memberName {open_ : Brackets} (h : s.ahead.IsPlain)
    (hs : s.Holds open_) : memberName.Ensures (fun b t ↦ AfterPart open_ (.stop b) t) s := by
  refine (keepsAt_skipToken h open_ hs).imp_right fun hskip ↦ ensures_loop
    (I := fun t ↦ t.Holds open_) (J := fun b t ↦ AfterPart open_ (.stop b) t) hskip
    (fun state t ht ↦ ?_) (fun _ t ↦ ?_) fun b t ht ↦ ht
  · intro hlegible _
    dsimp only
    split
    · exact ⟨ht, fun h ↦ by simp at h⟩
    · next length hlength =>
      rw [ensures_bind]
      refine quiet_requireUses _ _ t _ fun _ ↦ ?_
      have hskip' := keepsAt_skip_qualifierArguments hlength hlegible open_ ht
      refine hskip'.imp_right fun hholds ↦ (ensures_qualifiedPart hholds).mono ?_
      rintro (state' | state') u hu
      · exact hu.1
      · exact hu
  · refine .look fun _ ↦ ?_
    dsimp only
    split
    · exact movesAt_pure (by simp)
    · exact .bind_right fun _ _ _ _ ↦ .bind_right fun _ u _ _ ↦ moves_qualifiedPart u

theorem keepsAt_memberName (h : s.ahead.IsPlain) : memberName.KeepsAt s :=
  fun _ hs ↦ (ensures_memberName h hs).mono fun _ _ ht ↦ ht.1

/-- Where the name of a member says that `this` comes next, a token comes next that is no
bracket. -/
theorem KeepsAt.ifMemberName {r r' : Rule Unit} (h : s.ahead.IsPlain)
    (hr : ∀ t : Spot, t.ahead.IsPlain → r.KeepsAt t) (hr' : r'.Keeps) :
    (memberName >>= fun b ↦ if b = true then r else r').KeepsAt s := by
  intro open_ hs
  rw [ensures_bind]
  refine (ensures_memberName h hs).mono fun b t ht ↦ ?_
  cases b with
  | true => exact hr t (ht.2 rfl) open_ ht.1
  | false => exact hr' open_ t ht.1

theorem keeps_invalidMember : invalidMember.Keeps :=
  (keeps_ask _).bind fun _ ↦ keeps_errorHere (by simp)

/-! ### Types -/

theorem movesAt_recoverFrom {rule : Rule Unit} {r : Rule Unit} (hs : s.ahead ≠ []) (b : Bool) :
    (moves rule >>= fun moved ↦ if moved = true then Pure.pure () else
      r >>= fun _ ↦ recover b).MovesAt s fun _ ↦ True := by
  refine (movesAt_moves rule s).bind fun moved t hst hmoved hindex ↦
    .ite (fun h ↦ absurd h hmoved) fun _ ↦ .bind_right fun _ u htu hindex' ↦ movesAt_recover ?_ b
  rw [htu.ahead_eq hindex'.symm, hst.ahead_eq hindex.symm]
  exact hs

theorem keeps_typeBody : typeBody.Keeps := by
  refine keeps_whileAhead (fun s _ open_ ↦ ?_) fun s hs ↦
    movesAt_recoverFrom (Ahead.ne_nil_of_isBefore hs) false
  refine (keepsAt_moves (keeps_member.at s) open_).bind fun _ t _ ↦
    .ite (fun _ ↦ keeps_pure () _ t) fun _ ↦ ?_
  change (nextText >>= fun text ↦ errorHere (.invalidMember text) >>= fun _ ↦
    recover false).TakesAt t open_ fun _ ↦ open_
  exact .ask (.errorHere (by simp) fun u hu _ _ ↦ .look fun _ _ ↦ takesAt_skip_of_failed hu
    (Ahead.recovery_within _ _) _ _)

theorem keeps_baseList : baseList.Keeps :=
  keeps_commaSeparated (keeps_needType.bind fun _ open_ ↦
    .ifAccept (takes_arguments .closeParen open_) (keeps_pure () open_))

theorem keeps_enumMember : enumMember.Keeps := by
  have keeps_value : (accept .equals >>= fun b ↦ if b = true then expression else
      Pure.pure ()).Keeps :=
    (keeps_accept rfl).bind fun _ ↦ .ite keeps_expression (keeps_pure ())
  refine keeps_attributeSections.bind fun _ open_ s ↦ .expectIf (by simp)
    (fun hs ↦ keepsAt_skipToken (Ahead.isPlain_of_isIdentifier hs) open_)
    (fun t _ ↦ keeps_value open_ t) fun t ht _ ↦ ?_
  have hskip : (look fun v ↦ skip (v.ahead.takeWhile
      (!·.isOneOf [.comma, .closeBrace])).length).TakesAt t open_ fun _ ↦ open_ :=
    .look fun _ _ ↦ takesAt_skip_of_failed ht (.inr (List.takeWhile_sublist _).length_le) _ _
  exact hskip.bind fun _ u _ ↦ keeps_value open_ u

theorem keepsAt_enumDeclaration (h : s.ahead.IsPlain) : enumDeclaration.KeepsAt s := by
  have keeps_members : (Rule.expect .openBrace >>= fun b ↦ if b = true then
      commaSeparatedUpTo .closeBrace enumMember >>= fun _ ↦ need .closeBrace >>= fun _ ↦
        allow .semicolon else Pure.pure ()).Keeps :=
    .ifExpect rfl fun open_ ↦ (keeps_commaSeparatedUpTo keeps_enumMember _).bind fun _ ↦
      (takes_need .closeBrace open_).bind fun _ ↦ keeps_allow rfl open_
  exact (keepsAt_skipToken h).bind fun _ ↦ keeps_needIdentifier.bind fun _ ↦
    (keeps_accept rfl).bind fun _ ↦ .ite (keeps_needType.bind fun _ ↦ keeps_members) keeps_members

theorem keepsAt_delegateDeclaration (h : s.ahead.IsPlain) : delegateDeclaration.KeepsAt s :=
  (keepsAt_skipToken h).bind fun _ ↦ keeps_needType.bind fun _ ↦ keeps_needIdentifier.bind fun _ ↦
    keeps_optionalTypeParameters.bind fun _ ↦ keeps_parameters.bind fun _ ↦
      keeps_constraintClauses.bind fun _ ↦ keeps_need rfl

theorem keepsAt_typeKeyword (h : s.ahead.IsPlain) : typeKeyword.KeepsAt s := by
  refine .ask (.ite (fun _ ↦ ?_) fun _ ↦ .acceptIf ?_ fun _ ↦ .acceptIf ?_ fun _ ↦ ?_)
  · exact (keepsAt_takeFeature h).bind fun _ ↦ .ifAsk (fun t ht ↦
      (keepsAt_takeFeature (Ahead.isPlain_of_isWord ht)).bind fun _ ↦ keeps_pure _)
      ((keeps_allowWord _).bind fun _ ↦ keeps_pure _)
  · exact fun _ ↦ (keepsAt_skipToken h).bind fun _ ↦ keeps_pure _
  · exact fun _ ↦ (keepsAt_skipToken h).bind fun _ ↦ keeps_pure _
  · exact (keepsAt_skipToken h).bind fun _ ↦ keeps_pure _

theorem quiet_requireTypeModifiers (kind : TypeKind) (modifiers : List Placed) :
    (requireTypeModifiers kind modifiers).Quiet := by
  cases kind with
  | classType => exact quiet_requireAtPlace _ _
  | structType => exact (quiet_requireAtPlace _ _).bind fun _ ↦ quiet_requireAtPlace _ _
  | interfaceType | extensionBlock => exact quiet_pure ()

theorem Takes.within {kind : TypeKind} {body r : Rule Unit} {before mid after : Brackets}
    (hbody : body.Takes before fun _ ↦ mid) (h : r.Takes mid fun _ ↦ after) :
    (Rule.within kind body r).Takes before fun _ ↦ after :=
  fun s hs ↦ (hbody s hs).mono fun _ t ht ↦ h t ht

theorem keepsAt_structuredType (modifiers : List Placed) (h : s.ahead.IsPlain) :
    (structuredType modifiers).KeepsAt s := by
  have keeps_braces (kind : TypeKind) : (Rule.expect .openBrace >>= fun b ↦ if b = true then
      Rule.within kind typeBody (need .closeBrace >>= fun _ ↦ allow .semicolon)
      else Pure.pure ()).Keeps :=
    .ifExpect rfl fun open_ ↦ .within (keeps_typeBody _)
      ((takes_need .closeBrace open_).bind fun _ ↦ keeps_allow rfl open_)
  refine (quiet_ask _).keepsAt_bind fun isRecord ↦ (keepsAt_typeKeyword h).bind fun kind ↦
    (quiet_requireTypeModifiers _ _).keeps.bind fun _ ↦ keeps_needIdentifier.bind fun _ ↦
      keeps_optionalTypeParameters.bind fun _ ↦ (keeps_ask _).bind fun _ ↦
        .guarded ?_ fun hrest ↦ .ite (keeps_parameters.bind fun _ ↦ hrest)
          ((quiet_requireHere _).keeps.bind fun _ ↦ keeps_parameters.bind fun _ ↦ hrest)
  · refine (keeps_accept rfl).bind fun _ ↦ .guarded ?_ fun hrest ↦ keeps_baseList.bind fun _ ↦ hrest
    exact keeps_constraintClauses.bind fun _ ↦ (keeps_accept rfl).bind fun _ ↦
      .ite (keeps_pure ()) (keeps_braces kind)

theorem keepsAt_typeDeclarationRule (modifiers : List Placed) (h : s.ahead.IsPlain) :
    (typeDeclarationRule modifiers).KeepsAt s :=
  (quiet_requireAtPlace _ _).keepsAt_bind fun _ ↦
    .ask (.ite (fun _ ↦ keepsAt_enumDeclaration h) fun _ ↦
      .ask (.ite (fun _ ↦ keepsAt_delegateDeclaration h) fun _ ↦
        keepsAt_structuredType modifiers h))

theorem keeps_extensionReceiver : extensionReceiver.Keeps :=
  .ifExpect rfl fun open_ ↦ (keeps_attributeSections _).bind fun _ ↦
    (keeps_parameterModifiers _).bind fun _ ↦ (keeps_needType _).bind fun _ ↦
      (keeps_acceptIf (fun _ ↦ Ahead.isPlain_of_isIdentifier) _).bind fun _ ↦
        takes_need .closeParen open_

theorem keepsAt_extensionBlock (h : s.ahead.IsPlain) : extensionBlock.KeepsAt s :=
  (keepsAt_takeFeature h).bind fun _ ↦ keeps_optionalTypeParameters.bind fun _ ↦
    keeps_extensionReceiver.bind fun _ ↦ keeps_constraintClauses.bind fun _ ↦
      .ifExpect rfl fun open_ ↦ .within (keeps_typeBody _) (takes_need .closeBrace open_)

/-! ### Members -/

theorem keeps_method (modifiers : List Placed) : (method modifiers).Keeps :=
  (quiet_requireAtText _ _ _).keeps.bind fun _ ↦ (quiet_requireAtWord _ _ _).keeps.bind fun _ ↦
    keeps_optionalTypeParameters.bind fun _ ↦ keeps_parameters.bind fun _ ↦
      keeps_constraintClauses.bind fun _ ↦ keeps_body _

theorem keeps_accessorModifiers : accessorModifiers.Keeps := by
  refine keeps_repeating (.ifAsk (fun s hs ↦ ?_) (.ifAsk (fun s hs ↦ ?_) (keeps_pure false)))
    fun s ↦ .ask (.ite (fun hs ↦ ?_) fun _ ↦ .ask (.ite (fun hs ↦ ?_) fun _ ↦ ?_))
  · exact (keepsAt_takeFeature (Ahead.isPlain_of_isWord hs)).bind fun _ ↦ keeps_pure true
  · exact (keepsAt_takeFeature (Ahead.isPlain_of_isWordOf hs)).bind fun _ ↦ keeps_pure true
  · exact (movesAt_takeFeature (Ahead.ne_nil_of_any hs)).bind_left _
  · exact (movesAt_takeFeature (Ahead.ne_nil_of_any hs)).bind_left _
  · exact movesAt_pure Bool.false_ne_true

theorem keeps_accessorBody (automatic : Bool) (name : Nat) :
    (accessorBody automatic name).Keeps := by
  refine .ask fun s ↦ .ite (fun h ↦ ?_) fun _ ↦ .ask (.ite (fun _ ↦ keeps_block.at s)
    fun hbrace ↦ .ask (.ite (fun h ↦ ?_) fun _ ↦ ?_))
  · have hskip := keepsAt_skipToken (Ahead.isPlain_of_is h rfl)
    exact .ite (fun _ ↦ (quiet_requireAt _ _).keepsAt_bind fun _ ↦ hskip) fun _ ↦ hskip
  · exact (quiet_requireHere _).keepsAt_bind fun _ ↦
      keepsAt_expressionBody (Ahead.isPlain_of_is h rfl)
  · exact keepsAt_need_of_not (Bool.not_eq_true _ ▸ hbrace)

theorem keeps_accessor (ofEvent automatic : Bool) : (accessor ofEvent automatic).Keeps := by
  refine keeps_attributeSections.bind fun _ ↦ keeps_accessorModifiers.bind fun _ ↦
    .ask fun s ↦ .ite (fun hname ↦ .ask ?_) fun _ open_ ↦ ?_
  · have hrest : (here >>= fun name ↦ skipToken >>= fun _ ↦
        accessorBody automatic name).KeepsAt s :=
      quiet_here.keepsAt_bind fun name ↦ (keepsAt_skipToken
        (Ahead.isPlain_of_isAccessorName hname)).bind fun _ ↦ keeps_accessorBody _ _
    exact .ite (fun _ ↦ (quiet_requireHere _).keepsAt_bind fun _ ↦ hrest) fun _ ↦ hrest
  · exact .errorHere (by split <;> simp) fun t ht _ _ ↦ .look fun _ _ ↦ takesAt_skip_of_failed ht
      (Ahead.accessorRecovery_within _ _) _ _

theorem movesAt_accessor (ofEvent automatic : Bool) (h : s.ahead ≠ []) :
    (accessor ofEvent automatic).MovesAt s fun _ ↦ True := by
  refine .bind_right fun _ t hst hindex ↦ .bind_right fun _ u htu hindex' ↦ ?_
  have hne (v : Spot) (hv : u.Precedes v) (hindex'' : u.index = v.index) : v.ahead ≠ [] := by
    rw [hv.ahead_eq hindex''.symm, htu.ahead_eq hindex'.symm, hst.ahead_eq hindex.symm]
    exact h
  have hrest (v : Spot) (hv : u.Precedes v) (hindex'' : u.index = v.index) :
      (here >>= fun name ↦ skipToken >>= fun _ ↦ accessorBody automatic name).MovesAt v
        fun _ ↦ True :=
    .bind_right fun _ w hvw hindex₃ ↦
      (movesAt_skipToken (hvw.ahead_eq hindex₃.symm ▸ hne v hv hindex'')).bind_left _
  refine .ask (.ite (fun _ ↦ .ask (.ite (fun _ ↦ .bind_right fun _ ↦ hrest) fun _ ↦
    hrest u (.refl u) rfl)) fun _ ↦ .bind_right fun _ v hv hindex'' ↦ .look fun _ ↦ ?_)
  exact movesAt_skip (Ahead.accessorRecovery_pos (hne v hv hindex'') _) (hne v hv hindex'')

theorem keepsAt_accessors (modifiers : List Placed) (ofEvent : Bool)
    (h : s.ahead.is .openBrace = true) : (accessors modifiers ofEvent).KeepsAt s :=
  fun open_ ↦ (takesAt_skipToken h).bind fun _ t _ ↦ Takes.bind (quiet_inInterface.keeps _)
    (fun _ ↦ (keeps_whileAhead (fun s _ ↦ (keeps_accessor _ _).at s)
      (fun _ hs ↦ movesAt_accessor _ _ (Ahead.ne_nil_of_isBefore hs)) _).bind fun _ ↦
        takes_need .closeBrace open_) t

theorem keepsAt_property (modifiers : List Placed) (h : s.ahead.is .openBrace = true) :
    (property modifiers).KeepsAt s :=
  (quiet_requireAtWord _ _ _).keepsAt_bind fun _ ↦ (keepsAt_accessors _ _ h).bind fun _ ↦
    .ifAsk (fun _ ht ↦ (keepsAt_takeFeature (Ahead.isPlain_of_is ht rfl)).bind fun _ ↦
      keeps_variableInitializer.bind fun _ ↦ keeps_need rfl) (keeps_pure ())

theorem keepsAt_indexer (modifiers : List Placed) (h : s.ahead.IsPlain) :
    (indexer modifiers).KeepsAt s := by
  refine (quiet_requireAtWord _ _ _).keepsAt_bind fun _ ↦ (keepsAt_skipToken h).bind fun _ ↦
    (keeps_parameterList rfl rfl rfl).bind fun _ ↦ .ifAsk (fun t ht ↦ ?_)
      (.ask fun t ↦ .ite (keepsAt_accessors _ _) fun ht ↦ ?_)
  · exact (quiet_requireHere _).keepsAt_bind fun _ ↦
      keepsAt_expressionBody (Ahead.isPlain_of_is ht rfl)
  · exact keepsAt_need_of_not (Bool.not_eq_true _ ▸ ht)

theorem keeps_optionalSize : optionalSize.Keeps := fun open_ ↦
  .ifAccept ((keeps_expression _).bind fun _ ↦ takes_need .closeBracket open_)
    (keeps_pure () open_)

theorem keeps_optionalValue : optionalValue.Keeps :=
  (keeps_accept rfl).bind fun _ ↦ .ite keeps_variableInitializer (keeps_pure ())

theorem keeps_fieldRest (modifiers : List Placed) : (fieldRest modifiers).Keeps := by
  refine (quiet_requireAtWord _ _ _).keeps.bind fun _ ↦ (keeps_repeating ?_ fun s ↦ ?_).bind
    fun _ ↦ keeps_need rfl
  · exact keeps_optionalSize.bind fun _ ↦ keeps_optionalValue.bind fun _ ↦
      (keeps_accept rfl).bind fun _ ↦ .ite (keeps_needIdentifier.bind fun _ ↦ keeps_pure true)
        (keeps_pure false)
  · exact .bind_right fun _ _ _ _ ↦ .bind_right fun _ t _ _ ↦ .ifAcceptIf rfl fun _ _ _ ↦
      movesAt_pure Bool.false_ne_true

theorem keepsAt_event (modifiers : List Placed) (h : s.ahead.IsPlain) :
    (event modifiers).KeepsAt s := by
  have keeps_rest : (next .openBrace >>= fun b ↦ if b = true then accessors modifiers true
      else fieldRest []).Keeps :=
    .ifAsk (fun _ ↦ keepsAt_accessors modifiers true) (keeps_fieldRest [])
  refine (quiet_requireAtText _ _ _).keepsAt_bind fun _ ↦ (keepsAt_skipToken h).bind fun _ ↦
    keeps_needType.bind fun _ ↦ .ifAsk (fun t ht ↦ ?_)
      (keeps_needIdentifier.bind fun _ ↦ keeps_rest)
  exact (keepsAt_memberName (Ahead.isPlain_of_isIdentifier ht)).bind fun _ ↦ keeps_rest

theorem keeps_checkedOperator : checkedOperator.Keeps :=
  .ifAsk (fun _ hs ↦ keepsAt_takeFeature (Ahead.isPlain_of_isWord hs)) (keeps_pure ())

theorem keeps_operatorRest : operatorRest.Keeps :=
  keeps_parameters.bind fun _ ↦ keeps_body _

theorem keeps_operatorSign : operatorSign.Keeps := by
  refine .look fun s _ _ ↦ .ite (fun h ↦ ?_) fun _ ↦ ?_
  · exact keepsAt_skipToken (Ahead.isPlain_of_isWordOf h)
  dsimp only
  split
  · exact (keeps_errorHere (by simp)).at s
  · next op count hop =>
    refine .ite (fun h ↦ ?_) fun _ ↦ .ite (fun h ↦ ?_) fun _ ↦ (keeps_errorHere (by simp)).at s
    · have hskip := keepsAt_skip (Ahead.balanced_operator hop fun symbol hsymbol ↦
        Operator.side_of_isOverloadable (hsymbol ▸ h)).1
      exact .ite (fun _ ↦ (quiet_requireHere _).keepsAt_bind fun _ ↦ hskip) fun _ ↦ hskip
    · exact (quiet_requireHere _).keepsAt_bind fun _ ↦
        keepsAt_skip (Ahead.balanced_operator hop fun symbol hsymbol ↦
          Operator.side_of_isCompoundAssignment (hsymbol ▸ h)).1

theorem keepsAt_operatorDeclaration (h : s.ahead.IsPlain) : operatorDeclaration.KeepsAt s :=
  (keepsAt_skipToken h).bind fun _ ↦ keeps_checkedOperator.bind fun _ ↦
    keeps_operatorSign.bind fun _ ↦ keeps_operatorRest

theorem keepsAt_conversionOperator (h : s.ahead.IsPlain) : conversionOperator.KeepsAt s :=
  (keepsAt_skipToken h).bind fun _ ↦ (keeps_needWord _).bind fun _ ↦
    keeps_checkedOperator.bind fun _ ↦ keeps_needType.bind fun _ ↦ keeps_operatorRest

theorem keeps_constructorInitializer : constructorInitializer.Keeps := by
  have keeps_call : (Rule.expect .openParen >>= fun b ↦ if b = true then arguments .closeParen
      else Pure.pure ()).Keeps := .ifExpect rfl fun open_ ↦ takes_arguments .closeParen open_
  exact .ifAsk (fun _ hs ↦ (keepsAt_skipToken (Ahead.isPlain_of_isWordOf hs)).bind fun _ ↦
    keeps_call) ((keeps_errorHere (by simp)).bind fun _ ↦ keeps_call)

theorem keepsAt_constructor (modifiers : List Placed) (h : s.ahead.IsPlain) :
    (constructor modifiers).KeepsAt s :=
  (quiet_requireAtText _ _ _).keepsAt_bind fun _ ↦ (keepsAt_skipToken h).bind fun _ ↦
    keeps_parameters.bind fun _ ↦ (keeps_accept rfl).bind fun _ ↦
      .guarded (keeps_body _) fun hrest ↦ keeps_constructorInitializer.bind fun _ ↦ hrest

theorem keepsAt_finalizer (h : s.ahead.IsPlain) : finalizer.KeepsAt s :=
  (keepsAt_skipToken h).bind fun _ ↦ keeps_needIdentifier.bind fun _ open_ ↦
    (takes_need .openParen open_).bind fun _ ↦ (takes_need .closeParen open_).bind fun _ ↦
      keeps_body _ open_

theorem keepsAt_constant (h : s.ahead.IsPlain) : constant.KeepsAt s :=
  (keepsAt_skipToken h).bind fun _ ↦ keeps_needType.bind fun _ ↦
    keeps_variableDeclarators.bind fun _ ↦ keeps_need rfl

theorem keeps_namedMember (targets modifiers : List Placed) :
    (namedMember targets modifiers).Keeps := by
  refine .ask fun s ↦ .ite (fun _ ↦ (keeps_method _).at s) fun _ ↦ .ask (.ite (fun h ↦ ?_)
    fun _ ↦ .ask (.ite (fun h ↦ ?_) fun _ ↦ (keeps_fieldRest _).at s))
  · exact (quiet_requireAtText _ _ _).keepsAt_bind fun _ ↦ keepsAt_property _ h
  · exact (quiet_requireAtWord _ _ _).keepsAt_bind fun _ ↦ (quiet_requireHere _).keepsAt_bind
      fun _ ↦ keepsAt_expressionBody (Ahead.isPlain_of_is h rfl)

theorem keeps_typedMember (targets modifiers : List Placed) :
    (typedMember targets modifiers).Keeps := by
  refine (quiet_requireReferences _ _).keeps.bind fun _ ↦ (keeps_type false).bind fun _ ↦
    .ite (.ifAsk (fun s h ↦ keepsAt_operatorDeclaration (Ahead.isPlain_of_isWord h))
      (.ifAsk (fun s h ↦ keepsAt_indexer _ (Ahead.isPlain_of_isWord h))
        (.ifAsk (fun s h ↦ ?_) keeps_invalidMember))) (keeps_pure ())
  exact .ifMemberName (Ahead.isPlain_of_isIdentifier h) (fun _ ↦ keepsAt_indexer _)
    (keeps_namedMember _ _)

theorem keeps_memberAttributes : memberAttributes.Keeps := by
  refine keeps_loop (fun targets ↦ .ifAsk (fun s hs ↦ (keepsAt_attributeSection hs).bind
    fun target ↦ ?_) (keeps_pure _)) (fun targets s ↦ .ask (.ite (fun hs ↦
      (movesAt_attributeSection hs).bind_left _) fun _ ↦ movesAt_pure (by simp)))
      fun _ ↦ keeps_pure _
  cases target with
  | none => exact keeps_pure _
  | some target => exact keeps_pure _

theorem keeps_memberRule : memberRule.Keeps := by
  refine quiet_here.keeps.bind fun start ↦ keeps_memberAttributes.bind fun targets ↦
    keeps_modifierList.bind fun modifiers ↦ quiet_here.keeps.bind fun stop ↦ .enclosing fun kinds ↦
      .look fun s _ _ ↦ ?_
  refine .ite (fun h ↦ ?_) fun _ ↦ .ite (fun h ↦ ?_) fun _ ↦ .ite (fun h ↦ ?_) fun _ ↦
    .ite (fun h ↦ ?_) fun _ ↦ .ite (fun h ↦ ?_) fun _ ↦ .ite (fun h ↦ ?_) fun _ ↦
      .ite (fun h ↦ ?_) fun _ ↦ .ite (fun _ ↦ (keeps_typedMember _ _).at s) fun _ ↦
        .ite (fun _ ↦ keeps_invalidMember.at s) fun _ ↦ (keeps_pure ()).at s
  · refine fun open_ ↦ takesAt_call ?_ fun _ ↦ keeps_pure () open_
    cases hahead : s.ahead.head? with
    | none => simp [Nonterminal.Admits, hahead]
    | some t => simp [Nonterminal.Admits, hahead, Ahead.isPlain_of_isTypeKeyword h t hahead]
  · rw [Bool.and_eq_true] at h
    exact keepsAt_extensionBlock (Ahead.isPlain_of_isContextual h.1)
  · exact keepsAt_event _ (Ahead.isPlain_of_isWord h)
  · exact keepsAt_constant (Ahead.isPlain_of_isWord h)
  · exact keepsAt_finalizer (Ahead.isPlain_of_is h rfl)
  · exact keepsAt_conversionOperator (Ahead.isPlain_of_isWordOf h)
  · rw [Bool.and_eq_true, Bool.and_eq_true] at h
    exact keepsAt_constructor _ (Ahead.isPlain_of_isIdentifier h.1.1)

end Rule

end CSharpCheck
