import CSharpCheck.Grammar.Expression
import CSharpCheck.Proofs.Reading.Types

/-!
# Blocks and expressions keep the brackets

The rules for lists of statements, which some expressions contain, and the rules for expressions.
-/

namespace CSharpCheck

namespace Ahead

theorem ne_nil_of_isBefore {ts : Ahead} {symbol : Symbol} (h : Rule.isBefore symbol ts = true) :
    ts ≠ [] := by
  rintro rfl
  simp [Rule.isBefore] at h

theorem unit_pos {ts : Ahead} (h : ts ≠ []) (inStatement : Bool) : 0 < ts.unit inStatement := by
  unfold Ahead.unit
  split
  · exact Nat.one_pos
  · cases ts with
    | nil => exact absurd rfl h
    | cons t rest =>
      unfold bracesFrom
      split
      · exact Nat.succ_pos _
      · split
        · split <;> exact Nat.succ_pos _
        · exact Nat.succ_pos _

theorem bracesFrom_le (depth : Nat) (ts : Ahead) : bracesFrom depth ts ≤ ts.length := by
  fun_induction bracesFrom depth ts <;> simp only [List.length_cons, List.length_nil] <;> omega

theorem unit_le {ts : Ahead} (h : ts ≠ []) (inStatement : Bool) :
    ts.unit inStatement ≤ ts.length := by
  unfold Ahead.unit
  split
  · exact List.length_pos_iff.2 h
  · exact bracesFrom_le 0 ts

theorem toBoundary_le (inStatement : Bool) (ts : Ahead) :
    ts.toBoundary inStatement ≤ ts.length := by
  fun_induction toBoundary inStatement ts with
  | case1 => exact Nat.le_refl 0
  | case2 => exact Nat.succ_le_succ (Nat.zero_le _)
  | case3 => exact Nat.zero_le _
  | case4 t rest _ _ n ih =>
    have hunit : n ≤ (t :: rest).length := unit_le (List.cons_ne_nil t rest) inStatement
    change n + toBoundary inStatement (rest.drop (n - 1)) ≤ rest.length + 1
    rw [List.length_drop] at ih
    rw [List.length_cons] at hunit
    omega

theorem recovery_within (inStatement : Bool) (ts : Ahead) :
    ts.recovery inStatement ≤ 1 ∨ ts.recovery inStatement ≤ ts.length := by
  cases ts with
  | nil => simp [recovery, toBoundary, unit, is]
  | cons t rest =>
    have hunit := unit_le (List.cons_ne_nil t rest) inStatement
    have hboundary := toBoundary_le inStatement ((t :: rest).drop (unit inStatement (t :: rest)))
    rw [List.length_drop] at hboundary
    simp only [recovery]
    omega

theorem toHoleEnd_le (depth : Nat) (ts : Ahead) : ts.toHoleEnd depth ≤ ts.length := by
  fun_induction toHoleEnd depth ts <;> simp only [List.length_cons, List.length_nil] <;> omega

theorem recovery_pos {ts : Ahead} (h : ts ≠ []) (inStatement : Bool) :
    0 < ts.recovery inStatement :=
  Nat.lt_of_lt_of_le (unit_pos h inStatement) (Nat.le_add_right _ _)

end Ahead

namespace Rule

variable {s : Spot}

/-! ### Blocks -/

theorem keepsAt_moves {rule : Rule Unit} (h : rule.KeepsAt s) : (moves rule).KeepsAt s :=
  quiet_here.keepsAt_bind fun _ ↦ h.bind fun _ ↦ quiet_here.keeps.bind fun _ ↦ keeps_pure _

private theorem ensures_moves {rule : Rule Unit} {Q : Bool → Spot → Prop} :
    (moves rule).Ensures Q s ↔ (s.Legible → Option Token →
      rule.Ensures (fun _ t ↦ t.Legible → Option Token → Q (s.index != t.index) t) s) := by
  rw [moves, ensures_bind]
  exact forall_congr' fun _ ↦ forall_congr' fun _ ↦ ensures_bind

theorem movesAt_moves (rule : Rule Unit) (s : Spot) : (moves rule).MovesAt s (· = true) := by
  intro Q h
  rw [ensures_moves] at h ⊢
  refine fun hs previous ↦ (h hs previous).later.mono fun _ t ht hlegible previous ↦
    ⟨ht.2 hlegible previous, fun hmoved ↦ ?_⟩
  have hle := ht.1.index_le
  have hne : s.index ≠ t.index := by simpa using hmoved
  omega

theorem keepsAt_statementOrRecover {rule : Rule Unit} (h : rule.KeepsAt s) :
    (statementOrRecover rule).KeepsAt s := by
  refine fun open_ ↦ (keepsAt_moves h open_).bind fun _ t _ ↦ .ite (fun _ ↦ keeps_pure () _ t)
    fun _ ↦ .ask (.errorHere (by simp) fun u hu _ _ ↦ .look fun _ _ ↦ ?_)
  exact takesAt_skip_of_failed hu (Ahead.recovery_within _ _) _ _

theorem movesAt_recover (hs : s.ahead ≠ []) (inStatement : Bool) :
    (recover inStatement).MovesAt s fun _ ↦ True :=
  .look fun _ ↦ movesAt_skip (Ahead.recovery_pos hs inStatement) hs

theorem movesAt_statementOrRecover (rule : Rule Unit) (hs : s.ahead ≠ []) :
    (statementOrRecover rule).MovesAt s fun _ ↦ True := by
  refine (movesAt_moves rule s).bind fun b t hst hb hindex ↦ .ite (fun h ↦ absurd h hb) fun _ ↦
    .ask (.bind_right fun _ u htu hindex' ↦ movesAt_recover ?_ true)
  rw [htu.ahead_eq hindex'.symm, hst.ahead_eq hindex.symm]
  exact hs

theorem keeps_statements (inSwitch : Bool) : (statements inSwitch).Keeps := by
  refine keeps_whileAhead (fun s _ ↦ keepsAt_statementOrRecover (keeps_statement.at s))
    fun s hs ↦ movesAt_statementOrRecover _ ?_
  rw [Bool.and_eq_true] at hs
  exact Ahead.ne_nil_of_isBefore hs.1

theorem keeps_block : block.Keeps :=
  .ifExpect rfl fun open_ ↦ (keeps_statements false _).bind fun _ ↦ takes_need .closeBrace open_

theorem keepsAt_expressionBody (h : s.ahead.IsPlain) : expressionBody.KeepsAt s :=
  (keepsAt_skipToken h).bind fun _ ↦ keeps_expression.bind fun _ ↦ keeps_need rfl

theorem keeps_condition : condition.Keeps := fun open_ ↦
  (takes_need .openParen open_).bind fun _ ↦ (keeps_expression _).bind fun _ ↦
    takes_need .closeParen open_

theorem keeps_variableInitializer : variableInitializer.Keeps :=
  (keeps_ask _).bind fun _ ↦ .ite keeps_initializer keeps_expression

theorem keeps_body (expressionFeature : Option Feature) : (body expressionFeature).Keeps := by
  refine .ask fun s ↦ .ite (fun _ ↦ ?_) fun hbrace ↦ .ask (.ite (fun hs ↦ ?_) fun _ ↦ ?_)
  · exact (quiet_inInterface.keeps.bind fun _ ↦
      .ite ((quiet_requireHere _).keeps.bind fun _ ↦ keeps_block) keeps_block).at s
  · have hbody := keepsAt_expressionBody (Ahead.isPlain_of_is hs rfl)
    dsimp only
    split
    · exact (quiet_requireHere _).keepsAt_bind fun _ ↦ hbody
    · exact (quiet_pure _).keepsAt_bind fun _ ↦ hbody
  · refine .acceptIf (fun hs ↦ ?_) fun _ ↦ keepsAt_need_of_not (Bool.not_eq_true _ ▸ hbrace)
    exact (keepsAt_skipToken (Ahead.isPlain_of_is hs rfl)).bind fun _ ↦ keeps_pure ()

/-! ### Arguments and initializers -/

theorem exists_typeEnd_of_isDeclarationBefore {ts : Ahead} {symbols : List Symbol}
    (h : ts.isDeclarationBefore symbols = true) :
    ∃ stop, ts.typeEnd = some stop ∧ Ahead.isIdentifier (ts.drop stop) = true := by
  unfold Ahead.isDeclarationBefore at h
  split at h
  · contradiction
  · next stop hstop =>
    rw [Bool.and_eq_true] at h
    exact ⟨stop, hstop, h.1⟩

/-- A name before a colon. -/
theorem keepsAt_skip_label {symbol : Symbol} (hsymbol : symbol.side = .neither)
    (h : (s.ahead.isIdentifier && s.ahead.tail.is symbol) = true) : (skip 2).KeepsAt s := by
  rw [Bool.and_eq_true] at h
  exact keepsAt_skip_two (Ahead.isPlain_of_isIdentifier h.1) (Ahead.isPlain_of_is h.2 hsymbol)
    h.1 h.2

theorem keeps_argument (closing : Symbol) : (argument closing).Keeps := by
  refine .ask fun s ↦ .guarded (.ifAsk (fun s hs ↦ quiet_here.keepsAt_bind fun _ ↦ ?_)
    keeps_expression) fun hs hrest ↦ ?_
  · refine (keepsAt_skipToken (Ahead.isPlain_of_isWordOf hs)).bind fun _ ↦
      .ifAsk (fun t ht ↦ (quiet_requireAt _ _).keepsAt_bind fun _ ↦ ?_) keeps_expression
    exact .declared (exists_typeEnd_of_isDeclarationBefore ht) fun _ ↦ keepsAt_skipToken
  · exact (quiet_requireHere _).keepsAt_bind fun _ ↦
      (keepsAt_skip_label rfl hs).bind fun _ ↦ hrest

theorem takes_arguments (closing : Symbol) (open_ : Brackets) :
    (arguments closing).Takes (closing.closes ++ open_) fun _ ↦ closing.opens ++ open_ :=
  .ifAccept (keeps_pure () _) ((keeps_commaSeparated (keeps_argument closing) _).bind fun _ ↦
    takes_need closing open_)

theorem keeps_initializerRule : initializerRule.Keeps := by
  refine .ifExpect rfl fun open_ ↦ (keeps_commaSeparatedUpTo ?_ _).bind fun _ ↦
    takes_need .closeBrace open_
  refine (keeps_ask _).bind fun _ ↦ .ite keeps_initializer (.ifAsk (fun s hs ↦ ?_)
    (.ifAsk (fun s hs ↦ ?_) keeps_expression))
  · exact (keepsAt_skip_label rfl hs).bind fun _ ↦ keeps_variableInitializer
  · rw [Bool.and_eq_true] at hs
    exact fun open_ ↦ (takesAt_takeFeature hs.1).bind fun _ t _ ↦
      ((takes_arguments .closeBracket open_).bind fun _ ↦ (keeps_need rfl open_).bind fun _ ↦
        keeps_variableInitializer open_) t

theorem keeps_objectInitializer : objectInitializer.Keeps :=
  (keeps_ask _).bind fun _ ↦ .ite
    ((quiet_requireHere _).keeps.bind fun _ ↦ keeps_initializer)
    ((quiet_requireHere _).keeps.bind fun _ ↦ keeps_initializer)

theorem keeps_optionalObjectInitializer : optionalObjectInitializer.Keeps :=
  (keeps_ask _).bind fun _ ↦ .ite keeps_objectInitializer (keeps_pure ())

theorem keeps_optionalInitializer : optionalInitializer.Keeps :=
  (keeps_ask _).bind fun _ ↦ .ite keeps_initializer (keeps_pure ())

theorem keeps_rankCommas : rankCommas.Keeps := by
  refine .look fun s _ _ ↦ keepsAt_skip ⟨(List.takeWhile_sublist _).length_le,
    fun _ hP ↦ hP.of_plain fun t ht ↦ ?_⟩
  rw [← List.prefix_iff_eq_take.1 (List.takeWhile_prefix _)] at ht
  have hcomma := List.mem_takeWhile_imp ht
  exact Token.isPlain_of_is (s := .comma) hcomma rfl

theorem keeps_creationRest (isArray : Bool) : (creationRest isArray).Keeps := by
  refine fun open_ ↦ .ifAccept ((takes_arguments .closeBracket open_).bind fun _ ↦
    (keeps_repeating (fun open_ ↦ .ifAccept ?_ (keeps_pure false open_)) (fun s ↦ ?_) open_).bind
      fun _ ↦ keeps_optionalInitializer open_) ?_
  · exact (keeps_rankCommas _).bind fun _ ↦ (takes_need .closeBracket open_).bind fun _ ↦
      keeps_pure true open_
  · refine (moves_accept .openBracket s).bind fun b t _ hb _ ↦ ?_
    rw [if_neg hb]
    exact movesAt_pure Bool.false_ne_true
  · refine .ifAccept ((takes_arguments .closeParen open_).bind fun _ ↦
      keeps_optionalObjectInitializer open_) (Keeps.bind (keeps_ask _) (fun _ ↦ ?_) open_)
    exact .ite (.ite keeps_initializer keeps_objectInitializer)
      (.ite (keeps_pure ()) (keeps_errorHere (by simp)))

theorem keepsAt_creation (h : s.ahead.IsPlain) : creation.KeepsAt s := by
  refine quiet_here.keepsAt_bind fun start ↦ (keepsAt_skipToken h).bind fun _ ↦
    .ifAsk (fun t ht ↦ (quiet_requireAt _ _).keepsAt_bind fun _ open_ ↦ ?_)
      (.ifAsk (fun t ht ↦ (quiet_requireAt _ _).keepsAt_bind fun _ open_ ↦ ?_)
        ((keeps_ask _).bind fun _ ↦ .ite ?_ ?_))
  · exact (takesAt_skipToken ht).bind fun _ u _ ↦ ((takes_arguments .closeParen open_).bind
      fun _ ↦ keeps_optionalObjectInitializer open_) u
  · refine (takesAt_skipToken ht).bind fun _ u _ ↦ ((keeps_rankCommas _).bind fun _ ↦
      (takes_need .closeBracket open_).bind fun _ ↦ Keeps.ask (fun v ↦ ?_) open_) u
    exact .ite (fun _ ↦ keeps_initializer.at v) fun hv ↦
      keepsAt_need_of_not (Bool.not_eq_true _ ▸ hv)
  · exact (quiet_requireAt _ _).keeps.bind fun _ ↦ keeps_initializer
  · exact (keeps_type false).bind fun _ ↦ .ite
      (.look fun s _ _ ↦ (keeps_creationRest _).at s) (keeps_pure ())

theorem keeps_optionalStackInitializer : optionalStackInitializer.Keeps :=
  (keeps_ask _).bind fun _ ↦ .ite
    ((quiet_requireHere _).keeps.bind fun _ ↦ keeps_initializer) (keeps_pure ())

theorem keepsAt_stackAllocation (h : s.ahead.IsPlain) : stackAllocation.KeepsAt s := by
  refine (keepsAt_skipToken h).bind fun _ open_ ↦ .ifAccept ?_
    (Keeps.bind (keeps_type false) (fun _ ↦ .ite ?_ (keeps_pure ())) open_)
  · exact (takes_need .closeBracket open_).bind fun _ ↦
      (quiet_requireHere _).keeps.bind (fun _ ↦ keeps_initializer) open_
  · refine fun open_ ↦ .ifAccept ((keeps_ask _ _).bind fun _ ↦ ?_)
      (keeps_optionalStackInitializer open_)
    have hclose : (need .closeBracket >>= fun _ ↦ optionalStackInitializer).Takes
        (.bracket :: open_) fun _ ↦ open_ :=
      (takes_need .closeBracket open_).bind fun _ ↦ keeps_optionalStackInitializer open_
    exact .ite (fun _ ↦ hclose) fun _ ↦ (keeps_expression _).bind fun _ ↦ hclose

/-! ### Primary expressions -/

theorem keeps_tupleElement (count : TupleCount) : (tupleElement count).Keeps := by
  refine .ask fun s ↦ .guarded (.ask fun s ↦ .ite (fun hs ↦ ?_) fun _ ↦ ?_) fun hs hrest ↦
    (keepsAt_skip_label rfl hs).bind fun _ ↦ hrest
  · exact .declared (exists_typeEnd_of_isDeclarationBefore hs) fun _ ht ↦
      (keepsAt_skipToken ht).bind fun _ ↦ keeps_pure _
  · exact (keeps_expression.bind fun _ ↦ keeps_pure _).at s

theorem keeps_requireTuple (start : Nat) (count : TupleCount) : (requireTuple start count).Keeps :=
  .guarded (.ite ((quiet_requireAt _ _).keeps.bind fun _ ↦
    .ite (quiet_requireAt _ _).keeps (keeps_pure ())) (keeps_pure ())) fun hrest ↦
      (quiet_requireAt _ _).keeps.bind fun _ ↦ hrest

theorem keepsAt_parenthesized (h : s.ahead.is .openParen = true) : parenthesized.KeepsAt s :=
  fun open_ ↦ quiet_here.takesAt_bind fun start ↦ (takesAt_skipToken h).bind fun _ t _ ↦
    (Takes.bind (keeps_commaSeparatedWith keeps_tupleElement _) fun count ↦
      (takes_need .closeParen open_).bind fun _ ↦ keeps_requireTuple start count open_) t

theorem keepsAt_collection (h : s.ahead.is .openBracket = true) : collection.KeepsAt s := by
  refine fun open_ ↦ (takesAt_takeFeature h).bind fun _ t _ ↦
    (Takes.bind (keeps_commaSeparatedUpTo ?_ _) fun _ ↦ takes_need .closeBracket open_) t
  exact (keeps_accept rfl).bind fun _ ↦ .ite keeps_expression (keeps_expression.bind fun _ ↦
    .ifAsk (fun s hs ↦ (keepsAt_takeFeature (Ahead.isPlain_of_is hs rfl)).bind fun _ ↦
      keeps_expression) (keeps_pure ()))

theorem quiet_requireTokenFeatures (index : Nat) (features : List Feature) :
    (requireTokenFeatures index features).Quiet := by
  induction features with
  | nil => exact quiet_pure ()
  | cons f fs ih => exact ih.require _ _

/-- The features of a token are noted one by one, and none that has been noted before is lost. -/
private theorem ensures_requireTokenFeatures {place : Nat} {features : List Feature}
    {Q : Unit → Spot → Prop}
    (h : ∀ t : Spot, t.index = s.index → t.ahead = s.ahead → t.brackets = s.brackets →
      (∀ w, t.watch = some w → (∃ v, s.watch = some v ∧ v.noted ⊆ w.noted) ∧
        ∀ f ∈ features, (f, place) ∈ w.noted) → Q () t) :
    (requireTokenFeatures place features).Ensures Q s := by
  induction features generalizing s with
  | nil => exact h s rfl rfl rfl fun w hw ↦ ⟨⟨w, hw, List.Subset.refl _⟩, List.forall_mem_nil _⟩
  | cons f fs ih =>
    refine .inr (ih fun t hindex hahead hbrackets hwatch ↦ h t hindex hahead hbrackets ?_)
    intro w hw
    obtain ⟨⟨v, hv, hsub⟩, hnoted⟩ := hwatch w hw
    obtain ⟨u, hu, rfl⟩ := Option.map_eq_some_iff.1 hv
    rw [List.cons_subset] at hsub
    exact ⟨⟨u, hu, hsub.2⟩, List.forall_mem_cons.2 ⟨hsub.1, hnoted⟩⟩

/-- A token whose features are noted may be passed over. -/
theorem takesAt_tokenWithFeatures {kind : Kind} {before after : Brackets}
    (h : s.ahead.isKind kind = true) (hstep : before.step kind.side = some after) :
    tokenWithFeatures.TakesAt s before fun _ ↦ after := by
  obtain ⟨t, rest, hahead, ht⟩ := Ahead.exists_of_any h
  replace ht : t.kind = kind := eq_of_beq ht
  intro hs _ _
  simp only [hahead, List.head?_cons, Option.map_some, Option.getD_some]
  rw [ensures_bind]
  refine ensures_requireTokenFeatures fun u hindex hahead' hbrackets hwatch ↦ ?_
  have hholds : u.Holds before := fun b hb ↦ hs b (hbrackets ▸ hb)
  refine takesAt_skip (.inl (Nat.le_refl 1)) ?_ ?_ hholds
  · intro w hw i hi v hv _ f hf
    obtain rfl : i = 0 := by omega
    rw [hahead', hahead, List.getElem?_cons_zero, Option.some.injEq] at hv
    rw [hindex]
    exact .inr ((hwatch w hw).2 f (hv ▸ hf))
  · intro _ _
    rw [hahead', hahead, List.take_succ_cons, List.take_zero, Brackets.after_cons, Token.side, ht,
      hstep]
    rfl

/-- The end of a hole, where it comes next or an error has been found. -/
private theorem takesAt_holeEnd {open_ : Brackets}
    (h : s.ahead.isKind .holeEnd = true ∨ s.Failed) :
    (acceptIf (·.isKind .holeEnd) >>= fun _ ↦ Pure.pure ()).TakesAt s (.hole :: open_)
      fun _ ↦ open_ := by
  intro hs
  refine ensures_acceptIf (fun hend ↦ ?_) fun _ hend ↦ ?_
  · exact ((takesAt_skipToken_of_closing hend rfl rfl).bind fun _ t _ ↦ keeps_pure () open_ t) hs
  · rcases h with hnext | hfailed
    · simp [hnext] at hend
    · exact hfailed.holds open_

theorem keepsAt_holeRule (h : s.ahead.isKind .holeStart = true) : holeRule.KeepsAt s := by
  refine fun open_ ↦ (takesAt_skipToken_of_opening h rfl rfl).bind fun _ t _ ↦
    ((keeps_expression _).bind fun _ ↦ (keeps_accept rfl _).bind fun _ ↦ .guarded ?_ fun hrest ↦
      (keeps_expression _).bind fun _ ↦ hrest) t
  refine (keeps_acceptIf (fun _ hts ↦ Ahead.isPlain_of_isKind hts rfl rfl) _).bind fun _ s ↦
    .ask (.ite (fun hend ↦ takesAt_holeEnd (.inl hend)) fun _ ↦ .errorMissing (by simp) fun u hu _ _ ↦ ?_)
  have hskip : (look fun v ↦ skip (v.ahead.toHoleEnd 0)).TakesAt u (.hole :: open_)
      fun _ ↦ .hole :: open_ := .look fun _ _ ↦ takesAt_skip_of_failed hu
        (.inr (Ahead.toHoleEnd_le 0 _)) _ _
  exact hskip.bind fun _ v hv ↦ takesAt_holeEnd (.inr (hv.failed hu))

/-- Where an interpolated string neither goes on nor ends, an error has been found. -/
private theorem brackets_eq_none {open_ : Brackets} (hs : s.Holds (.string :: open_))
    (hlegible : s.Legible) (htext : s.ahead.isKind .interpolatedText = false)
    (hhole : s.ahead.isKind .holeStart = false) (hend : s.ahead.isKind .interpolatedEnd = false) :
    s.brackets = none := by
  cases hbrackets : s.brackets with
  | none => rfl
  | some b =>
    have hgroups := (hlegible.brackets b hbrackets).1
    rw [hs b hbrackets] at hgroups
    obtain ⟨t, rest, hahead, hkind⟩ := hgroups.head_of_string
    rw [hahead] at htext hhole hend
    rcases hkind with hkind | hkind | hkind
    all_goals simp [Ahead.isKind, hkind] at htext hhole hend

theorem keepsAt_interpolatedString (h : s.ahead.isKind .interpolatedStart = true) :
    interpolatedString.KeepsAt s := by
  refine fun open_ ↦ (takesAt_tokenWithFeatures h rfl).bind
    fun _ t _ ↦ takes_repeating (fun s hs ↦ ?_) (fun s ↦ ?_) t
  · have ends (again : Bool) : (Pure.pure again : Rule Bool).Takes
        (if again then .string :: open_ else open_)
        fun again ↦ if again then .string :: open_ else open_ :=
      takes_pure again fun again ↦ if again then .string :: open_ else open_
    refine ensures_acceptIf (fun htext ↦ ?_) fun hlegible htext ↦ TakesAt.ask (.ite (fun hhole ↦ ?_)
      fun hhole hs ↦ ensures_acceptIf (fun hend ↦ ?_) fun _ hend ↦ ?_) hs
    · exact ((keepsAt_skipToken (Ahead.isPlain_of_isKind htext rfl rfl) _).bind
        fun _ t _ ↦ ends true t) hs
    · exact (keepsAt_holeRule hhole _).bind fun _ t _ ↦ ends true t
    · exact ((takesAt_skipToken_of_closing hend rfl rfl).bind fun _ t _ ↦ ends false t) hs
    · rw [Bool.not_eq_true] at hhole
      exact fun b hb ↦ by simp [brackets_eq_none hs hlegible htext hhole hend] at hb
  · refine .ifAcceptIf rfl fun t _ _ ↦ .ask (.ite (fun hhole ↦ ?_) fun _ ↦ ?_)
    · exact ((movesAt_skipToken (Ahead.ne_nil_of_any hhole)).bind_left _).bind_left _
    · exact .bind_right fun _ _ _ _ ↦ movesAt_pure Bool.false_ne_true

/-! ### Queries -/

theorem keepsAt_rangeClause (h : s.ahead.IsPlain) : rangeClause.KeepsAt s := by
  have keeps_rest : (needIdentifier >>= fun _ ↦ needWord .inWord >>= fun _ ↦ expression).Keeps :=
    keeps_needIdentifier.bind fun _ ↦ (keeps_needWord _).bind fun _ ↦ keeps_expression
  exact (keepsAt_skipToken h).bind fun _ ↦ (keeps_ask _).bind fun _ ↦
    .ite keeps_rest (keeps_needType.bind fun _ ↦ keeps_rest)

theorem keeps_acceptContextual (word : String) : (acceptContextual word).Keeps :=
  keeps_acceptIf fun _ ↦ Ahead.isPlain_of_isContextual

theorem keeps_continuation : continuation.Keeps :=
  (keeps_acceptContextual _).bind fun _ ↦
    .ite (keeps_needIdentifier.bind fun _ ↦ keeps_pure _) (keeps_pure _)

theorem keeps_queryClause : queryClause.Keeps := by
  refine .ifAsk (fun s hs ↦ ?_) ((keeps_acceptContextual _).bind fun _ ↦ .ite ?_
    ((keeps_acceptContextual _).bind fun _ ↦ .ite ?_ (.ifAsk (fun s hs ↦ ?_)
      ((keeps_acceptContextual _).bind fun _ ↦ .ite ?_ (keeps_pure false)))))
  · exact (keepsAt_rangeClause (Ahead.isPlain_of_isContextual hs)).bind fun _ ↦ keeps_pure true
  · exact keeps_needIdentifier.bind fun _ ↦ (keeps_need rfl).bind fun _ ↦
      keeps_expression.bind fun _ ↦ keeps_pure true
  · exact keeps_expression.bind fun _ ↦ keeps_pure true
  · exact (keepsAt_rangeClause (Ahead.isPlain_of_isContextual hs)).bind fun _ ↦
      (keeps_needContextual _).bind fun _ ↦ keeps_expression.bind fun _ ↦
        (keeps_needContextual _).bind fun _ ↦ keeps_expression.bind fun _ ↦
          keeps_continuation.bind fun _ ↦ keeps_pure true
  · refine (keeps_commaSeparated (keeps_expression.bind fun _ ↦
      (keeps_acceptContextual _).bind fun _ ↦ .ite (keeps_pure ()) ?_)).bind fun _ ↦ keeps_pure true
    exact (keeps_acceptContextual _).bind fun _ ↦ keeps_pure ()

theorem movesAt_rangeClause (h : s.ahead ≠ []) : rangeClause.MovesAt s fun _ ↦ True :=
  (movesAt_skipToken h).bind_left _

theorem moves_queryClause : queryClause.Moves (· = true) := by
  refine fun s ↦ .ask (.ite (fun hs ↦ ?_) fun _ ↦ .ifAcceptIf rfl fun t _ _ ↦
    .ifAcceptIf rfl fun u _ _ ↦ .ask (.ite (fun hu ↦ ?_) fun _ ↦ .ifAcceptIf rfl fun v _ _ ↦ ?_))
  · exact (movesAt_rangeClause (Ahead.ne_nil_of_any hs)).bind_left _
  · exact (movesAt_rangeClause (Ahead.ne_nil_of_any hu)).bind_left _
  · exact movesAt_pure Bool.false_ne_true

theorem keepsAt_query (h : s.ahead.IsPlain) : query.KeepsAt s := by
  refine (quiet_requireHere _).keepsAt_bind fun _ ↦ (keepsAt_rangeClause h).bind fun _ ↦
    keeps_repeating ((keeps_repeating keeps_queryClause moves_queryClause).bind fun _ ↦ ?_)
      fun s ↦ .bind_right fun _ t _ _ ↦ .ifAcceptIf rfl fun u _ _ ↦ .ifAcceptIf rfl fun v _ _ ↦ ?_
  · refine (keeps_acceptContextual _).bind fun _ ↦ .ite
      (keeps_expression.bind fun _ ↦ keeps_continuation) ((keeps_acceptContextual _).bind fun _ ↦
        .ite ?_ ((keeps_errorMissing (by simp)).bind fun _ ↦ keeps_pure false))
    exact keeps_expression.bind fun _ ↦ (keeps_needContextual _).bind fun _ ↦
      keeps_expression.bind fun _ ↦ keeps_continuation
  · exact .bind_right fun _ _ _ _ ↦ movesAt_pure Bool.false_ne_true

/-! ### Names and words -/

theorem keepsAt_nameExpression (h : s.ahead.isIdentifier = true) : nameExpression.KeepsAt s := by
  have hplain := Ahead.isPlain_of_isIdentifier h
  refine .ask (.ite (fun _ ↦ keepsAt_query hplain) fun _ ↦ .ask ?_)
  have hname : (skipToken >>= fun _ ↦ next .colonColon >>= fun b ↦ if b = true then
      takeFeature .namespaceAliasQualifier >>= fun _ ↦ namePart else genericSuffix).KeepsAt s :=
    (keepsAt_skipToken hplain).bind fun _ ↦ .ifAsk (fun _ hs ↦
      (keepsAt_takeFeature (Ahead.isPlain_of_is hs rfl)).bind fun _ ↦ keeps_namePart)
      keeps_genericSuffix
  exact .ite (fun _ ↦ (quiet_requireHere _).keepsAt_bind fun _ ↦ hname) fun _ ↦ hname

theorem keeps_typeInParentheses : typeInParentheses.Keeps := fun open_ ↦
  (takes_need .openParen open_).bind fun _ ↦ (keeps_needType _).bind fun _ ↦
    takes_need .closeParen open_

theorem keepsAt_wordExpression {k : Keyword} {r : Rule Unit} (hr : wordExpression k = some r)
    (h : s.ahead.IsPlain) : r.KeepsAt s := by
  have hskip := keepsAt_skipToken h
  unfold wordExpression at hr
  split at hr
  case h_14 =>
    split at hr
    · cases hr
      exact hskip
    · contradiction
  all_goals cases hr
  case h_1 | h_2 | h_3 | h_4 | h_5 => exact hskip
  case h_6 => exact keepsAt_creation h
  case h_7 | h_8 => exact hskip.bind fun _ ↦ keeps_typeInParentheses
  case h_9 =>
    refine quiet_here.keepsAt_bind fun start ↦ hskip.bind fun _ open_ ↦ .ifAccept ?_ ?_
    · exact (keeps_needType _).bind fun _ ↦ takes_need .closeParen open_
    · exact (quiet_requireAt _ _).keeps open_
  case h_10 | h_11 => exact hskip.bind fun _ ↦ keeps_condition
  case h_12 =>
    exact (keepsAt_takeFeature h).bind fun _ ↦ (keeps_ask _).bind fun _ ↦
      .guarded keeps_block fun hrest ↦ keeps_parameters.bind fun _ ↦ hrest
  case h_13 => exact keepsAt_stackAllocation h

theorem keeps_primary : primary.Keeps := by
  refine .look fun s _ previous ↦ ?_
  have head_kind {kind : Kind} (h : s.ahead.head?.map Token.kind = some kind) :
      s.ahead.isKind kind = true := by
    obtain ⟨t, ht, hkind⟩ := Option.map_eq_some_iff.1 h
    simp [Ahead.isKind, ht, hkind]
  have keepsAt_literal {kind : Kind} (h : s.ahead.head?.map Token.kind = some kind)
      (hkind : kind.side = .neither) : tokenWithFeatures.KeepsAt s := fun open_ ↦
    takesAt_tokenWithFeatures (head_kind h) (hkind ▸ rfl)
  dsimp only
  split
  case h_1 h | h_2 h | h_3 h => exact keepsAt_literal h rfl
  case h_4 h => exact keepsAt_interpolatedString (head_kind h)
  case h_5 h => exact keepsAt_nameExpression (head_kind h)
  case h_6 k h =>
    cases hr : wordExpression k with
    | none => exact (keeps_errorHere (by simp)).at s
    | some r => exact keepsAt_wordExpression hr (Ahead.isPlain_of_isKind (head_kind h) rfl rfl)
  case h_7 h => exact keepsAt_parenthesized (head_kind h)
  case h_8 h => exact keepsAt_collection (head_kind h)
  case h_9 => exact (keeps_errorHere (by simp)).at s

/-- A token that is no bracket before an opening one. -/
private theorem takesAt_skip_two {first second : Symbol} {open_ : Brackets}
    (h : s.ahead.is first = true) (hfirst : first.side = .neither)
    (h' : s.ahead.tail.is second = true) :
    (skip 2).TakesAt s (second.closes ++ open_) fun _ ↦ second.opens ++ open_ := by
  obtain ⟨t, rest, hahead, ht⟩ := Ahead.exists_of_any h
  rw [hahead] at h'
  obtain ⟨u, rest', htail, hu⟩ := Ahead.exists_of_any h'
  replace htail : rest = u :: rest' := htail
  refine takesAt_skip (.inr ?_) (Spot.admits_of_allows fun w _ ↦ ?_) fun _ _ ↦ ?_
  · rw [hahead, htail, List.length_cons, List.length_cons]
    omega
  · rw [hahead, htail, List.take_succ_cons, List.take_succ_cons, List.take_zero]
    exact List.forall_mem_cons.2 ⟨Watch.allows_of_is ht,
      List.forall_mem_singleton.2 (Watch.allows_of_is hu)⟩
  · rw [hahead, htail, List.take_succ_cons, List.take_succ_cons, List.take_zero,
      Brackets.after_plain (Token.isPlain_of_is ht hfirst), Brackets.after_cons,
      Token.side_of_is hu, Brackets.step_symbol]
    rfl

theorem keeps_postfixPart : postfixPart.Keeps := by
  refine .look fun s _ previous ↦ .ite (fun h ↦ ?_) fun _ ↦ .ite (fun h ↦ ?_) fun _ ↦
    .ite (fun h ↦ ?_) fun _ ↦ .ite (fun h open_ ↦ ?_) fun _ ↦ .ite (fun h open_ ↦ ?_) fun _ ↦
      .ite (fun h ↦ ?_) fun _ ↦ .ite (fun h ↦ ?_) fun _ ↦ (keeps_pure none).at s
  · exact (keepsAt_skipToken (Ahead.isPlain_of_isOneOf h (by decide))).bind fun _ ↦
      keeps_namePart.bind fun _ ↦ keeps_pure _
  · exact (keepsAt_takeFeature (Ahead.isPlain_of_is h rfl)).bind fun _ ↦
      keeps_namePart.bind fun _ ↦ keeps_pure _
  · rw [Bool.and_eq_true, Bool.and_eq_true] at h
    exact fun open_ ↦ (quiet_requireHere _).takesAt_bind fun _ ↦
      (takesAt_skip_two h.1.1 rfl h.1.2).bind fun _ t _ ↦
        ((takes_arguments .closeBracket open_).bind fun _ ↦ keeps_pure _ open_) t
  · exact (takesAt_skipToken h).bind fun _ t _ ↦ ((takes_arguments .closeParen open_).bind
      fun _ ↦ keeps_pure _ open_) t
  · exact (takesAt_skipToken h).bind fun _ t _ ↦ ((takes_arguments .closeBracket open_).bind
      fun _ ↦ keeps_pure _ open_) t
  · exact (keepsAt_skipToken (Ahead.isPlain_of_isOneOf h (by decide))).bind fun _ ↦ keeps_pure _
  · rw [Bool.and_eq_true] at h
    exact (keepsAt_takeFeature (Ahead.isPlain_of_is h.1 rfl)).bind fun _ ↦ keeps_pure _

theorem moves_postfixPart : postfixPart.Moves (· ≠ none) := by
  refine fun s ↦ .look fun previous ↦ .ite (fun h ↦ ?_) fun _ ↦ .ite (fun h ↦ ?_) fun _ ↦
    .ite (fun h ↦ ?_) fun _ ↦ .ite (fun h ↦ ?_) fun _ ↦ .ite (fun h ↦ ?_) fun _ ↦
      .ite (fun h ↦ ?_) fun _ ↦ .ite (fun h ↦ ?_) fun _ ↦ movesAt_pure (by simp)
  · exact (movesAt_skipToken (Ahead.ne_nil_of_any h)).bind_left _
  · exact (movesAt_takeFeature (Ahead.ne_nil_of_any h)).bind_left _
  · rw [Bool.and_eq_true, Bool.and_eq_true] at h
    refine .bind_right fun _ t hst hindex ↦ (movesAt_skip (by decide) ?_).bind_left _
    rw [hst.ahead_eq hindex.symm]
    exact Ahead.ne_nil_of_any h.1.1
  · exact (movesAt_skipToken (Ahead.ne_nil_of_any h)).bind_left _
  · exact (movesAt_skipToken (Ahead.ne_nil_of_any h)).bind_left _
  · exact (movesAt_skipToken (Ahead.ne_nil_of_any h)).bind_left _
  · rw [Bool.and_eq_true] at h
    exact (movesAt_takeFeature (Ahead.ne_nil_of_any h.1)).bind_left _

theorem keeps_postfixExpression : postfixExpression.Keeps := by
  refine keeps_primary.bind fun _ ↦ keeps_loop (fun conditional ↦ keeps_postfixPart.bind fun c ↦ ?_)
    (fun conditional s ↦ (moves_postfixPart s).bind fun c t _ hc _ ↦ ?_) fun _ ↦ keeps_pure _
  · cases c with
    | none => exact keeps_pure _
    | some b => exact keeps_pure _
  · rw [not_not] at hc
    subst hc
    exact movesAt_pure (by simp)

/-! ### Operators -/

theorem keeps_switchArms (start : Nat) : (switchArms start).Keeps := by
  refine (quiet_requireAt _ _).keeps.bind fun _ open_ ↦ (takes_need .openBrace open_).bind fun _ ↦
    (keeps_commaSeparatedUpTo (keeps_pattern.bind fun _ ↦ (keeps_acceptContextual _).bind fun _ ↦
      .guarded ?_ fun hrest ↦ keeps_expression.bind fun _ ↦ hrest) _).bind fun _ ↦
        takes_need .closeBrace open_
  exact (keeps_need rfl).bind fun _ ↦ keeps_expression

theorem keeps_rightOperand (op : Operator) (start : Nat) {operand : Rule Bool}
    (h : operand.Keeps) : (rightOperand op start operand).Keeps := by
  have hoperand : (operand >>= fun _ ↦ Pure.pure ()).Keeps := h.bind fun _ ↦ keeps_pure ()
  unfold rightOperand
  split
  · exact quiet_here.keeps.bind fun _ ↦ keeps_pattern.bind fun _ ↦
      .ite (quiet_requireAt _ _).keeps (keeps_pure ())
  · exact (keeps_type true).bind fun _ ↦ keeps_pure ()
  · exact keeps_switchArms start
  · exact (quiet_requireAt _ _).keeps.bind fun _ ↦ keeps_initializer
  · exact (quiet_requireAt _ _).keeps.bind fun _ ↦ (keeps_ask _).bind fun _ ↦
      .ite hoperand (keeps_pure ())
  · exact .guarded hoperand fun hrest ↦ (quiet_requireAt _ _).keeps.bind fun _ ↦ hrest

end Rule

namespace Ahead

private theorem balanced_greaterOperator {first : Token} (hfirst : first.IsPlain)
    (rest : Ahead) :
    Balanced (first :: rest) (greaterOperator first rest).2 ∧
      0 < (greaterOperator first rest).2 := by
  have one (rest : Ahead) : Balanced (first :: rest) 1 := .cons hfirst (.zero rest)
  cases rest with
  | nil => exact ⟨one [], Nat.one_pos⟩
  | cons second rest =>
    have two (hsecond : second.IsPlain) (rest : Ahead) : Balanced (first :: second :: rest) 2 :=
      .cons hfirst (.cons hsecond (.zero rest))
    simp only [greaterOperator]
    split
    · exact ⟨one _, Nat.one_pos⟩
    · split
      · next h => exact ⟨two (Token.isPlain_of_is h rfl) rest, Nat.two_pos⟩
      · split
        · exact ⟨one _, Nat.one_pos⟩
        · next h =>
          have hsecond : second.IsPlain := Token.isPlain_of_is (by simpa using h) rfl
          cases rest with
          | nil => exact ⟨two hsecond [], Nat.two_pos⟩
          | cons third rest =>
            have three (hthird : third.IsPlain) : Balanced (first :: second :: third :: rest) 3 :=
              .cons hfirst (.cons hsecond (.cons hthird (.zero rest)))
            dsimp only
            split
            · exact ⟨two hsecond _, Nat.two_pos⟩
            · split
              · next h => exact ⟨three (Token.isPlain_of_is h rfl), by decide⟩
              · split
                · next h => exact ⟨three (Token.isPlain_of_is h rfl), by decide⟩
                · exact ⟨two hsecond _, Nat.two_pos⟩

/-- The tokens of an operator that is no bracket are none, either. -/
theorem balanced_operator {ts : Ahead} {op : Operator} {count : Nat}
    (h : ts.operator = some (op, count))
    (hop : ∀ symbol, op = .symbol symbol → symbol.side = .neither) :
    ts.Balanced count ∧ 0 < count := by
  cases ts with
  | nil => contradiction
  | cons t rest =>
    have one (ht : t.IsPlain) : Balanced (t :: rest) 1 ∧ 0 < 1 :=
      ⟨.cons ht (.zero rest), Nat.one_pos⟩
    unfold operator at h
    dsimp only at h
    split at h
    · next hkind => cases h; exact one (Token.isPlain_of_kind hkind rfl rfl)
    · next hkind => cases h; exact one (Token.isPlain_of_kind hkind rfl rfl)
    · next hkind =>
      split at h
      · cases h
        exact one (Token.isPlain_of_kind hkind rfl rfl)
      · contradiction
    · next hkind =>
      have ht : t.IsPlain := Token.isPlain_of_kind hkind rfl rfl
      have hgreater := balanced_greaterOperator ht rest
      rw [Option.some.inj h] at hgreater
      exact hgreater
    · next symbol _ hkind =>
      cases h
      exact one (Token.isPlain_of_kind hkind (hop symbol rfl) rfl)
    · split at h
      · next hwith =>
        cases h
        rw [Bool.and_eq_true] at hwith
        exact one (Token.isPlain_of_isContextual hwith.1)
      · contradiction

theorem ne_nil_of_operator {ts : Ahead} {result : Operator × Nat}
    (h : ts.operator = some result) : ts ≠ [] := by
  rintro rfl
  contradiction

end Ahead

theorem Operator.side_of_precedence {symbol : Symbol} {p : Nat}
    (h : (Operator.symbol symbol).precedence = some p) : symbol.side = .neither := by
  cases symbol <;> first | rfl | simp [precedence] at h

theorem Operator.side_of_isAssignment {symbol : Symbol}
    (h : (Operator.symbol symbol).isAssignment = true) : symbol.side = .neither := by
  cases symbol <;> first | rfl | (simp [isAssignment, isCompoundAssignment] at h)

namespace Rule

variable {s : Spot}

private theorem balanced_of_precedence {ts : Ahead} {op : Operator} {count p : Nat}
    (h : ts.operator = some (op, count)) (hp : op.precedence = some p) :
    ts.Balanced count ∧ 0 < count :=
  Ahead.balanced_operator h fun _ hsymbol ↦ Operator.side_of_precedence (hsymbol ▸ hp)

theorem keeps_binaryRound (precedence : Nat) {operand : Nat → Rule Bool}
    (h : ∀ p, (operand p).Keeps) (conditional : Bool) :
    (binaryRound precedence operand conditional).Keeps := by
  refine .look fun s _ _ ↦ ?_
  dsimp only
  split
  · exact (keeps_pure _).at s
  · next op count hop =>
    split
    · exact (keeps_pure _).at s
    · next p hp =>
      exact .ite (fun _ ↦ (keeps_pure _).at s) fun _ ↦
        (keepsAt_skip (balanced_of_precedence hop hp).1).bind fun _ ↦
          (keeps_rightOperand op s.index (h (p + 1))).bind fun _ ↦ keeps_pure _

theorem moves_binaryRound (precedence : Nat) (operand : Nat → Rule Bool) (conditional : Bool) :
    (binaryRound precedence operand conditional).Moves fun outcome ↦
      ∃ state, outcome = .again state := by
  refine fun s ↦ .look fun _ ↦ ?_
  dsimp only
  split
  · exact movesAt_pure (by simp)
  · next op count hop =>
    split
    · exact movesAt_pure (by simp)
    · next p hp =>
      exact .ite (fun _ ↦ movesAt_pure (by simp)) fun _ ↦ (movesAt_skip
        (balanced_of_precedence hop hp).2 (Ahead.ne_nil_of_operator hop)).bind_left _

theorem keeps_binaryWithin (room precedence : Nat) : (binaryWithin room precedence).Keeps := by
  induction room generalizing precedence with
  | zero => exact keeps_unary
  | succ room ih =>
    exact keeps_unary.bind fun _ ↦ keeps_loop (keeps_binaryRound precedence ih)
      (moves_binaryRound precedence _) fun _ ↦ keeps_pure _

theorem keeps_binary (precedence : Nat) : (binary precedence).Keeps := keeps_binaryWithin _ _

theorem keeps_conditional : conditional.Keeps := by
  refine (keeps_binary _).bind fun access ↦ (keeps_accept rfl).bind fun _ ↦
    .ite ((keeps_ask _).bind fun _ ↦ .guarded ?_ fun hrest ↦
      (quiet_requireHere _).keeps.bind fun _ ↦ hrest) (keeps_pure _)
  exact keeps_expression.bind fun _ ↦ (keeps_need rfl).bind fun _ ↦ keeps_expression.bind fun _ ↦
    keeps_pure _

theorem keeps_unaryRule : unaryRule.Keeps := by
  have keeps_operand : (unary >>= fun _ ↦ Pure.pure false).Keeps :=
    keeps_unary.bind fun _ ↦ keeps_pure false
  refine .look fun s _ previous ↦ .ite (fun h ↦ ?_) fun _ ↦ .ite (fun h ↦ ?_) fun _ ↦
    .ite (fun h ↦ ?_) fun _ ↦ .ite (fun h open_ ↦ ?_) fun _ ↦ .ite (fun h ↦ ?_) fun _ ↦
      .ite (fun h ↦ ?_) fun _ ↦ .ite (fun h ↦ ?_) fun _ ↦ keeps_postfixExpression.at s
  · exact (keepsAt_takeFeature (Ahead.isPlain_of_is h rfl)).bind fun _ ↦ keeps_operand
  · exact (keepsAt_skipToken (Ahead.isPlain_of_isOneOf h (by decide))).bind fun _ ↦ keeps_operand
  · exact (keepsAt_takeFeature (Ahead.isPlain_of_is h rfl)).bind fun _ ↦ (keeps_ask _).bind fun _ ↦
      .ite keeps_operand (keeps_pure false)
  · rw [Bool.and_eq_true] at h
    exact (takesAt_skipToken h.1).bind fun _ t _ ↦ ((keeps_needType _).bind fun _ ↦
      (takes_need .closeParen open_).bind fun _ ↦ keeps_operand open_) t
  · exact (keepsAt_takeFeature (Ahead.isPlain_of_isWord h)).bind fun _ ↦ keeps_operand
  · exact (keepsAt_takeFeature (Ahead.isPlain_of_isWord h)).bind fun _ ↦
      (keeps_binary _).bind fun _ ↦ keeps_pure false
  · rw [Bool.and_eq_true] at h
    exact (keepsAt_skipToken (Ahead.isPlain_of_isContextual h.1)).bind fun _ ↦ keeps_operand

/-! ### Lambdas and assignments -/

theorem keeps_lambdaParameters : lambdaParameters.Keeps := by
  refine .ifExpect rfl fun open_ ↦ .ifAccept (keeps_pure () open_)
    ((keeps_commaSeparated ?_ _).bind fun _ ↦ takes_need .closeParen open_)
  refine keeps_attributeSections.bind fun _ ↦ keeps_parameterModifiers.bind fun modifiers ↦
    .ifAsk (fun s hs ↦ ?_) ?_
  · rw [Bool.and_eq_true] at hs
    have hskip := keepsAt_skipToken (Ahead.isPlain_of_isIdentifier hs.1)
    dsimp only
    split
    · exact (quiet_pure _).keepsAt_bind fun _ ↦ hskip
    · exact (quiet_requireAt _ _).keepsAt_bind fun _ ↦ hskip
  · exact (keeps_type false).bind fun _ ↦ .guarded (keeps_defaultValue _) fun hrest ↦
      keeps_needIdentifier.bind fun _ ↦ hrest

theorem keeps_lambdaModifiers : lambdaModifiers.Keeps := by
  refine keeps_repeating (.ifAsk (fun s hs ↦ ?_) (.ifAsk (fun s hs ↦ ?_) (keeps_pure false)))
    fun s ↦ .ask (.ite (fun hs ↦ ?_) fun _ ↦ .ask (.ite (fun hs ↦ ?_) fun _ ↦ ?_))
  · exact (keepsAt_takeFeature (Ahead.isPlain_of_isWord hs)).bind fun _ ↦ keeps_pure true
  · rw [Bool.and_eq_true] at hs
    exact (keepsAt_takeFeature (Ahead.isPlain_of_isContextual hs.1)).bind fun _ ↦ keeps_pure true
  · exact (movesAt_takeFeature (Ahead.ne_nil_of_any hs)).bind_left _
  · rw [Bool.and_eq_true] at hs
    exact (movesAt_takeFeature (Ahead.ne_nil_of_any hs.1)).bind_left _
  · exact movesAt_pure Bool.false_ne_true

theorem keeps_lambdaSignature : lambdaSignature.Keeps := by
  refine .ifAsk (fun s hs ↦ ?_) ((keeps_ask _).bind fun _ ↦ .ite keeps_lambdaParameters ?_)
  · rw [Bool.and_eq_true] at hs
    exact keepsAt_skipToken (Ahead.isPlain_of_isIdentifier hs.1)
  · exact (quiet_requireHere _).keeps.bind fun _ ↦ keeps_needType.bind fun _ ↦
      keeps_lambdaParameters

theorem keeps_lambda : lambda.Keeps := by
  refine (keeps_whileAhead (fun s hs ↦ ?_) fun s hs ↦ ?_).bind fun _ ↦
    keeps_lambdaModifiers.bind fun _ ↦ keeps_lambdaSignature.bind fun _ ↦
    quiet_here.keeps.bind fun _ ↦ (keeps_need rfl).bind fun _ ↦
    (quiet_requireAt _ _).keeps.bind fun _ ↦ ?_
  · exact (quiet_requireHere _).keepsAt_bind fun _ ↦
      (keepsAt_attributeSection hs).bind fun _ ↦ keeps_pure ()
  · refine .bind_right fun _ t hst hindex ↦ (movesAt_attributeSection ?_).bind_left _
    rw [hst.ahead_eq hindex.symm]
    exact hs
  · exact (keeps_ask _).bind fun _ ↦ .ite keeps_block keeps_expression

theorem keeps_expressionRule : expressionRule.Keeps := by
  refine keeps_loop (fun _ ↦ (keeps_ask _).bind fun _ ↦ .ite ?_ (keeps_conditional.bind fun access ↦
    .look fun s _ _ ↦ ?_)) (fun _ s ↦ .ask (.ite (fun _ ↦ ?_) fun _ ↦ .bind_right fun access t _ _ ↦
      .look fun _ ↦ ?_)) fun _ ↦ keeps_pure _
  · exact keeps_lambda.bind fun _ ↦ keeps_pure _
  · dsimp only
    split
    · exact (keeps_pure _).at s
    · next op count hop =>
      refine .ite (fun _ ↦ (keeps_pure _).at s) fun hassignment ↦ ?_
      have htokens := Ahead.balanced_operator hop fun symbol hsymbol ↦
        Operator.side_of_isAssignment (by simpa [hsymbol] using hassignment)
      refine (quiet_requireTokenFeatures _ _).keepsAt_bind fun _ ↦
        (keepsAt_skip htokens.1).bind fun _ ↦ .ask fun t ↦ .guarded (keeps_pure _) fun ht hrest ↦ ?_
      rw [Bool.and_eq_true] at ht
      exact (keepsAt_takeFeature (Ahead.isPlain_of_isWord ht.2)).bind fun _ ↦ hrest
  · exact .bind_right fun _ _ _ _ ↦ movesAt_pure (by simp)
  · dsimp only
    split
    · exact movesAt_pure (by simp)
    · next op count hop =>
      refine .ite (fun _ ↦ movesAt_pure (by simp)) fun hassignment ↦
        .bind_right fun _ u htu hindex ↦ ?_
      have htokens := Ahead.balanced_operator hop fun symbol hsymbol ↦
        Operator.side_of_isAssignment (by simpa [hsymbol] using hassignment)
      refine (movesAt_skip htokens.2 ?_).bind_left _
      rw [htu.ahead_eq hindex.symm]
      exact Ahead.ne_nil_of_operator hop

end Rule

end CSharpCheck
