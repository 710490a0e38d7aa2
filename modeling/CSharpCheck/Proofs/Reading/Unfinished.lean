import CSharpCheck.Proofs.Reading.Soundness
import CSharpCheck.Proofs.Rules.Composition

/-!
# Declarations that do not end

A declaration ends with a semicolon or with braces, perhaps behind an arrow. Where none of these
symbols is left, a rule of the grammar is found broken wherever a declaration is read, however the
declaration begins.
-/

namespace CSharpCheck

/-- The symbols with which declarations end, or behind which they end. -/
def endSymbols : List Symbol := [.semicolon, .openBrace, .closeBrace, .fatArrow]

/-- The progress has come to where declarations cannot end any more, and it has not held back the
report of an error. -/
structure Progress.Endless (p : Progress) : Prop where
  lacks : ∀ s ∈ endSymbols, ∀ t ∈ p.ahead, t.is s = false
  charged : p.charged = true → p.Faulty
  abandonedAt : p.abandonedAt.isSome = true → p.Faulty

namespace Progress.Endless

variable {p : Progress}

theorem is_eq_false (h : p.Endless) {s : Symbol} (hs : s ∈ endSymbols) : p.ahead.is s = false := by
  cases hahead : p.ahead with
  | nil => rfl
  | cons t ts => exact h.lacks s hs t (by simp [hahead])

/-- An error is found, now or before. -/
theorem faulty_report (h : p.Endless) (stream : TokenStream) (place : ErrorPlace)
    (e : GrammarError) : (p.report stream place e).Faulty := by
  unfold report
  split
  · next hheld => exact (Bool.or_eq_true_iff.1 hheld).elim h.charged h.abandonedAt
  · exact ⟨_, List.mem_cons_self, e, rfl⟩

end Progress.Endless

/-- Nothing that is read brings the missing symbols back. -/
theorem Progress.invariant_endless (stream : TokenStream) :
    Progress.Invariant stream Progress.Endless where
  advance p h count := by
    have hfaulty (hp : p.Faulty) := (invariant_faulty stream).advance p hp count
    refine ⟨fun s hs t ht ↦ ?_, fun hcharged ↦ ?_, fun habandoned ↦ ?_⟩
    · rw [ahead_advance] at ht
      exact h.lacks s hs t (List.mem_of_mem_drop ht)
    · cases hbefore : p.charged with
      | true => exact hfaulty (h.charged hbefore)
      | false => simp [charged_advance hbefore] at hcharged
    · rw [abandonedAt_advance] at habandoned
      exact hfaulty (h.abandonedAt habandoned)
  use p h feature index := by
    have hfaulty (hp : p.Faulty) := (invariant_faulty stream).use p hp feature index
    exact ⟨h.lacks, fun hcharged ↦ hfaulty (h.charged hcharged),
      fun habandoned ↦ hfaulty (h.abandonedAt habandoned)⟩
  report p h place e := by
    have hfaulty := h.faulty_report stream place e
    refine ⟨?_, fun _ ↦ hfaulty, fun _ ↦ hfaulty⟩
    unfold report
    split <;> exact h.lacks
  abandon p h := by
    have hfaulty := p.faulty_abandon stream
    exact ⟨by simp [abandon], fun _ ↦ hfaulty, fun _ ↦ hfaulty⟩

namespace Rule

variable {α β : Type} {ts : Ahead}

/-- Where declarations cannot end and the tokens come next, reading the rule finds a rule of the
grammar broken, now or before. -/
def FailsAt (r : Rule α) (ts : Ahead) : Prop :=
  ∀ ⦃room : Nat⦄ ⦃around : Surroundings⦄ ⦃p : Progress⦄, p.Endless → p.ahead = ts →
    (r.runWith (grammarRules.enter room) around p).2.Faulty

/-- Where declarations cannot end, reading the rule finds a rule of the grammar broken. -/
def Fails (r : Rule α) : Prop := ∀ ts, r.FailsAt ts

theorem endless_runWith (r : Rule α) {room : Nat} {around : Surroundings} {p : Progress}
    (hp : p.Endless) : (r.runWith (grammarRules.enter room) around p).2.Endless :=
  runWith_invariant (Progress.invariant_endless around.stream)
    (Rules.enter_invariant (Progress.invariant_endless around.stream) _ _) r rfl hp

/-! ### One rule after another -/

namespace FailsAt

variable {r : Rule α}

/-- What comes after a broken rule does not make up for it. -/
theorem bind_left (h : r.FailsAt ts) (f : α → Rule β) : (r >>= f).FailsAt ts := by
  intro room around p hp hahead
  rw [runWith_bind]
  exact faulty_runWith _ (h hp hahead)

theorem look {next : View → Rule α} (h : ∀ v, v.ahead = ts → (next v).FailsAt ts) :
    (look next).FailsAt ts := fun _ _ _ hp hahead ↦ h _ hahead hp hahead

theorem script {next : Bool → Rule α} (h : ∀ isScript, (next isScript).FailsAt ts) :
    (script next).FailsAt ts := fun _ _ _ hp hahead ↦ h _ hp hahead

theorem ask {γ : Type} {question : Ahead → γ} {f : γ → Rule α} (h : (f (question ts)).FailsAt ts) :
    (ask question >>= f).FailsAt ts := .look fun _ hv ↦ hv ▸ h

theorem here {f : Nat → Rule α} (h : ∀ index, (f index).FailsAt ts) : (here >>= f).FailsAt ts :=
  .look fun _ _ ↦ h _

/-- A nonterminal is read as its rule is, or it is not read at all since it is too deeply nested. -/
theorem call {q : Nonterminal} (h : (grammarRules q).FailsAt ts) (next : q.Result → Rule α) :
    (call q next).FailsAt ts := by
  intro room around p hp hahead
  refine faulty_runWith (next _) ?_
  unfold Rules.enter
  split
  · next habandoned => exact hp.abandonedAt habandoned
  · cases room with
    | zero => exact p.faulty_abandon around.stream
    | succ room => exact h hp hahead

/-- A loop makes a round at least. -/
theorem loop {σ : Type} {init : σ} {round : σ → Rule (Round σ)} (h : (round init).FailsAt ts)
    (next : σ → Rule α) : (loop init round next).FailsAt ts := by
  intro room around p hp hahead
  have hround : ((round init).runWith (grammarRules.enter room) around p).2.Faulty := h hp hahead
  have hrounds : (rounds (fun state p ↦ (round state).runWith (grammarRules.enter room) around p)
      (around.stream.tokens.size + 1) init p).2.Faulty := by
    rw [rounds]
    split
    · next heq =>
      rw [heq] at hround
      exact hround
    · next heq =>
      rw [heq] at hround
      split
      · exact rounds_invariant (fun state _ hq ↦ faulty_runWith (round state) hq) _ hround
      · exact hround
  exact faulty_runWith (next _) hrounds

theorem errorHere (e : GrammarError) : (errorHere e).FailsAt ts :=
  fun _ around _ hp _ ↦ hp.faulty_report around.stream .here e

theorem requireHere {f : Unit → Rule α} (h : (f ()).FailsAt ts) (feature : Feature) :
    (requireHere feature >>= f).FailsAt ts := fun _ around _ hp hahead ↦
  h ((Progress.invariant_endless around.stream).use _ hp feature _) hahead

end FailsAt

namespace Fails

variable {r : Rule α}

theorem bind_left (h : r.Fails) (f : α → Rule β) : (r >>= f).Fails := fun ts ↦ (h ts).bind_left f

/-- What comes before a rule that fails does not matter. -/
theorem bind_right (r : Rule α) {f : α → Rule β} (h : ∀ a, (f a).Fails) : (r >>= f).Fails := by
  intro ts room around p hp _
  rw [runWith_bind]
  exact h _ _ (endless_runWith r hp) rfl

theorem look {next : View → Rule α} (h : ∀ v, (next v).Fails) : (Rule.look next).Fails :=
  fun ts ↦ .look fun v _ ↦ h v ts

theorem enclosing {next : List TypeKind → Rule α} (h : ∀ kinds, (next kinds).Fails) :
    (Rule.enclosing next).Fails := fun ts _ _ _ hp hahead ↦ h _ ts hp hahead

theorem ite {c : Prop} [Decidable c] {s : Rule α} (hthen : r.Fails) (helse : s.Fails) :
    (if c then r else s).Fails := by
  split
  · exact hthen
  · exact helse

end Fails

/-! ### What has to come next -/

theorem fails_errorHere (e : GrammarError) : (errorHere e).Fails := fun _ ↦ .errorHere e

theorem fails_errorMissing (e : GrammarError) : (errorMissing e).Fails :=
  fun _ _ around _ hp _ ↦ hp.faulty_report around.stream .missing e

/-- None of the symbols comes next. -/
theorem Fails.next {s : Symbol} (hs : s ∈ endSymbols) {f : Bool → Rule α} (h : (f false).Fails) :
    (next s >>= f).Fails := by
  intro ts room around p hp hahead
  have hnext : (Rule.next s >>= f).runWith (grammarRules.enter room) around p =
      (f (p.ahead.is s)).runWith (grammarRules.enter room) around p := rfl
  rw [hnext, hp.is_eq_false hs]
  exact h ts hp hahead

theorem Fails.accept {s : Symbol} (hs : s ∈ endSymbols) {f : Bool → Rule α} (h : (f false).Fails) :
    (accept s >>= f).Fails := by
  rw [Rule.accept, acceptIf, bind_assoc]
  refine Fails.next hs ?_
  simpa using h

theorem fails_expect {s : Symbol} (hs : s ∈ endSymbols) : (expect s).Fails := by
  rw [expect, expectIf]
  refine Fails.accept hs ?_
  simp only [Bool.false_eq_true, if_false]
  exact (fails_errorMissing _).bind_left _

theorem fails_need {s : Symbol} (hs : s ∈ endSymbols) : (need s).Fails :=
  (fails_expect hs).bind_left _

/-- If there is no type, it is reported missing. -/
theorem Fails.type {f : Bool → Rule α} (h : (f true).Fails) : (type false >>= f).Fails := by
  unfold Rule.type
  refine .look fun v ↦ ?_
  show Rule.Fails (_ >>= f)
  dsimp only
  split
  · exact ((fails_errorHere _).bind_left _).bind_left _
  · simp only [bind_assoc, pure_bind]
    exact .bind_right _ fun _ ↦ .bind_right _ fun _ ↦ h

/-! ### Statements -/

theorem fails_block : block.Fails := fails_expect (by decide) |>.bind_left _

theorem fails_expressionBody : expressionBody.Fails :=
  .bind_right _ fun _ ↦ .bind_right _ fun _ ↦ fails_need (by decide)

theorem fails_body (feature : Option Feature) : (body feature).Fails := by
  refine .next (by decide) ?_
  simp only [Bool.false_eq_true, if_false]
  refine .next (by decide) ?_
  simp only [Bool.false_eq_true, if_false]
  refine .accept (by decide) ?_
  simp only [Bool.false_eq_true, if_false]
  exact fails_need (by decide)

theorem fails_localDeclaration : localDeclaration.Fails :=
  .bind_right _ fun _ ↦ fails_need (by decide)

theorem fails_localFunction : localFunction.Fails := by
  iterate 9 refine .bind_right _ fun _ ↦ ?_
  exact fails_body none

/-! ### Members -/

theorem fails_accessors (modifiers : List Placed) (ofEvent : Bool) :
    (accessors modifiers ofEvent).Fails := by
  iterate 3 refine .bind_right _ fun _ ↦ ?_
  exact fails_need (by decide)

theorem fails_property (modifiers : List Placed) : (property modifiers).Fails :=
  .bind_right _ fun _ ↦ (fails_accessors modifiers false).bind_left _

theorem fails_indexer (modifiers : List Placed) : (indexer modifiers).Fails := by
  iterate 3 refine .bind_right _ fun _ ↦ ?_
  refine .next (by decide) ?_
  simp only [Bool.false_eq_true, if_false]
  refine .next (by decide) ?_
  simp only [Bool.false_eq_true, if_false]
  exact fails_need (by decide)

theorem fails_fieldRest (modifiers : List Placed) : (fieldRest modifiers).Fails :=
  .bind_right _ fun _ ↦ .bind_right _ fun _ ↦ fails_need (by decide)

theorem fails_event (modifiers : List Placed) : (event modifiers).Fails := by
  iterate 4 refine .bind_right _ fun _ ↦ ?_
  have hrest : Fails (do
      if ← Rule.next .openBrace then accessors modifiers true else fieldRest []) :=
    .next (by decide) (fails_fieldRest [])
  refine .ite (.bind_right _ fun _ ↦ hrest) (.bind_right _ fun _ ↦ hrest)

theorem fails_operatorRest : operatorRest.Fails := .bind_right _ fun _ ↦ fails_body _

theorem fails_operatorDeclaration : operatorDeclaration.Fails := by
  iterate 3 refine .bind_right _ fun _ ↦ ?_
  exact fails_operatorRest

theorem fails_conversionOperator : conversionOperator.Fails := by
  iterate 4 refine .bind_right _ fun _ ↦ ?_
  exact fails_operatorRest

theorem fails_constructor (modifiers : List Placed) : (constructor modifiers).Fails := by
  iterate 4 refine .bind_right _ fun _ ↦ ?_
  exact .ite (.bind_right _ fun _ ↦ fails_body _) (fails_body _)

theorem fails_finalizer : finalizer.Fails := by
  iterate 4 refine .bind_right _ fun _ ↦ ?_
  exact fails_body _

theorem fails_constant : constant.Fails := by
  iterate 3 refine .bind_right _ fun _ ↦ ?_
  exact fails_need (by decide)

theorem fails_invalidMember : invalidMember.Fails := .bind_right _ fun _ ↦ fails_errorHere _

theorem fails_namedMember (targets modifiers : List Placed) :
    (namedMember targets modifiers).Fails := by
  refine .bind_right _ fun _ ↦ .ite ?_ ?_
  · iterate 5 refine .bind_right _ fun _ ↦ ?_
    exact fails_body _
  · refine .next (by decide) ?_
    simp only [Bool.false_eq_true, if_false]
    refine .next (by decide) ?_
    simp only [Bool.false_eq_true, if_false]
    exact fails_fieldRest modifiers

theorem fails_typedMember (targets modifiers : List Placed) :
    (typedMember targets modifiers).Fails := by
  refine .bind_right _ fun _ ↦ .type ?_
  simp only [if_true]
  refine .bind_right _ fun _ ↦ .ite fails_operatorDeclaration ?_
  refine .bind_right _ fun _ ↦ .ite (fails_indexer modifiers) ?_
  refine .bind_right _ fun _ ↦ .ite ?_ fails_invalidMember
  exact .bind_right _ fun _ ↦ .ite (fails_indexer modifiers) (fails_namedMember targets modifiers)

/-! ### Types -/

theorem fails_delegateDeclaration : delegateDeclaration.Fails := by
  iterate 6 refine .bind_right _ fun _ ↦ ?_
  exact fails_need (by decide)

theorem fails_enumDeclaration : enumDeclaration.Fails := by
  have hrest : Fails (do
      if ← expect .openBrace then
        commaSeparatedUpTo .closeBrace enumMember
        need .closeBrace
        allow .semicolon) := (fails_expect (by decide)).bind_left _
  iterate 3 refine .bind_right _ fun _ ↦ ?_
  exact .ite (.bind_right _ fun _ ↦ hrest) hrest

theorem fails_structuredType (modifiers : List Placed) : (structuredType modifiers).Fails := by
  have hrest (kind : TypeKind) : Fails (do
      unless ← Rule.accept .semicolon do
        if ← expect .openBrace then
          within kind typeBody do
            need .closeBrace
            allow .semicolon) := by
    refine .accept (by decide) ?_
    simp only [Bool.false_eq_true, if_false]
    exact (fails_expect (by decide)).bind_left _
  have hbase (kind : TypeKind) : Fails (do
      if ← Rule.accept .colon then baseList
      constraintClauses
      unless ← Rule.accept .semicolon do
        if ← expect .openBrace then
          within kind typeBody do
            need .closeBrace
            allow .semicolon) := by
    refine .bind_right _ fun _ ↦ .ite ?_ ?_
    · exact .bind_right _ fun _ ↦ .bind_right _ fun _ ↦ hrest kind
    · exact .bind_right _ fun _ ↦ hrest kind
  iterate 6 refine .bind_right _ fun _ ↦ ?_
  refine .ite (.ite ?_ ?_) (hbase _)
  · exact .bind_right _ fun _ ↦ hbase _
  · exact .bind_right _ fun _ ↦ .bind_right _ fun _ ↦ hbase _

theorem fails_extensionBlock : extensionBlock.Fails := by
  iterate 4 refine .bind_right _ fun _ ↦ ?_
  exact (fails_expect (by decide)).bind_left _

theorem fails_typeDeclarationRule (modifiers : List Placed) :
    (typeDeclarationRule modifiers).Fails := by
  refine .bind_right _ fun _ ↦ .bind_right _ fun _ ↦ .ite fails_enumDeclaration ?_
  exact .bind_right _ fun _ ↦ .ite fails_delegateDeclaration (fails_structuredType modifiers)

/-! ### Elements -/

/-- Where a member is read, a rule is found broken, unless no member begins there. -/
theorem faulty_or_stays_memberRule {room : Nat} {around : Surroundings} {p : Progress}
    (hp : p.Endless) :
    (memberRule.runWith (grammarRules.enter room) around p).2.Faulty ∨
      (memberRule.runWith (grammarRules.enter room) around p).2.index = p.index := by
  have hhere (p : Progress) : here.runWith (grammarRules.enter room) around p = (p.index, p) := rfl
  have hread : (modifierList.runWith (grammarRules.enter room) around
      (memberAttributes.runWith (grammarRules.enter room) around p).2).2.Endless :=
    endless_runWith modifierList (endless_runWith memberAttributes hp)
  simp only [memberRule, runWith_bind, hhere, runWith]
  generalize memberAttributes.runWith (grammarRules.enter room) around p = attributed at hread ⊢
  generalize modifierList.runWith (grammarRules.enter room) around attributed.2 = modified
    at hread ⊢
  have hite {c : Prop} [Decidable c] {r s : Rule Unit} (hr : r.Fails)
      (hs : s.Fails ∨ s = pure () ∧ modified.2.index = p.index) :
      (if c then r else s).Fails ∨
        (if c then r else s) = pure () ∧ modified.2.index = p.index := by
    split
    · exact .inl hr
    · exact hs
  have hfails {r : Rule Unit} (hr : r.Fails ∨ r = pure () ∧ modified.2.index = p.index) :
      (r.runWith (grammarRules.enter room) around modified.2).2.Faulty ∨
        (r.runWith (grammarRules.enter room) around modified.2).2.index = p.index := by
    rcases hr with hr | ⟨rfl, hindex⟩
    · exact .inl (hr _ hread rfl)
    · exact .inr hindex
  refine hfails ?_
  have htype (modifiers : List Placed) : Fails (call (.typeDeclaration modifiers) pure) :=
    fun ts ↦ FailsAt.call (q := .typeDeclaration modifiers)
      (fails_typeDeclarationRule modifiers ts) _
  refine hite (htype _) ?_
  refine hite fails_extensionBlock ?_
  refine hite (fails_event _) ?_
  refine hite fails_constant ?_
  refine hite fails_finalizer ?_
  refine hite fails_conversionOperator ?_
  refine hite (fails_constructor _) ?_
  refine hite (fails_typedMember _ _) ?_
  split
  · exact .inl fails_invalidMember
  · next hsame =>
    rw [bne_iff_ne, Decidable.not_not] at hsame
    exact .inr ⟨rfl, hsame.symm⟩

/-- Where a member is read, or no member begins, a rule is found broken. -/
theorem FailsAt.elementOrRecover {inNamespace : Bool} {state state' : UnitState}
    {next : View → Rule UnitState}
    (hnext : unitElement inNamespace state = Rule.look next)
    (hmember : ∀ v, v.ahead = ts → next v = member >>= fun _ ↦ return state') :
    (elementOrRecover inNamespace state).FailsAt ts := by
  intro room around p hp hahead
  have hhere (p : Progress) :
      Rule.here.runWith (grammarRules.enter room) around p = (p.index, p) := rfl
  have helement : (unitElement inNamespace state).runWith (grammarRules.enter room) around p =
      (state', (member.runWith (grammarRules.enter room) around p).2) := by
    have hlook : (Rule.look next).runWith (grammarRules.enter room) around p =
        (next ⟨p.index, p.previous around.stream, p.ahead⟩).runWith (grammarRules.enter room)
          around p := rfl
    rw [hnext, hlook, hmember _ hahead, runWith_bind]
    rfl
  have hread : (member.runWith (grammarRules.enter room) around p).2.Endless :=
    endless_runWith member hp
  have hmoves : (member.runWith (grammarRules.enter room) around p).2.Faulty ∨
      (member.runWith (grammarRules.enter room) around p).2.index = p.index := by
    have hcall : (member.runWith (grammarRules.enter room) around p).2 =
        (grammarRules.enter room around .member p).2 := rfl
    rw [hcall]
    unfold Rules.enter
    split
    · exact .inr rfl
    · cases room with
      | zero => exact .inl (p.faulty_abandon around.stream)
      | succ room => exact faulty_or_stays_memberRule hp
  simp only [Rule.elementOrRecover, runWith_bind, hhere, helement]
  rcases hmoves with hfaulty | hstays
  · exact faulty_runWith _ hfaulty
  · rw [if_pos (by simp [hstays])]
    exact ((fails_errorHere _).bind_left _) _ hread rfl

/-- At the top level, a statement is read as its rule is. -/
theorem FailsAt.topLevelStatement (h : (statementRule true).FailsAt ts) (state : UnitState) :
    (topLevelStatement state).FailsAt ts := by
  have hcall : FailsAt (Rule.call (.statement true) pure) ts :=
    FailsAt.call (q := .statement true) h _
  refine .script fun isScript ↦ ?_
  have hrest (misplaced : Bool) : FailsAt (do
      if misplaced then Rule.errorHere .statementAfterDeclarations
      Rule.call (.statement true) pure
      return {
        state with
        elementSeen := true
        statementNoted := state.statementNoted || !isScript
        misplacedReported := state.misplacedReported || misplaced }) ts := by
    cases misplaced with
    | true => exact (FailsAt.errorHere _).bind_left _
    | false => exact hcall.bind_left _
  cases hnoted : !isScript && !state.statementNoted with
  | true => exact .requireHere (hrest _) _
  | false => exact hrest _

end Rule

end CSharpCheck
