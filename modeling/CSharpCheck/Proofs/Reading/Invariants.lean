import CSharpCheck.Grammar.CompilationUnit

/-!
# Invariants of machines

What no operation of a machine takes away holds to the end, whatever the rules are.
-/

namespace CSharpCheck

/-- A property of progress in a stream that every operation of a machine keeps, as long as no other
errors are reported. -/
structure Progress.InvariantUnder (stream : TokenStream) (errors : GrammarError → Prop)
    (P : Progress → Prop) : Prop where
  advance : ∀ p, P p → ∀ count, P (p.advance count)
  use : ∀ p, P p → ∀ feature index, P (p.note ⟨.use feature, (stream.token index).span⟩)
  report : ∀ p, P p → ∀ place e, errors e → P (p.report stream place e)
  abandon : ∀ p, P p → P (p.abandon stream)

/-- A property of progress in a stream that every operation of a machine keeps. -/
structure Progress.Invariant (stream : TokenStream) (P : Progress → Prop) : Prop where
  advance : ∀ p, P p → ∀ count, P (p.advance count)
  use : ∀ p, P p → ∀ feature index, P (p.note ⟨.use feature, (stream.token index).span⟩)
  report : ∀ p, P p → ∀ place e, P (p.report stream place e)
  abandon : ∀ p, P p → P (p.abandon stream)

/-- The rule itself reports no other errors. -/
def Rule.ReportsOnly (errors : GrammarError → Prop) : {α : Type} → Rule α → Prop
  | _, pure _ => True
  | _, look next => ∀ v, (next v).ReportsOnly errors
  | _, script next => ∀ isScript, (next isScript).ReportsOnly errors
  | _, enclosing next => ∀ kinds, (next kinds).ReportsOnly errors
  | _, advance _ next => next.ReportsOnly errors
  | _, require _ _ next => next.ReportsOnly errors
  | _, report _ error next => errors error ∧ next.ReportsOnly errors
  | _, call _ next => ∀ result, (next result).ReportsOnly errors
  | _, loop _ round next =>
    (∀ state, (round state).ReportsOnly errors) ∧ ∀ state, (next state).ReportsOnly errors
  | _, within _ body next => body.ReportsOnly errors ∧ next.ReportsOnly errors

theorem Rule.reportsOnly_true {α : Type} (r : Rule α) : r.ReportsOnly fun _ ↦ True := by
  induction r with
  | pure result => exact True.intro
  | report place error next ih => exact ⟨True.intro, ih⟩
  | loop init round next ihround ih => exact ⟨ihround, ih⟩
  | within kind body next ihbody ih => exact ⟨ihbody, ih⟩
  | _ => assumption

section

variable {stream : TokenStream} {errors : GrammarError → Prop} {P : Progress → Prop}

theorem Progress.Invariant.under (hP : Progress.Invariant stream P) :
    Progress.InvariantUnder stream (fun _ ↦ True) P where
  advance := hP.advance
  use := hP.use
  report p hp place e _ := hP.report p hp place e
  abandon := hP.abandon

namespace Rule

theorem rounds_invariant {σ : Type} {round : σ → Progress → Round σ × Progress}
    (hround : ∀ state p, P p → P (round state p).2) (limit : Nat) {state : σ} {p : Progress}
    (hp : P p) : P (rounds round limit state p).2 := by
  induction limit generalizing state p with
  | zero => exact hp
  | succ limit ih =>
    have hq := hround state p hp
    unfold rounds
    split
    · next heq =>
      rw [heq] at hq
      exact hq
    · next heq =>
      rw [heq] at hq
      split
      · exact ih hq
      · exact hq

theorem runWith_invariantUnder (hP : Progress.InvariantUnder stream errors P)
    {enter : Surroundings → (q : Nonterminal) → Progress → q.Result × Progress}
    (henter : ∀ around q p, around.stream = stream → P p → P (enter around q p).2)
    {α : Type} {r : Rule α} (hr : r.ReportsOnly errors) {around : Surroundings}
    (haround : around.stream = stream) {p : Progress} (hp : P p) :
    P (r.runWith enter around p).2 := by
  induction r generalizing around p with
  | pure result => exact hp
  | look next ih => exact ih _ (hr _) haround hp
  | script next ih => exact ih _ (hr _) haround hp
  | enclosing next ih => exact ih _ (hr _) haround hp
  | advance count next ih => exact ih hr haround (hP.advance p hp count)
  | require feature index next ih =>
    exact ih hr haround (haround ▸ hP.use p hp feature index)
  | report place error next ih =>
    exact ih hr.2 haround (haround ▸ hP.report p hp place error hr.1)
  | call q next ih => exact ih _ (hr _) haround (henter around q p haround hp)
  | loop init round next ihround ih =>
    have hrounds : P (rounds (fun state p ↦ (round state).runWith enter around p)
        around.stream.size init p).2 :=
      rounds_invariant (fun state _ hq ↦ ihround state (hr.1 state) haround hq) _ hp
    exact ih _ (hr.2 _) haround hrounds
  | within kind body next ihbody ih =>
    rw [runWith]
    refine ih hr.2 haround (ihbody hr.1 ?_ hp)
    exact haround

theorem runWith_invariant (hP : Progress.Invariant stream P)
    {enter : Surroundings → (q : Nonterminal) → Progress → q.Result × Progress}
    (henter : ∀ around q p, around.stream = stream → P p → P (enter around q p).2)
    {α : Type} (r : Rule α) {around : Surroundings} (haround : around.stream = stream)
    {p : Progress} (hp : P p) : P (r.runWith enter around p).2 :=
  runWith_invariantUnder hP.under henter r.reportsOnly_true haround hp

end Rule

theorem Rules.enter_invariantUnder (hP : Progress.InvariantUnder stream errors P) {rules : Rules}
    (hrules : ∀ q, (rules q).ReportsOnly errors) (room : Nat) (around : Surroundings)
    (q : Nonterminal) (p : Progress) (haround : around.stream = stream) (hp : P p) :
    P (rules.enter room around q p).2 := by
  induction room generalizing around q p with
  | zero =>
    unfold enter
    split
    · exact hp
    · exact haround ▸ hP.abandon p hp
  | succ room ih =>
    unfold enter
    split
    · exact hp
    · exact Rule.runWith_invariantUnder hP ih (hrules q) haround hp

theorem Rules.enter_invariant (hP : Progress.Invariant stream P) (rules : Rules) (room : Nat)
    (around : Surroundings) (q : Nonterminal) (p : Progress) (haround : around.stream = stream)
    (hp : P p) : P (rules.enter room around q p).2 :=
  enter_invariantUnder hP.under (fun q ↦ (rules q).reportsOnly_true) room around q p haround hp

/-- What holds at the beginning of a text and is kept holds when the text has been read. -/
theorem readUnit_invariant (hP : Progress.Invariant stream P) (isScript : Bool)
    (hstart : P (.start stream)) : P (readUnit stream isScript) :=
  Rule.runWith_invariant hP (Rules.enter_invariant hP _ _) _ rfl hstart

end

end CSharpCheck
