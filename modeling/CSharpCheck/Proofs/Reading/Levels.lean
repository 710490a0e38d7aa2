import CSharpCheck.Proofs.Reading.Invariants
import CSharpCheck.Proofs.Reading.Soundness

/-!
# Levels of nesting

Only a reading that is abandoned depends on the levels of nesting that are left. With more of them,
any other one goes on in the same way. A reading that is abandoned says so.
-/

namespace CSharpCheck

namespace Progress

/-- A reading that has been abandoned is not taken up again. -/
theorem invariant_abandoned (stream : TokenStream) :
    Invariant stream fun p ↦ p.abandonedAt.isSome = true where
  advance p hp count := by
    rw [abandonedAt_advance]
    exact hp
  use p hp _ _ := hp
  report p hp place e := by
    rw [report, hp, Bool.or_true, if_pos rfl]
    exact hp
  abandon _ _ := rfl

/-- A reading that has been abandoned has found the text too complex. -/
theorem invariant_tooComplex (stream : TokenStream) :
    Invariant stream fun p ↦
      p.abandonedAt.isSome = true → ∃ x ∈ p.found, x.cause = .grammar .tooComplex where
  advance p hp count := by
    rw [abandonedAt_advance, found_advance]
    exact hp
  use p hp _ _ habandoned := by
    obtain ⟨x, hx, hcause⟩ := hp habandoned
    exact ⟨x, List.mem_cons_of_mem _ hx, hcause⟩
  report p hp place e := by
    unfold report
    split
    · exact hp
    · next hsilent =>
      intro habandoned
      replace habandoned : p.abandonedAt.isSome = true := habandoned
      rw [habandoned, Bool.or_true] at hsilent
      contradiction
  abandon _ _ _ := ⟨_, List.mem_cons_self, rfl⟩

/-- What goes on later has not been abandoned before. -/
theorem abandonedAt_eq_none {p q : Progress}
    (hkeeps : p.abandonedAt.isSome = true → q.abandonedAt.isSome = true)
    (hq : q.abandonedAt = none) : p.abandonedAt = none := by
  cases hp : p.abandonedAt with
  | none => rfl
  | some place => simp [hp, hq] at hkeeps

end Progress

namespace Rule

/-- Rounds that are the same unless they are abandoned are repeated in the same way unless that is
abandoned. -/
theorem rounds_eq {σ : Type} {round round' : σ → Progress → Round σ × Progress}
    (hkeeps : ∀ state p, p.abandonedAt.isSome = true →
      (round state p).2.abandonedAt.isSome = true)
    (hround : ∀ state p, (round state p).2.abandonedAt = none → round' state p = round state p)
    {limit : Nat} {state : σ} {p : Progress}
    (h : (rounds round limit state p).2.abandonedAt = none) :
    rounds round' limit state p = rounds round limit state p := by
  induction limit generalizing state p with
  | zero => rfl
  | succ limit ih =>
    have hone : (round state p).2.abandonedAt = none := by
      refine Progress.abandonedAt_eq_none (fun hsome ↦ ?_) h
      rw [rounds]
      split
      · next heq => rwa [heq] at hsome
      · next heq =>
        rw [heq] at hsome
        split
        · exact rounds_invariant hkeeps limit hsome
        · exact hsome
    rw [rounds] at h ⊢
    rw [rounds, hround state p hone]
    generalize round state p = end_ at h ⊢
    obtain ⟨outcome, q⟩ := end_
    cases outcome with
    | stop final => rfl
    | again state' =>
      simp only at h ⊢
      split
      · next hmoved =>
        rw [if_pos hmoved] at h
        exact ih h
      · rfl

/-- A rule is run in the same way, unless that is abandoned, if that goes for the nonterminals. -/
theorem runWith_eq {stream : TokenStream}
    {enter enter' : Surroundings → (q : Nonterminal) → Progress → q.Result × Progress}
    (hkeeps : ∀ around q p, around.stream = stream → p.abandonedAt.isSome = true →
      (enter around q p).2.abandonedAt.isSome = true)
    (henter : ∀ around q p, around.stream = stream → (enter around q p).2.abandonedAt = none →
      enter' around q p = enter around q p)
    {α : Type} (r : Rule α) {around : Surroundings} (haround : around.stream = stream)
    {p : Progress} (h : (r.runWith enter around p).2.abandonedAt = none) :
    r.runWith enter' around p = r.runWith enter around p := by
  have hrun {β : Type} (r : Rule β) {around : Surroundings} (haround : around.stream = stream)
      {p : Progress} (hp : p.abandonedAt.isSome = true) :
      (r.runWith enter around p).2.abandonedAt.isSome = true :=
    runWith_invariant (Progress.invariant_abandoned stream) hkeeps r haround hp
  induction r generalizing around p with
  | pure result => rfl
  | look next ih => exact ih _ haround h
  | script next ih => exact ih _ haround h
  | enclosing next ih => exact ih _ haround h
  | advance count next ih => exact ih haround h
  | require feature index next ih => exact ih haround h
  | report place error next ih => exact ih haround h
  | call q next ih =>
    simp only [runWith] at h ⊢
    rw [henter around q p haround (Progress.abandonedAt_eq_none (hrun _ haround) h)]
    exact ih _ haround h
  | loop init round next ihr ihn =>
    simp only [runWith] at h ⊢
    rw [rounds_eq (fun state _ hp ↦ hrun (round state) haround hp)
      (fun state _ hnone ↦ ihr state haround hnone) (Progress.abandonedAt_eq_none (hrun _ haround) h)]
    exact ihn _ haround h
  | within kind body next ihb ihn =>
    simp only [runWith] at h ⊢
    have hinside : { around with enclosing := kind :: around.enclosing }.stream = stream := haround
    rw [ihb hinside (Progress.abandonedAt_eq_none (hrun next haround) h)]
    exact ihn haround h

end Rule

/-- With more levels of nesting left, a nonterminal is read in the same way, unless that is
abandoned. -/
theorem Rules.enter_eq (rules : Rules) {room more : Nat} (hmore : room ≤ more)
    {around : Surroundings} {q : Nonterminal} {p : Progress}
    (h : (rules.enter room around q p).2.abandonedAt = none) :
    rules.enter more around q p = rules.enter room around q p := by
  induction room generalizing more around q p with
  | zero =>
    rw [enter] at h
    split at h
    · next hp =>
      rw [h] at hp
      contradiction
    · contradiction
  | succ room ih =>
    obtain ⟨more, rfl⟩ : ∃ n, more = n + 1 := ⟨more - 1, by omega⟩
    rw [enter] at h ⊢
    rw [enter]
    split
    · rfl
    · next hp =>
      rw [if_neg hp] at h
      exact Rule.runWith_eq
        (fun around q p ↦ rules.enter_invariant (Progress.invariant_abandoned _) room around q p)
        (fun around q p _ hnone ↦ ih (Nat.le_of_succ_le_succ hmore) hnone) _ rfl h

/-- With more levels of nesting left, a text is read in the same way, unless the reading is
abandoned. -/
theorem runWith_enter_eq_readUnit {stream : TokenStream} {isScript : Bool} {room : Nat}
    (hroom : maxNesting ≤ room) (h : (readUnit stream isScript).abandonedAt = none) :
    ((Rule.unitElements false).runWith (grammarRules.enter room) ⟨stream, isScript, []⟩
      (.start stream)).2 = readUnit stream isScript := by
  rw [readUnit, Rules.run] at h ⊢
  rw [Rule.runWith_eq
    (fun around q p ↦ Rules.enter_invariant (Progress.invariant_abandoned _) _ _ around q p)
    (fun around q p _ hnone ↦ grammarRules.enter_eq hroom hnone) _ rfl h]

/-- A reading that has not found the text too complex is not abandoned. -/
theorem abandonedAt_readUnit {stream : TokenStream} {isScript : Bool}
    (h : ∀ x ∈ (readUnit stream isScript).found, x.cause ≠ .grammar .tooComplex) :
    (readUnit stream isScript).abandonedAt = none := by
  cases habandoned : (readUnit stream isScript).abandonedAt with
  | none => rfl
  | some place =>
    obtain ⟨x, hx, hcause⟩ := readUnit_invariant (Progress.invariant_tooComplex stream) isScript
      (fun hstart ↦ by contradiction) (by rw [habandoned]; rfl)
    exact absurd hcause (h x hx)

end CSharpCheck
