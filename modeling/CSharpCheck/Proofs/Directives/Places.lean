import CSharpCheck.Directive.Line

/-!
# Places of directive findings

Whatever a directive line finds, it finds at one of its tokens.
-/

namespace CSharpCheck

/-! ### Conditions -/

/-- What is left of the tokens, or the token at which they cannot be read on, is among them. -/
def Verdict.Within (ts : List Token) : Verdict → Prop
  | .value _ rest => rest ⊆ ts
  | .invalid offender => ∀ t ∈ offender, t ∈ ts

theorem Verdict.Within.mono {ts us : List Token} {v : Verdict} (h : v.Within ts) (hsub : ts ⊆ us) :
    v.Within us := by
  cases v with
  | value holds rest => exact fun t ht ↦ hsub (h ht)
  | invalid offender => exact fun t ht ↦ hsub (h t ht)

namespace Condition

variable {operand inner : List Token → Verdict}

theorem chain_within (h : ∀ ts, (operand ts).Within ts)
    (operator? : Token → Option (Bool → Bool → Bool)) (limit : Nat) (holds : Bool)
    (ts : List Token) : (chain operand operator? limit holds ts).Within ts := by
  induction limit generalizing holds ts with
  | zero => exact List.Subset.refl ts
  | succ limit ih =>
    unfold chain
    split
    · exact List.Subset.refl _
    · next t rest =>
      split
      · exact List.Subset.refl _
      · have hoperand := h rest
        split
        · next heq =>
          rw [heq] at hoperand
          exact (ih _ _).mono fun u hu ↦ List.mem_cons_of_mem t (hoperand hu)
        · next heq =>
          rw [heq] at hoperand
          exact hoperand.mono (List.subset_cons_self t rest)

theorem joined_within (h : ∀ ts, (operand ts).Within ts)
    (operator? : Token → Option (Bool → Bool → Bool)) (ts : List Token) :
    (joined operand operator? ts).Within ts := by
  have hoperand := h ts
  unfold joined
  split
  · next heq =>
    rw [heq] at hoperand
    exact (chain_within h _ _ _ _).mono hoperand
  · next heq =>
    rw [heq] at hoperand
    exact hoperand

theorem primary_within (symbols : List String) (h : ∀ ts, (inner ts).Within ts)
    (ts : List Token) : (primary symbols inner ts).Within ts := by
  cases ts with
  | nil => exact fun t ht ↦ nomatch ht
  | cons t rest =>
    have hrest : rest ⊆ t :: rest := List.subset_cons_self t rest
    have hinner := h rest
    have hfirst : ∀ u ∈ some t, u ∈ t :: rest := fun u hu ↦ by simp [Option.mem_some.1 hu]
    rw [primary]
    split
    · exact hrest
    · split
      · exact hrest
      · split
        · exact hrest
        · split
          · split
            · next heq =>
              rw [heq] at hinner
              exact hinner.mono hrest
            · next heq =>
              rw [heq] at hinner
              split
              · exact fun t ht ↦ nomatch ht
              · next close rest' =>
                have hclose : close :: rest' ⊆ t :: rest := fun u hu ↦ hrest (hinner hu)
                split
                · exact fun u hu ↦ hclose (List.mem_cons_of_mem close hu)
                · exact fun u hu ↦ hclose (by simp [Option.mem_some.1 hu])
          · exact hfirst

theorem unary_within (symbols : List String) (h : ∀ ts, (inner ts).Within ts)
    (ts : List Token) : (unary symbols inner ts).Within ts := by
  induction ts with
  | nil => exact fun t ht ↦ nomatch ht
  | cons t rest ih =>
    unfold unary
    split
    · have hnegate : (unary symbols inner rest).negate.Within rest := by
        cases hv : unary symbols inner rest <;> rw [hv] at ih <;> exact ih
      exact hnegate.mono (List.subset_cons_self t rest)
    · exact primary_within symbols h (t :: rest)

theorem readWithin_within (symbols : List String) (depth : Nat) (ts : List Token) :
    (readWithin symbols depth ts).Within ts := by
  induction depth generalizing ts with
  | zero => exact fun t ht ↦ List.mem_of_head? ht
  | succ depth ih =>
    have hunary := unary_within symbols ih
    exact joined_within (joined_within (joined_within hunary _) _) _ ts

end Condition

/-! ### Findings -/

/-- Whether a directive may find it: a problem of its own, or the use of a feature. -/
def Cause.isOfDirective : Cause → Bool
  | .directive _ | .use _ => true
  | .lexical _ | .grammar _ => false

/-- Each of the findings is of a directive and has the span of one of the tokens. -/
def PlacedAmong (ts : List Token) (fs : List Finding) : Prop :=
  ∀ x ∈ fs, x.cause.isOfDirective = true ∧ ∃ t ∈ ts, x.span = t.span

namespace PlacedAmong

variable {ts us : List Token} {fs : List Finding}

theorem nil (ts : List Token) : PlacedAmong ts [] := fun _ h ↦ nomatch h

theorem use (f : Feature) {t : Token} (ht : t ∈ ts) (h : PlacedAmong ts fs) :
    PlacedAmong ts (⟨.use f, t.span⟩ :: fs) :=
  List.forall_mem_cons.2 ⟨⟨rfl, t, ht, rfl⟩, h⟩

theorem single (problem : DirectiveProblem) {t : Token} (h : t ∈ ts) :
    PlacedAmong ts [problemAt problem t] :=
  List.forall_mem_singleton.2 ⟨rfl, t, h, rfl⟩

theorem mono (h : PlacedAmong ts fs) (hsub : ts ⊆ us) : PlacedAmong us fs := by
  intro x hx
  obtain ⟨hcause, t, ht, hspan⟩ := h x hx
  exact ⟨hcause, t, hsub ht, hspan⟩

theorem append {gs : List Finding} (h : PlacedAmong ts fs) (h' : PlacedAmong ts gs) :
    PlacedAmong ts (fs ++ gs) := List.forall_mem_append.2 ⟨h, h'⟩

theorem ite {gs : List Finding} {b : Prop} [Decidable b] (h : PlacedAmong ts fs)
    (h' : PlacedAmong ts gs) : PlacedAmong ts (if b then fs else gs) := by
  split
  · exact h
  · exact h'

end PlacedAmong

variable {ts : List Token}

theorem leftover_placed (ts : List Token) : PlacedAmong ts (leftover ts) := by
  cases ts with
  | nil => exact .nil _
  | cons t ts => exact .single _ List.mem_cons_self

theorem evaluate_placed (symbols : List String) (args : List Token) (stop : Token) :
    PlacedAmong (stop :: args) (evaluate symbols args stop).2.1 := by
  have hwithin := Condition.readWithin_within symbols (args.length + 1) args
  unfold evaluate Condition.read
  split
  · next heq =>
    rw [heq] at hwithin
    exact (leftover_placed _).mono fun t ht ↦ List.mem_cons_of_mem stop (hwithin ht)
  · next offender heq =>
    rw [heq] at hwithin
    cases offender with
    | none => exact .single _ List.mem_cons_self
    | some t => exact .single _ (List.mem_cons_of_mem stop (hwithin t rfl))

theorem lineFindings_placed (args : List Token) (stop : Token) :
    PlacedAmong (stop :: args) (lineFindings args stop) := by
  have hleftover {us : List Token} (h : us ⊆ stop :: args) :
      PlacedAmong (stop :: args) (leftover us) := (leftover_placed us).mono h
  unfold lineFindings
  split
  · exact .single _ (by simp)
  · split
    · exact hleftover (by simp)
    · split
      · split
        · exact .ite (hleftover fun t ht ↦ by simp [ht]) (hleftover (by simp))
        · exact .nil _
      · exact .single _ (by simp)

theorem warningListFindings_placed (nameNext : Bool) (ts : List Token) :
    PlacedAmong ts (warningListFindings nameNext ts) := by
  induction ts generalizing nameNext with
  | nil => exact .nil _
  | cons t ts ih =>
    have hrest (b : Bool) : PlacedAmong (t :: ts) (warningListFindings b ts) :=
      (ih b).mono (List.subset_cons_self t ts)
    unfold warningListFindings
    exact .ite (hrest false) (.ite (hrest true) (.single _ List.mem_cons_self))

theorem checksumFindings_placed (args : List Token) (stop : Token) :
    PlacedAmong (stop :: args) (checksumFindings args stop) := by
  unfold checksumFindings
  simp only
  split
  · next t heq =>
    have ht : t ∈ args := List.mem_of_mem_take (List.mem_of_find?_eq_some heq)
    exact .single _ (List.mem_cons_of_mem stop ht)
  · refine .ite (.single _ List.mem_cons_self) ((leftover_placed _).mono fun t ht ↦ ?_)
    exact List.mem_cons_of_mem stop (List.mem_of_mem_drop ht)

theorem pragmaFindings_placed (args : List Token) (stop : Token) :
    PlacedAmong (stop :: args) (pragmaFindings args stop) := by
  unfold pragmaFindings
  split
  · exact .single _ (by simp)
  · next t rest =>
    split
    · split
      · exact .single _ (by simp)
      · exact .ite ((warningListFindings_placed _ _).mono fun t ht ↦ by simp [ht])
          (.single _ (by simp))
    · exact .ite ((checksumFindings_placed _ _).mono fun t ht ↦ by
        rcases List.mem_cons.1 ht with rfl | ht <;> simp [*]) (.single _ (by simp))

theorem nullableFindings_placed (name : Token) (args : List Token) (stop : Token) :
    PlacedAmong (name :: stop :: args) (nullableFindings name args stop) := by
  unfold nullableFindings
  refine .use _ List.mem_cons_self ?_
  split
  · exact .single _ (by simp)
  · refine .ite ?_ (.single _ (by simp))
    split
    · exact .nil _
    · exact .ite ((leftover_placed _).mono fun t ht ↦ by simp [ht]) (.single _ (by simp))

theorem fileFindings_placed (isScript seenToken : Bool) (name : Token) (args : List Token)
    (stop : Token) :
    PlacedAmong (name :: stop :: args) (fileFindings isScript seenToken name args stop) := by
  unfold fileFindings
  refine .ite (.single _ List.mem_cons_self) (.ite (.single _ List.mem_cons_self) ?_)
  split
  · exact .single _ (by simp)
  · exact .ite ((leftover_placed _).mono fun t ht ↦ by simp [ht]) (.single _ (by simp))

namespace DirectiveState

variable {s : DirectiveState} {name stop : Token} {args : List Token}

theorem condition_placed (s : DirectiveState) (evaluated : Bool) (args : List Token)
    (stop : Token) : PlacedAmong (stop :: args) (s.condition evaluated args stop).2.1 := by
  unfold condition
  split
  · exact evaluate_placed _ _ _
  · exact .nil _

theorem define_placed (s : DirectiveState) (defined : Bool) (name : Token) (args : List Token)
    (stop : Token) :
    PlacedAmong (name :: stop :: args) (s.define defined name args stop).findings := by
  unfold define
  split
  · exact .single _ (by simp)
  · split
    · exact .single _ (by simp)
    · split
      · exact .single _ List.mem_cons_self
      · exact (leftover_placed _).mono fun t ht ↦ by simp [ht]

theorem onCondition_placed {apply : Block → Blocks → Effect}
    (h : ∀ b outer, PlacedAmong (name :: stop :: args) (apply b outer).findings) :
    PlacedAmong (name :: stop :: args) (s.onCondition name apply).findings := by
  unfold onCondition
  split
  · exact .single _ List.mem_cons_self
  · split
    · exact h _ _
    · exact .single _ List.mem_cons_self

theorem apply_placed (isScript : Bool) (s : DirectiveState) (directive : Option DirectiveName)
    (name : Token) (args : List Token) (stop : Token) :
    PlacedAmong (name :: stop :: args) (s.apply isScript directive name args stop).findings := by
  have hstop : stop :: args ⊆ name :: stop :: args := List.subset_cons_self _ _
  have hname (problem : DirectiveProblem) :
      PlacedAmong (name :: stop :: args) [problemAt problem name] :=
    .single _ List.mem_cons_self
  have hargs : PlacedAmong (name :: stop :: args) (leftover args) :=
    (leftover_placed args).mono fun t ht ↦ by simp [ht]
  have hactive {e : Effect} (h : PlacedAmong (name :: stop :: args) e.findings) :
      PlacedAmong (name :: stop :: args) (s.ifActive e).findings := by
    unfold ifActive
    split
    · exact h
    · exact .nil _
  unfold apply
  split
  · exact (s.condition_placed _ _ _).mono hstop
  · refine onCondition_placed fun b outer ↦ ?_
    unfold elseIf
    split
    · exact .ite (hname _) (.nil _)
    · exact (s.condition_placed _ _ _).mono hstop
  · refine onCondition_placed fun b outer ↦ ?_
    unfold otherwise
    split
    · exact .ite (hname _) (.nil _)
    · exact .ite hargs (.nil _)
  · exact onCondition_placed fun b outer ↦ .ite hargs (.nil _)
  · exact .nil _
  · unfold endRegion
    split
    · exact hname _
    · split
      · exact .nil _
      · exact hname _
  · exact hactive (s.define_placed _ _ _ _)
  · exact hactive (s.define_placed _ _ _ _)
  · exact hactive (hname _)
  · exact hactive (hname _)
  · exact hactive ((lineFindings_placed _ _).mono hstop)
  · exact hactive ((pragmaFindings_placed _ _).mono hstop)
  · exact hactive (nullableFindings_placed _ _ _)
  · exact hactive (fileFindings_placed _ _ _ _ _)
  · exact hactive (fileFindings_placed _ _ _ _ _)
  · exact hactive (hname _)

/-- A directive line finds what it finds at its hash, its end or a token between. -/
theorem process_placed (isScript : Bool) (s : DirectiveState) (line : DirectiveLine) :
    PlacedAmong (line.hash :: line.stop :: line.body) (s.process isScript line).findings := by
  have hnameless : PlacedAmong (line.hash :: line.stop :: line.body)
      (s.ifActive (s.unchanged [problemAt .directiveExpected line.hash])).findings := by
    unfold ifActive
    split
    · exact .single _ List.mem_cons_self
    · exact .nil _
  unfold process
  simp only
  split
  · exact hnameless
  · next name args heq =>
    split
    · split
      · exact .nil _
      · exact hnameless
    · split
      · refine (s.apply_placed _ _ _ _ _).mono fun t ht ↦ ?_
        rw [heq]
        rcases List.mem_cons.1 ht with rfl | ht
        · simp
        · rcases List.mem_cons.1 ht with rfl | ht <;> simp [*]
      · exact hnameless

end DirectiveState

end CSharpCheck
