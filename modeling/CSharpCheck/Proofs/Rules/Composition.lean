import CSharpCheck.Grammar.Machine

/-!
# Rules one after the other

Rules compose as the steps of a program do, and the machine runs one after the other.
-/

namespace CSharpCheck.Rule

variable {α β : Type}
  {enter : Surroundings → (q : Nonterminal) → Progress → q.Result × Progress}

instance : LawfulMonad Rule := .mk' Rule
  (by
    intro α r
    change r.bind (fun a ↦ pure a) = r
    induction r <;> simp [Rule.bind, *])
  (fun _ _ ↦ rfl)
  (by
    intro α β γ r f g
    change (r.bind f).bind g = r.bind fun a ↦ (f a).bind g
    induction r <;> simp [Rule.bind, *])

@[simp] theorem bind_eq (r : Rule α) (k : α → Rule β) : r.bind k = r >>= k := rfl

@[simp] theorem pure_eq : (pure : α → Rule α) = Pure.pure := rfl

@[simp] theorem runWith_pure (a : α) (around : Surroundings) (p : Progress) :
    (Pure.pure a : Rule α).runWith enter around p = (a, p) := rfl

/-- The machine runs a rule and, where it has ended, what comes after it. -/
theorem runWith_bind (r : Rule α) (k : α → Rule β) (around : Surroundings) (p : Progress) :
    (r >>= k).runWith enter around p =
      (k (r.runWith enter around p).1).runWith enter around (r.runWith enter around p).2 := by
  change (r.bind k).runWith enter around p = _
  induction r generalizing p <;> simp only [Rule.bind, runWith, *]

end CSharpCheck.Rule
