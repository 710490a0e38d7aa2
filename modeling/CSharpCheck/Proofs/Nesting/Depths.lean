import CSharpCheck.Grammar.Lookahead

/-!
# Depths

How many groups between two symbols are open behind tokens, where groups of other sorts are left out
of account.
-/

namespace CSharpCheck

variable {opening closing : Symbol} {ts us : List Token} {depth n : Nat}

/-- The number of groups that are open behind the tokens, when `depth` are open in front of them.
There is none if a group is closed where none is open. -/
def depthBehind? (opening closing : Symbol) : (depth : Nat) → List Token → Option Nat
  | depth, [] => some depth
  | depth, t :: ts =>
    if t.is opening then depthBehind? opening closing (depth + 1) ts
    else if t.is closing then
      if depth = 0 then none else depthBehind? opening closing (depth - 1) ts
    else depthBehind? opening closing depth ts

theorem depthBehind?_append (opening closing : Symbol) (depth : Nat) (ts us : List Token) :
    depthBehind? opening closing depth (ts ++ us) =
      (depthBehind? opening closing depth ts).bind (depthBehind? opening closing · us) := by
  induction ts generalizing depth with
  | nil => rfl
  | cons t ts ih =>
    simp only [List.cons_append, depthBehind?]
    split
    · exact ih _
    · split
      · split
        · rfl
        · exact ih _
      · exact ih _

/-- More groups may be open in front of the tokens. -/
theorem depthBehind?_add (h : depthBehind? opening closing depth ts = some n) (more : Nat) :
    depthBehind? opening closing (depth + more) ts = some (n + more) := by
  induction ts generalizing depth with
  | nil =>
    cases h
    rfl
  | cons t ts ih =>
    simp only [depthBehind?] at h ⊢
    split
    · next hopen =>
      rw [if_pos hopen] at h
      rw [Nat.add_right_comm]
      exact ih h
    · next hopen =>
      rw [if_neg hopen] at h
      split
      · next hclose =>
        rw [if_pos hclose] at h
        split at h
        · contradiction
        · rw [if_neg (by omega), Nat.sub_add_comm (by omega)]
          exact ih h
      · next hclose =>
        rw [if_neg hclose] at h
        exact ih h

end CSharpCheck
