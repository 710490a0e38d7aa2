import CSharpCheck.Proofs.Nesting.Depths
import CSharpCheck.Proofs.Reading.Declarations
import CSharpCheck.Proofs.Scanning.Tilings

/-!
# Skipped braces

What is skipped after an error takes a closing brace only with its opening brace.
-/

namespace CSharpCheck

/-- Every closing brace among the tokens closes a brace among them. -/
def OwnBraces (ts : List Token) : Prop := (depthBehind? .openBrace .closeBrace 0 ts).isSome

instance (ts : List Token) : Decidable (OwnBraces ts) := inferInstanceAs (Decidable (_ = true))

variable {t : Token} {ts us : List Token} {depth n : Nat}

namespace OwnBraces

theorem nil : OwnBraces [] := rfl

theorem append (hts : OwnBraces ts) (hus : OwnBraces us) : OwnBraces (ts ++ us) := by
  obtain ⟨n, hn⟩ := Option.isSome_iff_exists.1 hts
  obtain ⟨m, hm⟩ := Option.isSome_iff_exists.1 hus
  have hmore := depthBehind?_add hm n
  rw [Nat.zero_add] at hmore
  rw [OwnBraces, depthBehind?_append, hn, Option.bind_some, hmore]
  rfl

/-- A single token has its braces unless it is a closing brace. -/
theorem singleton_iff : OwnBraces [t] ↔ t.is .closeBrace = false := by
  rw [OwnBraces]
  cases hopen : t.is .openBrace with
  | true =>
    have hclose : t.is .closeBrace = false := by
      rw [Token.is, eq_of_beq hopen]
      rfl
    simp [depthBehind?, hopen, hclose]
  | false => cases hclose : t.is .closeBrace <;> simp [depthBehind?, hopen, hclose]

theorem not_of_is (h : t.is .closeBrace = true) : ¬OwnBraces (t :: ts) := by
  have hopen : t.is .openBrace = false := by
    rw [Token.is, eq_of_beq h]
    rfl
  simp [OwnBraces, depthBehind?, hopen, h]

end OwnBraces

namespace Ahead

theorem is_cons (t : Token) (ts : List Token) (s : Symbol) : is (t :: ts) s = t.is s := rfl

/-- A group in braces ends with the brace that closes it, or with the text. -/
theorem isSome_bracesFrom (hdepth : 0 < depth) (ts : Ahead) :
    (depthBehind? .openBrace .closeBrace depth (ts.take (bracesFrom depth ts))).isSome := by
  fun_induction bracesFrom depth ts with
  | case1 => rfl
  | case2 depth t ts hopen ih =>
    simp only [List.take_succ_cons, depthBehind?, hopen, if_true]
    exact ih (Nat.succ_pos depth)
  | case3 t ts hopen hclose =>
    simp [depthBehind?, hopen, hclose]
  | case4 depth t ts hopen hclose hone ih =>
    simp only [List.take_succ_cons, depthBehind?, hopen, hclose, if_true, if_false,
      if_neg (Nat.ne_of_gt hdepth), Bool.false_eq_true]
    exact ih (by omega)
  | case5 depth t ts hopen hclose ih =>
    simp only [List.take_succ_cons, depthBehind?, hopen, hclose, if_false, Bool.false_eq_true]
    exact ih hdepth

/-- What is skipped as one has its braces, unless it is a closing brace. -/
theorem ownBraces_unit (inStatement : Bool) {ts : Ahead} (h : ts.is .closeBrace = false) :
    OwnBraces (ts.take (unit inStatement ts)) := by
  cases ts with
  | nil =>
    rw [List.take_nil]
    exact .nil
  | cons t ts =>
    unfold unit
    split
    · exact OwnBraces.singleton_iff.2 h
    · next hgroup =>
      have hopen : t.is .openBrace = true := by
        cases hopen : t.is .openBrace
        · simp [is_cons, hopen] at hgroup
        · rfl
      have hrest := isSome_bracesFrom Nat.zero_lt_one ts
      simpa [OwnBraces, bracesFrom, depthBehind?, hopen] using hrest

/-- One skip after the other. -/
theorem ownBraces_add {n m : Nat} (hn : OwnBraces (ts.take n))
    (hm : OwnBraces ((ts.drop n).take m)) : OwnBraces (ts.take (n + m)) := by
  rw [List.take_add]
  exact hn.append hm

theorem ownBraces_toBoundary (inStatement : Bool) (ts : Ahead) :
    OwnBraces (ts.take (toBoundary inStatement ts)) := by
  fun_induction toBoundary inStatement ts with
  | case1 => exact .nil
  | case2 t rest hsemicolon =>
    apply OwnBraces.singleton_iff.2
    rw [Token.is, eq_of_beq hsemicolon]
    rfl
  | case3 => exact .nil
  | case4 t rest _ hstop n ih =>
    have hclose : is (t :: rest) .closeBrace = false := by
      rw [is_cons, Bool.eq_false_iff]
      intro hclose
      simp [hclose] at hstop
    dsimp only
    rw [drop_sub_one (unit_pos (List.cons_ne_nil t rest) inStatement) t] at ih ⊢
    exact ownBraces_add (ownBraces_unit inStatement hclose) ih

/-- A recovery that does not start at a closing brace takes closing braces only with their opening
braces. -/
theorem ownBraces_recovery (inStatement : Bool) {ts : Ahead} (h : ts.is .closeBrace = false) :
    OwnBraces (ts.take (recovery inStatement ts)) :=
  ownBraces_add (ownBraces_unit inStatement h) (ownBraces_toBoundary inStatement _)

theorem ownBraces_toAccessor (names : List String) (ts : Ahead) :
    OwnBraces (ts.take (toAccessor names ts)) := by
  fun_induction toAccessor names ts with
  | case1 => exact .nil
  | case2 => exact .nil
  | case3 t rest hstop n ih =>
    have hclose : is (t :: rest) .closeBrace = false := by
      rw [is_cons, Bool.eq_false_iff]
      intro hclose
      simp [hclose] at hstop
    dsimp only
    rw [drop_sub_one (unit_pos (List.cons_ne_nil t rest) false) t] at ih ⊢
    exact ownBraces_add (ownBraces_unit false hclose) ih

/-- The recovery at an accessor takes closing braces only with their opening braces just if it does
not start at a closing brace. -/
theorem ownBraces_accessorRecovery_iff (names : List String) {ts : Ahead} :
    OwnBraces (ts.take (accessorRecovery names ts)) ↔ ts.is .closeBrace = false := by
  constructor
  · intro h
    rw [Bool.eq_false_iff]
    intro hclose
    obtain ⟨t, rest, rfl, ht⟩ := exists_of_any hclose
    have hpos := accessorRecovery_pos (List.cons_ne_nil t rest) names
    obtain ⟨n, hn⟩ := Nat.exists_eq_add_of_le' hpos
    rw [hn, List.take_succ_cons] at h
    exact OwnBraces.not_of_is ht h
  · intro hclose
    exact ownBraces_add (ownBraces_unit false hclose) (ownBraces_toAccessor names _)

/-- Behind the closing brace that it starts at, the recovery at an accessor takes closing braces
only with their opening braces. -/
theorem ownBraces_tail_accessorRecovery (names : List String) {ts : Ahead}
    (h : ts.is .closeBrace = true) :
    OwnBraces ((ts.take (accessorRecovery names ts)).tail) := by
  obtain ⟨t, rest, rfl, ht⟩ := exists_of_any h
  have hopen : is (t :: rest) .openBrace = false := by
    rw [is_cons, Token.is, eq_of_beq ht]
    rfl
  have hunit : unit false (t :: rest) = 1 := by simp [unit, hopen]
  rw [accessorRecovery, hunit, Nat.add_comm, List.take_succ_cons]
  exact ownBraces_toAccessor names rest

/-- What is skipped of a malformed member of an enumeration has no closing braces. -/
theorem not_closeBrace_of_enumRecovery {ts : Ahead} :
    ∀ t ∈ ts.take (ts.takeWhile (!·.isOneOf [.comma, .closeBrace])).length,
      t.is .closeBrace = false := by
  intro t ht
  rw [← List.prefix_iff_eq_take.1 (List.takeWhile_prefix _)] at ht
  have hstop := List.mem_takeWhile_imp ht
  rw [Bool.eq_false_iff]
  intro hclose
  simp [Token.isOneOf, eq_of_beq hclose] at hstop

end Ahead

end CSharpCheck
