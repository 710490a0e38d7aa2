import CSharpCheck.Directive.Line
import CSharpCheck.Proofs.Directives.ConditionGrammar

/-!
# Conditions are evaluated as their grammar says

A condition has the value that its grammar gives it, whatever tokens it is made of and however
deeply its parentheses are nested. Where something follows it on its line, the first token that
follows is reported. Where no condition can be read, the first token with which none goes on is
reported, or the end of the line.
-/

namespace CSharpCheck

namespace Condition

variable {symbols : List String} {ts us rest : List Token} {t : Token} {v w : Bool}

theorem Viable.of_append {defined : String → Bool} {level : Level}
    (h : Viable defined level (ts ++ us)) : Viable defined level ts := by
  obtain ⟨vs, v, hv⟩ := h
  exact ⟨us ++ vs, v, by rwa [← List.append_assoc]⟩

theorem Denotes.viable {defined : String → Bool} {level : Level} (h : Denotes defined level ts v) :
    Viable defined level ts := ⟨[], v, by rwa [List.append_nil]⟩

/-- A condition is read up to what does not go on with it. -/
theorem read_of_denotes (h : Denotes symbols.contains .disjunction ts v)
    (hrest : Level.disjunction.Closes rest) : read symbols (ts ++ rest) = .value v rest :=
  h.reads.reader_eq (by simp) hrest

theorem read_of_halts (h : Halts symbols .disjunction ts rest.head?) :
    read symbols (ts ++ rest) = .invalid rest.head? :=
  h.reader_eq (by simp) fun _ ↦ id

/-- Tokens have one value at most. -/
theorem Denotes.unique (hv : Denotes symbols.contains .disjunction ts v)
    (hw : Denotes symbols.contains .disjunction ts w) : v = w := by
  have heq := (read_of_denotes hv (closes_nil _)).symm.trans (read_of_denotes hw (closes_nil _))
  exact (Verdict.value.inj heq).1

/-- Tokens behind which reading halts make no condition. -/
theorem Halts.not_denotes {next : Option Token} (h : Halts symbols .disjunction ts next) :
    ¬Denotes symbols.contains .disjunction ts v := by
  intro hv
  have hread := hv.reads.reader_eq (Nat.le_refl _) (closes_nil _)
  rw [h.reader_eq (Nat.le_refl _) (by simp)] at hread
  contradiction

/-- No condition goes on with the token in front of which reading ends. -/
theorem not_viable_of_closes (h : Denotes symbols.contains .disjunction us v)
    (hcloses : Level.disjunction.Closes (t :: rest)) :
    ¬Viable symbols.contains .disjunction (us ++ [t]) := by
  rintro ⟨ws, w, hw⟩
  rw [List.append_assoc, List.singleton_append] at hw
  have hends := read_of_denotes h (show Level.disjunction.Closes (t :: ws) from hcloses)
  have hall := read_of_denotes hw (closes_nil _)
  rw [List.append_nil, hends] at hall
  simp at hall

/-- No condition goes on with the token in front of which reading halts. -/
theorem not_viable_of_halts (h : Halts symbols .disjunction us (some t)) :
    ¬Viable symbols.contains .disjunction (us ++ [t]) := by
  rintro ⟨ws, w, hw⟩
  rw [List.append_assoc, List.singleton_append] at hw
  have hhalts : read symbols (us ++ t :: ws) = .invalid (some t) := read_of_halts h
  have hall := read_of_denotes hw (closes_nil _)
  rw [List.append_nil, hhalts] at hall
  contradiction

/-- Whatever the tokens, they are read up to the end of the longest run with which some condition
begins. -/
theorem exists_longest (symbols : List String) (ts : List Token) : ∃ us rest, ts = us ++ rest ∧
    Viable symbols.contains .disjunction us ∧
    (∀ t ∈ rest.head?, ¬Viable symbols.contains .disjunction (us ++ [t])) ∧
    ((∃ v, Denotes symbols.contains .disjunction us v ∧ read symbols ts = .value v rest) ∨
      ((∀ v, ¬Denotes symbols.contains .disjunction us v) ∧
        read symbols ts = .invalid rest.head?)) := by
  obtain ⟨us, rest, rfl, ⟨v, hv, hcloses⟩ | hhalts⟩ := settles symbols .disjunction ts
  · refine ⟨us, rest, rfl, hv.viable, fun t ht ↦ ?_, .inl ⟨v, hv, read_of_denotes hv hcloses⟩⟩
    obtain ⟨rest, rfl⟩ := List.head?_eq_some_iff.1 ht
    exact not_viable_of_closes hv hcloses
  · refine ⟨us, rest, rfl, hhalts.viable, fun t ht ↦ ?_,
      .inr ⟨fun v ↦ hhalts.not_denotes, read_of_halts hhalts⟩⟩
    exact not_viable_of_halts (ht ▸ hhalts)

/-- There is only one longest run with which some condition begins. -/
theorem longest_unique {defined : String → Bool} {level : Level} {us vs rest rest' : List Token}
    (heq : us ++ rest = vs ++ rest') (hus : Viable defined level us)
    (hrest : ∀ t ∈ rest.head?, ¬Viable defined level (us ++ [t])) (hvs : Viable defined level vs)
    (hrest' : ∀ t ∈ rest'.head?, ¬Viable defined level (vs ++ [t])) : us = vs ∧ rest = rest' := by
  rcases List.append_eq_append_iff.1 heq with ⟨ws, rfl, rfl⟩ | ⟨ws, rfl, rfl⟩
  · cases ws with
    | nil => simp
    | cons t ws =>
      have hmore : Viable defined level ((us ++ [t]) ++ ws) := by simpa using hvs
      exact absurd hmore.of_append (hrest t rfl)
  · cases ws with
    | nil => simp
    | cons t ws =>
      have hmore : Viable defined level ((vs ++ [t]) ++ ws) := by simpa using hus
      exact absurd hmore.of_append (hrest' t rfl)

end Condition

open Condition

end CSharpCheck
