import CSharpCheck.Proofs.Reading.CompilationUnits

/-!
# Places in a stream

Wherever the reading of a text has come to, the tokens ahead are those that the stream has from
there on.
-/

namespace CSharpCheck

/-- What is ahead is what the stream has from the place on. -/
structure Progress.PlacedIn (p : Progress) (stream : TokenStream) : Prop where
  ahead : p.ahead = stream.tokens.toList.drop p.index
  index : p.index ≤ stream.tokens.size

namespace Progress

variable {stream : TokenStream} {p q : Progress}

theorem placedIn_start (stream : TokenStream) : (start stream).PlacedIn stream :=
  ⟨rfl, Nat.zero_le _⟩

theorem PlacedIn.advance (h : p.PlacedIn stream) (count : Nat) :
    (p.advance count).PlacedIn stream := by
  have hlength : p.ahead.length = stream.tokens.size - p.index := by
    rw [h.ahead, List.length_drop, Array.length_toList]
  have hindex := h.index
  constructor
  · rw [ahead_advance, index_advance, h.ahead, List.drop_drop, List.length_drop,
      Array.length_toList]
    rcases Nat.le_total count (stream.tokens.size - p.index) with hle | hle
    · rw [Nat.min_eq_left hle]
    · rw [Nat.min_eq_right hle, List.drop_eq_nil_of_le, List.drop_eq_nil_of_le]
      · rw [Array.length_toList]
        omega
      · rw [Array.length_toList]
        omega
  · rw [index_advance, hlength]
    omega

theorem invariant_placedIn (stream : TokenStream) :
    Invariant stream (·.PlacedIn stream) where
  advance _ hp count := hp.advance count
  use _ hp _ _ := ⟨hp.ahead, hp.index⟩
  report _ hp _ _ := by
    unfold report
    split
    · exact hp
    · exact ⟨hp.ahead, hp.index⟩
  abandon _ _ := by
    constructor
    · show [] = List.drop stream.tokens.size _
      rw [List.drop_eq_nil_of_le]
      rw [Array.length_toList]
    · exact Nat.le_refl _

theorem index_report (p : Progress) (stream : TokenStream) (place : ErrorPlace)
    (e : GrammarError) : (p.report stream place e).index = p.index := by
  unfold report
  split
  · rfl
  · rfl

theorem ahead_report (p : Progress) (stream : TokenStream) (place : ErrorPlace)
    (e : GrammarError) : (p.report stream place e).ahead = p.ahead := by
  unfold report
  split
  · rfl
  · rfl

/-- At one place the same tokens are ahead. -/
theorem PlacedIn.ahead_eq (hp : p.PlacedIn stream) (hq : q.PlacedIn stream)
    (h : q.index = p.index) : q.ahead = p.ahead := by
  rw [hq.ahead, hp.ahead, h]

end Progress

namespace Rule

variable {α : Type} {stream : TokenStream} {room : Nat} {around : Surroundings} {p : Progress}

theorem placedIn_runWith (r : Rule α) (hp : p.PlacedIn around.stream) :
    (r.runWith (grammarRules.enter room) around p).2.PlacedIn around.stream :=
  runWith_invariant (Progress.invariant_placedIn around.stream)
    (Rules.enter_invariant (Progress.invariant_placedIn around.stream) grammarRules room) r rfl hp

/-- What a rule ensures, with neither brackets nor features taken into account, holds where the
machine ends. -/
theorem exists_of_ensures (room : Nat) {r : Rule α} {Q : α → Spot → Prop} (hp : p.PlacedIn around.stream)
    (h : r.Ensures Q ⟨p.index, p.ahead, none, none⟩) :
    ∃ t : Spot, (r.runWith (grammarRules.enter room) around p).2.index = t.index ∧
      (r.runWith (grammarRules.enter room) around p).2.ahead = t.ahead ∧
      Q (r.runWith (grammarRules.enter room) around p).1 t := by
  have hdescribes : Spot.Describes ⟨p.index, p.ahead, none, none⟩ around.stream True p :=
    ⟨rfl, rfl, hp.index, hp.ahead, fun _ h ↦ by contradiction, fun _ h ↦ by contradiction,
      fun _ ↦ .inl True.intro⟩
  have hmeets : Meets grammarRules around.stream True room Q around p r
      (r.runWith (grammarRules.enter room) around p) :=
    h.meets grammarRules_keep rfl hdescribes
  obtain ⟨⟨t, ht, hQ⟩, -⟩ := hmeets
  exact ⟨t, ht.index, ht.ahead, hQ⟩

end Rule

end CSharpCheck
