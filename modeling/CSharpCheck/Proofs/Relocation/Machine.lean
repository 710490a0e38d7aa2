import CSharpCheck.Proofs.Relocation.Declarations

/-!
# Reading relocated tokens

The machine finds in a stream of relocated tokens what it finds in the stream itself, relocated. The
two transformations of rules correspond to two changes of the progress: of the places in it, and of
the texts in its findings.
-/

namespace CSharpCheck

/-- The relocated stream of tokens. -/
def TokenStream.relocate (m : Relocation) (s : TokenStream) : TokenStream :=
  ⟨s.tokens.map (·.relocate m), s.eof.relocate m⟩

namespace TokenStream

variable (m : Relocation) (s : TokenStream)

@[simp] theorem token_relocate (index : Nat) :
    (s.relocate m).token index = (s.token index).relocate m := by
  simp only [token, relocate, Array.getElem?_map]
  cases s.tokens[index]? <;> rfl

@[simp] theorem size_relocate : (s.relocate m).size = s.size := by simp [size, relocate]

@[simp] theorem size_tokens_relocate :
    (s.relocate m).tokens.size = s.tokens.size := by simp [relocate]

end TokenStream

/-- The surroundings with the relocated stream. -/
def Surroundings.relocate (m : Relocation) (around : Surroundings) : Surroundings :=
  { around with stream := around.stream.relocate m }

@[simp] theorem Surroundings.stream_relocate (m : Relocation) (around : Surroundings) :
    (around.relocate m).stream = around.stream.relocate m := rfl

/-- The finding with its place moved. -/
def Finding.move (m : Relocation) (f : Finding) : Finding := ⟨f.cause, f.span.relocate m⟩

/-- The finding with its text rewritten. -/
def Finding.restate (m : Relocation) (f : Finding) : Finding := ⟨f.cause.relocate m, f.span⟩

namespace Progress

/-- The progress with the tokens that are left relocated and the places of the findings moved. -/
def move (m : Relocation) (p : Progress) : Progress :=
  { p with ahead := Ahead.relocate m p.ahead, found := p.found.map (·.move m) }

/-- The progress with the texts of the findings rewritten. -/
def restate (m : Relocation) (p : Progress) : Progress :=
  { p with found := p.found.map (·.restate m) }

variable (m : Relocation) (p : Progress) (s : TokenStream)

@[simp] theorem index_move : (p.move m).index = p.index := (rfl)

@[simp] theorem ahead_move : (p.move m).ahead = Ahead.relocate m p.ahead := rfl

@[simp] theorem charged_move : (p.move m).charged = p.charged := (rfl)

@[simp] theorem abandonedAt_move : (p.move m).abandonedAt = p.abandonedAt := (rfl)

@[simp] theorem previous_move :
    (p.move m).previous (s.relocate m) = (p.previous s).map (·.relocate m) := by
  simp only [previous, index_move, TokenStream.token_relocate]
  split <;> rfl

@[simp] theorem advance_move (count : Nat) :
    (p.move m).advance count = (p.advance count).move m := by
  rcases p with ⟨index, _ | ⟨t, ts⟩, _, _, _⟩ <;> cases count <;> simp [advance, move]

theorem note_move (f : Finding) : (p.move m).note (f.move m) = (p.note f).move m := rfl

theorem errorSpan_move (place : ErrorPlace) :
    (p.move m).errorSpan (s.relocate m) place = (p.errorSpan s place).relocate m := by
  cases place with
  | here => simp [errorSpan]
  | missing => cases h : p.previous s <;> simp [errorSpan, h] <;> rfl

@[simp] theorem report_move (place : ErrorPlace) (e : GrammarError) :
    (p.move m).report (s.relocate m) place e = (p.report s place e).move m := by
  have hspan := p.errorSpan_move m s place
  simp only [report, hspan, charged_move, abandonedAt_move]
  split <;> rfl

@[simp] theorem abandon_move : (p.move m).abandon (s.relocate m) = (p.abandon s).move m := by
  simp [abandon, move, Finding.move]

@[simp] theorem index_restate : (p.restate m).index = p.index := (rfl)

@[simp] theorem ahead_restate : (p.restate m).ahead = p.ahead := rfl

@[simp] theorem charged_restate : (p.restate m).charged = p.charged := (rfl)

@[simp] theorem abandonedAt_restate : (p.restate m).abandonedAt = p.abandonedAt := (rfl)

@[simp] theorem previous_restate : (p.restate m).previous s = p.previous s := rfl

@[simp] theorem advance_restate (count : Nat) :
    (p.restate m).advance count = (p.advance count).restate m := by
  rcases p with ⟨index, _ | ⟨t, ts⟩, _, _, _⟩ <;> cases count <;> rfl

@[simp] theorem report_restate (place : ErrorPlace) (e : GrammarError) :
    (p.restate m).report s place (e.relocate m) = (p.report s place e).restate m := by
  simp only [report, charged_restate, abandonedAt_restate]
  split <;> rfl

@[simp] theorem abandon_restate : (p.restate m).abandon s = (p.abandon s).restate m := rfl

end Progress

namespace Rule

variable {α β σ : Type}
  {enter enter' : Surroundings → (q : Nonterminal) → Progress → q.Result × Progress}

theorem runWith_here_bind (k : Nat → Rule α) (around : Surroundings) (p : Progress) :
    (here >>= k).runWith enter around p = (k p.index).runWith enter around p := rfl

/-- Loops that are written out are run in rounds. -/
theorem runWith_turns (round : σ → Rule (Round σ)) (around : Surroundings) (limit : Nat)
    (state : σ) (p : Progress) :
    (turns round limit state).runWith enter around p =
      rounds (fun state p ↦ (round state).runWith enter around p) limit state p := by
  induction limit generalizing state p with
  | zero => rfl
  | succ limit ih =>
    rw [turns, rounds, runWith_here_bind, runWith_bind]
    cases h : (round state).runWith enter around p with
    | mk answer q =>
      cases answer with
      | stop state => rfl
      | again state =>
        rw [runWith_here_bind]
        by_cases hlt : p.index < q.index
        · simp only [if_pos hlt, ih]
        · simp only [if_neg hlt]
          rfl

/-- A loop runs its rounds in the same way when each round does. -/
theorem rounds_congr (f : Progress → Progress) (hindex : ∀ p, (f p).index = p.index)
    (round round' : σ → Progress → Round σ × Progress)
    (h : ∀ state p, round' state (f p) = (round state p).map id f) (limit : Nat) (state : σ)
    (p : Progress) :
    rounds round' limit state (f p) = (rounds round limit state p).map id f := by
  induction limit generalizing state p with
  | zero => rfl
  | succ limit ih =>
    rw [rounds, rounds, h]
    cases round state p with
    | mk answer q =>
      cases answer with
      | stop state => rfl
      | again state =>
        simp only [Prod.map, id, hindex]
        split
        · exact ih state q
        · rfl

/-- On a relocated stream a rule does what it does with all that it sees relocated, when the
nonterminals do. -/
theorem runWith_onRelocated (m : Relocation) {n : Nat}
    (henter : ∀ around q p, around.stream.size = n →
      enter' (around.relocate m) q (p.move m) = (enter around q p).map id (·.move m))
    (r : Rule α) (around : Surroundings) (hn : around.stream.size = n) (p : Progress) :
    r.runWith enter' (around.relocate m) (p.move m) =
      ((r.onRelocated m n).runWith enter around p).map id (·.move m) := by
  induction r generalizing around p with
  | pure => rfl
  | look next ih =>
    simp only [runWith, onRelocated]
    rw [← ih _ around hn p]
    simp [View.relocate]
  | script next ih => exact ih _ around hn p
  | enclosing next ih => exact ih _ around hn p
  | advance count next ih =>
    simp only [runWith, onRelocated, Progress.advance_move]
    exact ih around hn _
  | require feature index next ih =>
    have hnote := (p.note_move m ⟨.use feature, (around.stream.token index).span⟩)
    simp only [runWith, onRelocated, Surroundings.stream_relocate, TokenStream.token_relocate,
      Token.span_relocate]
    rw [← ih around hn, ← hnote]
    rfl
  | report place error next ih =>
    simp only [runWith, onRelocated, Surroundings.stream_relocate, Progress.report_move]
    exact ih around hn _
  | call q next ih =>
    simp only [runWith, onRelocated, henter around q p hn]
    exact ih _ around hn _
  | loop init round next hround ih =>
    have hrounds := rounds_congr (Progress.move m) (fun _ ↦ rfl)
      (fun state p ↦ ((round state).onRelocated m n).runWith enter around p)
      (fun state p ↦ (round state).runWith enter' (around.relocate m) p)
      (fun state p ↦ hround state around hn p) n init p
    simp only [runWith, onRelocated, runWith_bind, runWith_turns, Surroundings.stream_relocate,
      TokenStream.size_relocate, hn, hrounds]
    exact ih _ around hn _
  | within kind body next hbody ih =>
    simp only [runWith, onRelocated]
    have hinner := hbody { around with enclosing := kind :: around.enclosing } hn p
    rw [Surroundings.relocate] at hinner ⊢
    rw [hinner]
    exact ih around hn _

/-- With its errors relocated a rule finds what it finds, relocated, when the
nonterminals do. -/
theorem runWith_relocate (m : Relocation) {n : Nat}
    (hplain : ∀ around q p, (∀ modifiers, q ≠ .typeDeclaration modifiers) →
      around.stream.size = n → enter' around q (p.restate m) =
        (enter around q p).map id (·.restate m))
    (htype : ∀ around modifiers p, around.stream.size = n →
      enter' around (.typeDeclaration (modifiers.map (·.relocate m))) (p.restate m) =
        (enter around (.typeDeclaration modifiers) p).map id (·.restate m))
    (r : Rule α) (around : Surroundings) (hn : around.stream.size = n) (p : Progress) :
    (r.relocate m n).runWith enter' around (p.restate m) =
      (r.runWith enter around p).map id (·.restate m) := by
  induction r generalizing around p with
  | pure => rfl
  | look next ih => exact ih _ around hn p
  | script next ih => exact ih _ around hn p
  | enclosing next ih => exact ih _ around hn p
  | advance count next ih =>
    simp only [runWith, relocate, Progress.advance_restate]
    exact ih around hn _
  | require feature index next ih =>
    exact ih around hn (p.note ⟨.use feature, (around.stream.token index).span⟩)
  | report place error next ih =>
    simp only [runWith, relocate, Progress.report_restate]
    exact ih around hn _
  | call q next ih =>
    cases q with
    | typeDeclaration modifiers =>
      simp only [runWith, relocate, htype around modifiers p hn]
      exact ih _ around hn _
    | _ =>
      simp only [runWith, relocate]
      rw [hplain around _ p (by simp) hn]
      exact ih _ around hn _
  | loop init round next hround ih =>
    have hrounds := rounds_congr (Progress.restate m) (fun _ ↦ rfl)
      (fun state p ↦ (round state).runWith enter around p)
      (fun state p ↦ ((round state).relocate m n).runWith enter' around p)
      (fun state p ↦ hround state around hn p) n init p
    simp only [runWith, relocate, runWith_bind, runWith_turns, hn, hrounds]
    exact ih _ around hn _
  | within kind body next hbody ih =>
    simp only [runWith, relocate]
    rw [hbody { around with enclosing := kind :: around.enclosing } hn p]
    exact ih around hn _

end Rule

namespace Rules

/-- On a relocated stream nonterminals are run as by the rules that see it. -/
theorem enter_onRelocated (rules : Rules) (m : Relocation) {n : Nat} (room : Nat)
    (around : Surroundings) (hn : around.stream.size = n) (q : Nonterminal) (p : Progress) :
    rules.enter room (around.relocate m) q (p.move m) =
      (enter (fun q ↦ (rules q).onRelocated m n) room around q p).map id (·.move m) := by
  induction room generalizing around q p with
  | zero => 
    simp only [enter, Progress.abandonedAt_move]
    split <;> simp
  | succ room ih =>
    simp only [enter, Progress.abandonedAt_move]
    split
    · rfl
    · exact Rule.runWith_onRelocated m (fun around q p hn ↦ ih around hn q p) (rules q) around hn p

end Rules

/-- Apart from type declarations, whose modifiers are tokens, every nonterminal has the same rule
on a relocated stream. -/
theorem onRelocated_grammarRules (m : Relocation) (n : Nat) {q : Nonterminal}
    (hq : ∀ modifiers, q ≠ .typeDeclaration modifiers) :
    (grammarRules q).onRelocated m n = (grammarRules q).relocate m n := by
  cases q with
  | typeDeclaration modifiers => exact absurd rfl (hq modifiers)
  | _ => simp [grammarRules]

/-- With all rules relocated, nonterminals find what they find, relocated. -/
theorem enter_restate (m : Relocation) {n : Nat} (room : Nat) (around : Surroundings)
    (hn : around.stream.size = n) (p : Progress) :
    (∀ q, (∀ modifiers, q ≠ .typeDeclaration modifiers) →
      Rules.enter (fun q ↦ (grammarRules q).onRelocated m n) room around q (p.restate m) =
        (grammarRules.enter room around q p).map id (·.restate m)) ∧
    ∀ modifiers : List Placed,
      Rules.enter (fun q ↦ (grammarRules q).onRelocated m n) room around
          (.typeDeclaration (modifiers.map (·.relocate m))) (p.restate m) =
        (grammarRules.enter room around (.typeDeclaration modifiers) p).map id (·.restate m) := by
  induction room generalizing around p with
  | zero =>
    simp only [Rules.enter, Progress.abandonedAt_restate, Progress.abandon_restate]
    constructor
    · intros
      split <;> rfl
    · intros
      split <;> rfl
  | succ room ih =>
    have hrun {α : Type} (r : Rule α) := Rule.runWith_relocate m
      (fun around q p hq hn ↦ (ih around hn p).1 q hq)
      (fun around modifiers p hn ↦ (ih around hn p).2 modifiers) r around hn p
    simp only [Rules.enter, Progress.abandonedAt_restate]
    constructor
    · intro q hq
      split
      · rfl
      · rw [onRelocated_grammarRules m n hq]
        exact hrun _
    · intro modifiers
      split
      · rfl
      · have hrule := Rule.onRelocated_typeDeclarationRule m n modifiers
        change ((Rule.typeDeclarationRule (modifiers.map (·.relocate m))).onRelocated m n).runWith _
          around (p.restate m) = _
        rw [hrule]
        exact hrun _

/-- The grammar finds in a relocated stream what it finds in the stream, relocated. -/
theorem found_readUnit_relocate (m : Relocation) (s : TokenStream) (isScript : Bool) :
    (readUnit (s.relocate m) isScript).found = (readUnit s isScript).found.map (·.relocate m) := by
  have hstart : Progress.start (s.relocate m) = (Progress.start s).move m := by
    simp [Progress.start, Progress.move, TokenStream.relocate, Ahead.relocate]
  have hseen := Rule.runWith_onRelocated m
    (fun around q p hn ↦ grammarRules.enter_onRelocated m maxNesting around hn q p)
    (Rule.unitElements false) ⟨s, isScript, []⟩ rfl (Progress.start s)
  have hfound := Rule.runWith_relocate m
    (fun around q p hq hn ↦ (enter_restate m maxNesting around hn p).1 q hq)
    (fun around modifiers p hn ↦ (enter_restate m maxNesting around hn p).2 modifiers)
    (Rule.unitElements false) ⟨s, isScript, []⟩ rfl (Progress.start s)
  have hfoundStart : (Progress.start s).restate m = Progress.start s := rfl
  rw [Rule.onRelocated_unitElements, ← hfoundStart, hfound] at hseen
  rw [readUnit, readUnit, Rules.run, Rules.run, hstart]
  exact (congrArg (·.2.found) hseen).trans List.map_map

end CSharpCheck
