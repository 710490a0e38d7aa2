import CSharpCheck.Proofs.Relocation.Questions
import CSharpCheck.Proofs.Rules.Composition

/-!
# Rules on relocated tokens

What a rule does on relocated tokens, it does on the tokens themselves with its errors relocated.
Two transformations of rules make this an equation that can be proved rule by rule: one relocates
the tokens that a rule sees, the other the errors that it reports.
-/

namespace CSharpCheck

/-- What a rule sees, relocated. -/
def View.relocate (m : Relocation) (v : View) : View :=
  ⟨v.index, v.previous.map (·.relocate m), v.ahead.relocate m⟩

@[simp] theorem View.index_relocate (m : Relocation) (v : View) :
    (v.relocate m).index = v.index := rfl

@[simp] theorem View.previous_relocate (m : Relocation) (v : View) :
    (v.relocate m).previous = v.previous.map (·.relocate m) := rfl

@[simp] theorem View.ahead_relocate (m : Relocation) (v : View) :
    (v.relocate m).ahead = v.ahead.relocate m := rfl

/-- The end of a round with its state replaced. -/
def Round.map {σ τ : Type} (f : σ → τ) : Round σ → Round τ
  | .again state => .again (f state)
  | .stop state => .stop (f state)

namespace Rule

variable {α β σ τ : Type}

/-- Repeats a round as long as it asks for it and moves on, at most `limit` times. -/
def turns (round : σ → Rule (Round σ)) : (limit : Nat) → σ → Rule σ
  | 0, state => pure state
  | limit + 1, state => do
    let start ← here
    match ← round state with
    | .stop state => return state
    | .again state => do
      let stop ← here
      if start < stop then turns round limit state else return state

/-- Repeats a rule as long as it says so and moves on, at most `limit` times. -/
def repeatingWithin (limit : Nat) (round : Rule Bool) : Rule Unit :=
  turns (fun _ ↦ do return if ← round then .again () else .stop ()) limit ()

/-- Repeats a rule as long as the tokens ahead answer the question with yes, at most `limit`
times. -/
def whileAheadWithin (limit : Nat) (question : Ahead → Bool) (body : Rule Unit) : Rule Unit :=
  repeatingWithin limit do
    if ← ask question then
      body
      return true
    else return false

/-- Reads at most `limit` items with commas between them. -/
def commaSeparatedWithin (limit : Nat) (item : Rule Unit) : Rule Unit :=
  repeatingWithin limit do
    item
    accept .comma

variable (m : Relocation) (n : Nat)

/-- The rule that does on a text what the given one does on relocated tokens. -/
@[simp] def onRelocated {α : Type} : Rule α → Rule α
  | pure result => pure result
  | look next => look fun v ↦ (next (v.relocate m)).onRelocated
  | script next => script fun b ↦ (next b).onRelocated
  | enclosing next => enclosing fun kinds ↦ (next kinds).onRelocated
  | advance count next => advance count next.onRelocated
  | require feature index next => require feature index next.onRelocated
  | report place error next => report place error next.onRelocated
  | call q next => call q fun r ↦ (next r).onRelocated
  | loop init round next =>
    turns (fun state ↦ (round state).onRelocated) n init >>= fun state ↦ (next state).onRelocated
  | within kind body next => within kind body.onRelocated next.onRelocated

/-- The rule whose errors, and modifiers for other rules, are relocated. -/
@[simp] def relocate {α : Type} : Rule α → Rule α
  | pure result => pure result
  | look next => look fun v ↦ (next v).relocate
  | script next => script fun b ↦ (next b).relocate
  | enclosing next => enclosing fun kinds ↦ (next kinds).relocate
  | advance count next => advance count next.relocate
  | require feature index next => require feature index next.relocate
  | report place error next => report place (error.relocate m) next.relocate
  | call (.typeDeclaration modifiers) next =>
    call (.typeDeclaration (modifiers.map (·.relocate m))) fun r ↦ (next r).relocate
  | call q next => call q fun r ↦ (next r).relocate
  | loop init round next =>
    turns (fun state ↦ (round state).relocate) n init >>= fun state ↦ (next state).relocate
  | within kind body next => within kind body.relocate next.relocate

/-! ### Composition -/

@[simp] theorem onRelocated_bind (r : Rule α) (k : α → Rule β) :
    (r >>= k).onRelocated m n = r.onRelocated m n >>= fun a ↦ (k a).onRelocated m n := by
  change (r.bind k).onRelocated m n = (r.onRelocated m n).bind fun a ↦ (k a).onRelocated m n
  induction r with
  | loop init round next _ ih =>
    simp only [Rule.bind, onRelocated, ih]
    exact (bind_assoc _ _ _).symm
  | _ => simp only [Rule.bind, onRelocated, *]

@[simp] theorem relocate_bind (r : Rule α) (k : α → Rule β) :
    (r >>= k).relocate m n = r.relocate m n >>= fun a ↦ (k a).relocate m n := by
  change (r.bind k).relocate m n = (r.relocate m n).bind fun a ↦ (k a).relocate m n
  induction r with
  | call q next ih => cases q <;> simp only [Rule.bind, relocate, ih]
  | loop init round next _ ih =>
    simp only [Rule.bind, relocate, ih]
    exact (bind_assoc _ _ _).symm
  | _ => simp only [Rule.bind, relocate, *]

@[simp] theorem onRelocated_pure (a : α) :
    (Pure.pure a : Rule α).onRelocated m n = Pure.pure a := rfl

@[simp] theorem relocate_pure (a : α) : (Pure.pure a : Rule α).relocate m n = Pure.pure a := rfl

@[simp] theorem onRelocated_map (f : α → β) (r : Rule α) :
    (f <$> r).onRelocated m n = f <$> r.onRelocated m n :=
  onRelocated_bind m n r _

@[simp] theorem relocate_map (f : α → β) (r : Rule α) :
    (f <$> r).relocate m n = f <$> r.relocate m n :=
  relocate_bind m n r _

@[simp] theorem onRelocated_ite (c : Prop) [Decidable c] (r s : Rule α) :
    (if c then r else s).onRelocated m n = if c then r.onRelocated m n else s.onRelocated m n := by
  split <;> rfl

@[simp] theorem relocate_ite (c : Prop) [Decidable c] (r s : Rule α) :
    (if c then r else s).relocate m n = if c then r.relocate m n else s.relocate m n := by
  split <;> rfl

/-! ### Looking -/

@[simp] theorem onRelocated_here : here.onRelocated m n = here := rfl

@[simp] theorem relocate_here : here.relocate m n = here := rfl

@[simp] theorem onRelocated_ask (question : Ahead → α) :
    (ask question).onRelocated m n = ask fun ts ↦ question (ts.relocate m) := rfl

@[simp] theorem relocate_ask (question : Ahead → α) :
    (ask question).relocate m n = ask question := rfl

@[simp] theorem onRelocated_next (s : Symbol) :
    (next s).onRelocated m n = (next s).relocate m n := by
  simp [next]

@[simp] theorem onRelocated_nextOneOf (symbols : List Symbol) :
    (nextOneOf symbols).onRelocated m n = (nextOneOf symbols).relocate m n := by
  simp [nextOneOf]

@[simp] theorem onRelocated_nextWord (k : Keyword) :
    (nextWord k).onRelocated m n = (nextWord k).relocate m n := by
  simp [nextWord]

@[simp] theorem onRelocated_nextWordOf (words : List Keyword) :
    (nextWordOf words).onRelocated m n = (nextWordOf words).relocate m n := by
  simp [nextWordOf]

@[simp] theorem onRelocated_nextIdentifier :
    nextIdentifier.onRelocated m n = nextIdentifier.relocate m n := by
  simp [nextIdentifier]

@[simp] theorem onRelocated_nextText : nextText.onRelocated m n = m.text <$> nextText :=
  congrArg look (funext fun v ↦ congrArg pure (v.ahead.text_head?_relocate m))

@[simp] theorem relocate_nextText : nextText.relocate m n = nextText := rfl

@[simp] theorem onRelocated_nextContextual {word : String} (hword : OneLine word) :
    (nextContextual word).onRelocated m n = (nextContextual word).relocate m n := by
  simp [nextContextual, hword]

/-! ### Moving -/

@[simp] theorem onRelocated_skip (count : Nat) :
    (skip count).onRelocated m n = (skip count).relocate m n := rfl

@[simp] theorem onRelocated_skipToken : skipToken.onRelocated m n = skipToken.relocate m n := rfl

@[simp] theorem onRelocated_acceptIf (question : Ahead → Bool) :
    (acceptIf question).onRelocated m n = acceptIf fun ts ↦ question (ts.relocate m) := by
  simp only [acceptIf, onRelocated_bind, onRelocated_ask, onRelocated_ite, onRelocated_pure]
  rfl

@[simp] theorem relocate_acceptIf (question : Ahead → Bool) :
    (acceptIf question).relocate m n = acceptIf question := by
  simp only [acceptIf, relocate_bind, relocate_ask, relocate_ite, relocate_pure]
  rfl

@[simp] theorem onRelocated_accept (s : Symbol) : (accept s).onRelocated m n = accept s := by
  simp [accept]

@[simp] theorem relocate_accept (s : Symbol) :
    (accept s).relocate m n = accept s := by simp [accept]

@[simp] theorem onRelocated_acceptWord (k : Keyword) :
    (acceptWord k).onRelocated m n = (acceptWord k).relocate m n := by
  simp [acceptWord]

@[simp] theorem onRelocated_allow (s : Symbol) :
    (allow s).onRelocated m n = (allow s).relocate m n := by
  simp [allow]

@[simp] theorem onRelocated_allowWord (k : Keyword) :
    (allowWord k).onRelocated m n = (allowWord k).relocate m n := by
  simp [allowWord]

/-! ### Reporting -/

@[simp] theorem onRelocated_errorHere (e : GrammarError) :
    (errorHere e).onRelocated m n = errorHere e :=
  rfl

@[simp] theorem relocate_errorHere (e : GrammarError) :
    (errorHere e).relocate m n = errorHere (e.relocate m) := rfl

@[simp] theorem onRelocated_errorMissing (e : GrammarError) :
    (errorMissing e).onRelocated m n = errorMissing e := rfl

@[simp] theorem relocate_errorMissing (e : GrammarError) :
    (errorMissing e).relocate m n = errorMissing (e.relocate m) := rfl

@[simp] theorem onRelocated_expectIf (question : Ahead → Bool) (e : GrammarError) :
    (expectIf question e).onRelocated m n = expectIf (fun ts ↦ question (ts.relocate m)) e := by
  simp [expectIf]

@[simp] theorem relocate_expectIf (question : Ahead → Bool) (e : GrammarError) :
    (expectIf question e).relocate m n = expectIf question (e.relocate m) := by
  simp [expectIf]

@[simp] theorem onRelocated_expect (s : Symbol) :
    (expect s).onRelocated m n = (expect s).relocate m n := by
  simp [expect, GrammarError.relocate]

@[simp] theorem onRelocated_need (s : Symbol) :
    (need s).onRelocated m n = (need s).relocate m n := by
  simp [need]

@[simp] theorem onRelocated_needWord (k : Keyword) :
    (needWord k).onRelocated m n = (needWord k).relocate m n := by
  simp [needWord, GrammarError.relocate, oneLine_text, m.text_eq_self]

@[simp] theorem onRelocated_needContextual {word : String} (hword : OneLine word) :
    (needContextual word).onRelocated m n = (needContextual word).relocate m n := by
  simp [needContextual, GrammarError.relocate, hword, m.text_eq_self]

@[simp] theorem onRelocated_expectIdentifier :
    expectIdentifier.onRelocated m n = expectIdentifier.relocate m n := by
  simp [expectIdentifier, GrammarError.relocate]

@[simp] theorem onRelocated_needIdentifier :
    needIdentifier.onRelocated m n = needIdentifier.relocate m n := by
  simp [needIdentifier]

@[simp] theorem onRelocated_requireAt (f : Feature) (index : Nat) :
    (requireAt f index).onRelocated m n = (requireAt f index).relocate m n := rfl

@[simp] theorem onRelocated_requireHere (f : Feature) :
    (requireHere f).onRelocated m n = (requireHere f).relocate m n := rfl

@[simp] theorem onRelocated_takeFeature (f : Feature) :
    (takeFeature f).onRelocated m n = (takeFeature f).relocate m n := by
  simp [takeFeature]

@[simp] theorem onRelocated_requireUses (start : Nat) (uses : List ScanUse) :
    (requireUses start uses).onRelocated m n = (requireUses start uses).relocate m n := by
  induction uses with
  | nil => rfl
  | cons use uses ih => simp [requireUses, ih]

/-! ### Repeating -/

/-- The state of a loop changes with the states of its rounds. -/
theorem turns_map (f : σ → τ) {round : σ → Rule (Round σ)} {round' : τ → Rule (Round τ)}
    (h : ∀ state, round' (f state) = Round.map f <$> round state) (limit : Nat) (state : σ) :
    turns round' limit (f state) = f <$> turns round limit state := by
  induction limit generalizing state with
  | zero => rfl
  | succ limit ih =>
    simp only [turns, h, map_bind, bind_map_left]
    refine congrArg _ (funext fun start ↦ congrArg _ (funext fun answer ↦ ?_))
    cases answer with
    | stop state => rfl
    | again state =>
      simp only [Round.map, ih, map_bind]
      refine congrArg _ (funext fun stop ↦ ?_)
      split <;> rfl

/-- Loops are read in the same rounds. -/
theorem onRelocated_loop {round : σ → Rule (Round σ)} {next : σ → Rule α}
    (hround : ∀ state, (round state).onRelocated m n = (round state).relocate m n)
    (hnext : ∀ state, (next state).onRelocated m n = (next state).relocate m n) (init : σ) :
    (loop init round next).onRelocated m n = (loop init round next).relocate m n := by
  simp only [onRelocated, relocate, hround, hnext]

/-- A loop that collects tokens collects them relocated when each round does. -/
theorem onRelocated_collecting {round : List Placed → Rule (Round (List Placed))}
    (h : ∀ before : List Placed, (round (before.map (·.relocate m))).onRelocated m n =
      Round.map (List.map (·.relocate m)) <$> (round before).relocate m n) :
    (loop [] round pure).onRelocated m n =
      List.map (·.relocate m) <$> (loop [] round pure).relocate m n := by
  have hturns := @turns_map _ _ (List.map (·.relocate m)) (fun before ↦ (round before).relocate m n)
    (fun before ↦ (round before).onRelocated m n) h n []
  simp only [onRelocated, relocate, pure_eq, bind_pure]
  exact hturns

@[simp] theorem onRelocated_repeating (round : Rule Bool) :
    (repeating round).onRelocated m n = repeatingWithin n (round.onRelocated m n) := by
  simp [repeating, repeatingWithin]

@[simp] theorem relocate_repeating (round : Rule Bool) :
    (repeating round).relocate m n = repeatingWithin n (round.relocate m n) := by
  simp [repeating, repeatingWithin]

@[simp] theorem onRelocated_whileAhead (question : Ahead → Bool) (body : Rule Unit) :
    (whileAhead question body).onRelocated m n =
      whileAheadWithin n (fun ts ↦ question (ts.relocate m)) (body.onRelocated m n) := by
  simp [whileAhead, whileAheadWithin]

@[simp] theorem relocate_whileAhead (question : Ahead → Bool) (body : Rule Unit) :
    (whileAhead question body).relocate m n = whileAheadWithin n question (body.relocate m n) := by
  simp [whileAhead, whileAheadWithin]

@[simp] theorem onRelocated_commaSeparated (item : Rule Unit) :
    (commaSeparated item).onRelocated m n = commaSeparatedWithin n (item.onRelocated m n) := by
  simp [commaSeparated, commaSeparatedWithin]

@[simp] theorem relocate_commaSeparated (item : Rule Unit) :
    (commaSeparated item).relocate m n = commaSeparatedWithin n (item.relocate m n) := by
  simp [commaSeparated, commaSeparatedWithin]

@[simp] theorem isBefore_relocate (s : Symbol) (ts : Ahead) :
    isBefore s (ts.relocate m) = isBefore s ts := by
  simp [isBefore]

@[simp] theorem onRelocated_commaSeparatedWith (init : σ) (item : σ → Rule σ) :
    (commaSeparatedWith init item).onRelocated m n = turns (fun state ↦ do
      let state ← (item state).onRelocated m n
      return if ← accept .comma then .again state else .stop state) n init := by
  simp [commaSeparatedWith]

@[simp] theorem relocate_commaSeparatedWith (init : σ) (item : σ → Rule σ) :
    (commaSeparatedWith init item).relocate m n = turns (fun state ↦ do
      let state ← (item state).relocate m n
      return if ← accept .comma then .again state else .stop state) n init := by
  simp [commaSeparatedWith]

@[simp] theorem onRelocated_commaSeparatedUpTo (s : Symbol) (item : Rule Unit) :
    (commaSeparatedUpTo s item).onRelocated m n = repeatingWithin n do
      if ← ask (isBefore s) then
        item.onRelocated m n
        accept .comma
      else return false := by
  simp [commaSeparatedUpTo]

@[simp] theorem relocate_commaSeparatedUpTo (s : Symbol) (item : Rule Unit) :
    (commaSeparatedUpTo s item).relocate m n = repeatingWithin n do
      if ← ask (isBefore s) then
        item.relocate m n
        accept .comma
      else return false := by
  simp [commaSeparatedUpTo]

/-! ### Nonterminals -/

@[simp] theorem onRelocated_expression : expression.onRelocated m n = expression.relocate m n := rfl

@[simp] theorem onRelocated_statement : statement.onRelocated m n = statement.relocate m n := rfl

@[simp] theorem onRelocated_pattern : pattern.onRelocated m n = pattern.relocate m n := rfl

@[simp] theorem onRelocated_unary : unary.onRelocated m n = unary.relocate m n := rfl

@[simp] theorem onRelocated_initializer :
    initializer.onRelocated m n = initializer.relocate m n := rfl

@[simp] theorem onRelocated_member : member.onRelocated m n = member.relocate m n := rfl

end Rule

end CSharpCheck
